import FatArrow.Proofs.Registry.Names
import FatArrow.Proofs.Registry.Sound
import Mathlib.Logic.Relation

/-!
# Types on top of their bases

Where no name has a dot of its own and no two registered names have the same fingerprint, every type
is registered once, and after its bases.  So no type is reached from itself through bases, and the
edges of the registry are the bases that its entries declare.
-/

namespace FatArrow

/-! ## 1. Names without dots -/

/-- The pieces of a name have no dots. -/
def QualifiedName.Undotted (q : QualifiedName) : Prop :=
  ∀ piece ∈ q.path ++ [q.name], '.' ∉ piece.toList

/-- Neither the namespaces of a module nor the names of its types have dots. -/
structure HostModule.Undotted (m : HostModule) : Prop where
  path : ∀ piece ∈ m.path, '.' ∉ piece.toList
  types : ∀ e ∈ m.entries, '.' ∉ e.name.name.toList

theorem QualifiedName.text_eq (q : QualifiedName) : q.text = dotted (q.path ++ [q.name]) := by
  obtain ⟨path, name⟩ := q
  cases path with
  | nil => rfl
  | cons piece path =>
    have hne : piece :: path ≠ [] := List.cons_ne_nil _ _
    rw [dotted, String.intercalate_append_of_ne_nil hne (List.cons_ne_nil _ _),
      String.intercalate_singleton]
    rfl

theorem dottedPieces_dotted {pieces : List String} (hne : pieces ≠ [])
    (h : ∀ piece ∈ pieces, '.' ∉ piece.toList) : dottedPieces (dotted pieces) = pieces := by
  induction pieces with
  | nil => exact absurd rfl hne
  | cons piece pieces ih =>
    obtain ⟨hfirst, hrest⟩ := List.forall_mem_cons.mp h
    cases pieces with
    | nil => exact dottedPieces_eq_singleton hfirst
    | cons next pieces =>
      rw [dotted_cons_cons, dottedPieces_append, dottedPieces_eq_singleton hfirst,
        ih (List.cons_ne_nil _ _) hrest, List.singleton_append]

theorem no_dot_of_mem_dottedPieces {text piece : String} (h : piece ∈ dottedPieces text) :
    '.' ∉ piece.toList := by
  have hpieces (cs : List Char) : ∀ front ∈ cs.splitOnP (· == '.'), '.' ∉ front := by
    induction cs with
    | nil => simp [List.splitOnP_nil]
    | cons c cs ih =>
      rw [List.splitOnP_cons_eq_if_modifyHead]
      split
      · exact List.forall_mem_cons.mpr ⟨nofun, ih⟩
      next hc =>
        -- a character that is no dot joins the first piece
        obtain ⟨front, rest, hsplit⟩ := List.exists_cons_of_ne_nil (List.splitOnP_ne_nil (· == '.') cs)
        rw [hsplit] at ih ⊢
        obtain ⟨hfront, hrest⟩ := List.forall_mem_cons.mp ih
        refine List.forall_mem_cons.mpr ⟨fun hm => ?_, hrest⟩
        rcases List.mem_cons.mp hm with rfl | hm
        · exact hc rfl
        · exact hfront hm
  obtain ⟨cs, hcs, rfl⟩ := List.mem_map.mp h
  rw [String.toList_ofList]
  exact hpieces text.toList cs hcs

/-- A name without dots of its own is known by its dotted spelling. -/
theorem QualifiedName.Undotted.eq {p q : QualifiedName} (hp : p.Undotted) (hq : q.Undotted)
    (h : p.text = q.text) : p = q := by
  have hpieces := congrArg dottedPieces h
  rw [p.text_eq, q.text_eq, dottedPieces_dotted (by simp) hp, dottedPieces_dotted (by simp) hq]
    at hpieces
  obtain ⟨path, name⟩ := p
  obtain ⟨hpath, hname⟩ := List.append_inj' hpieces rfl
  simp only at hpath hname
  rw [hpath, List.singleton_inj.mp hname]

theorem QualifiedName.undotted_child {parent : QualifiedName} (hp : parent.Undotted) {name : String}
    (hn : '.' ∉ name.toList) : (parent.child name).Undotted := by
  obtain ⟨hpath, hparent⟩ := List.forall_mem_append.mp hp
  refine List.forall_mem_append.mpr ⟨?_, List.forall_mem_singleton.mpr hn⟩
  unfold child
  split
  · exact hpath
  · exact List.forall_mem_append.mpr ⟨hpath, hparent⟩

namespace TypeDecl

mutual
/-- Names of nested types are put together from those around them. -/
theorem undotted_of_mem_entries {parent : QualifiedName} (hp : parent.Undotted) (module : String)
    (d : TypeDecl) (h : ∀ e ∈ d.entries parent module, '.' ∉ e.name.name.toList) :
    ∀ e ∈ d.entries parent module, e.name.Undotted := by
  obtain ⟨name, primitive, arity, properties, fields, methods, constructors, nested, bases, item⟩ := d
  unfold entries at h ⊢
  obtain ⟨hself, hnested⟩ := List.forall_mem_cons.mp h
  have hname := QualifiedName.undotted_child hp hself
  exact List.forall_mem_cons.mpr ⟨hname, undotted_of_mem_entriesList hname module nested hnested⟩

theorem undotted_of_mem_entriesList {parent : QualifiedName} (hp : parent.Undotted)
    (module : String) (ds : List TypeDecl)
    (h : ∀ e ∈ entriesList parent module ds, '.' ∉ e.name.name.toList) :
    ∀ e ∈ entriesList parent module ds, e.name.Undotted := by
  cases ds with
  | nil => exact nofun
  | cons d ds =>
    unfold entriesList at h ⊢
    obtain ⟨hfirst, hrest⟩ := List.forall_mem_append.mp h
    exact List.forall_mem_append.mpr ⟨undotted_of_mem_entries hp module d hfirst,
      undotted_of_mem_entriesList hp module ds hrest⟩
end

end TypeDecl

/-- The pieces of a namespace have no dots, whatever its text. -/
theorem HostModule.undotted_ofNamespace {text : String} {types : List TypeDecl}
    (h : ∀ e ∈ (ofNamespace text types).entries, '.' ∉ e.name.name.toList) :
    (ofNamespace text types).Undotted :=
  ⟨fun _ hp => no_dot_of_mem_dottedPieces (List.mem_filter.mp hp).1, h⟩

theorem HostModule.Undotted.entries {m : HostModule} (h : m.Undotted) :
    ∀ e ∈ m.entries, e.name.Undotted := by
  refine TypeDecl.undotted_of_mem_entriesList ?_ m.name m.types h.types
  exact List.forall_mem_append.mpr ⟨h.path, List.forall_mem_singleton.mpr nofun⟩

namespace Registry

variable {r r' : Registry} {e : TypeEntry}

/-! ## 2. Registered names -/

/-- No two registered names have the same fingerprint. -/
def NamesApart (r : Registry) : Prop :=
  ∀ p ∈ r.index.names, ∀ q ∈ r.index.names, p.1 = q.1 → p.2 = q.2

theorem NamesApart.mono (h : r'.NamesApart) (hsub : r.index.names ⊆ r'.index.names) :
    r.NamesApart :=
  fun p hp q hq => h p (hsub hp) q (hsub hq)

theorem register_names (h : r.register e = .ok r') :
    r'.index.names = (e.key, e.name.text) :: r.index.names := by
  unfold register at h
  split at h
  · cases h
  split at h
  · cases h
  split at h
  · cases h
  next index hindex =>
    cases h
    unfold NameIndex.register at hindex
    dsimp only at hindex
    split at hindex
    · cases hindex
    split at hindex
    · cases hindex
    cases hindex
    rw [QualifiedName.text_eq]

/-! ## 3. Layers -/

/-- Every entry is registered once, under its own key, after the entries of its bases; and the edges
are the bases that the entries declare. -/
structure Layered (r : Registry) : Prop where
  keyed : ∀ p ∈ r.types, p.1 = p.2.key
  distinct : (r.types.map (·.1)).Nodup
  based : ∀ before p, before ++ [p] <+: r.types → ∀ base ∈ p.2.bases,
    ∃ q ∈ before, base.key? = some q.1
  linked : ∀ edge, edge ∈ r.edges ↔
    ∃ p ∈ r.types, p.1 = edge.1 ∧ ∃ base ∈ p.2.bases, base.key? = some edge.2

/-- The names of the entries are known, and have no dots of their own. -/
structure Named (r : Registry) : Prop where
  known : ∀ p ∈ r.types, (p.1, p.2.name.text) ∈ r.index.names
  undotted : ∀ p ∈ r.types, p.2.name.Undotted
  placed : ∀ p ∈ r.types, r.index.at? p.2.name.path p.2.name.name = some p.1

theorem mem_types_of_get? {key : Fingerprint} (h : r.get? key = some e) : (key, e) ∈ r.types := by
  obtain ⟨before, after, htypes, -⟩ := List.lookup_eq_some_iff.mp h
  rw [htypes]
  exact List.mem_append_right _ (.head _)

/-- A name that is new at its place has a key that is new, unless fingerprints collide. -/
theorem Named.fresh (h : r.Named) (hr : r.register e = .ok r') (he : e.name.Undotted)
    (hapart : r'.NamesApart) : ∀ p ∈ r.types, p.1 ≠ e.key := by
  intro p hp hkey
  have hnames := register_names hr
  have hsame : p.2.name.text = e.name.text := by
    refine hapart (p.1, p.2.name.text) ?_ (e.key, e.name.text) ?_ hkey
    · rw [hnames]
      exact List.mem_cons_of_mem _ (h.known p hp)
    · rw [hnames]
      exact List.mem_cons_self
  have hplaced := h.placed p hp
  rw [(h.undotted p hp).eq he hsame] at hplaced
  obtain ⟨keys, names, -, hfree, -⟩ := register_cases hr
  cases hfree.symm.trans hplaced

theorem Named.register (h : r.Named) (hr : r.register e = .ok r') (he : e.name.Undotted)
    (hsound : r'.Sound) : r'.Named := by
  have htypes := register_types hr
  have hnames := register_names hr
  refine ⟨fun p hp => ?_, fun p hp => ?_, hsound.placed⟩
  · rw [hnames]
    rcases mem_put.mp (htypes ▸ hp) with ⟨hp, -⟩ | rfl
    · exact List.mem_cons_of_mem _ (h.known p hp)
    · exact List.mem_cons_self
  · rcases mem_put.mp (htypes ▸ hp) with ⟨hp, -⟩ | rfl
    · exact h.undotted p hp
    · exact he

theorem Layered.register (h : r.Layered) (hr : r.register e = .ok r')
    (hfresh : ∀ p ∈ r.types, p.1 ≠ e.key) : r'.Layered := by
  have htypes : r'.types = r.types ++ [(e.key, e)] := by
    rw [register_types hr, put_of_fresh hfresh]
  obtain ⟨keys, names, hkeys, -, rfl⟩ := register_cases hr
  obtain ⟨hbases, hmem⟩ := mem_baseKeys hkeys
  have hend (p : Fingerprint × TypeEntry) :
      p ∈ put r.types e ↔ p ∈ r.types ∨ p = (e.key, e) := by
    rw [show put r.types e = _ from htypes, List.mem_append, List.mem_singleton]
  constructor
  · intro p hp
    rcases (hend p).mp hp with hp | rfl
    · exact h.keyed p hp
    · rfl
  · rw [htypes, List.map_append]
    refine List.nodup_append.mpr ⟨h.distinct, List.pairwise_singleton .., fun key hkey other ho => ?_⟩
    obtain ⟨p, hp, rfl⟩ := List.mem_map.mp hkey
    rw [List.mem_singleton.mp ho]
    exact hfresh p hp
  · intro before p hprefix base hbase
    rw [htypes] at hprefix
    rcases List.prefix_concat_iff.mp hprefix with hlast | hprefix
    · obtain ⟨rfl, hsame⟩ := List.append_inj' hlast (by simp only [List.length_singleton])
      obtain rfl := List.singleton_inj.mp hsame
      -- the bases of the new entry have entries already
      obtain ⟨key, hkey, hentry⟩ := hbases base hbase
      obtain ⟨d, hd⟩ := Option.isSome_iff_exists.mp hentry
      exact ⟨(key, d), mem_types_of_get? hd, hkey⟩
    · exact h.based before p hprefix base hbase
  · intro edge
    obtain ⟨x, y⟩ := edge
    simp only [List.mem_append, h.linked, List.mem_map, Prod.mk.injEq, hend]
    constructor
    · rintro (⟨p, hp, hrest⟩ | ⟨key, hkey, rfl, rfl⟩)
      · exact ⟨p, .inl hp, hrest⟩
      · exact ⟨_, .inr rfl, rfl, (hmem key).mp hkey⟩
    · rintro ⟨p, hp | rfl, hx, hbase⟩
      · exact .inl ⟨p, hp, hx, hbase⟩
      · exact .inr ⟨y, (hmem y).mpr hbase, hx, rfl⟩

/-! ## 4. Installation -/

/-- What installation keeps, as long as fingerprints do not collide. -/
structure Stacked (r : Registry) : Prop where
  sound : r.Sound
  named : r.Named
  layered : r.Layered

theorem stacked_empty : empty.Stacked := by
  refine ⟨sound_empty, ⟨nofun, nofun, nofun⟩, ⟨nofun, List.nodup_nil, fun before p hprefix => ?_, ?_⟩⟩
  · cases List.append_eq_nil_iff.mp (List.prefix_nil.mp hprefix) |>.2
  · exact fun edge => ⟨nofun, nofun⟩

theorem Stacked.register (h : r.Stacked) (hr : r.register e = .ok r') (he : e.name.Undotted)
    (hapart : r'.NamesApart) : r'.Stacked :=
  have hsound := h.sound.register hr
  ⟨hsound, h.named.register hr he hsound, h.layered.register hr (h.named.fresh hr he hapart)⟩

theorem kept_stacked :
    Kept fun r es => (∀ e ∈ es, e.name.Undotted) → r.NamesApart → r.Stacked where
  explicit h _ hundotted hapart :=
    -- which modules are explicit makes no difference to the types
    have ⟨hsound, hnamed, hlayered⟩ := h hundotted hapart
    ⟨⟨hsound.keyed, hsound.placed, hsound.listed, hsound.based, hsound.linked⟩,
      ⟨hnamed.known, hnamed.undotted, hnamed.placed⟩,
      ⟨hlayered.keyed, hlayered.distinct, hlayered.based, hlayered.linked⟩⟩
  register {r r' es e} h hr hundotted hapart := by
    obtain ⟨hbefore, hself⟩ := List.forall_mem_append.mp hundotted
    -- the names before the registration are among those after it
    have hbeforeApart : r.NamesApart :=
      hapart.mono (register_names hr ▸ List.subset_cons_self _ _)
    exact (h hbefore hbeforeApart).register hr (hself e (List.mem_singleton_self e)) hapart

theorem installed_stacked {modules : List HostModule} (hm : ∀ m ∈ modules, m.Undotted)
    (hapart : (installed modules).NamesApart) : (installed modules).Stacked := by
  obtain ⟨es, hes, h⟩ := kept_stacked.installed (fun _ _ => stacked_empty) modules
  refine h (fun e he => ?_) hapart
  obtain ⟨m, hmem, he⟩ := List.mem_flatMap.mp (hes.subset he)
  exact (hm m hmem).entries e he

end Registry

end FatArrow
