import FatArrow.Proofs.Registry.Frame

/-!
# Where members are found

The ancestors of a type are entries of the registry.  A type that is described by an entry without
bases, which is no base of another entry, has no other ancestor, and nothing else has it for one.
-/

namespace FatArrow

/-- An entry has no bases and is no base of the others. -/
def TypeEntry.Alone (e : TypeEntry) (es : List TypeEntry) : Prop :=
  e.bases = [] ∧ ∀ d ∈ es, ∀ base ∈ d.bases, ∃ key, base.key? = some key ∧ key ≠ e.key

namespace Ancestor

theorem bindMember_plain {e : TypeEntry} (h : e.isGeneric = false) (t : HostType)
    (m : Member) : (Ancestor.mk e t).bindMember m = m := by
  rw [bindMember, h]
  rfl

theorem bindMethod_plain {e : TypeEntry} (h : e.isGeneric = false) (t : HostType)
    (m : Method) : (Ancestor.mk e t).bindMethod m = m := by
  rw [bindMethod, h]
  rfl

theorem isStatic_bindMember (a : Ancestor) (m : Member) :
    (a.bindMember m).isStatic = m.isStatic := by
  unfold bindMember
  split <;> rfl

theorem isStatic_bindMethod (a : Ancestor) (m : Method) :
    (a.bindMethod m).isStatic = m.isStatic := by
  unfold bindMethod
  split <;> rfl

/-- A member has its type with the parameters of the entry bound. -/
theorem bindMember_eq (a : Ancestor) (m : Member) : ∃ declaring, a.bindMember m =
    { m with declaring, type := a.entry.bind a.receiver.actuals m.type } := by
  unfold bindMember TypeEntry.bind
  split
  · exact ⟨a.receiver, rfl⟩
  · exact ⟨m.declaring, rfl⟩

/-- A method has its types with the parameters of the entry bound. -/
theorem bindMethod_eq (a : Ancestor) (m : Method) : ∃ declaring, a.bindMethod m =
    { m with
      declaring
      params := m.params.map (a.entry.bind a.receiver.actuals)
      returns := a.entry.bind a.receiver.actuals m.returns } := by
  unfold bindMethod TypeEntry.bind
  split
  next => exact ⟨some a.receiver, rfl⟩
  next => exact ⟨m.declaring, by rw [List.map_id']⟩

theorem isGenericDefinition_bindMethod (a : Ancestor) (m : Method) :
    (a.bindMethod m).isGenericDefinition = m.isGenericDefinition := by
  unfold bindMethod
  split <;> rfl

end Ancestor

namespace Registry

variable {r : Registry} {es : List TypeEntry} {e : TypeEntry} {t : HostType} {a : Ancestor}

/-! ## 1. Ancestors -/

/-- An ancestor is described by a type of the queue, or by a base of an entry. -/
theorem mem_lineageFrom {rest : List (Fingerprint × TypeEntry)} {queue : List HostType}
    (h : a ∈ lineageFrom rest queue) : ∃ p ∈ rest, p.2 = a.entry ∧
      ((∃ t ∈ queue, describes t p = true) ∨
        ∃ q ∈ rest, ∃ base ∈ q.2.bases, ∃ actuals, describes (q.2.bind actuals base) p = true) := by
  -- along the search, whose queue grows by bases of entries only
  fun_induction lineageFrom rest queue with
  | case1 rest => cases h
  | case2 rest t queue _ ih =>
    obtain ⟨p, hp, hentry, hq | hb⟩ := ih h
    · obtain ⟨u, hu, hdescribes⟩ := hq
      exact ⟨p, hp, hentry, .inl ⟨u, List.mem_cons_of_mem _ hu, hdescribes⟩⟩
    · exact ⟨p, hp, hentry, .inr hb⟩
  | case3 rest t queue key e hsome ih =>
    have hmem := List.mem_of_find?_eq_some hsome
    rcases List.mem_cons.mp h with rfl | h
    · exact ⟨_, hmem, rfl, .inl ⟨t, List.mem_cons_self, List.find?_some hsome⟩⟩
    · obtain ⟨p, hp, hentry, hfrom⟩ := ih h
      refine ⟨p, List.mem_of_mem_eraseP hp, hentry, ?_⟩
      rcases hfrom with ⟨u, hu, hdescribes⟩ | ⟨q, hq, hb⟩
      · rcases List.mem_append.mp hu with hu | hu
        · exact .inl ⟨u, List.mem_cons_of_mem _ hu, hdescribes⟩
        · obtain ⟨base, hbase, rfl⟩ := List.mem_map.mp hu
          exact .inr ⟨_, hmem, base, hbase, t.actuals, hdescribes⟩
      · exact .inr ⟨q, List.mem_of_mem_eraseP hq, hb⟩

/-- The entry that describes a type is the first one that the search finds. -/
theorem find?_describes (h : r.entry? t = some e) :
    ∃ key, r.types.find? (describes t) = some (key, e) := by
  obtain ⟨key, hkey, hget⟩ := Option.bind_eq_some_iff.mp h
  refine ⟨key, ?_⟩
  unfold get? at hget
  generalize r.types = types at hget ⊢
  induction types with
  | nil => cases hget
  | cons p types ih =>
    obtain ⟨other, entry⟩ := p
    by_cases hsame : other = key
    · subst hsame
      rw [List.lookup_cons_self, Option.some.injEq] at hget
      rw [List.find?_cons_of_pos (by simp [describes, hkey]), hget]
    · rw [List.lookup_cons, beq_false_of_ne (Ne.symm hsame)] at hget
      rw [List.find?_cons_of_neg (by simp [describes, hkey, Ne.symm hsame])]
      exact ih hget

/-- The first ancestor of a type with an entry, and those after it. -/
theorem lineage_eq (h : r.entry? t = some e) : r.lineage t =
    ⟨e, t⟩ :: lineageFrom (r.types.eraseP (describes t)) (e.bases.map (e.bind t.actuals)) := by
  obtain ⟨key, hfind⟩ := find?_describes h
  rw [lineage, lineageFrom_of_some hfind, List.nil_append]

namespace Lists

theorem entry_mem (h : r.Lists es) (ha : a ∈ r.lineage t) : a.entry ∈ es := by
  obtain ⟨p, hp, hentry, -⟩ := mem_lineageFrom ha
  exact hentry ▸ (h.mem_types hp).2

theorem entry?_eq (h : r.Lists es) (he : e ∈ es) (ht : t.key? = some e.key) :
    r.entry? t = some e := by
  rw [Registry.entry?, ht]
  exact h.get? he

theorem find?_describes (h : r.Lists es) (he : e ∈ es) (ht : t.key? = some e.key) :
    r.types.find? (describes t) = some (e.key, e) := by
  obtain ⟨key, hfind⟩ := Registry.find?_describes (h.entry?_eq he ht)
  have hkey : key = e.key := (h.mem_types (List.mem_of_find?_eq_some hfind)).1
  rwa [hkey] at hfind

/-- The first ancestor of a type is the entry that describes it. -/
theorem lineage_eq_cons (h : r.Lists es) (he : e ∈ es) (ht : t.key? = some e.key) :
    ∃ rest, r.lineage t = ⟨e, t⟩ :: rest :=
  ⟨_, lineage_eq (h.entry?_eq he ht)⟩

/-- An entry that stands alone is the ancestor of those types only that it describes. -/
theorem lineage_eq_singleton (h : r.Lists es) (halone : a.entry.Alone es)
    (ha : a ∈ r.lineage t) : r.lineage t = [⟨a.entry, t⟩] := by
  have he := h.entry_mem ha
  obtain ⟨p, hp, hentry, hfrom⟩ := mem_lineageFrom ha
  have hkey : p.1 = a.entry.key := hentry ▸ (h.mem_types hp).1
  rcases hfrom with ⟨u, hu, hdescribes⟩ | ⟨q, hq, base, hbase, actuals, hdescribes⟩
  · rw [List.mem_singleton.mp hu, describes, beq_iff_eq, hkey] at hdescribes
    rw [lineage, lineageFrom_of_some (h.find?_describes he hdescribes), halone.1,
      List.map_nil, List.append_nil, lineageFrom]
  · -- it is the base of no entry
    obtain ⟨key, hbaseKey, hne⟩ := halone.2 q.2 (h.mem_types hq).2 base hbase
    rw [describes, TypeEntry.key?_bind hbaseKey, beq_iff_eq, hkey, Option.some.injEq] at hdescribes
    exact absurd hdescribes hne

end Lists

/-! ## 2. Members -/

/-- A member is the last one of its name in the entry of an ancestor. -/
theorem exists_of_lastNamed? {members : TypeEntry → List Member} {name : String} {m : Member}
    (h : (r.lineage t).findSome? (fun a =>
      (TypeEntry.lastNamed? (members a.entry) name).map a.bindMember) = some m) :
    ∃ a ∈ r.lineage t, ∃ n ∈ members a.entry,
      TypeEntry.lastNamed? (members a.entry) name = some n ∧ n.name = name ∧ m = a.bindMember n := by
  obtain ⟨a, ha, h⟩ := List.exists_of_findSome?_eq_some h
  obtain ⟨n, hn, rfl⟩ := Option.map_eq_some_iff.mp h
  have hmem := List.mem_reverse.mp (List.mem_of_find?_eq_some hn)
  exact ⟨a, ha, n, hmem, hn, by simpa using List.find?_some hn, rfl⟩

theorem exists_of_property? {name : String} {m : Member} (h : r.host.property? t name = some m) :
    ∃ a ∈ r.lineage t, ∃ n ∈ a.entry.properties, a.entry.property? name = some n ∧ n.name = name ∧
      m = a.bindMember n :=
  exists_of_lastNamed? h

theorem exists_of_field? {name : String} {m : Member} (h : r.host.field? t name = some m) :
    ∃ a ∈ r.lineage t, ∃ n ∈ a.entry.fields, a.entry.field? name = some n ∧ n.name = name ∧
      m = a.bindMember n :=
  exists_of_lastNamed? h

/-- The methods of a type are those of its ancestors. -/
theorem exists_of_mem_methods {name : String} {m : Method} (h : m ∈ r.methods t name) :
    ∃ a ∈ r.lineage t, ∃ n ∈ a.entry.methods, n.name = name ∧ m = a.bindMethod n := by
  -- the fold drops overridden methods and adds none
  have hkept : ∀ (all found : List Method), m ∈ all.foldl (fun found m =>
      if found.any (·.params == m.params) then found else found ++ [m]) found →
        m ∈ found ∨ m ∈ all := by
    intro all
    induction all with
    | nil => exact fun found h => .inl h
    | cons n all ih =>
      intro found h
      rcases ih _ h with h | h
      · dsimp only at h
        split at h
        · exact .inl h
        · rcases List.mem_append.mp h with h | h
          · exact .inl h
          · exact .inr (List.mem_singleton.mp h ▸ List.mem_cons_self)
      · exact .inr (List.mem_cons_of_mem _ h)
  obtain ⟨a, ha, h⟩ := List.mem_flatMap.mp ((hkept _ _ h).resolve_left (List.not_mem_nil))
  obtain ⟨n, hn, rfl⟩ := List.mem_map.mp h
  obtain ⟨hn, hname⟩ := List.mem_filter.mp hn
  exact ⟨a, ha, n, hn, by simpa using hname, rfl⟩

/-- A constructor is one of the entry that describes the type. -/
theorem exists_of_constructor? {args : List HostType} {c : Constructor}
    (h : r.constructor? t args = some c) : ∃ e, r.entry? t = some e ∧ ∃ d ∈ e.constructors,
      c = { d with declaring := t, params := d.params.map (e.bind t.actuals) } := by
  obtain ⟨e, he, hc⟩ := Option.bind_eq_some_iff.mp h
  have hmem : c ∈ (e.constructors.filter (·.params.length == args.length)).map fun c =>
      { c with declaring := t, params := c.params.map (e.bind t.actuals) } := by
    rcases Option.or_eq_some_iff.mp hc with hfirst | ⟨-, hfirst⟩ <;>
      exact List.mem_of_find?_eq_some hfirst
  obtain ⟨d, hd, rfl⟩ := List.mem_map.mp hmem
  exact ⟨e, he, d, (List.mem_filter.mp hd).1, rfl⟩

/-- Items are those of an array, or an ancestor says what they are. -/
theorem exists_of_itemType? {item : HostType} (h : r.itemType? t = some item) :
    t.nullable = false ∧ (t.element? = some item ∨ ∃ a ∈ r.lineage t,
      (∃ type, a.entry.itemType = some type ∧ a.entry.bind a.receiver.actuals type = item) ∨
        a.entry.itemType = none ∧ a.entry.name.text = WellKnown.enumerable ∧
          a.receiver.actuals.head? = some item) := by
  unfold itemType? at h
  split at h
  next => cases h
  next hstring =>
    rw [Bool.or_eq_true, not_or, Bool.not_eq_true] at hstring
    refine ⟨hstring.1, ?_⟩
    split at h
    next helement => exact .inl (helement.trans h)
    next =>
      extract_lets said at h
      cases hsaid : said with
      | none =>
        rw [hsaid] at h
        cases h
      | some found =>
        rw [hsaid] at h
        obtain rfl : found = some item := h
        obtain ⟨a, ha, hfound⟩ := List.exists_of_findSome?_eq_some hsaid
        refine .inr ⟨a, ha, ?_⟩
        split at hfound
        next type htype => exact .inl ⟨type, htype, Option.some.inj (Option.some.inj hfound)⟩
        next hnone =>
          rw [Option.ite_none_right_eq_some, Option.some.injEq] at hfound
          exact .inr ⟨hnone, hfound⟩

end Registry

end FatArrow
