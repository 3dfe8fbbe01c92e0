import FatArrow.Proofs.Outcome
import FatArrow.Standard.Modules

/-!
# Installed modules

Modules are installed entry by entry, up to the first that fails, so a property that each registration
keeps holds after any installation.  One of them is what a registry finds by key: it holds modules when
it finds every entry of theirs, and it does so where no two keys are the same.
-/

namespace FatArrow

namespace Registry

/-- Every entry of the modules is found by its key. -/
def Holds (r : Registry) (modules : List HostModule) : Prop :=
  ∀ m ∈ modules, ∀ e ∈ m.entries, r.get? e.key = some e

/-! ## 1. Single entries -/

theorem lookup_put_self (types : List (Fingerprint × TypeEntry)) (e : TypeEntry) :
    (put types e).lookup e.key = some e := by
  have hnone : (types.filter (·.1 != e.key)).lookup e.key = none := by
    rw [List.lookup_eq_none_iff]
    intro p hp
    have hne := (List.mem_filter.mp hp).2
    simp only [bne_iff_ne] at hne ⊢
    exact hne.symm
  rw [put, List.lookup_append, hnone, Option.none_or, List.lookup_cons_self]

theorem lookup_put_of_ne {types : List (Fingerprint × TypeEntry)} {e : TypeEntry}
    {key : Fingerprint} (h : key ≠ e.key) : (put types e).lookup key = types.lookup key := by
  have hfilter : (types.filter (·.1 != e.key)).lookup key = types.lookup key := by
    induction types with
    | nil => rfl
    | cons p types ih =>
      obtain ⟨other, entry⟩ := p
      by_cases ho : other = e.key
      · have hne : key ≠ other := ho ▸ h
        rw [List.filter_cons_of_neg (by simp [ho]), ih, List.lookup_cons, beq_false_of_ne hne]
      · rw [List.filter_cons_of_pos (by simp [ho]), List.lookup_cons, List.lookup_cons, ih]
  rw [put, List.lookup_append, hfilter, List.lookup_cons, beq_false_of_ne h]
  exact Option.or_none

/-- The keys of the bases of an entry, which all have entries. -/
theorem mem_baseKeys {r : Registry} {bases : List HostType} {keys : List Fingerprint}
    (h : r.baseKeys bases = .ok keys) :
    (∀ base ∈ bases, ∃ key, base.key? = some key ∧ (r.get? key).isSome) ∧
      ∀ key, key ∈ keys ↔ ∃ base ∈ bases, base.key? = some key := by
  induction bases generalizing keys with
  | nil =>
    cases h
    simp
  | cons base bases ih =>
    unfold baseKeys at h
    split at h
    next key hkey =>
      split at h
      next hentry =>
        have hmap : (key :: ·) <$> r.baseKeys bases = .ok keys := h
        obtain ⟨rest, hrest, rfl⟩ := map_eq_ok.mp hmap
        obtain ⟨hbases, hkeys⟩ := ih hrest
        refine ⟨List.forall_mem_cons.mpr ⟨⟨key, hkey, hentry⟩, hbases⟩, fun other => ?_⟩
        simp only [List.mem_cons, hkeys, exists_eq_or_imp, hkey, Option.some.injEq]
        rw [eq_comm]
      next => cases h
    next => cases h

/-- What a registration does: the bases have entries, the place was free, and the entry is put there
with edges to its bases. -/
theorem register_cases {r r' : Registry} {e : TypeEntry} (h : r.register e = .ok r') :
    ∃ keys names, r.baseKeys e.bases = .ok keys ∧ r.index.at? e.name.path e.name.name = none ∧
      r' = ⟨⟨r.index.places ++ [((e.name.path, e.name.name), e.key)], names⟩, put r.types e,
        r.explicit, r.edges ++ keys.map (e.key, ·)⟩ := by
  unfold register at h
  split at h
  · cases h
  next keys hkeys =>
    split at h
    · cases h
    split at h
    · cases h
    next index hindex =>
      cases h
      unfold NameIndex.register at hindex
      dsimp only at hindex
      split at hindex
      · cases hindex
      split at hindex
      · cases hindex
      next hfree =>
        cases hindex
        exact ⟨keys, _, hkeys, Option.not_isSome_iff_eq_none.mp hfree, rfl⟩

theorem register_types {r r' : Registry} {e : TypeEntry} (h : r.register e = .ok r') :
    r'.types = put r.types e := by
  obtain ⟨keys, names, -, -, rfl⟩ := register_cases h
  rfl

/-! ## 2. Many entries -/

/-- The registry after one module after another was installed, those that fail included. -/
def installed (modules : List HostModule) : Registry :=
  modules.foldl (fun r m => (r.install m).1) empty

/-- A property of a registry and the entries registered in it that every step of an installation
keeps. -/
structure Kept (P : Registry → List TypeEntry → Prop) : Prop where
  explicit : ∀ {r es}, P r es → ∀ names, P { r with explicit := names } es
  register : ∀ {r r' es e}, P r es → r.register e = .ok r' → P r' (es ++ [e])

namespace Kept

variable {P : Registry → List TypeEntry → Prop} {r r' : Registry} {es : List TypeEntry}

/-- Entries are registered up to the first that fails. -/
theorem registerAll (hP : Kept P) (h : P r es) (fresh : List TypeEntry) :
    ∃ done, done <+: fresh ∧ ((r.registerAll fresh).2 = .ok () → done = fresh) ∧
      P (r.registerAll fresh).1 (es ++ done) := by
  induction fresh generalizing r es with
  | nil => exact ⟨[], List.nil_prefix, fun _ => rfl, by rwa [List.append_nil]⟩
  | cons e fresh ih =>
    unfold Registry.registerAll
    split
    next hfirst =>
      obtain ⟨done, hdone, hall, h⟩ := ih (hP.register h hfirst)
      refine ⟨e :: done, List.cons_prefix_cons.mpr ⟨rfl, hdone⟩, fun hok => by rw [hall hok], ?_⟩
      rwa [List.append_cons]
    next => exact ⟨[], List.nil_prefix, nofun, by rwa [List.append_nil]⟩

theorem install (hP : Kept P) (h : P r es) (m : HostModule) :
    ∃ done, done <+: m.entries ∧ ((r.install m).2 = .ok () → done = m.entries) ∧
      P (r.install m).1 (es ++ done) := by
  unfold Registry.install
  split
  · exact ⟨[], List.nil_prefix, nofun, by rwa [List.append_nil]⟩
  · apply hP.registerAll
    split
    · exact hP.explicit h _
    · exact h

/-- It holds of all entries of the modules where every installation succeeds. -/
theorem installAll (hP : Kept P) (h : P r es) {modules : List HostModule}
    (hr : r.installAll modules = .ok r') : P r' (es ++ modules.flatMap HostModule.entries) := by
  induction modules generalizing r es with
  | nil =>
    cases hr
    rwa [List.flatMap_nil, List.append_nil]
  | cons m modules ih =>
    obtain ⟨done, -, hall, h⟩ := hP.install h m
    unfold Registry.installAll at hr
    split at hr
    next r₁ hm =>
      rw [hm] at hall h
      rw [List.flatMap_cons, ← List.append_assoc, ← hall rfl]
      exact ih h hr
    next => cases hr

/-- And in general it holds of those that were registered. -/
theorem installed (hP : Kept P) (h : P Registry.empty []) (modules : List HostModule) :
    ∃ es, es.Sublist (modules.flatMap HostModule.entries) ∧ P (installed modules) es := by
  -- the fold starts from any registry with the property
  have hfrom : ∀ r before, P r before → ∃ es, es.Sublist (modules.flatMap HostModule.entries) ∧
      P (modules.foldl (fun r m => (r.install m).1) r) (before ++ es) := by
    induction modules with
    | nil => exact fun r before h => ⟨[], .slnil, by rwa [List.append_nil]⟩
    | cons m modules ih =>
      intro r before h
      obtain ⟨done, hdone, -, h⟩ := hP.install h m
      obtain ⟨es, hes, h⟩ := ih _ _ h
      rw [List.append_assoc] at h
      exact ⟨done ++ es, hdone.sublist.append hes, h⟩
  exact hfrom Registry.empty [] h

end Kept

/-- Entries are found on top of what a registry finds by other keys, if each has a key of its own. -/
def Adds (r r' : Registry) (es : List TypeEntry) : Prop :=
  (es.map TypeEntry.key).Nodup → (∀ e ∈ es, r'.get? e.key = some e) ∧
    ∀ key, key ∉ es.map TypeEntry.key → r'.get? key = r.get? key

theorem adds_nil (r : Registry) : r.Adds r [] := fun _ => ⟨nofun, fun _ _ => rfl⟩

theorem kept_adds (r : Registry) : Kept r.Adds where
  explicit h _ := h
  register {r₁ r₂ es e} h hr hn := by
    rw [List.map_append, List.nodup_append] at hn
    obtain ⟨hn, -, hnew⟩ := hn
    obtain ⟨hfound, hkept⟩ := h hn
    have htypes := register_types hr
    refine ⟨fun d hd => ?_, fun key hkey => ?_⟩
    · rcases List.mem_append.mp hd with hd | hd
      · have hne : d.key ≠ e.key :=
          hnew _ (List.mem_map_of_mem hd) _ (List.mem_map_of_mem (List.mem_singleton_self e))
        rw [get?, htypes, lookup_put_of_ne hne]
        exact hfound d hd
      · rw [List.mem_singleton.mp hd, get?, htypes]
        exact lookup_put_self r₁.types e
    · rw [List.map_append, List.mem_append, not_or, List.map_singleton, List.mem_singleton] at hkey
      rw [get?, htypes, lookup_put_of_ne hkey.2]
      exact hkept key hkey.1

/-- What is installed is held, and what is found by other keys stays. -/
theorem installAll_holds {r r' : Registry} {modules : List HostModule}
    (h : r.installAll modules = .ok r')
    (hn : ((modules.flatMap HostModule.entries).map TypeEntry.key).Nodup) :
    r'.Holds modules ∧
      ∀ key, key ∉ (modules.flatMap HostModule.entries).map TypeEntry.key →
        r'.get? key = r.get? key := by
  obtain ⟨hfound, hkept⟩ := (kept_adds r).installAll r.adds_nil h hn
  exact ⟨fun m hm e he => hfound e (List.mem_flatMap.mpr ⟨m, hm, he⟩), hkept⟩

end Registry

/-! ## 3. Entries of modules -/

theorem HostModule.entry_mem {m : HostModule} {d : TypeDecl} (h : d ∈ m.types) :
    d.entry ⟨m.path, ""⟩ m.name ∈ m.entries := by
  have hmem : ∀ types : List TypeDecl, d ∈ types →
      d.entry ⟨m.path, ""⟩ m.name ∈ TypeDecl.entriesList ⟨m.path, ""⟩ m.name types := by
    intro types h
    induction types with
    | nil => cases h
    | cons d' types ih =>
      rcases List.mem_cons.mp h with rfl | h
      · refine List.mem_append_left _ ?_
        cases d
        exact List.mem_cons_self
      · exact List.mem_append_right _ (ih h)
  exact hmem m.types h

end FatArrow
