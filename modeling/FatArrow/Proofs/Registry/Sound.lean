import FatArrow.Proofs.Registry.Filled

/-!
# Registries that installation reaches

Whatever modules are installed, and whether they fail or not, the entries of a registry stay under
their own fingerprints and at their places, and everything that a place, a base or an edge leads to
has an entry.
-/

namespace FatArrow

namespace Registry

/-- What holds of every registry that is filled by installation. -/
structure Sound (r : Registry) : Prop where
  keyed : ∀ p ∈ r.types, p.1 = p.2.key
  placed : ∀ p ∈ r.types, r.index.at? p.2.name.path p.2.name.name = some p.1
  listed : ∀ p ∈ r.index.places, (r.get? p.2).isSome
  based : ∀ p ∈ r.types, ∀ base ∈ p.2.bases, (r.entry? base).isSome
  linked : ∀ edge ∈ r.edges, (r.get? edge.2).isSome

variable {r r' : Registry} {e : TypeEntry} {key : Fingerprint}

/-! ## 1. One entry -/

theorem mem_put {types : List (Fingerprint × TypeEntry)} {p : Fingerprint × TypeEntry} :
    p ∈ put types e ↔ (p ∈ types ∧ p.1 ≠ e.key) ∨ p = (e.key, e) := by
  rw [put, List.mem_append, List.mem_filter, List.mem_singleton, bne_iff_ne]

theorem register_get?_isSome (hr : r.register e = .ok r') (h : (r.get? key).isSome ∨ key = e.key) :
    (r'.get? key).isSome := by
  rw [get?, register_types hr]
  by_cases hkey : key = e.key
  · rw [hkey, lookup_put_self]
    rfl
  · rw [lookup_put_of_ne hkey]
    exact h.resolve_right hkey

theorem entry?_isSome_mono (h : ∀ key, (r.get? key).isSome → (r'.get? key).isSome) {t : HostType}
    (ht : (r.entry? t).isSome) : (r'.entry? t).isSome := by
  rw [Registry.entry?, Option.isSome_bind] at ht ⊢
  rw [Option.any_eq_true] at ht ⊢
  obtain ⟨key, hkey, hentry⟩ := ht
  exact ⟨key, hkey, h key hentry⟩

/-- Bases whose fingerprints are found have entries. -/
theorem baseKeys_isSome {bases : List HostType} {keys : List Fingerprint}
    (h : r.baseKeys bases = .ok keys) :
    (∀ base ∈ bases, (r.entry? base).isSome) ∧ ∀ key ∈ keys, (r.get? key).isSome := by
  obtain ⟨hbases, hmem⟩ := mem_baseKeys h
  refine ⟨fun base hbase => ?_, fun key hkey => ?_⟩
  · obtain ⟨key, hkey, hentry⟩ := hbases base hbase
    rw [Registry.entry?, hkey]
    exact hentry
  · obtain ⟨base, hbase, hsame⟩ := (hmem key).mp hkey
    obtain ⟨other, hother, hentry⟩ := hbases base hbase
    cases hsame.symm.trans hother
    exact hentry

theorem sound_empty : empty.Sound := ⟨nofun, nofun, nofun, nofun, nofun⟩

theorem Sound.register (h : r.Sound) (hr : r.register e = .ok r') : r'.Sound := by
  have hgrows : ∀ key, (r.get? key).isSome → (r'.get? key).isSome :=
    fun key hkey => register_get?_isSome hr (.inl hkey)
  have hself : (r'.get? e.key).isSome := register_get?_isSome hr (.inr rfl)
  obtain ⟨keys, names, hkeys, hfree, rfl⟩ := register_cases hr
  obtain ⟨hbases, hends⟩ := baseKeys_isSome hkeys
  -- each part holds of what was there, which has the entries it had, and of what is new
  constructor
  · intro p hp
    rcases mem_put.mp hp with ⟨hp, -⟩ | rfl
    · exact h.keyed p hp
    · rfl
  · intro p hp
    rw [NameIndex.at?, List.lookup_append]
    rcases mem_put.mp hp with ⟨hp, -⟩ | rfl
    · rw [show List.lookup _ r.index.places = _ from h.placed p hp, Option.some_or]
    · -- the place was free, else the entry had not been registered
      rw [show List.lookup _ r.index.places = _ from hfree, Option.none_or, List.lookup_cons_self]
  · intro p hp
    rcases List.mem_append.mp hp with hp | hp
    · exact hgrows _ (h.listed p hp)
    · rw [List.mem_singleton.mp hp]
      exact hself
  · intro p hp base hbase
    rcases mem_put.mp hp with ⟨hp, -⟩ | rfl
    · exact entry?_isSome_mono hgrows (h.based p hp base hbase)
    · exact entry?_isSome_mono hgrows (hbases base hbase)
  · intro edge hedge
    rcases List.mem_append.mp hedge with hedge | hedge
    · exact hgrows _ (h.linked edge hedge)
    · obtain ⟨key, hkey, rfl⟩ := List.mem_map.mp hedge
      exact hgrows _ (hends key hkey)

/-! ## 2. Modules -/

theorem kept_sound : Kept fun r _ => r.Sound where
  explicit h _ := ⟨h.keyed, h.placed, h.listed, h.based, h.linked⟩
  register := Sound.register

theorem installed_sound (modules : List HostModule) : (installed modules).Sound :=
  have ⟨_, _, h⟩ := kept_sound.installed sound_empty modules
  h

end Registry

end FatArrow
