import FatArrow.Tree.Inline
import Mathlib.Data.List.Nodup
import Mathlib.Data.List.Perm.Subperm

/-!
# Fresh names

A fresh name is not taken, since of more numbered names than there are taken ones not all can be
taken.  Renamed parameters therefore have names of their own, and what stands for a reference to a
parameter is a reference to the one that took its place.
-/

namespace FatArrow

/-! ## 1. Lookup by distinct names -/

/-- Where no name occurs twice, every entry is the one that is found by its name. -/
theorem lookup_of_mem {α : Type} {entries : List (String × α)} {name : String} {a : α}
    (hn : (entries.map (·.1)).Nodup) (h : (name, a) ∈ entries) :
    entries.lookup name = some a := by
  induction entries with
  | nil => cases h
  | cons e entries ih =>
    obtain ⟨other, b⟩ := e
    obtain ⟨hnew, hn⟩ := List.nodup_cons.mp hn
    rcases List.mem_cons.mp h with he | hm
    · cases he
      exact List.lookup_cons_self
    · have hne : name ≠ other := fun he => hnew (List.mem_map.mpr ⟨(name, a), hm, he⟩)
      rw [List.lookup_cons, beq_false_of_ne hne]
      exact ih hn hm

/-! ## 2. Fresh names -/

theorem append_toString_inj {name : String} {m n : Nat}
    (h : name ++ toString (m + 1) = name ++ toString (n + 1)) : m = n := by
  have hdigits : Nat.toDigits 10 (m + 1) = Nat.toDigits 10 (n + 1) := by
    simpa using congrArg String.toList ((String.append_right_inj name).mp h)
  have hvalue := congrArg (Nat.ofDigitChars 10 · 0) hdigits
  simp only [Nat.ofDigitChars_ten_toDigits] at hvalue
  omega

theorem freshName_not_mem (name : String) (taken : List String) :
    freshName name taken ∉ taken := by
  unfold freshName
  split
  next =>
    extract_lets numbered
    cases hfound : numbered.find? fun candidate => !taken.contains candidate with
    | some candidate => simpa using List.find?_some hfound
    | none =>
      -- otherwise the numbered names, one more than the taken ones, are all among these
      have hnodup : numbered.Nodup :=
        List.Nodup.map (fun _ _ h => append_toString_inj h) List.nodup_range
      have hsubset : numbered ⊆ taken := by
        intro candidate hc
        simpa using List.find?_eq_none.mp hfound candidate hc
      have hlength := (List.subperm_of_subset hnodup hsubset).length_le
      simp only [numbered, List.length_map, List.length_range] at hlength
      omega
  next hfree => simpa using hfree

/-! ## 3. Renamed parameters -/

theorem length_renamed (taken : List String) (ps : List Param) :
    (renamed taken ps).1.length = ps.length := by
  induction ps generalizing taken with
  | nil => rfl
  | cons p ps ih => simp [renamed, ih]

/-- The new names are different from each other and from the taken ones. -/
theorem renamed_nodup (taken : List String) (ps : List Param) :
    ((renamed taken ps).1.map (·.name)).Nodup ∧
      ∀ n ∈ (renamed taken ps).1.map (·.name), n ∉ taken := by
  induction ps generalizing taken with
  | nil => exact ⟨List.nodup_nil, nofun⟩
  | cons p ps ih =>
    obtain ⟨hn, hd⟩ := ih (taken ++ [freshName p.name taken])
    simp only [renamed, List.map_cons]
    refine ⟨List.nodup_cons.mpr ⟨fun hm => hd _ hm (by simp), hn⟩, ?_⟩
    intro n hm
    rcases List.mem_cons.mp hm with rfl | hm
    · exact freshName_not_mem _ _
    · exact fun ht => hd n hm (List.mem_append_left _ ht)

theorem renamed_names {taken : List String} {ps : List Param} {e : String × Term}
    (h : e ∈ (renamed taken ps).2) : e.1 ∈ ps.map (·.name) := by
  induction ps generalizing taken with
  | nil => cases h
  | cons p ps ih =>
    simp only [renamed] at h
    rcases List.mem_append.mp h with h | h
    · exact List.mem_cons_of_mem _ (ih h)
    · split at h
      · cases h
      · cases List.mem_singleton.mp h
        exact List.mem_cons_self

/-- A reference to a renamed parameter becomes one to the parameter that took its place. -/
theorem renamed_term {ps : List Param} (hn : (ps.map (·.name)).Nodup) (taken : List String) :
    List.Forall₂ (fun p q => (renamed taken ps).2.term p = .param q ∧ q.type = p.type) ps
      (renamed taken ps).1 := by
  induction ps generalizing taken with
  | nil => exact .nil
  | cons p ps ih =>
    obtain ⟨hnew, hn⟩ := List.nodup_cons.mp hn
    have hothers : ∀ q ∈ ps, q.name ≠ p.name :=
      fun q hq he => hnew (List.mem_map.mpr ⟨q, hq, he⟩)
    simp only [renamed]
    set name := freshName p.name taken
    set rest := renamed (taken ++ [name]) ps
    have hnone : rest.2.lookup p.name = none := by
      rw [List.lookup_eq_none_iff]
      intro e he
      rw [bne_iff_ne]
      intro hname
      obtain ⟨q, hq, he⟩ := List.mem_map.mp (renamed_names he)
      exact hothers q hq (he.trans hname.symm)
    refine .cons ⟨?_, rfl⟩ ?_
    · rw [Substitution.term, List.lookup_append, hnone, Option.none_or]
      by_cases hsame : name = p.name
      · simp [hsame]
      · simp [hsame]
    · refine ((List.forall₂_and_left _ _).mpr ⟨hothers, ih hn _⟩).imp ?_
      rintro q q' ⟨hne, hterm, htype⟩
      refine ⟨?_, htype⟩
      rw [← hterm, Substitution.term, Substitution.term, List.lookup_append]
      -- the entry that is added, if any, has another name
      cases rest.2.lookup q.name with
      | some t => rfl
      | none =>
        rw [Option.none_or]
        split
        · rfl
        · rw [List.lookup_cons, beq_false_of_ne hne]
          rfl

end FatArrow
