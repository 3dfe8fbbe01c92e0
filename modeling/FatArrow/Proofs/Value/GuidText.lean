import FatArrow.Standard.Identity

/-!
# Texts of identifiers

The identifier of 32 digits in base 16 is the number that they spell, and the groups of a text are
found again between its hyphens.  So reading the text of an identifier yields the identifier.
-/

namespace FatArrow

namespace Guid

/-! ## 1. Digits -/

/-- The digits in base 16, one after the other. -/
theorem toDigits_eq (n : Nat) : Nat.toDigits 16 n =
    if n < 16 then [n.digitChar] else Nat.toDigits 16 (n / 16) ++ [(n % 16).digitChar] :=
  Nat.toDigits_eq_if (by decide)

theorem mem_toDigits {n : Nat} {c : Char} (h : c ∈ Nat.toDigits 16 n) :
    ∃ d < 16, c = Nat.digitChar d := by
  induction n using Nat.strongRecOn with
  | _ n ih =>
    rw [toDigits_eq] at h
    split at h
    next hn => exact ⟨n, hn, List.mem_singleton.mp h⟩
    next hn =>
      rcases List.mem_append.mp h with h | h
      · exact ih (n / 16) (by omega) h
      · exact ⟨n % 16, by omega, List.mem_singleton.mp h⟩

theorem mem_digits {g : Guid} {c : Char} (h : c ∈ g.digits) : ∃ d < 16, c = Nat.digitChar d := by
  rcases List.mem_append.mp h with h | h
  · exact ⟨0, by decide, List.eq_of_mem_replicate h⟩
  · exact mem_toDigits h

theorem length_digits (g : Guid) : g.digits.length = 32 := by
  have hlength : (Nat.toDigits 16 g.bits.toNat).length ≤ 32 :=
    (Nat.length_toDigits_le_iff (by decide) (by decide)).mpr g.bits.isLt
  simp only [digits, List.length_append, List.length_replicate]
  omega

/-- What one more digit makes of the number that is spelled so far. -/
def shift (n : Nat) (c : Char) : Nat := n * 16 + (Text.digitValue? c).getD 0

theorem shift_digitChar {n d : Nat} (hd : d < 16) : shift n d.digitChar = n * 16 + d := by
  have hvalue : ∀ d < 16, (Text.digitValue? (Nat.digitChar d)).getD 0 = d := by decide
  rw [shift, hvalue d hd]

theorem foldl_shift_toDigits (n : Nat) : (Nat.toDigits 16 n).foldl shift 0 = n := by
  induction n using Nat.strongRecOn with
  | _ n ih =>
    rw [toDigits_eq]
    split
    next hn => simp [shift_digitChar hn]
    next hn =>
      rw [List.foldl_append, ih (n / 16) (by omega), List.foldl_cons, List.foldl_nil,
        shift_digitChar (by omega)]
      omega

theorem foldl_shift_zeros (k : Nat) : (List.replicate k '0').foldl shift 0 = 0 := by
  induction k with
  | zero => rfl
  | succ k ih => exact ih

theorem ofDigits?_digits (g : Guid) : ofDigits? g.digits = some g := by
  have hhex : ∀ d < 16, Text.isHexDigit (Nat.digitChar d) = true := by decide
  have hall : g.digits.all Text.isHexDigit = true := by
    rw [List.all_eq_true]
    intro c hc
    obtain ⟨d, hd, rfl⟩ := mem_digits hc
    exact hhex d hd
  have hvalue : g.digits.foldl shift 0 = g.bits.toNat := by
    rw [digits, List.foldl_append, foldl_shift_zeros, foldl_shift_toDigits]
  rw [ofDigits?, if_pos ⟨length_digits g, hall⟩]
  change some (Guid.mk (BitVec.ofNat 128 (g.digits.foldl shift 0))) = some g
  rw [hvalue, BitVec.ofNat_toNat, BitVec.setWidth_eq]

/-! ## 2. Groups -/

/-- The length of several groups together. -/
def total (lengths : List Nat) : Nat := lengths.foldr (· + ·) 0

theorem flatten_cut (lengths : List Nat) (cs : List Char) :
    (cut lengths cs).flatten = cs.take (total lengths) := by
  induction lengths generalizing cs with
  | nil => simp [cut, total]
  | cons n lengths ih =>
    have htotal : total (n :: lengths) = n + total lengths := rfl
    rw [cut, List.flatten_cons, ih, htotal, List.take_add]

theorem length_cut {lengths : List Nat} {cs : List Char} (h : total lengths ≤ cs.length) :
    (cut lengths cs).map List.length = lengths := by
  induction lengths generalizing cs with
  | nil => rfl
  | cons n lengths ih =>
    have htotal : total (n :: lengths) = n + total lengths := rfl
    rw [htotal] at h
    rw [cut, List.map_cons, List.length_take, ih (by rw [List.length_drop]; omega)]
    congr 1
    omega

theorem mem_cut {lengths : List Nat} {cs group : List Char} (h : group ∈ cut lengths cs) :
    group ⊆ cs := by
  induction lengths generalizing cs with
  | nil => cases h
  | cons n lengths ih =>
    rcases List.mem_cons.mp h with rfl | h
    · exact List.take_subset n cs
    · exact List.Subset.trans (ih h) (List.drop_subset n cs)

theorem toList_text (g : Guid) : g.text.toList = ['-'].intercalate (cut groups g.digits) := by
  rw [text, String.toList_intercalate, List.map_map]
  congr 1
  exact (List.map_congr_left fun cs _ => String.toList_ofList).trans (List.map_id _)

/-! ## 3. Reading -/

theorem ofGroups?_text (g : Guid) : ofGroups? g.text.toList = some g := by
  have hpieces : g.text.toList.splitOnP (· == '-') = cut groups g.digits := by
    rw [toList_text]
    refine List.splitOn_intercalate '-' (fun group hg hm => ?_) nofun
    obtain ⟨d, hd, he⟩ := mem_digits (mem_cut hg hm)
    have hhyphen : ∀ d < 16, '-' ≠ Nat.digitChar d := by decide
    exact hhyphen d hd he
  have hlengths : (cut groups g.digits).map List.length = groups :=
    length_cut (by rw [length_digits]; decide)
  have hflat : (cut groups g.digits).flatten = g.digits := by
    rw [flatten_cut]
    exact List.take_of_length_le (by rw [length_digits]; decide)
  rw [ofGroups?, hpieces]
  simp only [hlengths, hflat, ↓reduceIte]
  exact ofDigits?_digits g

/-- Without blanks there is nothing to trim. -/
theorem trim_of_no_blank {s : String} (h : ∀ c ∈ s.toList, Text.isBlank c = false) :
    Text.trim s = s := by
  have hdrop : ∀ cs : List Char, (∀ c ∈ cs, Text.isBlank c = false) →
      cs.dropWhile Text.isBlank = cs := by
    intro cs hcs
    cases cs with
    | nil => rfl
    | cons c cs => rw [List.dropWhile_cons, hcs c List.mem_cons_self]; rfl
  rw [Text.trim, hdrop _ h, hdrop _ fun c hc => h c (List.mem_reverse.mp hc), List.reverse_reverse,
    String.ofList_toList]

/-- A text consists of digits and hyphens. -/
theorem isBlank_of_mem_text {g : Guid} {c : Char} (h : c ∈ g.text.toList) :
    Text.isBlank c = false := by
  have hdigit : ∀ d < 16, Text.isBlank (Nat.digitChar d) = false := by decide
  have hgroup : ∀ group ∈ cut groups g.digits, ∀ c ∈ group, Text.isBlank c = false := by
    intro group hg c hc
    obtain ⟨d, hd, rfl⟩ := mem_digits (mem_cut hg hc)
    exact hdigit d hd
  rw [toList_text] at h
  generalize cut groups g.digits = ls at h hgroup
  induction ls with
  | nil => cases h
  | cons group ls ih =>
    obtain ⟨hfirst, hrest⟩ := List.forall_mem_cons.mp hgroup
    cases ls with
    | nil => exact hfirst c (by simpa using h)
    | cons group' ls =>
      rw [List.intercalate_cons_cons, List.mem_append, List.mem_append, List.mem_singleton] at h
      rcases h with (h | rfl) | h
      · exact hfirst c h
      · decide
      · exact ih h hrest

/-- The text of an identifier reads as the identifier. -/
theorem readGuid_text (g : Guid) : Standard.readGuid g.text = .ok g := by
  have hlength : g.text.toList.length = 36 := by
    rw [toList_text]
    simp [groups, cut, List.intercalate_cons_cons, length_digits]
  have hparse : parse? g.text = some g := by
    rw [parse?]
    simp only [hlength, ofGroups?_text]
    rfl
  rw [Standard.readGuid, trim_of_no_blank fun c hc => isBlank_of_mem_text hc, hparse]

end Guid

end FatArrow
