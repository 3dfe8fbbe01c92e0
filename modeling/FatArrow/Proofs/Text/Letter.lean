import FatArrow.Text.Letter

/-!
# Letters are neither blanks nor digits

The classes of characters by which a text is scanned do not overlap where it matters.
-/

namespace FatArrow.Text

/-- A pair of boundaries is one interval. -/
theorem within_cons_cons (a b : Nat) (bounds : List Nat) (c : Char) :
    within (a :: b :: bounds) c =
      if a ≤ c.toNat then (if b ≤ c.toNat then within bounds c else true) else false := by
  unfold within
  by_cases ha : a ≤ c.toNat
  · by_cases hb : b ≤ c.toNat
    · simp only [ha, hb, decide_true, List.takeWhile_cons_of_pos, List.length_cons, ↓reduceIte]
      rw [Nat.add_assoc, Nat.add_mod_right]
    · simp [ha, hb]
  · simp [ha]

/-- The blanks one by one. -/
def blanks : List Nat := [
  0x9, 0xa, 0xb, 0xc, 0xd, 0x20, 0x85, 0xa0, 0x1680, 0x2000, 0x2001, 0x2002, 0x2003, 0x2004, 0x2005,
  0x2006, 0x2007, 0x2008, 0x2009, 0x200a, 0x2028, 0x2029, 0x202f, 0x205f, 0x3000]

theorem mem_blanks_of_isBlank {c : Char} (h : isBlank c = true) : c.toNat ∈ blanks := by
  simp only [isBlank, blankBounds, within_cons_cons] at h
  simp only [blanks, List.mem_cons, List.not_mem_nil, or_false]
  generalize c.toNat = n at h ⊢
  have hnil : within [] c = false := rfl
  simp only [hnil] at h
  grind

/-- No letter is a blank. -/
theorem isBlank_of_isNameStart {c : Char} (h : isNameStart c = true) : isBlank c = false := by
  have hall : ∀ n ∈ blanks, isNameStart (Char.ofNat n) = false := by decide +kernel
  refine Bool.eq_false_iff.mpr fun hb => ?_
  have := hall _ (mem_blanks_of_isBlank hb)
  rw [Char.ofNat_toNat, h] at this
  cases this

/-- The characters that open a piece of text other than a name. -/
def openers : List Char :=
  ['0', '1', '2', '3', '4', '5', '6', '7', '8', '9', '/', '"', '@', '\'', '.', '<', '>', '=']

theorem not_mem_openers_of_isNameStart {c : Char} (h : isNameStart c = true) : c ∉ openers := by
  have hall : openers.any isNameStart = false := by decide
  exact fun hc => List.any_eq_false.mp hall c hc h

theorem mem_openers_of_isDigit {c : Char} (h : isDigit c = true) : c ∈ openers := by
  have hrange : 48 ≤ c.toNat ∧ c.toNat ≤ 57 := by
    simpa [isDigit, Char.le_def, UInt32.le_iff_toNat_le] using h
  have hall : ∀ n < 10, Char.ofNat (48 + n) ∈ openers := by decide
  have hc : 48 + (c.toNat - 48) = c.toNat := by omega
  rw [← Char.ofNat_toNat c, ← hc]
  exact hall _ (by omega)

/-- No letter is a digit. -/
theorem isDigit_of_isNameStart {c : Char} (h : isNameStart c = true) : isDigit c = false := by
  exact Bool.eq_false_iff.mpr fun hd =>
    not_mem_openers_of_isNameStart h (mem_openers_of_isDigit hd)

end FatArrow.Text
