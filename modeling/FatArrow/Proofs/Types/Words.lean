import FatArrow.Types.Primitive
import Mathlib.Data.Int.ModEq
import Mathlib.Tactic.NormNum
import Mathlib.Tactic.Positivity

/-!
# Words of integer types

A word denotes an integer of its type, and each of these has its own word.  Any other integer is kept
up to a multiple of the range of the type.
-/

namespace FatArrow

namespace IntegerKind

variable {a b k : IntegerKind} {n : Int}

/-! ## 1. Integers of a type -/

/-- An integer of the type. -/
def Fits (k : IntegerKind) (n : Int) : Prop := k.least ≤ n ∧ n ≤ k.greatest

instance (k : IntegerKind) (n : Int) : Decidable (k.Fits n) :=
  inferInstanceAs (Decidable (_ ∧ _))

theorem fits_denote (w : BitVec k.width) : k.Fits (k.denote w) := by
  have hlt := w.isLt
  have hlower := w.le_toInt
  have hupper := w.toInt_lt
  unfold Fits
  -- kind by kind, the bounds of a word against those of its type
  cases k <;>
    simp only [denote, least, greatest, signed, width, ↓reduceIte, Bool.false_eq_true] at * <;>
    norm_num at * <;> omega

theorem denote_le_greatest (k : IntegerKind) (w : BitVec k.width) : k.denote w ≤ k.greatest :=
  (fits_denote w).2

theorem natAbs_denote_lt (k : IntegerKind) (w : BitVec k.width) : (k.denote w).natAbs < 2 ^ 64 := by
  obtain ⟨hlow, hhigh⟩ := fits_denote w
  have hleast : -2 ^ 63 ≤ k.least := by cases k <;> decide
  have hgreatest : k.greatest < 2 ^ 64 := by cases k <;> decide
  omega

theorem greatest_le_of_widensTo (h : a.widensTo b = true) : a.greatest ≤ b.greatest := by
  cases a <;> cases b <;> first | (cases h; done) | decide

theorem least_le_of_widensTo (h : a.widensTo b = true) : b.least ≤ a.least := by
  cases a <;> cases b <;> first | (cases h; done) | decide

/-- A type to which another widens has all its integers. -/
theorem Fits.widen (hn : a.Fits n) (h : a.widensTo b = true) : b.Fits n :=
  ⟨(least_le_of_widensTo h).trans hn.1, hn.2.trans (greatest_le_of_widensTo h)⟩

/-! ## 2. The word of an integer -/

theorem width_le (k : IntegerKind) : k.width ≤ 64 := by
  cases k <;> decide

theorem wrap_denote (k : IntegerKind) (w : BitVec k.width) : k.wrap (k.denote w) = w := by
  unfold wrap denote
  split
  · exact BitVec.ofInt_toInt
  · rw [BitVec.ofInt_natCast, BitVec.ofNat_toNat, BitVec.setWidth_eq]

theorem bmod_modEq (n : Int) (m : Nat) : n.bmod m ≡ n [ZMOD m] := Int.bmod_emod

/-- A word keeps an integer up to a multiple of the range of its type. -/
theorem denote_wrap_modEq (k : IntegerKind) (n : Int) :
    k.denote (k.wrap n) ≡ n [ZMOD 2 ^ k.width] := by
  have hcast : (2 : Int) ^ k.width = (2 ^ k.width : Nat) := by norm_cast
  unfold denote wrap
  rw [hcast]
  split
  · rw [BitVec.toInt_ofInt]
    exact bmod_modEq n _
  · rw [BitVec.toNat_ofInt, Int.toNat_of_nonneg (Int.emod_nonneg _ (by positivity))]
    exact Int.mod_modEq n _

/-- Two integers of the type that differ by a multiple of its range do not differ. -/
theorem Fits.eq_of_modEq {m : Int} (hm : k.Fits m) (hn : k.Fits n) (h : m ≡ n [ZMOD 2 ^ k.width]) :
    m = n := by
  have hrange : k.greatest - k.least < 2 ^ k.width := by
    cases k <;> decide
  have hsmall : |n - m| < 2 ^ k.width := by
    rw [abs_lt]
    unfold Fits at hm hn
    omega
  have hzero := Int.eq_zero_of_abs_lt_dvd h.dvd hsmall
  omega

/-- The word of an integer denotes it exactly where the integer is one of the type. -/
theorem denote_wrap_eq_iff : k.denote (k.wrap n) = n ↔ k.Fits n := by
  constructor
  · intro hsame
    rw [← hsame]
    exact fits_denote _
  · intro hn
    exact (fits_denote _).eq_of_modEq hn (k.denote_wrap_modEq n)

theorem denote_wrap (hn : 0 ≤ n) (h : n ≤ k.greatest) : k.denote (k.wrap n) = n := by
  have hleast : k.least ≤ 0 := by
    cases k <;> decide
  exact denote_wrap_eq_iff.mpr ⟨hleast.trans hn, h⟩

end IntegerKind

end FatArrow
