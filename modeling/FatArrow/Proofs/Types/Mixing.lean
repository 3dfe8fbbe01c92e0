import FatArrow.Types.Fingerprint
import Mathlib.Data.UInt
import Mathlib.Tactic.Linarith
import Mathlib.Tactic.LinearCombination
import Mathlib.Tactic.Ring

/-!
# What mixing keeps apart

The words by which fingerprints are multiplied are odd, so that multiplication modulo `2 ^ 64` loses
nothing: all parts of a compound but one being the same, its fingerprint tells what that one is.  The
words of arrays and of nullable types are only added, so that their order is lost and their numbers
are kept.
-/

namespace FatArrow.Fingerprint

open scoped UInt64.CommRing

/-! ## 1. Parts -/

theorem bits_inj {f g : Fingerprint} : f.bits = g.bits ↔ f = g := by
  obtain ⟨f⟩ := f
  obtain ⟨g⟩ := g
  rw [mk.injEq]

theorem separator_mul_inverse : separator * 0xd3f20f0a40208825 = 1 := by decide

theorem mul_separator_inj {x y : UInt64} : x * separator = y * separator ↔ x = y := by
  refine ⟨fun h => ?_, fun h => by rw [h]⟩
  linear_combination 0xd3f20f0a40208825 * h - (x - y) * separator_mul_inverse

/-- One part mixed into what was mixed before, under the marker of its position. -/
def mixOne (acc : UInt64) (part : Fingerprint × Nat) : UInt64 :=
  acc * separator + (positionMark part.2 ^^^ part.1.bits)

theorem mix_eq (start : UInt64) (parts : List Fingerprint) :
    mix start parts = ⟨parts.zipIdx.foldl mixOne start⟩ := rfl

theorem mixOne_inj {a b : UInt64} {part : Fingerprint × Nat} :
    mixOne a part = mixOne b part ↔ a = b := by
  rw [mixOne, mixOne, add_left_inj, mul_separator_inj]

theorem mixOne_part_inj {a : UInt64} {p q : Fingerprint} {i : Nat} :
    mixOne a (p, i) = mixOne a (q, i) ↔ p = q := by
  simp only [mixOne, add_right_inj, UInt64.xor_right_inj, bits_inj]

theorem foldl_mixOne_inj {a b : UInt64} (parts : List (Fingerprint × Nat)) :
    parts.foldl mixOne a = parts.foldl mixOne b ↔ a = b := by
  induction parts generalizing a b with
  | nil => rfl
  | cons part parts ih => rw [List.foldl_cons, List.foldl_cons, ih, mixOne_inj]

/-- The start is told by the parts and what is mixed. -/
theorem mix_inj {a b : UInt64} {parts : List Fingerprint} : mix a parts = mix b parts ↔ a = b := by
  rw [mix_eq, mix_eq, mk.injEq, foldl_mixOne_inj]

/-- So is each part by the others. -/
theorem mix_part_inj {start : UInt64} {before after : List Fingerprint} {p q : Fingerprint} :
    mix start (before ++ p :: after) = mix start (before ++ q :: after) ↔ p = q := by
  simp only [mix_eq, mk.injEq, List.zipIdx_append, List.zipIdx_cons, List.foldl_append,
    List.foldl_cons, foldl_mixOne_inj, mixOne_part_inj]

/-! ## 2. Positions -/

/-- How far the marker of a position is from that of the first. -/
def positionOffset (i : Nat) : Nat := (positionMark i - positionMark 0).toNat

theorem positionOffset_eq {i : Nat} (h : 8 ≤ i) (hi : i < 256) : positionOffset i = i := by
  have hmark : positionMark i = positionMark 0 + UInt64.ofNat i := by
    rw [positionMark, List.getElem?_eq_none h]
    rfl
  rw [positionOffset, hmark, add_sub_cancel_left, UInt64.toNat_ofNat']
  exact Nat.mod_eq_of_lt (by omega)

/-- The first 256 positions have markers of their own. -/
theorem positionMark_inj {i j : Nat} (hi : i < 256) (hj : j < 256)
    (h : positionMark i = positionMark j) : i = j := by
  have hoffset : positionOffset i = positionOffset j := by rw [positionOffset, h, positionOffset]
  -- the first eight are far from each other and from the rest
  have hfirst : ∀ k < 8, positionOffset k = 0 ∧ k = 0 ∨ 256 ≤ positionOffset k := by decide +kernel
  have hapart : ∀ k < 8, ∀ l < 8, positionOffset k = positionOffset l → k = l := by decide +kernel
  by_cases hi' : i < 8 <;> by_cases hj' : j < 8
  · exact hapart i hi' j hj' hoffset
  · have := hfirst i hi'
    have := positionOffset_eq (Nat.le_of_not_lt hj') hj
    omega
  · have := hfirst j hj'
    have := positionOffset_eq (Nat.le_of_not_lt hi') hi
    omega
  · rwa [positionOffset_eq (Nat.le_of_not_lt hi') hi,
      positionOffset_eq (Nat.le_of_not_lt hj') hj] at hoffset

/-! ## 3. Layers -/

/-- What arrays and nullable types add to a fingerprint. -/
def layers (arrays nulls : Nat) : UInt64 :=
  UInt64.ofNat arrays * (arrayMark * separator) + UInt64.ofNat nulls * (nullableMark * separator)

theorem layers_zero : layers 0 0 = 0 := by decide

theorem layers_succ_left (arrays nulls : Nat) :
    layers (arrays + 1) nulls = arrayMark * separator + layers arrays nulls := by
  simp only [layers, UInt64.ofNat_add, UInt64.ofNat_one]
  ring

theorem layers_succ_right (arrays nulls : Nat) :
    layers arrays (nulls + 1) = nullableMark * separator + layers arrays nulls := by
  simp only [layers, UInt64.ofNat_add, UInt64.ofNat_one]
  ring

/-- A combination of the two markers is no multiple of `2 ^ 64` unless a factor is large.  The factors
for which it is one form a lattice, in which the vector below is among the shortest. -/
theorem eq_zero_of_dvd {x y : Int} (hx : |x| < 2 ^ 31) (hy : |y| < 2 ^ 31)
    (h : (2 ^ 64 : Int) ∣ x * 0x7d3c8b4a92e15f6d + y * 0x3e9f5d2a8c7b1403) : x = 0 ∧ y = 0 := by
  have hsmall : |x * 5693234171 - y * 1248113643| < 2 ^ 64 := by
    rw [abs_lt] at *
    constructor <;> linarith
  have hcross : (2 ^ 64 : Int) ∣ x * 5693234171 - y * 1248113643 := by
    obtain ⟨t, ht⟩ := h
    exact ⟨-919776868343791609 * t + 449959516232563338 * x + 224995082264220600 * y,
      by linear_combination -919776868343791609 * ht⟩
  have hparallel := Int.eq_zero_of_abs_lt_dvd hcross hsmall
  -- so the factors are a multiple of the vector, and less than it
  have hdvd : (5693234171 : Int) ∣ y :=
    Int.dvd_of_dvd_mul_left_of_gcd_one (b := y) (c := 1248113643) ⟨x, by linarith⟩ (by decide)
  have hzero : y = 0 := Int.eq_zero_of_abs_lt_dvd hdvd (by linarith)
  subst hzero
  exact ⟨by linarith, rfl⟩

theorem abs_sub_lt_of_lt {k l : Nat} (hk : k < 2 ^ 31) (hl : l < 2 ^ 31) :
    |(k : Int) - l| < 2 ^ 31 := by
  rw [abs_lt]
  omega

/-- Layers of each kind are told by what they add. -/
theorem layers_inj {a b m n : Nat} (ha : a < 2 ^ 31) (hb : b < 2 ^ 31) (hm : m < 2 ^ 31)
    (hn : n < 2 ^ 31) (h : layers a m = layers b n) : a = b ∧ m = n := by
  have hmarks : UInt64.ofNat a * arrayMark + UInt64.ofNat m * nullableMark =
      UInt64.ofNat b * arrayMark + UInt64.ofNat n * nullableMark := by
    rw [← mul_separator_inj]
    unfold layers at h
    linear_combination h
  have hmod : (a * 0x7d3c8b4a92e15f6d + m * 0x3e9f5d2a8c7b1403) % 2 ^ 64 =
      (b * 0x7d3c8b4a92e15f6d + n * 0x3e9f5d2a8c7b1403) % 2 ^ 64 := by
    simpa [arrayMark, nullableMark] using congrArg UInt64.toNat hmarks
  have hdvd : (2 ^ 64 : Int) ∣
      ((a : Int) - b) * 0x7d3c8b4a92e15f6d + ((m : Int) - n) * 0x3e9f5d2a8c7b1403 := by
    have hdiff := Nat.modEq_iff_dvd.mp (Eq.symm hmod)
    push_cast at hdiff
    have hregroup : ((a : Int) - b) * 0x7d3c8b4a92e15f6d + ((m : Int) - n) * 0x3e9f5d2a8c7b1403 =
        a * 0x7d3c8b4a92e15f6d + m * 0x3e9f5d2a8c7b1403 -
          (b * 0x7d3c8b4a92e15f6d + n * 0x3e9f5d2a8c7b1403) := by
      ring
    rw [hregroup]
    exact hdiff
  obtain ⟨hab, hmn⟩ := eq_zero_of_dvd (abs_sub_lt_of_lt ha hb) (abs_sub_lt_of_lt hm hn) hdvd
  exact ⟨Int.ofNat_inj.mp (sub_eq_zero.mp hab), Int.ofNat_inj.mp (sub_eq_zero.mp hmn)⟩

end FatArrow.Fingerprint
