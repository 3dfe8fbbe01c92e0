import FatArrow.Decimal.Read
import FatArrow.Proofs.Binary.Bits

/-!
# The float nearest to a decimal

The nearest float goes by the value of a decimal, not by how it is written.  It is the float in whose
interval the decimal lies, and finite for any decimal that is not too large.
-/

namespace FatArrow.Decimal

open Binary

variable {d d' m : Nat} {e e' q : Int}

/-! ## 1. The size of a decimal -/

/-- The number of digits before the point of a decimal. -/
def sizeOf (d : Nat) (e : Int) : Int := (Nat.toDigits 10 d).length + e

theorem size_bounds (hd : 0 < d) :
    (10 : ℚ) ^ (sizeOf d e - 1) ≤ d * 10 ^ e ∧ (d : ℚ) * 10 ^ e < 10 ^ sizeOf d e := by
  have hpos : (0 : ℚ) < 10 ^ e := zpow_pos (by norm_num) e
  have hlength : 0 < (Nat.toDigits 10 d).length := Nat.length_toDigits_pos
  have hhigh := (Nat.length_toDigits_le_iff (by decide) hlength).mp (Nat.le_refl _)
  have hlow : 10 ^ ((Nat.toDigits 10 d).length - 1) ≤ d := by
    rcases Nat.eq_zero_or_pos ((Nat.toDigits 10 d).length - 1) with hz | hp
    · rw [hz]
      exact hd
    · rw [← not_lt, ← Nat.length_toDigits_le_iff (by decide) hp]
      omega
  unfold sizeOf
  constructor
  · rw [show ((Nat.toDigits 10 d).length : Int) + e - 1 =
      (((Nat.toDigits 10 d).length - 1 : Nat) : Int) + e by omega, zpow_add₀ (by norm_num), zpow_natCast]
    exact mul_le_mul_of_nonneg_right (by exact_mod_cast hlow) hpos.le
  · rw [zpow_add₀ (by norm_num), zpow_natCast]
    exact mul_lt_mul_of_pos_right (by exact_mod_cast hhigh) hpos

theorem ten_zpow_lt_iff {a b : Int} : (10 : ℚ) ^ a < 10 ^ b ↔ a < b :=
  zpow_lt_zpow_iff_right₀ (by norm_num)

theorem size_congr (hd : 0 < d) (hd' : 0 < d') (h : (d : ℚ) * 10 ^ e = d' * 10 ^ e') :
    sizeOf d e = sizeOf d' e' := by
  obtain ⟨hlow, hhigh⟩ := size_bounds (e := e) hd
  obtain ⟨hlow', hhigh'⟩ := size_bounds (e := e') hd'
  rw [h] at hlow hhigh
  have h1 := ten_zpow_lt_iff.mp (hlow.trans_lt hhigh')
  have h2 := ten_zpow_lt_iff.mp (hlow'.trans_lt hhigh)
  omega

/-! ## 2. The nearest float -/

/-- The nearest float goes by the value of a decimal. -/
theorem nearest_congr (h : (d : ℚ) * 10 ^ e = d' * 10 ^ e') : nearest d e = nearest d' e' := by
  have hpos : (0 : ℚ) < 10 ^ e := zpow_pos (by norm_num) e
  have hpos' : (0 : ℚ) < 10 ^ e' := zpow_pos (by norm_num) e'
  by_cases hz : d = 0
  · have hz' : d' = 0 := by
      rw [hz, Nat.cast_zero, zero_mul] at h
      have := (mul_eq_zero.mp h.symm).resolve_right hpos'.ne'
      exact_mod_cast this
    rw [hz, hz']
    unfold nearest
    simp
  · have hz' : d' ≠ 0 := by
      rintro rfl
      rw [Nat.cast_zero, zero_mul] at h
      have := (mul_eq_zero.mp h).resolve_right hpos.ne'
      exact hz (by exact_mod_cast this)
    have hsize : ((Nat.toDigits 10 d).length : Int) + e = (Nat.toDigits 10 d').length + e' :=
      size_congr (Nat.pos_of_ne_zero hz) (Nat.pos_of_ne_zero hz') h
    have hencode := Format.encodeRatio_congr (f := .double) false
      (scaledBy_den_pos d (-e) (by decide : 0 < 10) Nat.one_pos)
      (scaledBy_den_pos d' (-e') (by decide : 0 < 10) Nat.one_pos)
      (by rw [scaledBy_ten_div, scaledBy_ten_div, h])
    unfold nearest
    simp only [hz, hz', hsize, hencode, ↓reduceIte]

theorem two_zpow_lt_ten_zpow : (2 : ℚ) ^ (1100 : Int) < 10 ^ (400 : Int) := by
  have hpow : ((2 : ℚ) ^ 11) ^ 100 < (10 ^ 4) ^ 100 :=
    pow_lt_pow_left₀ (by norm_num) (by norm_num) (by decide)
  rw [← pow_mul, ← pow_mul] at hpow
  rw [zpow_ofNat, zpow_ofNat]
  exact hpow

/-- A decimal with a size above four hundred is out of range. -/
theorem size_le (hd : 0 < d) (hhigh : (d : ℚ) * 10 ^ e ≤ 2 ^ (1100 : Int)) : sizeOf d e ≤ 400 := by
  have := ten_zpow_lt_iff.mp (((size_bounds (e := e) hd).1.trans hhigh).trans_lt two_zpow_lt_ten_zpow)
  omega

/-- A decimal within the range of the format is rounded to the nearest datum. -/
theorem nearest_eq_ofBits (hd : 0 < d) (hlow : (2 : ℚ) ^ (-1100 : Int) ≤ d * 10 ^ e)
    (hhigh : (d : ℚ) * 10 ^ e ≤ 2 ^ (1100 : Int)) :
    nearest d e = Float.ofBits (UInt64.ofNat (Format.double.encodeRatio false
      (scaledBy 10 d 1 (-e)).1 (scaledBy 10 d 1 (-e)).2)) := by
  have hlarge := size_le hd hhigh
  have hsmall : -400 < sizeOf d e := by
    rw [← ten_zpow_lt_iff]
    refine lt_of_le_of_lt (le_trans ?_ hlow) (size_bounds hd).2
    rw [zpow_neg, zpow_neg]
    exact inv_anti₀ (two_zpow_pos _) two_zpow_lt_ten_zpow.le
  unfold sizeOf at hlarge hsmall
  unfold nearest
  simp only
  rw [if_neg]
  omega

/-- The nearest float of a decimal in the interval of a datum has the bits of the datum. -/
theorem nearest_of_contains (hq : Format.double.Canonical m q) (hm : 0 < m) (hhigh : q ≤ 1000)
    (h : (interval .double m q).Contains (d * 10 ^ e)) :
    nearest d e = Float.ofBits (UInt64.ofNat (min Format.double.infinity
      ((q - Format.double.minExponent).toNat * Format.double.leadingBit + m))) := by
  obtain ⟨hle, hle', -, -⟩ := interval_bounds hm h
  have hpos := two_zpow_pos q
  have hmin : -1074 ≤ q := hq.least
  have hmone : (1 : ℚ) ≤ m := by exact_mod_cast hm
  have hroom : (m : ℚ) + 1 ≤ 2 ^ (53 : Int) := by
    have hlt : m < 2 * Format.double.leadingBit := hq.room
    have : m + 1 ≤ 2 ^ 53 := hlt
    exact_mod_cast this
  have hlow : (2 : ℚ) ^ (-1100 : Int) ≤ d * 10 ^ e := by
    have hpow := two_zpow_le (show -1100 + 1 ≤ q by omega)
    rw [two_zpow_succ] at hpow
    nlinarith
  have hhigh : (d : ℚ) * 10 ^ e ≤ 2 ^ (1100 : Int) := by
    have hpow := two_zpow_le (show 53 + q ≤ 1100 by omega)
    rw [zpow_add₀ (by norm_num)] at hpow
    refine le_trans (hle'.trans ?_) ((mul_le_mul_of_nonneg_right hroom hpos.le).trans hpow)
    exact mul_le_mul_of_nonneg_right (by linarith) hpos.le
  have hd : 0 < d := by
    rw [Nat.pos_iff_ne_zero]
    rintro rfl
    rw [Nat.cast_zero, zero_mul] at hlow
    exact absurd hlow (not_le.mpr (two_zpow_pos _))
  rw [nearest_eq_ofBits hd hlow hhigh, encodeRatio_eq hq hm
    (scaledBy_num_pos (-e) (by decide) hd) (scaledBy_den_pos d (-e) (by decide) Nat.one_pos)]
  rwa [scaledBy_ten_div]

/-- The float of a word that the format counts as finite. -/
theorem isFinite_ofNat {n : Nat} (h : n < Format.double.infinity) :
    IsFiniteWord (Float.ofBits (UInt64.ofNat n)).toBits := by
  have hinfinity := Format.double_infinity
  have hsign := Format.double_signBit
  have hword : IsFiniteWord (UInt64.ofNat n) := by
    unfold IsFiniteWord
    rw [UInt64.toNat_ofNat_of_lt' (by rw [hinfinity] at h; show n < 2 ^ 64; omega)]
    rw [hinfinity] at h ⊢
    rw [hsign]
    omega
  rwa [toBits_ofBits hword]

/-- Decimals that are not too large have a finite nearest float. -/
theorem isFinite_nearest (h : (d : ℚ) * 10 ^ e < 2 ^ (500 : Int)) :
    IsFiniteWord (nearest d e).toBits := by
  have hzero : IsFiniteWord (floatOf (.finite false 0 0)).toBits := isFinite_ofNat (by decide)
  by_cases hz : d = 0
  · subst hz
    unfold nearest
    simpa using hzero
  · have hd := Nat.pos_of_ne_zero hz
    have hlarge := size_le hd (h.le.trans (two_zpow_le (by decide)))
    unfold sizeOf at hlarge
    unfold nearest
    simp only [hz, ↓reduceIte, false_or]
    rw [if_neg (show ¬((Nat.toDigits 10 d).length : Int) + e > 400 by omega)]
    split
    · exact hzero
    · refine isFinite_ofNat (Format.encodeRatio_lt_infinity (k := 500)
        (scaledBy_num_pos (-e) (by decide) hd) (scaledBy_den_pos d (-e) (by decide) Nat.one_pos) ?_
        (by decide) (by decide))
      rwa [scaledBy_ten_div]

end FatArrow.Decimal
