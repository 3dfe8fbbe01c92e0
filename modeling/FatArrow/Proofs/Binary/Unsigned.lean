import FatArrow.Decimal.Read
import FatArrow.Proofs.Binary.Bits

/-!
# Floats without a sign

The bits of a float without a sign, up to those of infinity, are counted from zero.  What is made of
such a float, or of a natural, has no sign, either; nor has the float that is nearest to a decimal.
-/

namespace FatArrow.Binary

open Float.Model.UnpackedFloat

/-! ## 1. Bits -/

/-- A number without a sign, or infinity. -/
def Datum.isUnsigned : Datum → Bool
  | .nan => false
  | .infinite negative | .finite negative _ _ => !negative

namespace Format

theorem infinity_lt_signBit (f : Format) : f.infinity < f.signBit := by
  have hL := f.leadingBit_pos
  have hpow : 0 < Nat.pow 2 f.exponent := Nat.pow_pos (by decide)
  have hsign : f.signBit = Nat.pow 2 f.exponent * f.leadingBit := by
    rw [signBit, leadingBit, Nat.add_comm]
    exact Nat.pow_add 2 f.exponent f.fraction
  rw [infinity, hsign]
  exact Nat.mul_lt_mul_of_pos_right (by omega) hL

/-- Bits up to those of infinity stand for a number without a sign, or infinity. -/
theorem isUnsigned_decode {f : Format} {bits : Nat} (h : bits ≤ f.infinity) :
    (f.decode bits).isUnsigned = true := by
  have hlt := Nat.lt_of_le_of_lt h f.infinity_lt_signBit
  have hmod : bits % f.signBit = bits := Nat.mod_eq_of_lt hlt
  have hnegative : decide (bits ≥ f.signBit) = false := decide_eq_false (Nat.not_le.mpr hlt)
  unfold decode
  simp only [hmod, hnegative]
  rw [if_neg (Nat.not_lt.mpr h)]
  split
  · rfl
  · split <;> rfl

theorem encodeRatio_le_infinity (f : Format) (num den : Nat) :
    f.encodeRatio false num den ≤ f.infinity := by
  unfold encodeRatio
  simp only [Bool.false_eq_true, ↓reduceIte]
  split
  · exact Nat.zero_le _
  · exact Nat.min_le_left _ _

theorem encode_le_infinity {f : Format} {d : Datum} (h : d.isUnsigned = true) :
    f.encode d ≤ f.infinity := by
  cases d with
  | nan => cases h
  | infinite negative =>
    cases negative with
    | true => cases h
    | false => exact Nat.le_refl _
  | finite negative m q =>
    cases negative with
    | true => cases h
    | false => exact f.encodeRatio_le_infinity _ _

end Format

/-- The bits of a float of 64 bits that is made of them, up to those of infinity. -/
theorem toBits_ofBits_of_le {w : UInt64} (h : w.toNat ≤ Format.double.infinity) :
    (Float.ofBits w).toBits = w := by
  have hinfinity := Format.double_infinity
  have hsign := Format.double_signBit
  rw [hinfinity] at h
  by_cases hlt : w.toNat < 2047 * 2 ^ 52
  · refine toBits_ofBits ?_
    unfold IsFiniteWord
    rw [hinfinity, hsign, Nat.mod_eq_of_lt (by omega)]
    exact hlt
  · have hw : w = 0x7ff0000000000000 := UInt64.toNat_inj.mp (by
      rw [show (0x7ff0000000000000 : UInt64).toNat = 2047 * 2 ^ 52 from rfl]
      omega)
    rw [hw]
    decide

theorem toNat_unpackExponent32 (w : UInt32) :
    (@unpackExponent .binary32 w.toBitVec).toNat = w.toNat / 2 ^ 23 % 2 ^ 8 := by
  unfold unpackExponent
  rw [BitVec.toNat_cast, BitVec.extractLsb_toNat, Nat.shiftRight_eq_div_pow]
  rfl

theorem toNat_unpackMantissa32 (w : UInt32) :
    (@unpackMantissa .binary32 w.toBitVec).toNat = w.toNat % 2 ^ 23 := by
  unfold unpackMantissa
  rw [BitVec.toNat_cast, BitVec.extractLsb_toNat]
  rfl

theorem toBits_ofBits32_of_le {w : UInt32} (h : w.toNat ≤ Format.single.infinity) :
    (Float32.ofBits w).toBits = w := by
  have hinfinity := Format.single_infinity
  have hnan : @isNaNBits .binary32 w.toBitVec = false := by
    refine decide_eq_false fun ⟨hexponent, hmantissa⟩ => hmantissa ?_
    have hnat := congrArg BitVec.toNat hexponent
    have hones : (-1#8 : BitVec 8).toNat = 255 := by decide
    rw [toNat_unpackExponent32, show (-1#(Float.Model.Format.binary32.exponentBits)).toNat = 255 from hones] at hnat
    refine BitVec.eq_of_toNat_eq ?_
    rw [toNat_unpackMantissa32, BitVec.toNat_zero]
    omega
  show UInt32.ofBitVec (pack .binary32 (unpack .binary32 w.toBitVec)) = w
  rw [@pack_unpack .binary32 _ (by decide), hnan]
  rfl

end FatArrow.Binary

namespace FatArrow

open Binary

/-! ## 2. Floats -/

theorem isUnsigned_ofBits {n : Nat} (h : n ≤ Format.double.infinity) :
    (datumOf (Float.ofBits (UInt64.ofNat n))).isUnsigned = true := by
  have hinfinity := Format.double_infinity
  have hword : (UInt64.ofNat n).toNat = n :=
    UInt64.toNat_ofNat_of_lt' (by rw [hinfinity] at h; show n < 2 ^ 64; omega)
  rw [datumOf, toBits_ofBits_of_le (by rwa [hword]), hword]
  exact Format.isUnsigned_decode h

theorem isUnsigned_floatOf {d : Datum} (h : d.isUnsigned = true) :
    (datumOf (floatOf d)).isUnsigned = true :=
  isUnsigned_ofBits (Format.encode_le_infinity h)

theorem isUnsigned_float32Of {d : Datum} (h : d.isUnsigned = true) :
    (datumOf32 (float32Of d)).isUnsigned = true := by
  have hle : Format.single.encode d ≤ Format.single.infinity := Format.encode_le_infinity h
  have hinfinity := Format.single_infinity
  have hword : (UInt32.ofNat (Format.single.encode d)).toNat = Format.single.encode d :=
    UInt32.toNat_ofNat_of_lt' (by
      rw [hinfinity] at hle
      show Format.single.encode d < 2 ^ 32
      omega)
  rw [datumOf32, float32Of, toBits_ofBits32_of_le (by rwa [hword]), hword]
  exact Format.isUnsigned_decode hle

theorem isUnsigned_datumOfInt {n : Int} (h : 0 ≤ n) : (datumOfInt n).isUnsigned = true := by
  rw [datumOfInt, decide_eq_false (Int.not_lt.mpr h)]
  rfl

/-- The float nearest to a decimal has no sign. -/
theorem Decimal.isUnsigned_nearest (digits : Nat) (exponent : Int) :
    (datumOf (nearest digits exponent)).isUnsigned = true := by
  unfold nearest
  dsimp only
  split
  · refine isUnsigned_floatOf ?_
    split
    · rfl
    · split <;> rfl
  · exact isUnsigned_ofBits (Format.double.encodeRatio_le_infinity _ _)

end FatArrow
