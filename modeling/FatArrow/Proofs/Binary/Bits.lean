import FatArrow.Proofs.Binary.Rounding
import FatArrow.Tree.Printer
import Mathlib

/-!
# Floats and their bits

A finite float is made of its bits and nothing else, and the bits of a finite datum are counted up
from its significand and its exponent.
-/

namespace FatArrow.Binary

open Float.Model.UnpackedFloat

/-! ## 1. Finite floats -/

namespace Format

theorem double_signBit : double.signBit = 2 ^ 63 := by decide

theorem double_infinity : double.infinity = 2047 * 2 ^ 52 := by decide

theorem double_minExponent : double.minExponent = -1074 := by decide

theorem single_signBit : single.signBit = 2 ^ 31 := by decide

theorem single_infinity : single.infinity = 255 * 2 ^ 23 := by decide

theorem single_minExponent : single.minExponent = -149 := by decide

end Format

/-- The bits of a finite float of 64 bits, whatever its sign. -/
def IsFiniteWord (w : UInt64) : Prop :=
  w.toNat % Format.double.signBit < Format.double.infinity

instance : DecidablePred IsFiniteWord := fun _ => inferInstanceAs (Decidable (_ < _))

theorem unpackExponent_ne {w : UInt64} (h : IsFiniteWord w) :
    @unpackExponent .binary64 w.toBitVec ≠ -1#_ := by
  intro heq
  have hnat := congrArg BitVec.toNat heq
  have hexponent : (@unpackExponent .binary64 w.toBitVec).toNat =
      w.toNat / 2 ^ 52 % 2 ^ 11 := by
    unfold unpackExponent
    rw [BitVec.toNat_cast, BitVec.extractLsb_toNat, Nat.shiftRight_eq_div_pow]
    rfl
  rw [hexponent] at hnat
  have hones : (-1#11 : BitVec 11).toNat = 2047 := by decide
  have hsign := Format.double_signBit
  have hinfinity := Format.double_infinity
  unfold IsFiniteWord at h
  rw [hsign, hinfinity] at h
  rw [show (-BitVec.ofNat Float.Model.Format.binary64.exponentBits 1).toNat = 2047 from hones] at hnat
  omega

/-- The bits that a finite float is made of. -/
theorem toBits_ofBits {w : UInt64} (h : IsFiniteWord w) : (Float.ofBits w).toBits = w := by
  have hnan : @isNaNBits .binary64 w.toBitVec = false :=
    decide_eq_false fun hw => unpackExponent_ne h hw.1
  show UInt64.ofBitVec (pack .binary64 (unpack .binary64 w.toBitVec)) = w
  rw [@pack_unpack .binary64 _ (by decide), hnan]
  rfl

theorem isFinite_unpack {w : UInt64} (h : IsFiniteWord w) :
    (unpack .binary64 w.toBitVec).isFinite = true := by
  unfold unpack
  simp only [unpackExponent_ne h, ↓reduceIte]
  split
  · split <;> rfl
  · rfl

theorem isFinite_of_word {x : Float} (h : IsFiniteWord x.toBits) : x.isFinite = true :=
  isFinite_unpack h

/-- A finite float is a number. -/
theorem floatName?_of_word {x : Float} (h : IsFiniteWord x.toBits) : floatName? x = none := by
  have hfinite := isFinite_unpack h
  have hnan : x.isNaN = (unpack .binary64 x.toBits.toBitVec).isNaN := rfl
  have hinf : x.isInf = (unpack .binary64 x.toBits.toBitVec).isInf := rfl
  unfold floatName?
  rw [hnan, hinf]
  generalize unpack .binary64 x.toBits.toBitVec = u at *
  cases u <;> first | rfl | cases hfinite

/-! ## 2. The bits of a datum -/

/-- A word that is decoded to a finite datum counts its exponent and its significand. -/
theorem Format.decode_eq_finite {f : Format} {bits m : Nat} {negative : Bool} {q : Int}
    (h : f.decode bits = .finite negative m q) :
    f.Canonical m q ∧ bits % f.signBit = (q - f.minExponent).toNat * f.leadingBit + m ∧
      bits % f.signBit < f.infinity ∧ negative = decide (bits ≥ f.signBit) := by
  unfold decode at h
  have hL := f.leadingBit_pos
  have hsplit := Nat.div_add_mod (bits % f.signBit) f.leadingBit
  have hlow := Nat.mod_lt (bits % f.signBit) hL
  dsimp only at h
  split at h
  · cases h
  · split at h
    · cases h
    · have hlt : bits % f.signBit < f.infinity := by omega
      -- the stored exponent and the bits behind it
      generalize bits % f.signBit / f.leadingBit = stored at *
      generalize bits % f.signBit % f.leadingBit = low at *
      split at h
      · next hzero =>
        cases h
        rw [hzero, Nat.mul_zero, Nat.zero_add] at hsplit
        refine ⟨⟨Int.le_refl _, by omega, fun h => absurd h (Int.lt_irrefl _)⟩, ?_, hlt, rfl⟩
        rw [Int.sub_self, Int.toNat_zero, Nat.zero_mul, Nat.zero_add, hsplit]
      · next hzero =>
        cases h
        refine ⟨⟨by omega, by omega, fun _ => by omega⟩, ?_, hlt, rfl⟩
        have hstored : (f.minExponent + ((stored : Int) - 1) - f.minExponent).toNat = stored - 1 := by
          omega
        have hstep : f.leadingBit * stored = (stored - 1) * f.leadingBit + f.leadingBit := by
          rw [← Nat.add_one_mul, Nat.sub_add_cancel (Nat.pos_of_ne_zero hzero), Nat.mul_comm]
        rw [← hsplit, hstored, hstep]
        omega

/-! ## 3. The range of exponents -/

section

variable {m : Nat} {negative : Bool} {q : Int}

/-- The range of the exponents of a format. -/
theorem exponent_le {f : Format} {bits : Nat} (h : f.decode bits = .finite negative m q) :
    q ≤ f.minExponent + (2 ^ f.exponent : Nat) := by
  obtain ⟨-, hbits, hfinite, -⟩ := Format.decode_eq_finite h
  have hinfinity : f.infinity = (2 ^ f.exponent - 1) * f.leadingBit := rfl
  rw [hbits, hinfinity] at hfinite
  have hlt := lt_of_mul_lt_mul_right (lt_of_le_of_lt (Nat.le_add_right _ m) hfinite) (Nat.zero_le _)
  omega

theorem double_exponent {x : Float} (h : datumOf x = .finite negative m q) :
    -1074 ≤ q ∧ q ≤ 974 := by
  have hmin := Format.double_minExponent
  have hpow : (2 ^ Format.double.exponent : Nat) = 2048 := by decide
  have hlow := (Format.decode_eq_finite h).1.least
  have hhigh := exponent_le h
  rw [hmin] at hlow hhigh
  rw [hpow] at hhigh
  omega

theorem single_exponent {x : Float32} (h : datumOf32 x = .finite negative m q) :
    -149 ≤ q ∧ q ≤ 107 := by
  have hmin := Format.single_minExponent
  have hpow : (2 ^ Format.single.exponent : Nat) = 256 := by decide
  have hlow := (Format.decode_eq_finite h).1.least
  have hhigh := exponent_le h
  rw [hmin] at hlow hhigh
  rw [hpow] at hhigh
  omega

end

end FatArrow.Binary
