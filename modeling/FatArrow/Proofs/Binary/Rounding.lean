import FatArrow.Decimal.Shortest
import Mathlib.Algebra.Order.Field.Power
import Mathlib.Algebra.Order.Field.Rat
import Mathlib.Tactic.FieldSimp
import Mathlib.Tactic.Linarith
import Mathlib.Tactic.Ring

/-!
# Rounding to the nearest datum

A ratio of naturals is rounded by its value.  Every ratio in the interval of a datum is rounded to
that datum, also where it lies below a power of two and fills the significand one exponent lower.
-/

namespace FatArrow.Decimal

/-- A number lies in an interval. -/
def Interval.Contains (i : Interval) (v : ℚ) : Prop :=
  if i.closed then i.low * 2 ^ i.unit ≤ v ∧ v ≤ i.high * 2 ^ i.unit
  else i.low * 2 ^ i.unit < v ∧ v < i.high * 2 ^ i.unit

end FatArrow.Decimal

namespace FatArrow.Binary

variable {f : Format} {num den m : Nat} {q : Int}

/-! ## 1. Ratios -/

section Ratios

variable {base : Nat} (num : Nat) (e : Int)

/-- Scaling divides the value by a power. -/
theorem scaledBy_div (den : Nat) (hb : 0 < base) :
    ((scaledBy base num den e).1 : ℚ) / (scaledBy base num den e).2 =
      (num : ℚ) / den / (base : ℚ) ^ e := by
  have hbase : (base : ℚ) ≠ 0 := by exact_mod_cast hb.ne'
  unfold scaledBy
  split
  · next h =>
    have hpow : (base : ℚ) ^ e = (base : ℚ) ^ e.toNat := by
      rw [← zpow_natCast, Int.toNat_of_nonneg h]
    rw [hpow, div_div]
    push_cast [Nat.pow_eq]
    rfl
  · next h =>
    have hpow : (base : ℚ) ^ e = ((base : ℚ) ^ (-e).toNat)⁻¹ := by
      rw [← zpow_natCast, Int.toNat_of_nonneg (by omega), zpow_neg, inv_inv]
    rw [hpow, div_inv_eq_mul, div_mul_eq_mul_div]
    push_cast [Nat.pow_eq]
    rfl

theorem scaledBy_den_pos (hb : 0 < base) (hd : 0 < den) : 0 < (scaledBy base num den e).2 := by
  unfold scaledBy
  split
  · exact Nat.mul_pos hd (Nat.pow_pos hb)
  · exact hd

theorem scaledBy_num_pos {num : Nat} (hb : 0 < base) (hn : 0 < num) : 0 < (scaledBy base num den e).1 := by
  unfold scaledBy
  split
  · exact hn
  · exact Nat.mul_pos hn (Nat.pow_pos hb)

theorem scaledBy_zero (base den : Nat) : (scaledBy base 0 den e).1 = 0 := by
  unfold scaledBy
  split
  · rfl
  · exact Nat.zero_mul _

/-- The whole part of a scaled ratio. -/
theorem le_scaledBy_iff (k : Nat) (hb : 0 < base) (hd : 0 < den) :
    k ≤ (scaledBy base num den e).1 / (scaledBy base num den e).2 ↔
      (k : ℚ) * (base : ℚ) ^ e ≤ num / den := by
  have hpos := scaledBy_den_pos num e hb hd
  have hden : (0 : ℚ) < (scaledBy base num den e).2 := by exact_mod_cast hpos
  have hpow : (0 : ℚ) < (base : ℚ) ^ e := zpow_pos (by exact_mod_cast hb) e
  rw [Nat.le_div_iff_mul_le hpos, ← le_div_iff₀ hpow, ← scaledBy_div num e den hb, le_div_iff₀ hden]
  exact_mod_cast Iff.rfl

/-- A decimal as a ratio. -/
theorem scaledBy_ten_div (d : Nat) (e : Int) :
    ((scaledBy 10 d 1 (-e)).1 : ℚ) / (scaledBy 10 d 1 (-e)).2 = d * 10 ^ e := by
  have := scaledBy_div d (-e) 1 (by decide : 0 < 10)
  rw [Nat.cast_one, div_one, zpow_neg, div_inv_eq_mul] at this
  exact_mod_cast this

end Ratios

theorem two_zpow_pos (e : Int) : (0 : ℚ) < 2 ^ e := zpow_pos (by norm_num) e

theorem two_zpow_le {a b : Int} (h : a ≤ b) : (2 : ℚ) ^ a ≤ 2 ^ b :=
  zpow_le_zpow_right₀ (by norm_num) h

theorem two_zpow_succ (e : Int) : (2 : ℚ) ^ (e + 1) = 2 * 2 ^ e := by
  rw [zpow_add_one₀ (by norm_num), mul_comm]

/-- The logarithms of both naturals bound a ratio. -/
theorem ratio_log2 (hn : 0 < num) (hd : 0 < den) :
    (2 : ℚ) ^ ((num.log2 : Int) - den.log2 - 1) < num / den ∧
      (num : ℚ) / den < 2 ^ ((num.log2 : Int) - den.log2 + 1) := by
  have hden : (0 : ℚ) < den := by exact_mod_cast hd
  have bounds (n : Nat) (h : 0 < n) : (2 : ℚ) ^ (n.log2 : Int) ≤ n ∧ (n : ℚ) < 2 ^ ((n.log2 : Int) + 1) := by
    have hle := Nat.log2_self_le h.ne'
    have hlt := Nat.lt_log2_self (n := n)
    rw [zpow_natCast]
    refine ⟨by exact_mod_cast hle, ?_⟩
    exact_mod_cast hlt
  obtain ⟨hnle, hnlt⟩ := bounds num hn
  obtain ⟨hdle, hdlt⟩ := bounds den hd
  constructor
  · rw [lt_div_iff₀ hden]
    calc (2 : ℚ) ^ ((num.log2 : Int) - den.log2 - 1) * den
        < 2 ^ ((num.log2 : Int) - den.log2 - 1) * 2 ^ ((den.log2 : Int) + 1) :=
          mul_lt_mul_of_pos_left hdlt (two_zpow_pos _)
      _ = 2 ^ (num.log2 : Int) := by
          rw [← zpow_add₀ (by norm_num)]
          congr 1
          omega
      _ ≤ num := hnle
  · rw [div_lt_iff₀ hden]
    calc (num : ℚ) < 2 ^ ((num.log2 : Int) + 1) := hnlt
      _ = 2 ^ ((num.log2 : Int) - den.log2 + 1) * 2 ^ (den.log2 : Int) := by
          rw [← zpow_add₀ (by norm_num)]
          congr 1
          omega
      _ ≤ 2 ^ ((num.log2 : Int) - den.log2 + 1) * den :=
          mul_le_mul_of_nonneg_left hdle (two_zpow_pos _).le

/-! ## 2. The exponent and the significand -/

namespace Format

theorem leadingBit_pos (f : Format) : 0 < f.leadingBit := Nat.pow_pos (by decide)

theorem cast_leadingBit (f : Format) : (f.leadingBit : ℚ) = 2 ^ (f.fraction : Int) := by
  rw [leadingBit, zpow_natCast]
  push_cast [Nat.pow_eq]
  rfl

theorem scaled_div (num den : Nat) (e : Int) :
    ((scaled num den e).1 : ℚ) / (scaled num den e).2 = (num : ℚ) / den / 2 ^ e :=
  scaledBy_div num e den (by decide)

/-- A datum as a ratio. -/
theorem scaled_one_div (m : Nat) (q : Int) :
    ((scaled m 1 (-q)).1 : ℚ) / (scaled m 1 (-q)).2 = m * 2 ^ q := by
  rw [scaled_div, Nat.cast_one, div_one, zpow_neg, div_inv_eq_mul]

theorem scaled_den_pos (num : Nat) (e : Int) (hd : 0 < den) : 0 < (scaled num den e).2 :=
  scaledBy_den_pos num e (by decide) hd

/-- The exponent of a ratio leaves room for it in the significand, and fills the significand unless
it is the least one. -/
theorem exponentOf_spec (hn : 0 < num) (hd : 0 < den) :
    f.minExponent ≤ f.exponentOf num den ∧
      (num : ℚ) / den < 2 * f.leadingBit * 2 ^ f.exponentOf num den ∧
      (f.minExponent < f.exponentOf num den →
        f.leadingBit * 2 ^ f.exponentOf num den ≤ (num : ℚ) / den) := by
  obtain ⟨hlow, hhigh⟩ := ratio_log2 hn hd
  -- the guess is right or one too low
  let guess : Int := (num.log2 : Int) - den.log2 - 1 - f.fraction
  have hguess : f.exponentOf num den = max f.minExponent
      (if (scaled num den guess).1 / (scaled num den guess).2 ≥ 2 * f.leadingBit then guess + 1
        else guess) := rfl
  have hfill : (f.leadingBit : ℚ) * 2 ^ guess = 2 ^ ((num.log2 : Int) - den.log2 - 1) := by
    rw [cast_leadingBit, ← zpow_add₀ (by norm_num)]
    congr 1
    omega
  have hroom : (2 : ℚ) * f.leadingBit * 2 ^ (guess + 1) =
      2 ^ ((num.log2 : Int) - den.log2 + 1) := by
    rw [cast_leadingBit, mul_assoc, ← zpow_add₀ (by norm_num), ← two_zpow_succ]
    congr 1
    omega
  have htest := le_scaledBy_iff num guess (2 * f.leadingBit) (by decide : 0 < 2) hd
  push_cast at htest
  rw [hguess]
  have hL : (0 : ℚ) < f.leadingBit := by exact_mod_cast f.leadingBit_pos
  -- the exponent that fills the significand
  generalize hq : (if (scaled num den guess).1 / (scaled num den guess).2 ≥ 2 * f.leadingBit then
    guess + 1 else guess) = q
  have hq : (num : ℚ) / den < 2 * f.leadingBit * 2 ^ q ∧
      f.leadingBit * 2 ^ q ≤ (num : ℚ) / den := by
    split at hq
    · next h =>
      rw [← hq, hroom]
      refine ⟨hhigh, ?_⟩
      have := htest.mp h
      rw [two_zpow_succ]
      linarith
    · next h =>
      rw [← hq]
      have := mt htest.mpr h
      exact ⟨not_le.mp this, hfill ▸ hlow.le⟩
  refine ⟨le_max_left _ _, ?_, fun h => ?_⟩
  · refine lt_of_lt_of_le hq.1 (mul_le_mul_of_nonneg_left (two_zpow_le (le_max_right _ _)) ?_)
    positivity
  · rw [max_eq_right (by rcases max_choice f.minExponent q with h' | h' <;> omega)]
    exact hq.2

theorem roundDiv_le (hd : 0 < den) (h : (num : ℚ) / den < m) : roundDiv num den ≤ m := by
  have hlt : num / den < m := by
    rw [Nat.div_lt_iff_lt_mul hd]
    rw [div_lt_iff₀ (by exact_mod_cast hd)] at h
    exact_mod_cast h
  unfold roundDiv
  dsimp only
  split <;> omega

/-- The significand of a ratio fills two units at most. -/
theorem roundDiv_exponentOf_le (f : Format) (hn : 0 < num) (hd : 0 < den) :
    roundDiv (scaled num den (f.exponentOf num den)).1 (scaled num den (f.exponentOf num den)).2 ≤
      2 * f.leadingBit := by
  have hroom := (f.exponentOf_spec hn hd).2.1
  refine roundDiv_le (scaled_den_pos num _ hd) ?_
  rw [scaled_div, div_lt_iff₀ (two_zpow_pos _)]
  push_cast
  exact hroom

/-- A ratio within half of a natural is rounded to it, an even one also at half. -/
theorem roundDiv_eq (hd : 0 < den) (hlow : (m : ℚ) - 1 / 2 ≤ num / den)
    (hhigh : (num : ℚ) / den ≤ m + 1 / 2)
    (hodd : m % 2 = 1 → (m : ℚ) - 1 / 2 < num / den ∧ (num : ℚ) / den < m + 1 / 2) :
    roundDiv num den = m := by
  have hden : (0 : ℚ) < den := by exact_mod_cast hd
  have hle : 2 * m * den ≤ 2 * num + den := by
    rw [le_div_iff₀ hden] at hlow
    have : (2 * m * den : ℚ) ≤ 2 * num + den := by linarith
    exact_mod_cast this
  have hge : 2 * num ≤ (2 * m + 1) * den := by
    rw [div_le_iff₀ hden] at hhigh
    have : (2 * num : ℚ) ≤ (2 * m + 1) * den := by linarith
    exact_mod_cast this
  have hstrict : m % 2 = 1 → 2 * m * den < 2 * num + den ∧ 2 * num < (2 * m + 1) * den := by
    intro h
    obtain ⟨hl, hh⟩ := hodd h
    rw [lt_div_iff₀ hden] at hl
    rw [div_lt_iff₀ hden] at hh
    have hl : (2 * m * den : ℚ) < 2 * num + den := by linarith
    have hh : (2 * num : ℚ) < (2 * m + 1) * den := by linarith
    exact ⟨by exact_mod_cast hl, by exact_mod_cast hh⟩
  have hsplit := Nat.div_add_mod num den
  have hrest := Nat.mod_lt num hd
  unfold roundDiv
  generalize num / den = k at *
  generalize num % den = r at *
  subst hsplit
  -- the quotient is the natural or one below it
  have hk : k = m ∨ k + 1 = m := by
    have h1 : k ≤ m := by
      by_contra hlt
      have : (m + 1) * den ≤ k * den := Nat.mul_le_mul_right den (by omega)
      nlinarith
    have h2 : m ≤ k + 1 := by
      by_contra hlt
      have : (k + 2) * den ≤ m * den := Nat.mul_le_mul_right den (by omega)
      nlinarith
    omega
  rcases hk with rfl | rfl
  · have hr : 2 * r ≤ den := by nlinarith
    have hodd' : k % 2 = 1 → 2 * r < den := fun h => by nlinarith [(hstrict h).2]
    dsimp only
    rw [if_neg]
    omega
  · have hr : den ≤ 2 * r := by nlinarith
    have hodd' : (k + 1) % 2 = 1 → den < 2 * r := fun h => by nlinarith [(hstrict h).1]
    dsimp only
    rw [if_pos]
    omega

/-- Rounding goes by the value of a ratio. -/
theorem roundDiv_congr {num' den' : Nat} (hd : 0 < den) (hd' : 0 < den')
    (h : num * den' = num' * den) : roundDiv num den = roundDiv num' den' := by
  have hquotient : num / den = num' / den' := by
    rw [← Nat.mul_div_mul_right num den hd', h, Nat.mul_comm den den',
      Nat.mul_div_mul_right num' den' hd]
  have hrest : num % den * den' = num' % den' * den := by
    have hsplit := Nat.div_add_mod num den
    have hsplit' := Nat.div_add_mod num' den'
    rw [hquotient] at hsplit
    have hleft : den * (num' / den') * den' + num % den * den' = num * den' := by
      rw [← Nat.add_mul, hsplit]
    have hright : den' * (num' / den') * den + num' % den' * den = num' * den := by
      rw [← Nat.add_mul, hsplit']
    have hcomm : den * (num' / den') * den' = den' * (num' / den') * den := by ring
    omega
  have hgt : 2 * (num % den) > den ↔ 2 * (num' % den') > den' := by
    constructor
    · intro hlt
      have := Nat.mul_lt_mul_of_pos_right hlt hd'
      have : den' * den < 2 * (num' % den') * den := by linarith [Nat.mul_comm den den']
      exact lt_of_mul_lt_mul_right this (Nat.zero_le den)
    · intro hlt
      have := Nat.mul_lt_mul_of_pos_right hlt hd
      have : den * den' < 2 * (num % den) * den' := by linarith [Nat.mul_comm den den']
      exact lt_of_mul_lt_mul_right this (Nat.zero_le den')
  have heq : 2 * (num % den) = den ↔ 2 * (num' % den') = den' := by
    constructor
    · intro he
      refine Nat.eq_of_mul_eq_mul_right hd ?_
      rw [Nat.mul_assoc, ← hrest, ← Nat.mul_assoc, he, Nat.mul_comm]
    · intro he
      refine Nat.eq_of_mul_eq_mul_right hd' ?_
      rw [Nat.mul_assoc, hrest, ← Nat.mul_assoc, he, Nat.mul_comm]
  unfold roundDiv
  simp only [hquotient, hgt, heq]

/-- The exponent of a ratio is the only one that leaves room for it and is filled by it. -/
theorem exponentOf_unique (hn : 0 < num) (hd : 0 < den) (hleast : f.minExponent ≤ q)
    (hroom : (num : ℚ) / den < 2 * f.leadingBit * 2 ^ q)
    (hfull : f.minExponent < q → f.leadingBit * 2 ^ q ≤ (num : ℚ) / den) :
    f.exponentOf num den = q := by
  obtain ⟨hleast', hroom', hfull'⟩ := f.exponentOf_spec hn hd
  have hL : (0 : ℚ) < f.leadingBit := by exact_mod_cast f.leadingBit_pos
  -- of two such exponents the larger one would not be filled
  have key (a b : Int) (ha : (num : ℚ) / den < 2 * f.leadingBit * 2 ^ a) (hle : f.minExponent ≤ a)
      (hb : f.minExponent < b → f.leadingBit * 2 ^ b ≤ (num : ℚ) / den) : ¬ a < b := by
    intro hlt
    have hpow := two_zpow_le (show a + 1 ≤ b by omega)
    rw [two_zpow_succ] at hpow
    have := hb (by omega)
    have := mul_le_mul_of_nonneg_left hpow hL.le
    linarith
  have := key _ _ hroom hleast hfull'
  have := key _ _ hroom' hleast' hfull
  omega

/-- The nearest datum goes by the value of a ratio. -/
theorem encodeRatio_congr {num' den' : Nat} (negative : Bool) (hd : 0 < den) (hd' : 0 < den')
    (h : (num : ℚ) / den = num' / den') :
    f.encodeRatio negative num den = f.encodeRatio negative num' den' := by
  have hden : (den : ℚ) ≠ 0 := by exact_mod_cast hd.ne'
  have hden' : (den' : ℚ) ≠ 0 := by exact_mod_cast hd'.ne'
  have hcross : num * den' = num' * den := by
    have := (div_eq_div_iff hden hden').mp h
    exact_mod_cast this
  by_cases hn : num = 0
  · have hn' : num' = 0 := by
      rw [hn, Nat.zero_mul] at hcross
      exact (Nat.mul_eq_zero.mp hcross.symm).resolve_right hd.ne'
    rw [hn, hn', encodeRatio, encodeRatio, if_pos rfl, if_pos rfl]
  · have hn' : num' ≠ 0 := by
      intro hz
      rw [hz, Nat.zero_mul] at hcross
      exact hn ((Nat.mul_eq_zero.mp hcross).resolve_right hd'.ne')
    have hexponent : f.exponentOf num den = f.exponentOf num' den' := by
      obtain ⟨hleast, hroom, hfull⟩ := f.exponentOf_spec (Nat.pos_of_ne_zero hn') hd'
      rw [← h] at hroom hfull
      exact exponentOf_unique (Nat.pos_of_ne_zero hn) hd hleast hroom hfull
    have hround : roundDiv (scaled num den (f.exponentOf num' den')).1
        (scaled num den (f.exponentOf num' den')).2 =
          roundDiv (scaled num' den' (f.exponentOf num' den')).1
            (scaled num' den' (f.exponentOf num' den')).2 := by
      have hpos := scaled_den_pos num (f.exponentOf num' den') hd
      have hpos' := scaled_den_pos num' (f.exponentOf num' den') hd'
      refine roundDiv_congr hpos hpos' ?_
      have hne : ((scaled num den (f.exponentOf num' den')).2 : ℚ) ≠ 0 := by exact_mod_cast hpos.ne'
      have hne' : ((scaled num' den' (f.exponentOf num' den')).2 : ℚ) ≠ 0 := by
        exact_mod_cast hpos'.ne'
      have := (div_eq_div_iff hne hne').mp (by rw [scaled_div, scaled_div, h])
      exact_mod_cast this
    unfold encodeRatio
    simp only [hn, hn', ↓reduceIte, hexponent, hround]

/-- A ratio below a power of two that the exponent field holds is rounded to a finite datum. -/
theorem encodeRatio_lt_infinity {k : Int} (hn : 0 < num) (hd : 0 < den)
    (h : (num : ℚ) / den < 2 ^ k) (hleast : f.minExponent + f.fraction < k)
    (hk : k - f.fraction - f.minExponent + 2 < 2 ^ f.exponent) :
    f.encodeRatio false num den < f.infinity := by
  obtain ⟨hle, hroom, hfull⟩ := f.exponentOf_spec hn hd
  have hL : (0 : ℚ) < f.leadingBit := by exact_mod_cast f.leadingBit_pos
  have hexponent : f.exponentOf num den < k - f.fraction := by
    rcases Int.lt_or_eq_of_le hle with hlt | heq
    · by_contra hge
      have hpow := two_zpow_le (show k ≤ f.fraction + f.exponentOf num den by omega)
      rw [zpow_add₀ (by norm_num), ← cast_leadingBit] at hpow
      have := hfull hlt
      linarith
    · omega
  have hround := f.roundDiv_exponentOf_le hn hd
  have hsteps : (f.exponentOf num den - f.minExponent).toNat + 4 ≤ 2 ^ f.exponent := by
    have hcast : (((f.exponentOf num den - f.minExponent).toNat + 4 : Nat) : Int) ≤
        ((2 ^ f.exponent : Nat) : Int) := by
      push_cast
      omega
    exact_mod_cast hcast
  have hpos : 1 ≤ 2 ^ f.exponent := Nat.one_le_two_pow
  unfold encodeRatio
  simp only [hn.ne', ↓reduceIte, Bool.false_eq_true]
  refine lt_of_le_of_lt (min_le_right _ _) ?_
  have hmul := Nat.mul_le_mul_right f.leadingBit hsteps
  rw [infinity, Nat.pow_eq]
  have hinf : (2 ^ f.exponent - 1) * f.leadingBit + f.leadingBit = 2 ^ f.exponent * f.leadingBit := by
    rw [← Nat.add_one_mul, Nat.sub_add_cancel hpos]
  have := f.leadingBit_pos
  rw [Nat.add_mul] at hmul
  omega

end Format

/-! ## 3. The reals that round to a datum -/

open Decimal (Interval interval)

/-- The significand and the exponent that the bits of a finite datum are decoded to. -/
structure Format.Canonical (f : Format) (m : Nat) (q : Int) : Prop where
  least : f.minExponent ≤ q
  room : m < 2 * f.leadingBit
  full : f.minExponent < q → f.leadingBit ≤ m

theorem Format.Canonical.eq_minExponent (hq : f.Canonical 0 q) : q = f.minExponent := by
  by_contra hne
  have := hq.full (lt_of_le_of_ne hq.least (Ne.symm hne))
  have := f.leadingBit_pos
  omega

/-- The interval of a datum reaches half a unit down and up, below a power of two a quarter down.
The bounds of an odd datum are left out. -/
theorem interval_bounds {v : ℚ} (hm : 0 < m) (h : (interval f m q).Contains v) :
    ((m : ℚ) - 1 / 2) * 2 ^ q ≤ v ∧ v ≤ (m + 1 / 2) * 2 ^ q ∧
      (m % 2 = 1 → ((m : ℚ) - 1 / 2) * 2 ^ q < v ∧ v < (m + 1 / 2) * 2 ^ q) ∧
      (m = f.leadingBit → f.minExponent < q → ((m : ℚ) - 1 / 4) * 2 ^ q ≤ v) := by
  have hpos := two_zpow_pos (q - 2)
  have hunit : (2 : ℚ) ^ q = 4 * 2 ^ (q - 2) := by
    rw [show q = q - 2 + 1 + 1 by omega, two_zpow_succ, two_zpow_succ]
    ring_nf
  have hhigh : ((interval f m q).high : ℚ) * 2 ^ (interval f m q).unit = (m + 1 / 2) * 2 ^ q := by
    rw [hunit]
    simp only [interval]
    push_cast
    ring
  have hlow : ((m : ℚ) - 1 / 2) * 2 ^ q ≤ (interval f m q).low * 2 ^ (interval f m q).unit ∧
      (m = f.leadingBit → f.minExponent < q →
        ((m : ℚ) - 1 / 4) * 2 ^ q ≤ (interval f m q).low * 2 ^ (interval f m q).unit) := by
    rw [hunit]
    simp only [interval]
    split
    · next hnear =>
      rw [Nat.cast_sub (by omega)]
      push_cast
      constructor
      · nlinarith
      · intro _ _
        apply le_of_eq
        ring
    · next hnear =>
      rw [Nat.cast_sub (by omega)]
      push_cast
      constructor
      · apply le_of_eq
        ring
      · exact fun h h' => absurd ⟨h, h'⟩ hnear
  have hclosed : (interval f m q).closed = decide (m % 2 = 0) := rfl
  unfold Interval.Contains at h
  rw [hclosed, hhigh] at h
  split at h
  · next heven =>
    have heven := of_decide_eq_true heven
    exact ⟨hlow.1.trans h.1, h.2, fun hodd => by omega, fun h1 h2 => (hlow.2 h1 h2).trans h.1⟩
  · exact ⟨hlow.1.trans h.1.le, h.2.le, fun _ => ⟨hlow.1.trans_lt h.1, h.2⟩,
      fun h1 h2 => (hlow.2 h1 h2).trans h.1.le⟩

/-- A ratio in the interval of a datum has the exponent of the datum, or rounds up to the power of two
above the one below it. -/
theorem exponentOf_cases (hq : f.Canonical m q) (hm : 0 < m) (hn : 0 < num) (hd : 0 < den)
    (h : (interval f m q).Contains (num / den)) :
    f.exponentOf num den = q ∨
      (f.exponentOf num den = q - 1 ∧ m = f.leadingBit ∧ f.minExponent < q) := by
  obtain ⟨hleast, hroom, hfull⟩ := f.exponentOf_spec hn hd
  obtain ⟨hlow, hhigh, -, hnear⟩ := interval_bounds hm h
  generalize f.exponentOf num den = p at *
  have hL : (1 : ℚ) ≤ f.leadingBit := by exact_mod_cast f.leadingBit_pos
  have hmL : (m : ℚ) + 1 ≤ 2 * f.leadingBit := by exact_mod_cast hq.room
  have hpos := two_zpow_pos q
  -- a larger exponent would leave the significand unfilled
  have hle : p ≤ q := by
    by_contra hlt
    have hfill := hfull (by have := hq.least; omega)
    have hpow := two_zpow_le (show q + 1 ≤ p by omega)
    rw [two_zpow_succ] at hpow
    nlinarith
  rcases Int.lt_or_eq_of_le hle with hlt | heq
  · right
    have hmin : f.minExponent < q := by omega
    have hmfull : (f.leadingBit : ℚ) ≤ m := by exact_mod_cast hq.full hmin
    have hpow := two_zpow_le (show p + 1 ≤ q by omega)
    rw [two_zpow_succ] at hpow
    have hlead : m = f.leadingBit := by
      by_contra hne
      have hgt : (f.leadingBit : ℚ) + 1 ≤ m := by
        have := hq.full hmin
        exact_mod_cast (by omega : f.leadingBit + 1 ≤ m)
      nlinarith
    refine ⟨?_, hlead, hmin⟩
    by_contra hne
    have hpow := two_zpow_le (show p + 1 + 1 ≤ q by omega)
    rw [two_zpow_succ, two_zpow_succ] at hpow
    have := hnear hlead hmin
    nlinarith
  · exact .inl heq

/-- A ratio in the interval of a datum is rounded to the datum. -/
theorem encodeRatio_eq (hq : f.Canonical m q) (hm : 0 < m) (hn : 0 < num) (hd : 0 < den)
    (h : (interval f m q).Contains (num / den)) :
    f.encodeRatio false num den =
      min f.infinity ((q - f.minExponent).toNat * f.leadingBit + m) := by
  obtain ⟨hlow, hhigh, hodd, hnear⟩ := interval_bounds hm h
  have hroom := (f.exponentOf_spec hn hd).2.1
  have hpos := two_zpow_pos q
  unfold Format.encodeRatio
  simp only [hn.ne', ↓reduceIte, Bool.false_eq_true]
  congr 1
  rcases exponentOf_cases hq hm hn hd h with hp | ⟨hp, rfl, hmin⟩
  · rw [hp, Format.roundDiv_eq (m := m) (Format.scaled_den_pos _ q hd)]
    · rwa [Format.scaled_div, le_div_iff₀ hpos]
    · rwa [Format.scaled_div, div_le_iff₀ hpos]
    · intro h
      rw [Format.scaled_div, lt_div_iff₀ hpos, div_lt_iff₀ hpos]
      exact hodd h
  · -- below the power of two the significand overflows into the exponent
    have hpow : (2 : ℚ) ^ q = 2 * 2 ^ (q - 1) := by
      rw [← two_zpow_succ]
      congr 1
      omega
    have hpos := two_zpow_pos (q - 1)
    rw [hp] at hroom
    have hlow := hnear rfl hmin
    rw [hpow] at hlow
    rw [hp, Format.roundDiv_eq (m := 2 * f.leadingBit) (Format.scaled_den_pos _ _ hd)]
    · have hsucc : (q - f.minExponent).toNat = (q - 1 - f.minExponent).toNat + 1 := by omega
      rw [hsucc, Nat.add_one_mul (q - 1 - f.minExponent).toNat]
      omega
    · rw [Format.scaled_div, le_div_iff₀ hpos]
      push_cast
      linarith
    · rw [Format.scaled_div, div_le_iff₀ hpos]
      push_cast
      linarith
    · intro hodd
      omega

end FatArrow.Binary
