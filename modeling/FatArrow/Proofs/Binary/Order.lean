import FatArrow.Proofs.Binary.Unsigned

/-!
# The order of rounded numbers

Rounding keeps the order of numbers, and keeps apart those that the format holds as they are.  So the
integers up to the width of a significand are in the order of their nearest floats, all others may fall
together but never change places, and a float of 32 bits is found again among those of 64 bits.
-/

namespace FatArrow.Binary

namespace Format

variable {f : Format} {num den num' den' m m' : Nat} {q q' : Int}

/-! ## 1. Rounding keeps the order -/

theorem ratio_pos (hn : 0 < num) (hd : 0 < den) : (0 : ℚ) < num / den :=
  div_pos (by exact_mod_cast hn) (by exact_mod_cast hd)

theorem num_pos (h : (0 : ℚ) < num / den) : 0 < num := by
  rw [Nat.pos_iff_ne_zero]
  rintro rfl
  rw [Nat.cast_zero, zero_div] at h
  exact lt_irrefl _ h

/-- A larger ratio has no smaller exponent. -/
theorem exponentOf_mono (hn : 0 < num) (hd : 0 < den) (hn' : 0 < num') (hd' : 0 < den')
    (h : (num : ℚ) / den ≤ num' / den') : f.exponentOf num den ≤ f.exponentOf num' den' := by
  obtain ⟨-, -, hfull⟩ := f.exponentOf_spec hn hd
  obtain ⟨hleast, hroom, -⟩ := f.exponentOf_spec hn' hd'
  by_contra hlt
  have hfill := hfull (by omega)
  have hpow := two_zpow_le (show f.exponentOf num' den' + 1 ≤ f.exponentOf num den by omega)
  rw [two_zpow_succ] at hpow
  have hL : (0 : ℚ) < f.leadingBit := by exact_mod_cast f.leadingBit_pos
  have := mul_le_mul_of_nonneg_left hpow hL.le
  linarith

theorem roundDiv_mono (hd : 0 < den) (hd' : 0 < den') (h : (num : ℚ) / den ≤ num' / den') :
    roundDiv num den ≤ roundDiv num' den' := by
  have hden : (0 : ℚ) < den := by exact_mod_cast hd
  have hden' : (0 : ℚ) < den' := by exact_mod_cast hd'
  have hcross : num * den' ≤ num' * den := by
    rw [div_le_div_iff₀ hden hden'] at h
    exact_mod_cast h
  have hsplit := Nat.div_add_mod num den
  have hsplit' := Nat.div_add_mod num' den'
  have hrest := Nat.mod_lt num hd
  have hrest' := Nat.mod_lt num' hd'
  unfold roundDiv
  generalize num / den = a at *
  generalize num % den = r at *
  generalize num' / den' = b at *
  generalize num' % den' = r' at *
  subst hsplit hsplit'
  dsimp only
  have hab : a ≤ b := by
    by_contra hlt
    have : (b + 1) * (den * den') ≤ a * (den * den') := Nat.mul_le_mul_right _ (by omega)
    nlinarith
  rcases Nat.lt_or_eq_of_le hab with hlt | rfl
  · split <;> split <;> omega
  · -- of one quotient the larger rest is rounded up if the smaller one is
    have hrests : r * den' ≤ r' * den := by nlinarith
    split
    next hup =>
      rw [if_pos]
      rcases hup with hup | ⟨hup, hodd⟩
      · left
        by_contra hle
        nlinarith
      · by_cases hmore : 2 * r' > den'
        · exact .inl hmore
        · exact .inr ⟨by nlinarith, hodd⟩
    next => split <;> omega

theorem le_roundDiv (hd : 0 < den) (h : (m : ℚ) ≤ num / den) : m ≤ roundDiv num den := by
  have hle : m ≤ num / den := by
    rw [Nat.le_div_iff_mul_le hd]
    rw [le_div_iff₀ (by exact_mod_cast hd)] at h
    exact_mod_cast h
  unfold roundDiv
  dsimp only
  split <;> omega

/-- The word of the datum nearest to a larger ratio is no smaller. -/
theorem encodeRatio_mono (hd : 0 < den) (hd' : 0 < den') (h : (num : ℚ) / den ≤ num' / den') :
    f.encodeRatio false num den ≤ f.encodeRatio false num' den' := by
  rcases Nat.eq_zero_or_pos num with rfl | hn
  · exact Nat.zero_le _
  have hn' : 0 < num' := num_pos ((ratio_pos hn hd).trans_le h)
  have hleast := (f.exponentOf_spec hn hd).1
  have hlow := f.roundDiv_exponentOf_le hn hd
  obtain ⟨-, -, hfull⟩ := f.exponentOf_spec hn' hd'
  have hexponent := exponentOf_mono (f := f) hn hd hn' hd' h
  unfold encodeRatio
  simp only [hn.ne', hn'.ne', ↓reduceIte, Bool.false_eq_true]
  generalize f.exponentOf num den = q at *
  generalize f.exponentOf num' den' = q' at *
  have hpos := scaled_den_pos num q hd
  have hpos' := scaled_den_pos num' q' hd'
  refine min_le_min_left _ ?_
  rcases Int.lt_or_eq_of_le hexponent with hlt | rfl
  · -- the lower significand fills two units at most, the higher one at least one unit
    have hhigh : f.leadingBit ≤ roundDiv (scaled num' den' q').1 (scaled num' den' q').2 := by
      refine le_roundDiv hpos' ?_
      rw [scaled_div, le_div_iff₀ (two_zpow_pos q')]
      exact hfull (by omega)
    have hsteps : (q - f.minExponent).toNat + 1 ≤ (q' - f.minExponent).toNat := by omega
    have := Nat.mul_le_mul_right f.leadingBit hsteps
    rw [Nat.add_mul] at this
    omega
  · refine Nat.add_le_add_left (roundDiv_mono hpos hpos' ?_) _
    rw [scaled_div, scaled_div]
    exact div_le_div_of_nonneg_right h (two_zpow_pos q).le

/-! ## 2. What a format holds -/

/-- A ratio that is a datum has the exponent of the datum. -/
theorem Canonical.exponentOf_eq (hq : f.Canonical m q) (hn : 0 < num) (hd : 0 < den)
    (h : (num : ℚ) / den = m * 2 ^ q) : f.exponentOf num den = q := by
  have hpow := two_zpow_pos q
  refine exponentOf_unique hn hd hq.least ?_ fun hlt => ?_
  · rw [h]
    exact mul_lt_mul_of_pos_right (by exact_mod_cast hq.room) hpow
  · rw [h]
    exact mul_le_mul_of_nonneg_right (by exact_mod_cast hq.full hlt) hpow.le

/-- A ratio that is a datum has the word of the datum. -/
theorem encodeRatio_canonical (hq : f.Canonical m q) (hm : 0 < m) (hd : 0 < den)
    (h : (num : ℚ) / den = m * 2 ^ q) : f.encodeRatio false num den =
      min f.infinity ((q - f.minExponent).toNat * f.leadingBit + m) := by
  have hpow := two_zpow_pos q
  have hn : 0 < num := num_pos (h ▸ mul_pos (by exact_mod_cast hm) hpow)
  have hround : roundDiv (scaled num den q).1 (scaled num den q).2 = m := by
    have hvalue : ((scaled num den q).1 : ℚ) / (scaled num den q).2 = m := by
      rw [scaled_div, h, mul_div_assoc, div_self hpow.ne', mul_one]
    refine roundDiv_eq (scaled_den_pos num q hd) ?_ ?_ fun _ => ?_
    all_goals rw [hvalue]
    · linarith
    · linarith
    · constructor <;> linarith
  unfold encodeRatio
  simp only [hn.ne', ↓reduceIte, Bool.false_eq_true, hq.exponentOf_eq hn hd h, hround]

/-- A format holds a number, small or large, as it is: the significand has room for it. -/
def Holds (f : Format) (v : ℚ) : Prop :=
  ∃ (m : Nat) (q : Int), m < 2 * f.leadingBit ∧ f.minExponent ≤ q ∧ v = m * 2 ^ q

/-- A number that a format holds is a datum of the format. -/
theorem exists_canonical (hm : 0 < m) (hroom : m < 2 * f.leadingBit) (hleast : f.minExponent ≤ q) :
    ∃ m' q', f.Canonical m' q' ∧ 0 < m' ∧ (m' : ℚ) * 2 ^ q' = m * 2 ^ q := by
  -- the significand is doubled until it is full or the exponent is the least one
  obtain ⟨k, hk⟩ : ∃ k : Nat, q = f.minExponent + k := ⟨(q - f.minExponent).toNat, by omega⟩
  induction k generalizing m q with
  | zero => exact ⟨m, q, ⟨hleast, hroom, fun hlt => by omega⟩, hm, rfl⟩
  | succ k ih =>
    by_cases hfull : f.leadingBit ≤ m
    · exact ⟨m, q, ⟨hleast, hroom, fun _ => hfull⟩, hm, rfl⟩
    · obtain ⟨m', q', hq', hm', hvalue⟩ :=
        ih (m := 2 * m) (q := q - 1) (by omega) (by omega) (by omega) (by omega)
      refine ⟨m', q', hq', hm', hvalue.trans ?_⟩
      have hpow : (2 : ℚ) ^ q = 2 * 2 ^ (q - 1) := by
        rw [← two_zpow_succ, Int.sub_add_cancel]
      rw [hpow]
      push_cast
      ring

/-- The word of a number that a format holds below infinity is that of a datum. -/
theorem encodeRatio_of_holds (hn : 0 < num) (hd : 0 < den) (hv : f.Holds (num / den))
    (hfinite : f.encodeRatio false num den < f.infinity) :
    ∃ m q, f.Canonical m q ∧ 0 < m ∧ (num : ℚ) / den = m * 2 ^ q ∧
      f.encodeRatio false num den = (q - f.minExponent).toNat * f.leadingBit + m := by
  obtain ⟨m, q, hroom, hleast, hvalue⟩ := hv
  have hpos : (0 : ℚ) < m * 2 ^ q := hvalue ▸ ratio_pos hn hd
  have hm : 0 < m := by exact_mod_cast (pos_iff_pos_of_mul_pos hpos).mpr (two_zpow_pos q)
  obtain ⟨a, p, hp, ha, hap⟩ := exists_canonical hm hroom hleast
  have hword := encodeRatio_canonical hp ha hd (hvalue.trans hap.symm)
  exact ⟨a, p, hp, ha, hvalue.trans hap.symm, by omega⟩

/-- The word of a datum tells its significand and its exponent. -/
theorem Canonical.eq_of_word (hq : f.Canonical m q) (hq' : f.Canonical m' q')
    (h : (q - f.minExponent).toNat * f.leadingBit + m =
      (q' - f.minExponent).toNat * f.leadingBit + m') : m = m' ∧ q = q' := by
  have key {m m' : Nat} {q q' : Int} (hq : f.Canonical m q) (hq' : f.Canonical m' q')
      (h : (q - f.minExponent).toNat * f.leadingBit + m =
        (q' - f.minExponent).toNat * f.leadingBit + m') : ¬ q < q' := by
    intro hlt
    have hroom := hq.room
    have hleast := hq.least
    have hfull := hq'.full (by omega)
    have hsteps : (q - f.minExponent).toNat + 1 ≤ (q' - f.minExponent).toNat := by omega
    have := Nat.mul_le_mul_right f.leadingBit hsteps
    rw [Nat.add_mul] at this
    omega
  have hlt := key hq hq' h
  have hgt := key hq' hq h.symm
  obtain rfl : q = q' := by omega
  exact ⟨by omega, rfl⟩

/-- Data of one value are one datum. -/
theorem Canonical.eq_of_value (hq : f.Canonical m q) (hq' : f.Canonical m' q')
    (h : (m : ℚ) * 2 ^ q = m' * 2 ^ q') : m = m' ∧ q = q' := by
  have hfirst {m m' : Nat} {q q' : Int} (hq : f.Canonical m q) (hq' : f.Canonical m' q')
      (hm : 0 < m) (h : (m : ℚ) * 2 ^ q = m' * 2 ^ q') : m = m' ∧ q = q' := by
    have hn : 0 < (scaled m 1 (-q)).1 := scaledBy_num_pos _ (by decide) hm
    have hd : 0 < (scaled m 1 (-q)).2 := scaled_den_pos m (-q) Nat.one_pos
    have hvalue := scaled_one_div m q
    obtain rfl : q = q' :=
      (hq.exponentOf_eq hn hd hvalue).symm.trans (hq'.exponentOf_eq hn hd (hvalue.trans h))
    have hcast : (m : ℚ) = m' := mul_right_cancel₀ (two_zpow_pos q).ne' h
    exact ⟨by exact_mod_cast hcast, rfl⟩
  rcases Nat.eq_zero_or_pos m with rfl | hm
  · rcases Nat.eq_zero_or_pos m' with rfl | hm'
    · exact ⟨rfl, hq.eq_minExponent.trans hq'.eq_minExponent.symm⟩
    · obtain ⟨rfl, rfl⟩ := hfirst hq' hq hm' h.symm
      exact ⟨rfl, rfl⟩
  · exact hfirst hq hq' hm h

/-- Numbers that a format holds do not fall together below infinity. -/
theorem eq_of_encodeRatio_eq (hd : 0 < den) (hd' : 0 < den') (hv : f.Holds (num / den))
    (hv' : f.Holds (num' / den')) (hfinite : f.encodeRatio false num den < f.infinity)
    (h : f.encodeRatio false num den = f.encodeRatio false num' den') :
    (num : ℚ) / den = num' / den' := by
  have hzero (den : Nat) : f.encodeRatio false 0 den = 0 := rfl
  rcases Nat.eq_zero_or_pos num with rfl | hn <;> rcases Nat.eq_zero_or_pos num' with rfl | hn'
  · rw [Nat.cast_zero, zero_div, zero_div]
  · obtain ⟨m, q, -, hm, -, hword⟩ := encodeRatio_of_holds hn' hd' hv' (h ▸ hfinite)
    rw [← h, hzero] at hword
    omega
  · obtain ⟨m, q, -, hm, -, hword⟩ := encodeRatio_of_holds hn hd hv hfinite
    rw [h, hzero] at hword
    omega
  · obtain ⟨m, q, hq, -, hvalue, hword⟩ := encodeRatio_of_holds hn hd hv hfinite
    obtain ⟨m', q', hq', -, hvalue', hword'⟩ := encodeRatio_of_holds hn' hd' hv' (h ▸ hfinite)
    obtain ⟨rfl, rfl⟩ := hq.eq_of_word hq' (by rw [← hword, ← hword', h])
    rw [hvalue, hvalue']

/-- The bits of a datum with a sign. -/
theorem encodeRatio_sign (f : Format) (negative : Bool) (num den : Nat) :
    f.encodeRatio negative num den =
      (if negative then f.signBit else 0) + f.encodeRatio false num den := by
  cases negative with
  | true => rfl
  | false => exact (Nat.zero_add _).symm

theorem decode_eq_infinite {bits : Nat} {negative : Bool} (h : f.decode bits = .infinite negative) :
    bits % f.signBit = f.infinity ∧ negative = decide (bits ≥ f.signBit) := by
  unfold decode at h
  dsimp only at h
  split at h
  next => cases h
  next =>
    split at h
    next hinfinite =>
      cases h
      exact ⟨hinfinite, rfl⟩
    next => split at h <;> cases h

/-- Bits that stand for one datum are the same, except those of data that are no number. -/
theorem decode_inj {b b' : Nat} (hb : b < 2 * f.signBit) (hb' : b' < 2 * f.signBit)
    (hnan : f.decode b ≠ .nan) (h : f.decode b = f.decode b') : b = b' := by
  have hparts : b % f.signBit = b' % f.signBit ∧ decide (b ≥ f.signBit) = decide (b' ≥ f.signBit) := by
    cases hd : f.decode b with
    | nan => exact absurd hd hnan
    | infinite negative =>
      obtain ⟨hmod, hsign⟩ := decode_eq_infinite hd
      obtain ⟨hmod', hsign'⟩ := decode_eq_infinite (h ▸ hd)
      exact ⟨hmod.trans hmod'.symm, hsign.symm.trans hsign'⟩
    | finite negative m q =>
      obtain ⟨-, hmod, -, hsign⟩ := decode_eq_finite hd
      obtain ⟨-, hmod', -, hsign'⟩ := decode_eq_finite (h ▸ hd)
      exact ⟨hmod.trans hmod'.symm, hsign.symm.trans hsign'⟩
  have hsplit {b : Nat} (hb : b < 2 * f.signBit) :
      b = (if b ≥ f.signBit then f.signBit else 0) + b % f.signBit := by
    split
    next hge =>
      rw [Nat.mod_eq_sub_mod hge, Nat.mod_eq_of_lt (by omega)]
      omega
    next => rw [Nat.mod_eq_of_lt (by omega), Nat.zero_add]
  rw [hsplit hb, hsplit hb', hparts.1]
  simp only [decide_eq_decide.mp hparts.2]

end Format

/-! ## 3. Integers -/

/-- The word of the nearest float of a natural, without a sign. -/
def wordOf (n : Nat) : Nat := Format.double.encodeRatio false n 1

theorem wordOf_mono {a b : Nat} (h : a ≤ b) : wordOf a ≤ wordOf b := by
  refine Format.encodeRatio_mono Nat.one_pos Nat.one_pos ?_
  rw [Nat.cast_one, div_one, div_one]
  exact_mod_cast h

theorem wordOf_lt_infinity {n : Nat} (h : n < 2 ^ 64) : wordOf n < Format.double.infinity := by
  rcases Nat.eq_zero_or_pos n with rfl | hn
  · decide
  · refine Format.encodeRatio_lt_infinity (k := 64) hn Nat.one_pos ?_ (by decide) (by decide)
    rw [Nat.cast_one, div_one]
    exact_mod_cast h

theorem holds_nat {n : Nat} (h : n ≤ 2 ^ 53) : Format.double.Holds (n / (1 : Nat)) := by
  rw [Nat.cast_one, div_one]
  rcases Nat.lt_or_eq_of_le h with hlt | rfl
  · refine ⟨n, 0, ?_, by decide, by rw [zpow_zero, mul_one]⟩
    rw [show Format.double.leadingBit = 2 ^ 52 by decide]
    omega
  · exact ⟨2 ^ 52, 1, by decide, by decide, by norm_num⟩

/-- Naturals that a significand has room for are kept apart. -/
theorem wordOf_lt {a b : Nat} (h : a < b) (hb : b ≤ 2 ^ 53) : wordOf a < wordOf b := by
  refine lt_of_le_of_ne (wordOf_mono h.le) fun heq => h.ne ?_
  have hvalues := Format.eq_of_encodeRatio_eq Nat.one_pos Nat.one_pos (holds_nat (h.le.trans hb))
    (holds_nat hb) (wordOf_lt_infinity (by omega)) heq
  rw [Nat.cast_one, div_one, div_one] at hvalues
  exact_mod_cast hvalues

end FatArrow.Binary

namespace FatArrow

open Binary Float.Model.UnpackedFloat

/-! ## 4. Bits with a sign -/

/-- The bits of a float with or without a sign, up to those of infinity. -/
theorem toBits_ofBits_of_mod_le {w : UInt64}
    (h : w.toNat % Format.double.signBit ≤ Format.double.infinity) : (Float.ofBits w).toBits = w := by
  have hinfinity := Format.double_infinity
  have hsign := Format.double_signBit
  have hw := w.toNat_lt
  by_cases hlt : w.toNat < 2 ^ 63
  · rw [hsign, Nat.mod_eq_of_lt hlt] at h
    exact toBits_ofBits_of_le h
  · by_cases hfinite : IsFiniteWord w
    · exact toBits_ofBits hfinite
    · unfold IsFiniteWord at hfinite
      rw [hsign, hinfinity] at h hfinite
      have hw : w = 0xfff0000000000000 := UInt64.toNat_inj.mp (by
        rw [show (0xfff0000000000000 : UInt64).toNat = 2 ^ 63 + 2047 * 2 ^ 52 from rfl]
        omega)
      rw [hw]
      decide

/-- The bits of a float with a sign, up to those of infinity. -/
theorem toNat_toBits_ofNat {k : Nat} (negative : Bool) (hk : k ≤ Format.double.infinity) :
    (Float.ofBits (UInt64.ofNat ((if negative then Format.double.signBit else 0) + k))).toBits.toNat =
      (if negative then Format.double.signBit else 0) + k := by
  have hinfinity := Format.double_infinity
  have hsign := Format.double_signBit
  have hword : (UInt64.ofNat ((if negative then Format.double.signBit else 0) + k)).toNat =
      (if negative then Format.double.signBit else 0) + k := by
    refine UInt64.toNat_ofNat_of_lt' ?_
    show _ < 2 ^ 64
    split <;> omega
  rw [toBits_ofBits_of_mod_le, hword]
  rw [hword, hsign]
  split <;> omega

variable {x y : Float}

/-- The place of a float in the total order tells the float. -/
theorem eq_of_floatRank (h : floatRank x = floatRank y) : x = y := by
  have hsign := Format.double_signBit
  have hx : x.toBits.toNat < 2 ^ 64 := x.toBits.toNat_lt
  have hy : y.toBits.toNat < 2 ^ 64 := y.toBits.toNat_lt
  unfold floatRank at h
  rw [hsign] at h
  refine Float.toBits_inj.mp (UInt64.toNat_inj.mp ?_)
  dsimp only at h
  split at h <;> split at h <;> omega

/-! ## 5. The order of integers -/

variable {m n : Int}

/-- The place of the float nearest to an integer. -/
theorem floatRank_floatOfInt (h : n.natAbs < 2 ^ 64) :
    floatRank (floatOfInt n) = if n < 0 then -(wordOf n.natAbs : Int) - 1 else wordOf n.natAbs := by
  have hword := wordOf_lt_infinity h
  have hbits : (floatOfInt n).toBits.toNat =
      (if decide (n < 0) then Format.double.signBit else 0) + wordOf n.natAbs := by
    show (Float.ofBits (UInt64.ofNat
      (Format.double.encodeRatio (decide (n < 0)) n.natAbs 1))).toBits.toNat = _
    rw [Format.encodeRatio_sign]
    exact toNat_toBits_ofNat _ hword.le
  have hlt := hword.trans Format.double.infinity_lt_signBit
  unfold floatRank
  rw [hbits]
  by_cases hn : n < 0
  · simp only [hn, decide_true, ↓reduceIte]
    rw [if_pos (by omega)]
    push_cast
    omega
  · simp only [hn, decide_false, Bool.false_eq_true, ↓reduceIte]
    rw [if_neg (by omega), Nat.zero_add]

/-- Integers do not change places. -/
theorem floatRank_mono (hm : m.natAbs < 2 ^ 64) (hn : n.natAbs < 2 ^ 64) (h : m ≤ n) :
    floatRank (floatOfInt m) ≤ floatRank (floatOfInt n) := by
  rw [floatRank_floatOfInt hm, floatRank_floatOfInt hn]
  by_cases hm : m < 0 <;> by_cases hn : n < 0
  · rw [if_pos hm, if_pos hn]
    have := wordOf_mono (show n.natAbs ≤ m.natAbs by omega)
    omega
  · rw [if_pos hm, if_neg hn]
    omega
  · omega
  · rw [if_neg hm, if_neg hn]
    exact_mod_cast wordOf_mono (show m.natAbs ≤ n.natAbs by omega)

/-- Integers that a significand has room for are in their order. -/
theorem floatRank_lt (hm : m.natAbs ≤ 2 ^ 53) (hn : n.natAbs ≤ 2 ^ 53) (h : m < n) :
    floatRank (floatOfInt m) < floatRank (floatOfInt n) := by
  rw [floatRank_floatOfInt (by omega), floatRank_floatOfInt (by omega)]
  by_cases hm : m < 0 <;> by_cases hn : n < 0
  · rw [if_pos hm, if_pos hn]
    have := wordOf_lt (show n.natAbs < m.natAbs by omega) (by omega)
    omega
  · rw [if_pos hm, if_neg hn]
    omega
  · omega
  · rw [if_neg hm, if_neg hn]
    exact_mod_cast wordOf_lt (show m.natAbs < n.natAbs by omega) (by omega)

/-- Integers that are not in the order of their floats have one float, and one of them is larger than
a significand has room for. -/
theorem floatOfInt_eq_of_lt (hm : m.natAbs < 2 ^ 64) (hn : n.natAbs < 2 ^ 64) (h : m < n)
    (hrank : floatRank (floatOfInt n) ≤ floatRank (floatOfInt m)) :
    floatOfInt m = floatOfInt n ∧ (2 ^ 53 < m.natAbs ∨ 2 ^ 53 < n.natAbs) := by
  refine ⟨eq_of_floatRank (le_antisymm (floatRank_mono hm hn h.le) hrank), ?_⟩
  by_contra hsmall
  have := floatRank_lt (by omega) (by omega) h
  omega

/-! ## 6. Floats of 32 bits -/

section

variable {a b : Float32} {negative : Bool} {m : Nat} {q : Int}

/-- The bits that stand for no number are those of one float. -/
theorem isNaN_of_datumOf32 (h : datumOf32 a = .nan) : a.isNaN = true := by
  have hsign := Format.single_signBit
  have hinfinity := Format.single_infinity
  have hones : (-1#8 : BitVec 8).toNat = 255 := by decide
  have hmagnitude : 255 * 2 ^ 23 < a.toBits.toNat % 2 ^ 31 := by
    unfold datumOf32 Format.decode at h
    rw [hsign, hinfinity] at h
    dsimp only at h
    split at h
    next hlt => exact hlt
    next =>
      split at h
      next => cases h
      next => split at h <;> cases h
  have hexponent : @unpackExponent .binary32 a.toBits.toBitVec = -1#_ := by
    refine BitVec.eq_of_toNat_eq ?_
    rw [toNat_unpackExponent32,
      show (-1#(Float.Model.Format.binary32.exponentBits)).toNat = 255 from hones]
    omega
  have hmantissa : @unpackMantissa .binary32 a.toBits.toBitVec ≠ 0#_ := by
    intro hzero
    have hlow := congrArg BitVec.toNat hzero
    rw [toNat_unpackMantissa32, BitVec.toNat_zero] at hlow
    omega
  rw [Float32.isNaN_eq_decide_eq_nan]
  refine decide_eq_true (Float32.toBits_inj.mp (UInt32.toBitVec_inj.mp ?_))
  exact a.toModel.valid.eq_packedNaN hexponent hmantissa

/-- The format of 64 bits holds every float of 32 bits. -/
theorem holds_single (h : datumOf32 a = .finite negative m q) : Format.double.Holds (m * 2 ^ q) := by
  have hroom : m < 2 * Format.single.leadingBit := (Format.decode_eq_finite h).1.room
  have hwide : 2 * Format.single.leadingBit ≤ 2 * Format.double.leadingBit := by decide
  have hmin := Format.double_minExponent
  have := single_exponent h
  exact ⟨m, q, by omega, by omega, rfl⟩

/-- A finite float of 32 bits is finite among those of 64 bits. -/
theorem encodeRatio_single_lt (h : datumOf32 a = .finite negative m q) :
    Format.double.encodeRatio false (Format.scaled m 1 (-q)).1 (Format.scaled m 1 (-q)).2 <
      Format.double.infinity := by
  rcases Nat.eq_zero_or_pos m with rfl | hm
  · rw [Format.scaled, scaledBy_zero]
    exact (by decide : 0 < Format.double.infinity)
  · refine Format.encodeRatio_lt_infinity (k := 200) (scaledBy_num_pos (-q) (by decide) hm)
      (Format.scaled_den_pos m (-q) Nat.one_pos) ?_ (by decide) (by decide)
    rw [Format.scaled_one_div]
    obtain ⟨hlow, hhigh⟩ := single_exponent h
    have hroom : (m : ℚ) < 2 ^ (24 : Int) := by
      have : m < 2 ^ 24 := (Format.decode_eq_finite h).1.room
      exact_mod_cast this
    calc (m : ℚ) * 2 ^ q < 2 ^ (24 : Int) * 2 ^ q := mul_lt_mul_of_pos_right hroom (two_zpow_pos q)
      _ = 2 ^ (24 + q) := (zpow_add₀ (by norm_num) _ _).symm
      _ ≤ 2 ^ (200 : Int) := two_zpow_le (by omega)

/-- The bits of a float of 32 bits among those of 64 bits. -/
theorem toBits_widenFloat (h : datumOf32 a ≠ .nan) : ∃ negative k,
    (widenFloat a).toBits.toNat = (if negative then Format.double.signBit else 0) + k ∧
      k ≤ Format.double.infinity ∧
        (datumOf32 a = .infinite negative ∧ k = Format.double.infinity ∨
          ∃ m q, datumOf32 a = .finite negative m q ∧ k < Format.double.infinity ∧
            k = Format.double.encodeRatio false (Format.scaled m 1 (-q)).1
              (Format.scaled m 1 (-q)).2) := by
  have hbits {negative : Bool} {k : Nat} (hk : k ≤ Format.double.infinity)
      (hword : Format.double.encode (datumOf32 a) =
        (if negative then Format.double.signBit else 0) + k) :
      (widenFloat a).toBits.toNat = (if negative then Format.double.signBit else 0) + k := by
    rw [widenFloat, floatOf, hword]
    exact toNat_toBits_ofNat negative hk
  cases hd : datumOf32 a with
  | nan => exact absurd hd h
  | infinite negative =>
    refine ⟨negative, _, hbits le_rfl ?_, le_rfl, .inl ⟨rfl, rfl⟩⟩
    rw [hd]
    cases negative with
    | true => rfl
    | false => exact (Nat.zero_add _).symm
  | finite negative m q =>
    have hlt := encodeRatio_single_lt hd
    refine ⟨negative, _, hbits hlt.le ?_, hlt.le, .inr ⟨m, q, rfl, hlt, rfl⟩⟩
    rw [hd]
    exact Format.encodeRatio_sign _ _ _ _

/-- Floats of 32 bits that are numbers do not fall together among those of 64 bits. -/
theorem widenFloat_inj (ha : a.isNaN = false) (hb : b.isNaN = false)
    (h : widenFloat a = widenFloat b) : a = b := by
  have hnan {a : Float32} (ha : a.isNaN = false) : datumOf32 a ≠ .nan := fun hd =>
    Bool.false_ne_true (ha.symm.trans (isNaN_of_datumOf32 hd))
  obtain ⟨s, k, hbits, hk, hkind⟩ := toBits_widenFloat (hnan ha)
  obtain ⟨s', k', hbits', hk', hkind'⟩ := toBits_widenFloat (hnan hb)
  have hlt := Format.double.infinity_lt_signBit
  rw [h, hbits'] at hbits
  obtain rfl : s = s' := by
    cases s <;> cases s' <;> simp only [Bool.false_eq_true, ↓reduceIte] at hbits <;>
      first | rfl | omega
  obtain rfl : k = k' := by omega
  have hdatum : datumOf32 a = datumOf32 b := by
    rcases hkind with ⟨hd, hinfinite⟩ | ⟨m, q, hd, hfinite, hword⟩ <;>
      rcases hkind' with ⟨hd', hinfinite'⟩ | ⟨m', q', hd', hfinite', hword'⟩
    · exact hd.trans hd'.symm
    · omega
    · omega
    · have hvalue := Format.eq_of_encodeRatio_eq (Format.scaled_den_pos m (-q) Nat.one_pos)
        (Format.scaled_den_pos m' (-q') Nat.one_pos) (by
          rw [Format.scaled_one_div]
          exact holds_single hd) (by
          rw [Format.scaled_one_div]
          exact holds_single hd') (hword ▸ hfinite) (hword.symm.trans hword')
      rw [Format.scaled_one_div, Format.scaled_one_div] at hvalue
      obtain ⟨rfl, rfl⟩ := (Format.decode_eq_finite hd).1.eq_of_value (Format.decode_eq_finite hd').1
        hvalue
      exact hd.trans hd'.symm
  have hbits (a : Float32) : a.toBits.toNat < 2 * Format.single.signBit := a.toBits.toNat_lt
  refine Float32.toBits_inj.mp (UInt32.toNat_inj.mp ?_)
  exact Format.decode_inj (hbits a) (hbits b) (hnan ha) hdatum

end

end FatArrow
