import FatArrow.Proofs.Binary.Rounding

/-!
# The shortest decimal of a datum

The first grid with a point in the interval of a datum is found, and the point that is picked lies in
the interval.
-/

namespace FatArrow.Decimal

open Binary

variable {f : Format} {i : Interval} {num den m : Nat} {e q : Int}

/-! ## 1. Points of a grid -/

/-- A decimal lies in an interval where its value does. -/
theorem holds_iff (i : Interval) (d : Nat) (e : Int) :
    i.holds d e = true ↔ i.Contains (d * (10 : ℚ) ^ e) := by
  have hpos : 0 < (scaledTen d 1 (-e)).2 := scaledBy_den_pos d (-e) (by decide) Nat.one_pos
  have hden : (0 : ℚ) <
      (Format.scaled (scaledTen d 1 (-e)).1 (scaledTen d 1 (-e)).2 i.unit).2 := by
    exact_mod_cast Format.scaled_den_pos _ i.unit hpos
  have hten : ((scaledTen d 1 (-e)).1 : ℚ) / (scaledTen d 1 (-e)).2 = d * (10 : ℚ) ^ e :=
    scaledBy_ten_div d e
  have hvalue : ((Format.scaled (scaledTen d 1 (-e)).1 (scaledTen d 1 (-e)).2 i.unit).1 : ℚ) /
      (Format.scaled (scaledTen d 1 (-e)).1 (scaledTen d 1 (-e)).2 i.unit).2 =
        d * (10 : ℚ) ^ e / 2 ^ i.unit := by
    rw [Format.scaled_div, hten]
  have hunit := two_zpow_pos i.unit
  unfold Interval.holds Interval.Contains
  dsimp only
  generalize Format.scaled (scaledTen d 1 (-e)).1 (scaledTen d 1 (-e)).2 i.unit = p at *
  rw [← le_div_iff₀ hunit, ← div_le_iff₀ hunit, ← lt_div_iff₀ hunit, ← div_lt_iff₀ hunit,
    ← hvalue, le_div_iff₀ hden, div_le_iff₀ hden, lt_div_iff₀ hden, div_lt_iff₀ hden]
  split
  · rw [Bool.and_eq_true, decide_eq_true_iff, decide_eq_true_iff]
    exact_mod_cast Iff.rfl
  · rw [Bool.and_eq_true, decide_eq_true_iff, decide_eq_true_iff]
    exact_mod_cast Iff.rfl

/-- The point that is picked lies in the interval. -/
theorem holds_of_pick? {d : Nat} (h : i.pick? num den e = some d) : i.holds d e = true := by
  unfold Interval.pick? at h
  dsimp only at h
  split at h
  · next hboth =>
    rw [Bool.and_eq_true] at hboth
    split at h
    · cases h
      exact hboth.1
    · cases h
      exact hboth.2
  · split at h
    · next hbelow =>
      cases h
      exact hbelow
    · split at h
      · next habove =>
        cases h
        exact habove
      · cases h

/-- A grid whose point below the ratio lies in the interval has a point that is picked. -/
theorem exists_pick? (h : i.holds ((scaledTen num den e).1 / (scaledTen num den e).2) e = true) :
    ∃ d, i.pick? num den e = some d := by
  unfold Interval.pick?
  dsimp only
  rw [h, Bool.true_and]
  cases i.holds ((scaledTen num den e).1 / (scaledTen num den e).2 + 1) e with
  | true => exact ⟨_, rfl⟩
  | false => exact ⟨_, rfl⟩

/-- Where one of the grids has a point in the interval, the decimal that is found lies in it. -/
theorem firstHit_holds {top : Int} {digits count k : Nat} (hk : digits ≤ k) (hlt : k < digits + count)
    (h : ∃ d, i.pick? num den (top - k) = some d) :
    i.holds (firstHit i num den top digits count).digits
      (firstHit i num den top digits count).exponent = true := by
  induction count generalizing digits with
  | zero => omega
  | succ count ih =>
    unfold firstHit
    dsimp only
    split
    · next d hpick => exact holds_of_pick? hpick
    · next hnone =>
      refine ih (Nat.lt_of_le_of_ne hk ?_) (by omega)
      rintro rfl
      obtain ⟨d, hd⟩ := h
      rw [hd] at hnone
      cases hnone

/-! ## 2. The first grid -/

/-- A power of ten from one on is at most the power of two whose logarithm is a little larger. -/
theorem ten_zpow_le {k e : Int} (hk : 0 ≤ k) (h : 10 * k ≤ 3 * e) : (10 : ℚ) ^ k ≤ 2 ^ e := by
  have hcube : ((10 : ℚ) ^ k) ^ 3 ≤ (2 ^ e) ^ 3 := by
    calc ((10 : ℚ) ^ k) ^ 3 = 1000 ^ k := by
          rw [← zpow_natCast, zpow_comm, zpow_natCast]
          norm_num
      _ ≤ 1024 ^ k := zpow_le_zpow_left₀ hk (by norm_num) (by norm_num)
      _ = 2 ^ (10 * k) := by
          rw [zpow_mul]
          norm_num
      _ ≤ 2 ^ (3 * e) := two_zpow_le h
      _ = (2 ^ e) ^ 3 := by
          rw [mul_comm, zpow_mul]
          norm_cast
  exact le_of_pow_le_pow_left₀ (by decide) (two_zpow_pos e).le hcube

/-- A power of ten below one is at most the power of two whose logarithm is a little larger. -/
theorem ten_zpow_le' {k e : Int} (hk : k ≤ 0) (h : 93 * k ≤ 28 * e) : (10 : ℚ) ^ k ≤ 2 ^ e := by
  obtain ⟨j, rfl⟩ : ∃ j : Nat, k = -j := ⟨(-k).toNat, by omega⟩
  have hpow : ((2 : ℚ) ^ (-e)) ^ 28 ≤ (10 ^ (j : Int)) ^ 28 := by
    calc ((2 : ℚ) ^ (-e)) ^ 28 = 2 ^ (28 * -e) := by
          rw [mul_comm, zpow_mul]
          norm_cast
      _ ≤ 2 ^ (93 * (j : Int)) := two_zpow_le (by omega)
      _ = (2 ^ 93) ^ j := by
          rw [zpow_mul]
          norm_cast
      _ ≤ (10 ^ 28) ^ j := pow_le_pow_left₀ (by norm_num) (by norm_num) j
      _ = (10 ^ (j : Int)) ^ 28 := by
          rw [zpow_natCast, ← pow_mul, ← pow_mul, mul_comm]
  have hinv := le_of_pow_le_pow_left₀ (by decide) (by positivity) hpow
  rw [zpow_neg] at hinv ⊢
  exact inv_le_of_inv_le₀ (two_zpow_pos e) hinv

/-- The first digit of a ratio stands no higher than the ratio. -/
theorem ten_zpow_leadingExponent_le (hn : 0 < num) (hd : 0 < den) (hlow : (2 : ℚ) ^ (-1200 : Int) ≤ num / den)
    (hhigh : (num : ℚ) / den ≤ 2 ^ (1200 : Int)) : (10 : ℚ) ^ leadingExponent num den ≤ num / den := by
  have hatLeast (e : Int) (h : decide ((scaledTen num den e).1 ≥ (scaledTen num den e).2) = true) :
      (10 : ℚ) ^ e ≤ num / den := by
    have hpos : (0 : ℚ) < (scaledTen num den e).2 := by
      exact_mod_cast scaledBy_den_pos num e (by decide) hd
    have hle : ((scaledTen num den e).2 : ℚ) ≤ (scaledTen num den e).1 := by
      exact_mod_cast of_decide_eq_true h
    have hdiv : ((scaledTen num den e).1 : ℚ) / (scaledTen num den e).2 =
        (num : ℚ) / den / (10 : ℚ) ^ e := scaledBy_div num e den (by decide)
    rw [← one_le_div₀ hpos, hdiv, one_le_div₀ (by positivity)] at hle
    exact hle
  unfold leadingExponent
  dsimp only
  split
  · next h => exact hatLeast _ h
  · split
    · next h => exact hatLeast _ h
    · split
      · next h => exact hatLeast _ h
      · split
        · next h => exact hatLeast _ h
        · -- the logarithm of two is good enough for two digits less
          obtain ⟨hlog, hlog'⟩ := ratio_log2 hn hd
          generalize (num.log2 : Int) - den.log2 = l at *
          have hl : -1201 < l ∧ l < 1201 := by
            constructor
            · by_contra h
              have := two_zpow_le (show l + 1 ≤ -1200 by omega)
              linarith
            · by_contra h
              have := two_zpow_le (show 1200 ≤ l - 1 by omega)
              linarith
          refine le_trans ?_ hlog.le
          rcases le_total 0 (l * 30103 / 100000 - 2) with h | h
          · exact ten_zpow_le h (by omega)
          · exact ten_zpow_le' h (by omega)

/-! ## 3. The decimal that is found -/

/-- On a grid that is finer than a quarter of the unit of a datum, the point below the datum lies in
its interval. -/
theorem holds_below (hm : 0 < m) (hd : 0 < den) (hvalue : (num : ℚ) / den = m * 2 ^ q)
    (he : (10 : ℚ) ^ e ≤ 2 ^ (q - 2)) :
    (interval f m q).holds ((scaledTen num den e).1 / (scaledTen num den e).2) e = true := by
  have hpos := two_zpow_pos (q - 2)
  have hmiddle : (num : ℚ) / den = (4 * m : Nat) * 2 ^ (q - 2) := by
    have hunit : (2 : ℚ) ^ q = 4 * 2 ^ (q - 2) := by
      rw [show q = q - 2 + 1 + 1 by omega, two_zpow_succ, two_zpow_succ]
      ring_nf
    rw [hvalue, hunit]
    push_cast
    ring
  have hfloor := (le_scaledBy_iff num e _ (by decide : 0 < 10) hd).mp (Nat.le_refl _)
  have hceil := mt (le_scaledBy_iff num e _ (by decide : 0 < 10) hd).mpr
    (Nat.not_succ_le_self ((scaledBy 10 num den e).1 / (scaledBy 10 num den e).2))
  rw [holds_iff]
  rw [not_le] at hceil
  unfold scaledTen
  generalize (scaledBy 10 num den e).1 / (scaledBy 10 num den e).2 = k at *
  push_cast at hfloor hceil hmiddle
  -- the point is less than a quarter of the unit away
  have hlow : ((interval f m q).low : ℚ) + 1 ≤ 4 * m := by
    have : (interval f m q).low + 1 ≤ 4 * m := by
      simp only [interval]
      split <;> omega
    exact_mod_cast this
  have hhigh : ((interval f m q).high : ℚ) = 4 * m + 2 := by
    simp only [interval]
    push_cast
    ring
  have hunit : (interval f m q).unit = q - 2 := rfl
  have hstrict : ((interval f m q).low : ℚ) * 2 ^ (q - 2) < k * 10 ^ e ∧
      (k * 10 ^ e : ℚ) < (interval f m q).high * 2 ^ (q - 2) := by
    constructor
    · nlinarith
    · rw [hhigh]
      nlinarith
  unfold Interval.Contains
  rw [hunit]
  split
  · exact ⟨hstrict.1.le, hstrict.2.le⟩
  · exact hstrict

/-- The shortest decimal of a datum lies in the interval of the datum. -/
theorem shortest_contains (hq : f.Canonical m q) (hm : 0 < m) (hf : f.fraction ≤ 52)
    (hlow : -1100 ≤ q) (hhigh : q ≤ 1100) :
    (interval f m q).Contains
      ((shortest f m q).digits * (10 : ℚ) ^ (shortest f m q).exponent) := by
  rw [← holds_iff]
  have hpos := two_zpow_pos q
  have hone : (2 : ℚ) ^ q ≤ m * 2 ^ q := by
    have hm : (1 : ℚ) ≤ m := by exact_mod_cast hm
    exact le_mul_of_one_le_left hpos.le hm
  have hroom : (m : ℚ) * 2 ^ q ≤ 2 ^ (53 : Int) * 2 ^ q := by
    have hpow : 2 ^ (f.fraction + 1) ≤ 2 ^ 53 := Nat.pow_le_pow_right (by decide) (by omega)
    have hle : m ≤ 2 ^ 53 := by
      have hlt : m < 2 * 2 ^ f.fraction := hq.room
      omega
    exact mul_le_mul_of_nonneg_right (by exact_mod_cast hle) hpos.le
  -- the datum as a ratio
  have hn : 0 < (Format.scaled m 1 (-q)).1 := scaledBy_num_pos (-q) (by decide) hm
  have hd : 0 < (Format.scaled m 1 (-q)).2 := Format.scaled_den_pos m (-q) Nat.one_pos
  have hvalue := Format.scaled_one_div m q
  unfold shortest
  generalize Format.scaled m 1 (-q) = p at *
  obtain ⟨num, den⟩ := p
  dsimp only at *
  have hsmall := two_zpow_le (show -1200 ≤ q by omega)
  have hlarge := two_zpow_le (show 53 + q ≤ 1200 by omega)
  rw [zpow_add₀ (by norm_num)] at hlarge
  have htop := ten_zpow_leadingExponent_le hn hd (by rw [hvalue]; exact hsmall.trans hone)
    (by rw [hvalue]; exact hroom.trans hlarge)
  -- with seventeen more digits the grid is finer than the interval
  have hfine : (10 : ℚ) ^ (leadingExponent num den - (17 : Nat)) ≤ 2 ^ (q - 2) := by
    rw [zpow_sub₀ (by norm_num), div_le_iff₀ (by positivity), zpow_sub₀ (by norm_num)]
    rw [hvalue] at htop
    norm_num at hroom ⊢
    linarith
  exact firstHit_holds (Nat.zero_le 17) (by decide) (exists_pick? (holds_below hm hd hvalue hfine))

end FatArrow.Decimal
