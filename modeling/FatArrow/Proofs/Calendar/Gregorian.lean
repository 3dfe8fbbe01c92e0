import FatArrow.Calendar.Gregorian
import Mathlib.Data.Prod.Lex
import Mathlib.Order.Monotone.Basic
import Mathlib.Order.SuccPred.Basic

/-!
# Days and dates

Years of 365 and 366 days follow each other, and so do the months of a year.  Every day is therefore one
date of the calendar, every date is one day, and a later date is a later day.
-/

namespace FatArrow.Calendar

variable {year y z : Int} {days : Int} {month k l : Nat}

/-! ## 1. Years -/

theorem daysBeforeYear_eq (year : Int) : daysBeforeYear year =
    365 * (year - 1) + (year - 1) / 4 - (year - 1) / 100 + (year - 1) / 400 := rfl

theorem daysBeforeMonth_thirteen (year : Int) :
    daysBeforeMonth year 13 = if isLeap year then 366 else 365 := by
  by_cases h : isLeap year = true <;> simp [daysBeforeMonth, monthLength, h]

theorem isLeap_iff : isLeap year = true ↔ year % 4 = 0 ∧ (year % 100 ≠ 0 ∨ year % 400 = 0) := by
  simp [isLeap]

/-- A year is as long as its twelve months together. -/
theorem daysBeforeYear_succ (year : Int) :
    daysBeforeYear (year + 1) = daysBeforeYear year + daysBeforeMonth year 13 := by
  rw [daysBeforeMonth_thirteen, daysBeforeYear_eq, daysBeforeYear_eq]
  by_cases h : isLeap year = true
  · rw [if_pos h]
    rw [isLeap_iff] at h
    omega
  · rw [if_neg h]
    rw [isLeap_iff] at h
    omega

theorem daysBeforeYear_mono (h : y ≤ z) : daysBeforeYear y ≤ daysBeforeYear z := by
  have hmono : Monotone daysBeforeYear := by
    apply monotone_int_of_le_succ
    intro year
    rw [daysBeforeYear_succ]
    omega
  exact hmono h

/-- The year of a day has begun, and the next one has not. -/
theorem yearOfDays_spec (days : Int) :
    daysBeforeYear (yearOfDays days) ≤ days ∧ days < daysBeforeYear (yearOfDays days + 1) := by
  unfold yearOfDays
  extract_lets guess
  -- leap days move the beginning of a year by less than two days from where the mean length has it
  have hguess : guess = days * 400 / 146097 + 1 := rfl
  by_cases hlate : daysBeforeYear (guess + 1) ≤ days
  · rw [if_pos hlate]
    refine ⟨hlate, ?_⟩
    rw [daysBeforeYear_eq]
    omega
  · rw [if_neg hlate]
    by_cases hearly : days < daysBeforeYear guess
    · rw [if_pos hearly, Int.sub_add_cancel]
      refine ⟨?_, hearly⟩
      rw [daysBeforeYear_eq]
      omega
    · rw [if_neg hearly]
      omega

/-! ## 2. Months -/

theorem daysBeforeMonth_succ (hk : 1 ≤ k) :
    daysBeforeMonth year (k + 1) = daysBeforeMonth year k + monthLength year k := by
  obtain ⟨j, rfl⟩ := Nat.exists_eq_add_of_le' hk
  rfl

theorem daysBeforeMonth_mono (year : Int) : Monotone (daysBeforeMonth year) := by
  apply monotone_nat_of_le_succ
  intro k
  cases k with
  | zero => exact Nat.le_refl 0
  | succ k =>
    rw [daysBeforeMonth_succ (Nat.succ_pos k)]
    exact Nat.le_add_right _ _

/-- The month of a day is the last one that has begun. -/
theorem monthOfDay_spec (year : Int) (k : Nat) (hl : 1 ≤ l) :
    (1 ≤ monthOfDay year k l ∧ monthOfDay year k l ≤ l) ∧
      daysBeforeMonth year (monthOfDay year k l) ≤ k ∧
        (monthOfDay year k l < l → k < daysBeforeMonth year (monthOfDay year k l + 1)) := by
  induction l, hl using Nat.le_induction with
  | base => simp [monthOfDay, daysBeforeMonth]
  | succ l hl ih =>
    unfold monthOfDay
    split
    next h => exact ⟨⟨by omega, le_rfl⟩, h, fun hlt => absurd hlt (lt_irrefl _)⟩
    next h =>
      obtain ⟨⟨hlow, hhigh⟩, hbegun, hnext⟩ := ih
      refine ⟨⟨hlow, by omega⟩, hbegun, fun _ => ?_⟩
      by_cases hlast : monthOfDay year k l < l
      · exact hnext hlast
      · rw [show monthOfDay year k l = l by omega]
        omega

/-! ## 3. Dates -/

namespace Date

variable {d e : Date}

theorem isValid_iff : d.isValid = true ↔
    (1 ≤ d.month ∧ d.month ≤ 12) ∧ 1 ≤ d.day ∧ d.day ≤ monthLength d.year d.month := by
  simp [isValid, and_assoc]

/-- Dates are ordered by year, month and day. -/
def place (d : Date) : Int ×ₗ Nat ×ₗ Nat := toLex (d.year, toLex (d.month, d.day))

theorem place_injective (h : d.place = e.place) : d = e := by
  obtain ⟨_, _, _⟩ := d
  obtain ⟨_, _, _⟩ := e
  simpa [place] using h

/-- The days of a month lie between its first day and that of the next one. -/
theorem dayOfYear_bounds (hd : d.isValid = true) :
    daysBeforeMonth d.year d.month + d.day ≤ daysBeforeMonth d.year (d.month + 1) := by
  obtain ⟨⟨hmonth, -⟩, -, hday⟩ := isValid_iff.mp hd
  rw [daysBeforeMonth_succ hmonth]
  omega

/-- The days of a year lie between its first day and that of the next one. -/
theorem toDays_bounds (hd : d.isValid = true) :
    daysBeforeYear d.year ≤ d.toDays ∧ d.toDays < daysBeforeYear (d.year + 1) := by
  obtain ⟨⟨-, hmonth⟩, hday, -⟩ := isValid_iff.mp hd
  have hbounds := dayOfYear_bounds hd
  have hyear : daysBeforeMonth d.year (d.month + 1) ≤ daysBeforeMonth d.year 13 :=
    daysBeforeMonth_mono d.year (by omega)
  rw [daysBeforeYear_succ]
  unfold toDays
  omega

/-- A later date is a later day. -/
theorem toDays_lt_of_place_lt (hd : d.isValid = true) (he : e.isValid = true)
    (h : d.place < e.place) : d.toDays < e.toDays := by
  simp only [place, Prod.Lex.toLex_lt_toLex] at h
  obtain ⟨-, hday, -⟩ := isValid_iff.mp he
  rcases h with hyear | ⟨hyear, hmonth | ⟨hmonth, hlater⟩⟩
  · have hnext : daysBeforeYear (d.year + 1) ≤ daysBeforeYear e.year := daysBeforeYear_mono hyear
    have := (toDays_bounds hd).2
    have := (toDays_bounds he).1
    omega
  · have hbounds := dayOfYear_bounds hd
    have hnext : daysBeforeMonth d.year (d.month + 1) ≤ daysBeforeMonth d.year e.month :=
      daysBeforeMonth_mono d.year hmonth
    unfold toDays
    rw [← hyear]
    omega
  · unfold toDays
    rw [← hyear, ← hmonth]
    omega

theorem toDays_lt_iff (hd : d.isValid = true) (he : e.isValid = true) :
    d.toDays < e.toDays ↔ d.place < e.place := by
  constructor
  · intro hlt
    rcases lt_trichotomy d.place e.place with h | h | h
    · exact h
    · rw [place_injective h] at hlt
      exact absurd hlt (lt_irrefl _)
    · exact absurd (toDays_lt_of_place_lt he hd h) (lt_asymm hlt)
  · exact toDays_lt_of_place_lt hd he

theorem toDays_inj (hd : d.isValid = true) (he : e.isValid = true) (h : d.toDays = e.toDays) :
    d = e := by
  apply place_injective
  rcases lt_trichotomy d.place e.place with hlt | heq | hlt
  · exact absurd h (toDays_lt_of_place_lt hd he hlt).ne
  · exact heq
  · exact absurd h (toDays_lt_of_place_lt he hd hlt).ne'

/-- Every day is a date of the calendar. -/
theorem ofDays_spec (days : Int) : (ofDays days).isValid = true ∧ (ofDays days).toDays = days := by
  obtain ⟨hbegun, hnext⟩ := yearOfDays_spec days
  rw [daysBeforeYear_succ] at hnext
  rw [isValid_iff]
  unfold toDays ofDays
  dsimp only
  generalize yearOfDays days = year at hbegun hnext ⊢
  obtain ⟨dayOfYear, hday⟩ := Int.eq_ofNat_of_zero_le (Int.sub_nonneg.mpr hbegun)
  rw [hday, Int.toNat_natCast]
  obtain ⟨hmonth, hfirst, hlast⟩ := monthOfDay_spec year dayOfYear (l := 12) (by decide)
  generalize monthOfDay year dayOfYear 12 = month at hmonth hfirst hlast ⊢
  -- the last month ends with the year
  have hend : dayOfYear < daysBeforeMonth year (month + 1) := by
    by_cases hdecember : month < 12
    · exact hlast hdecember
    · rw [show month + 1 = 13 by omega]
      omega
  rw [daysBeforeMonth_succ hmonth.1] at hend
  refine ⟨⟨hmonth, by omega, by omega⟩, by omega⟩

theorem isValid_ofDays (days : Int) : (ofDays days).isValid = true := (ofDays_spec days).1

theorem toDays_ofDays (days : Int) : (ofDays days).toDays = days := (ofDays_spec days).2

/-- Every date of the calendar is the date of its day. -/
theorem ofDays_toDays (hd : d.isValid = true) : ofDays d.toDays = d :=
  toDays_inj (isValid_ofDays _) hd (toDays_ofDays _)

end Date

end FatArrow.Calendar
