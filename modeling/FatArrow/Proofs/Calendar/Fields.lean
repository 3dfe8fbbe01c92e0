import FatArrow.Proofs.Calendar.Gregorian
import FatArrow.Proofs.Types.Words
import FatArrow.Standard.Time

/-!
# Calendar fields

Ticks are counted from the year 1, and calendar fields are read off seconds counted from the year 1970.
Both counts come to the same day and the same time of the day, before and after either beginning.  So
the fields of a point of time lead back to its midnight, and those of a midnight to its date.
-/

namespace FatArrow

open Calendar

variable {n : Int} {t : DateTime} {d e : Date} {year month day : Int64}

/-! ## 1. Words -/

theorem fits_int64_iff :
    IntegerKind.int64.Fits n ↔ -9223372036854775808 ≤ n ∧ n ≤ 9223372036854775807 := by
  have hleast : IntegerKind.int64.least = -9223372036854775808 := by decide
  have hgreatest : IntegerKind.int64.greatest = 9223372036854775807 := by decide
  rw [IntegerKind.Fits, hleast, hgreatest]

theorem inWord_eq (hn : IntegerKind.int64.Fits n) : inWord n = n :=
  IntegerKind.denote_wrap_eq_iff.mpr hn

theorem ticksPerSecond_eq : ticksPerSecond = 10000000 := rfl

theorem ticksPerDay_eq : ticksPerDay = 864000000000 := by decide

theorem epochTicks_eq : epochTicks = 621355968000000000 := rfl

theorem epochDays_eq : epochDays = 719162 := rfl

/-- A number of ticks that a word of 64 bits holds, whether it is counted from the year 1 or from the
year 1970. -/
structure InReach (ticks : Int) : Prop where
  fits : IntegerKind.int64.Fits ticks
  fits_sinceEpoch : IntegerKind.int64.Fits (ticks - epochTicks)

theorem InReach.bounds (h : InReach n) :
    -8602016068854775808 ≤ n ∧ n ≤ 9223372036854775807 := by
  have hfits := fits_int64_iff.mp h.fits
  have hsince := fits_int64_iff.mp h.fits_sinceEpoch
  rw [epochTicks_eq] at hsince
  omega

/-! ## 2. Two counts of one time -/

/-- The days that words of ticks reach are far within those that are known. -/
theorem Calendar.Date.isKnown_of_bounds (hd : d.isValid = true) (hlow : -10675200 ≤ d.toDays)
    (hhigh : d.toDays ≤ 10675200) : d.isKnown = true := by
  obtain ⟨hbegun, hnext⟩ := Date.toDays_bounds hd
  rw [daysBeforeYear_eq] at hbegun hnext
  rw [Date.isKnown, Bool.and_eq_true, decide_eq_true_eq, decide_eq_true_eq]
  omega

/-- Seconds and nanoseconds from the year 1970 give the day and the time of the day that ticks from the
year 1 give. -/
theorem DateTime.moment?_eq (h : InReach t.ticks) : t.moment? = some
    ⟨.ofDays (t.ticks / ticksPerDay), (t.ticks % ticksPerDay / ticksPerSecond).toNat,
      (t.ticks % ticksPerSecond).toNat * 100⟩ := by
  have hbounds := h.bounds
  have hdays : (t.ticks - epochTicks) / ticksPerSecond / 86400 + epochDays = t.ticks / ticksPerDay := by
    rw [epochTicks_eq, ticksPerSecond_eq, epochDays_eq, ticksPerDay_eq]
    omega
  have hsecond : (t.ticks - epochTicks) / ticksPerSecond % 86400 =
      t.ticks % ticksPerDay / ticksPerSecond := by
    rw [epochTicks_eq, ticksPerSecond_eq, ticksPerDay_eq]
    omega
  have hrest : (t.ticks - epochTicks) % ticksPerSecond = t.ticks % ticksPerSecond := by
    rw [epochTicks_eq, ticksPerSecond_eq]
    omega
  have hknown : (Date.ofDays (t.ticks / ticksPerDay)).isKnown = true := by
    apply Date.isKnown_of_bounds (Date.isValid_ofDays _)
    · rw [Date.toDays_ofDays, ticksPerDay_eq]
      omega
    · rw [Date.toDays_ofDays, ticksPerDay_eq]
      omega
  unfold moment?
  rw [inWord_eq h.fits_sinceEpoch]
  unfold Moment.ofEpoch?
  dsimp only
  rw [hdays, hsecond, hrest, if_pos hknown]

theorem DateTime.calendar_eq (h : InReach t.ticks) : t.calendar = .ofDays (t.ticks / ticksPerDay) := by
  rw [calendar, moment, moment?_eq h]
  rfl

theorem DateTime.second_moment (h : InReach t.ticks) :
    t.moment.second = (t.ticks % ticksPerDay / ticksPerSecond).toNat := by
  rw [moment, moment?_eq h]
  rfl

theorem DateTime.date_eq (h : InReach t.ticks) : t.date = ⟨t.ticks / ticksPerDay * ticksPerDay⟩ := by
  have hbounds := h.bounds
  have hfloor : t.ticks - t.ticks % ticksPerDay = t.ticks / ticksPerDay * ticksPerDay := by
    rw [ticksPerDay_eq]
    omega
  rw [date, hfloor, inWord_eq]
  rw [fits_int64_iff, ticksPerDay_eq]
  omega

/-! ## 3. Midnights -/

/-- The ticks at the beginning of a date. -/
def Calendar.Date.ticks (d : Date) : Int := d.toDays * ticksPerDay

/-- Every date of the years -27257 to 29227 has its midnight within words. -/
theorem Calendar.Date.inReach_ticks (hd : d.isValid = true) (hlow : -27257 ≤ d.year)
    (hhigh : d.year ≤ 29227) : InReach d.ticks := by
  obtain ⟨hbegun, hnext⟩ := Date.toDays_bounds hd
  rw [daysBeforeYear_eq] at hbegun hnext
  refine ⟨fits_int64_iff.mpr ?_, fits_int64_iff.mpr ?_⟩
  · rw [Date.ticks, ticksPerDay_eq]
    omega
  · rw [Date.ticks, ticksPerDay_eq, epochTicks_eq]
    omega

theorem DateTime.ofFields_zero (d : Date) : DateTime.ofFields d 0 0 0 0 = ⟨inWord d.ticks⟩ := by
  have hticks : epochTicks + (d.toDays - epochDays) * 86400 * ticksPerSecond = d.ticks := by
    rw [Date.ticks, epochTicks_eq, epochDays_eq, ticksPerSecond_eq, ticksPerDay_eq]
    omega
  rw [← hticks]
  simp [ofFields, ofMoment, Moment.sinceEpoch]

/-- The date that three numbers name. -/
def Standard.dateOf (year month day : Int64) : Date :=
  ⟨year.toInt, month.toInt.toNat, day.toInt.toNat⟩

namespace Standard

theorem dateOf_inj {year' month' day' : Int64} (h : (dateOf year month day).isValid = true)
    (hsame : dateOf year month day = dateOf year' month' day') :
    year = year' ∧ month = month' ∧ day = day' := by
  obtain ⟨⟨hmonth, -⟩, hday, -⟩ := Date.isValid_iff.mp h
  simp only [dateOf, Date.mk.injEq] at hmonth hday hsame
  obtain ⟨hyears, hmonths, hdays⟩ := hsame
  refine ⟨Int64.toInt_inj.mp hyears, Int64.toInt_inj.mp ?_, Int64.toInt_inj.mp ?_⟩
  · omega
  · omega

/-- The fields of a date that is known are small enough for words. -/
theorem dateOf_fields (hd : d.isValid = true) (hknown : d.isKnown = true) :
    dateOf (.ofInt d.year) (.ofInt d.month) (.ofInt d.day) = d := by
  obtain ⟨⟨-, hmonth⟩, -, hday⟩ := Date.isValid_iff.mp hd
  rw [Date.isKnown, Bool.and_eq_true, decide_eq_true_eq, decide_eq_true_eq] at hknown
  have hlength : monthLength d.year d.month ≤ 31 := by
    unfold monthLength
    repeat' split
    all_goals decide
  unfold dateOf
  rw [Int64.toInt_ofInt_of_le (by omega) (by omega), Int64.toInt_ofInt_of_le (by omega) (by omega),
    Int64.toInt_ofInt_of_le (by omega) (by omega), Int.toNat_natCast, Int.toNat_natCast]

/-- A date of the calendar has a midnight, and nothing else has one. -/
theorem midnight_eq_ok_iff : midnight year month day = .ok t ↔
    ((dateOf year month day).isKnown = true ∧ (dateOf year month day).isValid = true) ∧
      t = ⟨inWord (dateOf year month day).ticks⟩ := by
  unfold midnight DateTime.ofDate?
  dsimp only
  rw [show (⟨year.toInt, month.toInt.toNat, day.toInt.toNat⟩ : Date) = dateOf year month day from rfl]
  by_cases h : (dateOf year month day).isKnown = true ∧ (dateOf year month day).isValid = true
  · -- a month and a day that are counted from 1 are not negative
    have hnumbers : 0 ≤ month.toInt ∧ 0 ≤ day.toInt := by
      obtain ⟨⟨hmonth, -⟩, hday, -⟩ := Date.isValid_iff.mp h.2
      simp only [dateOf] at hmonth hday
      omega
    rw [if_pos ⟨hnumbers.1, hnumbers.2, h⟩, DateTime.ofFields_zero]
    constructor
    · intro hok
      cases hok
      exact ⟨h, rfl⟩
    · rintro ⟨-, rfl⟩
      rfl
  · rw [if_neg (fun hall => h hall.2.2)]
    exact ⟨nofun, fun hall => absurd hall.1 h⟩

/-- A date whose ticks are a word has the midnight that they say. -/
theorem midnight_eq (h : (dateOf year month day).isValid = true)
    (hfits : IntegerKind.int64.Fits (dateOf year month day).ticks) :
    midnight year month day = .ok ⟨(dateOf year month day).ticks⟩ := by
  have hbounds := fits_int64_iff.mp hfits
  rw [Date.ticks, ticksPerDay_eq] at hbounds
  have hknown := Date.isKnown_of_bounds h (by omega) (by omega)
  exact midnight_eq_ok_iff.mpr ⟨⟨hknown, h⟩, by rw [inWord_eq hfits]⟩

end Standard

/-- At midnight the fields are those of the date, and no time has passed. -/
theorem DateTime.fields_midnight (hd : d.isValid = true) (h : InReach d.ticks) :
    (DateTime.mk d.ticks).calendar = d ∧ (DateTime.mk d.ticks).moment.second = 0 := by
  constructor
  · rw [calendar_eq (t := ⟨d.ticks⟩) h]
    show Date.ofDays (d.toDays * ticksPerDay / ticksPerDay) = d
    rw [Int.mul_ediv_cancel _ (by decide), Date.ofDays_toDays hd]
  · rw [second_moment (t := ⟨d.ticks⟩) h]
    show (d.toDays * ticksPerDay % ticksPerDay / ticksPerSecond).toNat = 0
    rw [Int.mul_emod_left]
    rfl

/-- The fields of a point of time name the date whose midnight is that of the point. -/
theorem Standard.midnight_fields (h : InReach t.ticks) :
    midnight (.ofInt t.year) (.ofInt t.month) (.ofInt t.day) = .ok t.date := by
  have hbounds := h.bounds
  have hvalid : t.calendar.isValid = true := DateTime.calendar_eq h ▸ Date.isValid_ofDays _
  have hdays : t.calendar.toDays = t.ticks / ticksPerDay :=
    DateTime.calendar_eq h ▸ Date.toDays_ofDays _
  have hticks : t.calendar.ticks = t.ticks / ticksPerDay * ticksPerDay := by
    rw [Date.ticks, hdays]
  rw [ticksPerDay_eq] at hdays hticks
  have hknown := Date.isKnown_of_bounds hvalid (by omega) (by omega)
  -- the midnight itself may be too early for a count from the year 1970, but is a word
  have hfits : IntegerKind.int64.Fits t.calendar.ticks := by
    rw [hticks, fits_int64_iff]
    omega
  have hdate : dateOf (.ofInt t.year) (.ofInt t.month) (.ofInt t.day) = t.calendar :=
    dateOf_fields hvalid hknown
  rw [← hdate] at hvalid hfits hticks
  rw [midnight_eq hvalid hfits, hticks, DateTime.date_eq h, ticksPerDay_eq]

/-! ## 4. Fields and ticks -/

namespace DateTime

/-- A point of time is its midnight, the time of its day and less than a second, and its date begins at
this midnight. -/
structure Decomposes (t : DateTime) : Prop where
  known : t.moment?.isSome = true
  date_le : t.date.ticks ≤ t.ticks
  lt_nextDate : t.ticks < t.date.ticks + ticksPerDay
  clock : t.hour < 24 ∧ t.minute < 60 ∧ t.second < 60
  sinceMidnight : ∃ rest, 0 ≤ rest ∧ rest < ticksPerSecond ∧ t.ticks - t.date.ticks =
    (t.hour * 3600 + t.minute * 60 + t.second : Nat) * ticksPerSecond + rest
  midnight : Standard.midnight (.ofInt t.year) (.ofInt t.month) (.ofInt t.day) = .ok t.date

theorem decomposes (h : InReach t.ticks) : t.Decomposes where
  known := by
    rw [moment?_eq h]
    rfl
  date_le := by
    rw [date_eq h, ticksPerDay_eq]
    show t.ticks / 864000000000 * 864000000000 ≤ t.ticks
    omega
  lt_nextDate := by
    rw [date_eq h, ticksPerDay_eq]
    show t.ticks < t.ticks / 864000000000 * 864000000000 + 864000000000
    omega
  clock := by
    have hsecond := second_moment h
    rw [ticksPerDay_eq, ticksPerSecond_eq] at hsecond
    unfold hour minute second
    omega
  sinceMidnight := by
    have hsecond := second_moment h
    refine ⟨t.ticks % ticksPerSecond, ?_⟩
    rw [date_eq h]
    rw [ticksPerDay_eq, ticksPerSecond_eq] at *
    unfold hour minute second
    dsimp only
    omega
  midnight := Standard.midnight_fields h

/-- The date that three numbers name begins at a point of time, whose fields are these numbers and no
time of the day. -/
structure BeginsDate (t : DateTime) (year month day : Int64) : Prop where
  midnight : Standard.midnight year month day = .ok t
  date : t.year = year.toInt ∧ t.month = month.toInt ∧ t.day = day.toInt
  clock : t.hour = 0 ∧ t.minute = 0 ∧ t.second = 0

theorem beginsDate (h : (Standard.dateOf year month day).isValid = true)
    (hreach : InReach (Standard.dateOf year month day).ticks) :
    BeginsDate ⟨(Standard.dateOf year month day).ticks⟩ year month day := by
  obtain ⟨hdate, hsecond⟩ := fields_midnight h hreach
  obtain ⟨⟨hmonth, -⟩, hday, -⟩ := Date.isValid_iff.mp h
  simp only [Standard.dateOf] at hmonth hday
  refine ⟨Standard.midnight_eq h hreach.fits, ?_, ?_⟩
  · rw [DateTime.year, DateTime.month, DateTime.day, hdate]
    exact ⟨rfl, Int.toNat_of_nonneg (by omega), Int.toNat_of_nonneg (by omega)⟩
  · rw [hour, minute, DateTime.second, hsecond]
    decide

/-- Wherever ticks are counted within words, every point of time decomposes, every date of the calendar
has a midnight with its own fields, and a later date, and no other, has a later midnight. -/
theorem fields_exact :
    (∀ ticks : Int64, IntegerKind.int64.Fits (ticks.toInt - epochTicks) →
      (DateTime.mk ticks.toInt).Decomposes) ∧
    (∀ year month day : Int64, (Standard.dateOf year month day).isValid = true →
      InReach (Standard.dateOf year month day).ticks → ∃ t : DateTime, t.BeginsDate year month day) ∧
    ∀ (year month day year' month' day' : Int64) (s t : DateTime),
      InReach (Standard.dateOf year month day).ticks →
      InReach (Standard.dateOf year' month' day').ticks →
      Standard.midnight year month day = .ok s → Standard.midnight year' month' day' = .ok t →
        (s.ticks < t.ticks ↔
          (Standard.dateOf year month day).place < (Standard.dateOf year' month' day').place) ∧
        (s = t → year = year' ∧ month = month' ∧ day = day') := by
  refine ⟨fun ticks h => ?_, fun year month day h hreach => ⟨_, beginsDate h hreach⟩, ?_⟩
  · have hfits : IntegerKind.int64.Fits ticks.toInt :=
      fits_int64_iff.mpr ⟨ticks.le_toInt, Int.lt_add_one_iff.mp ticks.toInt_lt⟩
    exact decomposes ⟨hfits, h⟩
  · intro year month day year' month' day' s t hs ht hmidnight hmidnight'
    obtain ⟨⟨-, hvalid⟩, rfl⟩ := Standard.midnight_eq_ok_iff.mp hmidnight
    obtain ⟨⟨-, hvalid'⟩, rfl⟩ := Standard.midnight_eq_ok_iff.mp hmidnight'
    rw [inWord_eq hs.fits, inWord_eq ht.fits, ← Date.toDays_lt_iff hvalid hvalid']
    unfold Date.ticks
    rw [ticksPerDay_eq]
    refine ⟨by dsimp only; omega, fun hsame => ?_⟩
    have hticks := congrArg DateTime.ticks hsame
    apply Standard.dateOf_inj hvalid
    apply Date.toDays_inj hvalid hvalid'
    exact Int.eq_of_mul_eq_mul_right (by decide) hticks

/-- The last tick before the year 1; a leap day of the year before, and the first day of 1970. -/
theorem fields_exact_yearZero :
    let last : DateTime := ⟨(-1 : Int64).toInt⟩
    IntegerKind.int64.Fits ((-1 : Int64).toInt - epochTicks) ∧
      (Standard.dateOf 0 2 29).isValid = true ∧ InReach (Standard.dateOf 0 2 29).ticks ∧
      (Standard.dateOf 1970 1 1).isValid = true ∧ InReach (Standard.dateOf 1970 1 1).ticks ∧
      last.Decomposes ∧ last.calendar = ⟨0, 12, 31⟩ ∧
      (last.hour, last.minute, last.second) = (23, 59, 59) ∧
      ∃ s t : DateTime, s.BeginsDate 0 2 29 ∧ t.BeginsDate 1970 1 1 ∧ s.ticks < t.ticks := by
  intro last
  have hlast : IntegerKind.int64.Fits ((-1 : Int64).toInt - epochTicks) := by decide
  have hleap : (Standard.dateOf 0 2 29).isValid = true := by decide
  have hleapReach : InReach (Standard.dateOf 0 2 29).ticks :=
    Date.inReach_ticks hleap (by decide) (by decide)
  have hfirst : (Standard.dateOf 1970 1 1).isValid = true := by decide
  have hfirstReach : InReach (Standard.dateOf 1970 1 1).ticks :=
    Date.inReach_ticks hfirst (by decide) (by decide)
  obtain ⟨hdecomposes, hbegins, horder⟩ := fields_exact
  obtain ⟨s, hs⟩ := hbegins 0 2 29 hleap hleapReach
  obtain ⟨t, ht⟩ := hbegins 1970 1 1 hfirst hfirstReach
  refine ⟨hlast, hleap, hleapReach, hfirst, hfirstReach, hdecomposes (-1) hlast, by decide, by decide,
    s, t, hs, ht, ?_⟩
  exact (horder 0 2 29 1970 1 1 s t hleapReach hfirstReach hs.midnight ht.midnight).1.mpr (by decide)

end DateTime

end FatArrow
