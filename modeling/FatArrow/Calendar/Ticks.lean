import FatArrow.Binary.Format
import FatArrow.Calendar.Moment
import FatArrow.Types.Primitive

/-!
Points and lengths of time in ticks of a hundred nanoseconds. A point is counted from the beginning
of the first day of the calendar.
-/

namespace FatArrow

/-- Ticks of a second. -/
def ticksPerSecond : Int := 10000000

/-- Ticks of a day. -/
def ticksPerDay : Int := ticksPerSecond * 86400

/-- Ticks of the calendar before the year 1970. -/
def epochTicks : Int := 621355968000000000

/-- What a number of ticks comes to in a word of 64 bits. -/
def inWord (ticks : Int) : Int := IntegerKind.int64.denote (IntegerKind.int64.wrap ticks)

/-- A number with at least `width` digits. -/
def padded (width : Nat) (n : Nat) : String :=
  let digits := Nat.toDigits 10 n
  String.ofList (List.replicate (width - digits.length) '0' ++ digits)

/-- A length of time. -/
structure TimeSpan where
  ticks : Int
deriving DecidableEq, Repr

namespace TimeSpan

/-- No time at all. -/
def zero : TimeSpan := ⟨0⟩

/-- The ticks of a number of seconds, without their fraction and kept within 64 bits. -/
def ofSeconds (seconds : Float) : TimeSpan :=
  ⟨(datumOf (seconds * floatOfInt ticksPerSecond)).clamp
    IntegerKind.int64.least IntegerKind.int64.greatest⟩

/-- The length in seconds. -/
def totalSeconds (t : TimeSpan) : Float := floatOfInt t.ticks / floatOfInt ticksPerSecond

/-- The length in days. -/
def totalDays (t : TimeSpan) : Float := floatOfInt t.ticks / floatOfInt ticksPerDay

/-- Hours, minutes and seconds, with days in front if there are any and seven places behind if
there is a fraction. -/
def text (t : TimeSpan) : String :=
  let ticks := t.ticks.natAbs
  let second := ticksPerSecond.toNat
  let days := ticks / ticksPerDay.toNat
  let rest := ticks % ticksPerDay.toNat
  let fraction := rest % second
  (if t.ticks < 0 then "-" else "") ++
    (if days > 0 then s!"{days}." else "") ++
    padded 2 (rest / (3600 * second)) ++ ":" ++ padded 2 (rest / (60 * second) % 60) ++ ":" ++
    padded 2 (rest / second % 60) ++
    (if fraction > 0 then "." ++ padded 7 fraction else "")

end TimeSpan

/-- A point of time. -/
structure DateTime where
  ticks : Int
deriving DecidableEq, Repr

namespace DateTime

/-- The beginning of the calendar. -/
def zero : DateTime := ⟨0⟩

/-- The moment of the calendar, counted in seconds and nanoseconds from the beginning of the year
1970. -/
def moment? (t : DateTime) : Option Calendar.Moment :=
  let ticks := inWord (t.ticks - epochTicks)
  Calendar.Moment.ofEpoch? (ticks / ticksPerSecond) ((ticks % ticksPerSecond).toNat * 100)

/-- The point of a moment, without what is left of a tick. -/
def ofMoment (m : Calendar.Moment) : DateTime :=
  ⟨inWord (epochTicks + m.sinceEpoch * ticksPerSecond + (m.nanosecond / 100 : Nat))⟩

/-- The moment of the calendar; beyond its days all fields are zero. -/
def moment (t : DateTime) : Calendar.Moment := t.moment?.getD ⟨⟨0, 0, 0⟩, 0, 0⟩

/-- The calendar day. -/
def calendar (t : DateTime) : Calendar.Date := t.moment.date

/-- The year. -/
def year (t : DateTime) : Int := t.calendar.year

/-- The month, from 1. -/
def month (t : DateTime) : Nat := t.calendar.month

/-- The day of the month, from 1. -/
def day (t : DateTime) : Nat := t.calendar.day

/-- The hour of the day. -/
def hour (t : DateTime) : Nat := t.moment.second / 3600

/-- The minute of the hour. -/
def minute (t : DateTime) : Nat := t.moment.second / 60 % 60

/-- The second of the minute. -/
def second (t : DateTime) : Nat := t.moment.second % 60

/-- The ticks past the last full second. -/
def fraction (t : DateTime) : Int := (t.moment.nanosecond / 100 : Nat)

/-- Midnight of the same day. -/
def date (t : DateTime) : DateTime := ⟨inWord (t.ticks - t.ticks % ticksPerDay)⟩

/-- The point made from calendar fields and a fraction of a second in ticks. -/
def ofFields (date : Calendar.Date) (hour minute second : Nat) (fraction : Int) : DateTime :=
  ofMoment ⟨date, hour * 3600 + minute * 60 + second, fraction.toNat * 100⟩

/-- Midnight of a day, if the calendar has it. -/
def ofDate? (year month day : Int) : Option DateTime :=
  let date : Calendar.Date := ⟨year, month.toNat, day.toNat⟩
  if 0 ≤ month ∧ 0 ≤ day ∧ date.isKnown ∧ date.isValid then some (ofFields date 0 0 0 0) else none

/-- A year: four digits, and outside of 0 to 9999 a sign and at least four digits. -/
def yearText (year : Int) : String :=
  if 0 ≤ year ∧ year ≤ 9999 then padded 4 year.toNat
  else (if year < 0 then "-" else "+") ++ padded 4 year.natAbs

/-- Date and time of day; beyond the days of the calendar, the number of ticks. -/
def text (t : DateTime) : String :=
  match t.moment? with
  | none => s!"DateTime({t.ticks})"
  | some _ =>
    yearText t.year ++ "-" ++ padded 2 t.month ++ "-" ++ padded 2 t.day ++ " " ++
      padded 2 t.hour ++ ":" ++ padded 2 t.minute ++ ":" ++ padded 2 t.second

end DateTime

/-- A point of local time and its distance from universal time. -/
structure DateTimeOffset where
  ticks : Int
  offset : TimeSpan
deriving DecidableEq, Repr

namespace DateTimeOffset

/-- The local time. -/
def dateTime (t : DateTimeOffset) : DateTime := ⟨t.ticks⟩

/-- The universal time. -/
def utc (t : DateTimeOffset) : DateTime := ⟨t.ticks - t.offset.ticks⟩

/-- The local time and the distance in hours and minutes. -/
def text (t : DateTimeOffset) : String :=
  let minutes := t.offset.ticks.tdiv (ticksPerSecond * 60)
  t.dateTime.text ++ " " ++ (if minutes < 0 then "-" else "+") ++
    padded 2 (minutes.natAbs / 60) ++ ":" ++ padded 2 (minutes.natAbs % 60)

end DateTimeOffset

end FatArrow
