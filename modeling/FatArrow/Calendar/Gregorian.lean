/-!
The proleptic Gregorian calendar. Days are counted from the first of January of the year 1; years
before it are 0, -1, and so on.
-/

namespace FatArrow.Calendar

/-- A day of the calendar. -/
structure Date where
  year : Int
  month : Nat
  day : Nat
deriving DecidableEq, Repr

/-- A year with 366 days. -/
def isLeap (year : Int) : Bool :=
  year % 4 == 0 && (year % 100 != 0 || year % 400 == 0)

/-- The number of days of a month. -/
def monthLength (year : Int) (month : Nat) : Nat :=
  if month = 2 then (if isLeap year then 29 else 28)
  else if month = 4 ∨ month = 6 ∨ month = 9 ∨ month = 11 then 30
  else 31

/-- The days from the first day of the calendar to the first of January of a year. -/
def daysBeforeYear (year : Int) : Int :=
  let y := year - 1
  365 * y + y / 4 - y / 100 + y / 400

/-- The days of a year before the first of a month. -/
def daysBeforeMonth (year : Int) : Nat → Nat
  | 0 => 0
  | 1 => 0
  | month + 1 => daysBeforeMonth year month + monthLength year month

namespace Date

/-- A day that the calendar has. -/
def isValid (d : Date) : Bool :=
  1 ≤ d.month && d.month ≤ 12 && 1 ≤ d.day && d.day ≤ monthLength d.year d.month

/-- The years for which days are known reach from -262143 to 262142. -/
def isKnown (d : Date) : Bool := -262143 ≤ d.year && d.year ≤ 262142

/-- The number of days from the first day of the calendar. -/
def toDays (d : Date) : Int :=
  daysBeforeYear d.year + daysBeforeMonth d.year d.month + d.day - 1

end Date

/-- The year of a day: the mean length of a year gives one that is at most one off. -/
def yearOfDays (days : Int) : Int :=
  let guess := days * 400 / 146097 + 1
  if daysBeforeYear (guess + 1) ≤ days then guess + 1
  else if days < daysBeforeYear guess then guess - 1
  else guess

/-- The month of a day of a year, counted from zero: the last one that has begun. -/
def monthOfDay (year : Int) (dayOfYear : Nat) : Nat → Nat
  | 0 => 1
  | month + 1 =>
    if daysBeforeMonth year (month + 1) ≤ dayOfYear then month + 1
    else monthOfDay year dayOfYear month

/-- The date of a number of days from the first day of the calendar. -/
def Date.ofDays (days : Int) : Date :=
  let year := yearOfDays days
  let dayOfYear := (days - daysBeforeYear year).toNat
  let month := monthOfDay year dayOfYear 12
  ⟨year, month, dayOfYear - daysBeforeMonth year month + 1⟩

end FatArrow.Calendar
