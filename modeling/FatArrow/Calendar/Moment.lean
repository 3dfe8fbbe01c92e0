import FatArrow.Calendar.Gregorian

/-!
Moments of the calendar: a day and the time since its midnight. Full seconds are counted from the
beginning of the year 1970.
-/

namespace FatArrow.Calendar

/-- The days of the calendar before the year 1970. -/
def epochDays : Int := 719162

/-- A day and the time since its midnight: full seconds, and nanoseconds on top of them. -/
structure Moment where
  date : Date
  second : Nat
  nanosecond : Nat
deriving DecidableEq, Repr

namespace Moment

/-- The full seconds from the beginning of the year 1970. -/
def sinceEpoch (m : Moment) : Int := (m.date.toDays - epochDays) * 86400 + m.second

/-- The moment so many seconds and nanoseconds after the beginning of the year 1970, if its day is
known. -/
def ofEpoch? (seconds : Int) (nanosecond : Nat) : Option Moment :=
  let date := Date.ofDays (seconds / 86400 + epochDays)
  if date.isKnown then some ⟨date, (seconds % 86400).toNat, nanosecond⟩ else none

end Moment

end FatArrow.Calendar
