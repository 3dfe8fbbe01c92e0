import FatArrow.Calendar.Ticks
import FatArrow.Value.Guid

/-!
What host types take from outside: the clock, the culture of the user, and new identifiers.
-/

namespace FatArrow

/-- The state of the outside world that host types read. -/
structure Surroundings where
  /-- The universal time. -/
  clock : DateTime
  /-- The distance of the local time from the universal time. -/
  zone : TimeSpan
  /-- The name of the culture; that of no particular culture is empty. -/
  culture : String
  /-- The identifier that is handed out next. -/
  freshGuid : Guid

namespace Surroundings

/-- The beginning of time, at no particular place. -/
def still : Surroundings := ⟨DateTime.zero, TimeSpan.zero, "", Guid.zero⟩

/-- The local time. -/
def now (s : Surroundings) : DateTime := ⟨s.clock.ticks + s.zone.ticks⟩

end Surroundings

end FatArrow
