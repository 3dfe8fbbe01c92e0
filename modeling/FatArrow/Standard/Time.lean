import FatArrow.Standard.Declare
import FatArrow.Standard.Surroundings

/-!
Points and lengths of time.
-/

namespace FatArrow.Standard

/-- The point of time that a value is. -/
def asDateTime? : Value → Option DateTime
  | .dateTime t => some t
  | _ => none

/-- The point of local time that a value is. -/
def asDateTimeOffset? : Value → Option DateTimeOffset
  | .dateTimeOffset t => some t
  | _ => none

/-- The length of time that a value is. -/
def asTimeSpan? : Value → Option TimeSpan
  | .timeSpan t => some t
  | _ => none

/-- Midnight of a day. -/
def midnight (year month day : Int64) : Except EvalError DateTime :=
  match DateTime.ofDate? year.toInt month.toInt day.toInt with
  | some t => .ok t
  | none => .error (.reported s!"invalid date {year.toInt}-{month.toInt}-{day.toInt}")

/-- A property of points of time. -/
def dateTimeProperty (name : String) (type : HostType) (f : DateTime → Value) : MemberDecl :=
  property name type fun call => return f (← thisAs call asDateTime? "DateTime")

/-- A property of points of local time. -/
def dateTimeOffsetProperty (name : String) (type : HostType) (f : DateTimeOffset → Value) :
    MemberDecl :=
  property name type fun call => return f (← thisAs call asDateTimeOffset? "DateTimeOffset")

/-- A property of lengths of time. -/
def timeSpanProperty (name : String) (type : HostType) (f : TimeSpan → Value) : MemberDecl :=
  property name type fun call => return f (← thisAs call asTimeSpan? "TimeSpan")

/-- Points of time. -/
def dateTime (around : Surroundings) : TypeDecl :=
  { TypeDecl.ofName "DateTime" with
    properties := [
      constant "Now" .dateTime (.dateTime around.now),
      constant "UtcNow" .dateTime (.dateTime around.clock),
      constant "Today" .dateTime (.dateTime around.now.date),
      constant "MinValue" .dateTime (.dateTime DateTime.zero),
      dateTimeProperty "Ticks" .int64 fun t => .int64 t.ticks,
      dateTimeProperty "Date" .dateTime fun t => .dateTime t.date,
      dateTimeProperty "Year" .int32 fun t => .int32 t.year,
      dateTimeProperty "Month" .int32 fun t => .int32 t.month,
      dateTimeProperty "Day" .int32 fun t => .int32 t.day,
      dateTimeProperty "Hour" .int32 fun t => .int32 t.hour,
      dateTimeProperty "Minute" .int32 fun t => .int32 t.minute,
      dateTimeProperty "Second" .int32 fun t => .int32 t.second]
    constructors := [
      ⟨[.int64], fun call => return .dateTime ⟨(← call.argInt 0).toInt⟩⟩,
      ⟨[.int32, .int32, .int32], fun call => do
        let year ← call.argInt 0
        let month ← call.argInt 1
        let day ← call.argInt 2
        return .dateTime (← midnight year month day)⟩] }

/-- Points of local time. -/
def dateTimeOffset (around : Surroundings) : TypeDecl :=
  { TypeDecl.ofName "DateTimeOffset" with
    properties := [
      constant "Now" .dateTimeOffset (.dateTimeOffset ⟨around.now.ticks, around.zone⟩),
      dateTimeOffsetProperty "Ticks" .int64 fun t => .int64 t.ticks,
      dateTimeOffsetProperty "Offset" .timeSpan fun t => .timeSpan t.offset,
      dateTimeOffsetProperty "DateTime" .dateTime fun t => .dateTime t.dateTime,
      dateTimeOffsetProperty "UtcDateTime" .dateTime fun t => .dateTime t.utc]
    constructors := [
      ⟨[.int64, .timeSpan], fun call => do
        let ticks ← call.argInt 0
        return .dateTimeOffset ⟨ticks.toInt, ← call.argAs 1 asTimeSpan? "TimeSpan"⟩⟩] }

/-- Lengths of time. -/
def timeSpan : TypeDecl :=
  { TypeDecl.ofName "TimeSpan" with
    properties := [
      constant "Zero" .timeSpan (.timeSpan TimeSpan.zero),
      timeSpanProperty "Ticks" .int64 fun t => .int64 t.ticks,
      timeSpanProperty "TotalSeconds" .double fun t => .double t.totalSeconds,
      timeSpanProperty "TotalDays" .double fun t => .double t.totalDays]
    methods := [
      staticMethod "FromSeconds" [.double] .timeSpan fun call =>
        return .timeSpan (TimeSpan.ofSeconds (← call.argFloat 0))]
    constructors := [⟨[.int64], fun call => return .timeSpan ⟨(← call.argInt 0).toInt⟩⟩] }

/-- The module of points and lengths of time. -/
def time (around : Surroundings) : HostModule :=
  HostModule.ofNamespace "System" [dateTime around, dateTimeOffset around, timeSpan]

end FatArrow.Standard
