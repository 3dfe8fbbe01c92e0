import FatArrow.Standard.Declare

/-!
Functions of numbers. Rounding goes to the nearest whole number, a tie to the even one.
-/

namespace FatArrow.Standard

/-- The whole part of a float. -/
def wholePart (x : Float) : Float := if x < 0 then x.ceil else x.floor

/-- The nearest whole number; a tie goes to the even one. -/
def roundEven (x : Float) : Float :=
  let away := x.round
  if (x - wholePart x).abs == 0.5 && floatRemainder away 2 != 0 then
    away - (if x < 0 then -1 else 1)
  else away

/-- A float to a natural power, by squaring. -/
def powerNat (x : Float) (n : Nat) (acc : Float) : Float :=
  if n = 0 then acc
  else
    let acc := if n % 2 = 1 then acc * x else acc
    if n / 2 = 0 then acc else powerNat (x * x) (n / 2) acc
termination_by n

/-- A float to an integer power; a negative power is the reciprocal of the positive one. -/
def powerInt (x : Float) (n : Int) : Float :=
  let magnitude := powerNat x n.natAbs 1
  if n < 0 then 1 / magnitude else magnitude

/-- The nearest multiple of a power of ten; a tie goes to the even one. -/
def roundPlaces (x : Float) (places : Int) : Float :=
  let scale := powerInt 10 places
  roundEven (x * scale) / scale

/-- The greater float. NaN gives way to a number, and of equals the first is taken. -/
def maxFloat (x y : Float) : Float :=
  if x.isNaN then y else if y > x then y else x

/-- The lesser float. NaN gives way to a number, and of equals the first is taken. -/
def minFloat (x y : Float) : Float :=
  if x.isNaN then y else if y < x then y else x

/-- A function of a float. -/
def floatNative (f : Float → Float) : Native := fun call =>
  return .double (f (← call.argFloat 0))

/-- A function of two floats. -/
def floatNative2 (f : Float → Float → Float) : Native := fun call => do
  let x ← call.argFloat 0
  return .double (f x (← call.argFloat 1))

/-- A function of two integers, with the result as a word of a type. -/
def intNative2 (k : IntegerKind) (f : Int → Int → Int) : Native := fun call => do
  let x ← call.argInt 0
  let y ← call.argInt 1
  return .integer k (k.wrap (f x.toInt y.toInt))

/-- The magnitude of an integer as a word of a type. The least integer is its own magnitude. -/
def magnitudeNative (k : IntegerKind) : Native := fun call => do
  let x ← call.argInt 0
  return .integer k (k.wrap (k.denote (k.wrap x.toInt)).natAbs)

/-- Constants and functions of numbers. -/
def math : TypeDecl :=
  { TypeDecl.ofName "Math" with
    properties := [
      constant "PI" .double (.double (Float.ofBits 0x400921fb54442d18)),
      constant "E" .double (.double (Float.ofBits 0x4005bf0a8b145769))]
    methods := [
      staticMethod "Pow" [.double, .double] .double (floatNative2 Float.pow),
      staticMethod "Sqrt" [.double] .double (floatNative Float.sqrt),
      staticMethod "Floor" [.double] .double (floatNative Float.floor),
      staticMethod "Ceiling" [.double] .double (floatNative Float.ceil),
      staticMethod "Round" [.double] .double (floatNative roundEven),
      staticMethod "Round" [.double, .int32] .double fun call => do
        let x ← call.argFloat 0
        let places ← call.argInt 1
        return .double (roundPlaces x (IntegerKind.denote .int32 (IntegerKind.wrap .int32
          places.toInt))),
      staticMethod "Max" [.double, .double] .double (floatNative2 maxFloat),
      staticMethod "Max" [.int32, .int32] .int32 (intNative2 .int32 max),
      staticMethod "Max" [.int64, .int64] .int64 (intNative2 .int64 max),
      staticMethod "Min" [.double, .double] .double (floatNative2 minFloat),
      staticMethod "Min" [.int32, .int32] .int32 (intNative2 .int32 min),
      staticMethod "Min" [.int64, .int64] .int64 (intNative2 .int64 min),
      staticMethod "Abs" [.double] .double (floatNative Float.abs),
      staticMethod "Abs" [.int32] .int32 (magnitudeNative .int32),
      staticMethod "Abs" [.int64] .int64 (magnitudeNative .int64)] }

/-- The module of functions of numbers. -/
def numbers : HostModule := HostModule.ofNamespace "System" [math]

end FatArrow.Standard
