import FatArrow.Value.Basic

/-!
Numeric readings of values and conversion between the primitive types. An integer keeps its value
up to a multiple of the target's range, a float is cut off toward zero and kept within the range,
and a code point that is no character becomes the zero character.
-/

namespace FatArrow.Value

/-- The value as an integer of 64 bits. Characters count, and an unsigned word of 64 bits is read
in two's complement. -/
def int64? : Value → Option Int64
  | .char c => some (Int64.ofInt c.toNat)
  | .integer k w => some (Int64.ofInt (k.denote w))
  | _ => none

/-- The value as a 64-bit float. -/
def float? : Value → Option Float
  | .single x => some (widenFloat x)
  | .double x => some x
  | .char c => some (floatOfInt c.toNat)
  | .integer k w => some (floatOfInt (k.denote w))
  | _ => none

/-- The integer that a character or an integer value denotes. -/
def whole? : Value → Option Int
  | .char c => some c.toNat
  | .integer k w => some (k.denote w)
  | _ => none

/-- An integer as a value of a numeric type or a character. -/
def ofWhole? (n : Int) : Primitive → Option Value
  | .single => some (.single (float32OfInt n))
  | .double => some (.double (floatOfInt n))
  | .char => some (.char (Char.ofNat (IntegerKind.wrap .uint32 n).toNat))
  | .integer k => some (.integer k (k.wrap n))
  | _ => none

/-- A float as a value of a numeric type or a character. -/
def ofFloat? (x : Float) : Primitive → Option Value
  | .single => some (.single (narrowFloat x))
  | .double => some (.double x)
  | .char => some (.char (Char.ofNat ((datumOf x).clamp 0 IntegerKind.uint32.greatest).toNat))
  | .integer k => some (.integer k (k.wrap ((datumOf x).clamp k.least k.greatest)))
  | _ => none

/-- The value converted to a primitive type: unchanged if it has that type, otherwise between
numbers and characters only. -/
def convert? (v : Value) (target : Primitive) : Option Value :=
  if v.primitive? = some target then some v
  else
    match v with
    | .single x => ofFloat? (widenFloat x) target
    | .double x => ofFloat? x target
    | v => v.whole?.bind fun n => ofWhole? n target

end FatArrow.Value
