import FatArrow.Standard.Declare

/-!
The primitive types with their limits, and the members that all nullable types share.
-/

namespace FatArrow.Standard

/-- The greatest and the least integer of a type. -/
def integerLimits (k : IntegerKind) : List MemberDecl := [
  constant "MaxValue" (.integer k) (.integer k (k.wrap k.greatest)),
  constant "MinValue" (.integer k) (.integer k (k.wrap k.least))]

/-- The limits of the long floats and what lies beyond them. -/
def doubleLimits : List MemberDecl := [
  constant "MaxValue" .double (.double (Float.ofBits 0x7fefffffffffffff)),
  constant "MinValue" .double (.double (Float.ofBits 0xffefffffffffffff)),
  constant "NaN" .double (.double (Float.ofBits 0x7ff8000000000000)),
  constant "PositiveInfinity" .double (.double (Float.ofBits 0x7ff0000000000000)),
  constant "NegativeInfinity" .double (.double (Float.ofBits 0xfff0000000000000))]

/-- What lies beyond the limits of the short floats. -/
def singleLimits : List MemberDecl := [
  constant "NaN" .single (.single (Float32.ofBits 0x7fc00000)),
  constant "PositiveInfinity" .single (.single (Float32.ofBits 0x7f800000)),
  constant "NegativeInfinity" .single (.single (Float32.ofBits 0xff800000))]

/-- A primitive type with its limits. -/
def primitive (p : Primitive) : TypeDecl :=
  { TypeDecl.ofPrimitive p with
    properties :=
      match p with
      | .integer .int32 => integerLimits .int32
      | .integer .int64 => integerLimits .int64
      | .double => doubleLimits
      | .single => singleLimits
      | _ => [] }

/-- The members of nullable types. They answer for null too, but for `Value`. -/
def nullable : TypeDecl :=
  { TypeDecl.ofName "Nullable`1" with
    arity := 1
    properties := [
      property "HasValue" .boolean fun call => return .bool !call.receiverOrNull.isNull,
      property "Value" (.param 0) fun call => call.this]
    methods := [
      method "GetValueOrDefault" [.param 0] (.param 0) fun call =>
        if call.receiverOrNull.isNull then call.arg 0 else return call.receiverOrNull] }

/-- The primitive types but `Void` and `String`, and the nullable types. -/
def primitives : HostModule :=
  HostModule.ofNamespace "System"
    ((Primitive.all.filter fun p => p != .void && p != .string).map primitive ++ [nullable])

end FatArrow.Standard
