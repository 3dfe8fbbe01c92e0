/-!
The primitive types: their host names, their keywords, and which of them convert to which without
loss of range.
-/

namespace FatArrow

/-- The eight integer types. -/
inductive IntegerKind where
  | byte | sbyte | int16 | uint16 | int32 | uint32 | int64 | uint64
deriving DecidableEq, Repr

namespace IntegerKind

/-- The number of bits. -/
def width : IntegerKind → Nat
  | .byte | .sbyte => 8
  | .int16 | .uint16 => 16
  | .int32 | .uint32 => 32
  | .int64 | .uint64 => 64

/-- Two's complement, against plain binary. -/
def signed : IntegerKind → Bool
  | .sbyte | .int16 | .int32 | .int64 => true
  | .byte | .uint16 | .uint32 | .uint64 => false

/-- A wider type that has every value of the narrower one. -/
def widensTo (a b : IntegerKind) : Bool :=
  a.width < b.width && (b.signed || !a.signed)

/-- The integer a word of the type denotes. -/
def denote (k : IntegerKind) (w : BitVec k.width) : Int :=
  if k.signed then w.toInt else w.toNat

/-- The word of the type that denotes an integer up to a multiple of `2 ^ width`. -/
def wrap (k : IntegerKind) (n : Int) : BitVec k.width :=
  BitVec.ofInt k.width n

/-- The least integer of the type. -/
def least (k : IntegerKind) : Int :=
  if k.signed then -(Nat.pow 2 (k.width - 1) : Int) else 0

/-- The greatest integer of the type. -/
def greatest (k : IntegerKind) : Int :=
  (Nat.pow 2 (if k.signed then k.width - 1 else k.width) : Int) - 1

end IntegerKind

/-- The primitive types. -/
inductive Primitive where
  | void | boolean | char | integer (kind : IntegerKind) | single | double | string | object
deriving DecidableEq, Repr

namespace Primitive

/-- Every primitive type, in the order in which they are listed. -/
def all : List Primitive := [
  .void, .boolean, .char, .integer .byte, .integer .sbyte, .integer .int16, .integer .uint16,
  .integer .int32, .integer .uint32, .integer .int64, .integer .uint64, .single, .double, .string,
  .object]

theorem mem_all (p : Primitive) : p ∈ all := by
  cases p with
  | integer kind => cases kind <;> decide
  | _ => decide

/-- The name of the type in the host, without its namespace. -/
def hostName : Primitive → String
  | .void => "Void"
  | .boolean => "Boolean"
  | .char => "Char"
  | .integer .byte => "Byte"
  | .integer .sbyte => "SByte"
  | .integer .int16 => "Int16"
  | .integer .uint16 => "UInt16"
  | .integer .int32 => "Int32"
  | .integer .uint32 => "UInt32"
  | .integer .int64 => "Int64"
  | .integer .uint64 => "UInt64"
  | .single => "Single"
  | .double => "Double"
  | .string => "String"
  | .object => "Object"

/-- The keyword that stands for the type. -/
def keyword : Primitive → String
  | .void => "void"
  | .boolean => "bool"
  | .char => "char"
  | .integer .byte => "byte"
  | .integer .sbyte => "sbyte"
  | .integer .int16 => "short"
  | .integer .uint16 => "ushort"
  | .integer .int32 => "int"
  | .integer .uint32 => "uint"
  | .integer .int64 => "long"
  | .integer .uint64 => "ulong"
  | .single => "float"
  | .double => "double"
  | .string => "string"
  | .object => "object"

/-- The type that a keyword names in an expression. The keywords `uint` and `ulong` name the signed
type of their width, and `void` names none. -/
def ofKeyword? : String → Option Primitive
  | "bool" => some .boolean
  | "char" => some .char
  | "byte" => some (.integer .byte)
  | "sbyte" => some (.integer .sbyte)
  | "short" => some (.integer .int16)
  | "ushort" => some (.integer .uint16)
  | "int" | "uint" => some (.integer .int32)
  | "long" | "ulong" => some (.integer .int64)
  | "float" => some .single
  | "double" => some .double
  | "string" => some .string
  | "object" => some .object
  | _ => none

/-- The type with a host name. -/
def ofHostName? (name : String) : Option Primitive :=
  all.find? (·.hostName == name)

/-- One of the integer types. -/
def isInteger : Primitive → Bool
  | .integer _ => true
  | _ => false

/-- One of the two float types. -/
def isFloating : Primitive → Bool
  | .single | .double => true
  | _ => false

/-- An integer or float type. -/
def isNumeric (p : Primitive) : Bool := p.isInteger || p.isFloating

/-- A type whose values are never null. -/
def isValueType : Primitive → Bool
  | .void | .string | .object => false
  | _ => true

/-- An implicit numeric conversion: to a wider integer type with every value of the first, from any
integer to a float, and from the short float to the long one. A character counts as an unsigned
number of 16 bits. -/
def widensTo : Primitive → Primitive → Bool
  | .integer a, .integer b => a.widensTo b
  | .char, .integer b => b == .uint16 || IntegerKind.uint16.widensTo b
  | .integer _, .single | .integer _, .double | .char, .single | .char, .double => true
  | .single, .double => true
  | _, _ => false

end Primitive

end FatArrow
