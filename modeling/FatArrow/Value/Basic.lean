import FatArrow.Calendar.Ticks
import FatArrow.Types.HostType
import FatArrow.Value.Guid

/-!
Values of host types, and the store of the objects among them. An object is known by its identity;
what it holds is in the store.
-/

namespace FatArrow

/-- A value of a host type. -/
inductive Value where
  | null
  | bool (b : Bool)
  | char (c : Char)
  | integer (kind : IntegerKind) (word : BitVec kind.width)
  | single (x : Float32)
  | double (x : Float)
  | string (s : String)
  | dateTime (t : DateTime)
  | dateTimeOffset (t : DateTimeOffset)
  | timeSpan (t : TimeSpan)
  | guid (g : Guid)
  | array (items : List Value)
  | object (type : HostType) (id : Nat)

/-- Equal as numbers, or both NaN. -/
def sameDouble (x y : Float) : Bool := x == y || (x.isNaN && y.isNaN)

/-- Equal as numbers, or both NaN. -/
def sameSingle (x y : Float32) : Bool := x == y || (x.isNaN && y.isNaN)

namespace Value

/-- An integer of 32 bits. -/
def int32 (n : Int) : Value := .integer .int32 (IntegerKind.wrap .int32 n)

/-- An integer of 64 bits. -/
def int64 (n : Int) : Value := .integer .int64 (IntegerKind.wrap .int64 n)

mutual
/-- Equality of values: kind by kind, floats with NaN equal to itself, objects by identity. -/
def same : Value → Value → Bool
  | .null, .null => true
  | .bool a, .bool b => a == b
  | .char a, .char b => a == b
  | .integer k v, .integer l w => k == l && v.toNat == w.toNat
  | .single a, .single b => sameSingle a b
  | .double a, .double b => sameDouble a b
  | .string a, .string b => a == b
  | .dateTime a, .dateTime b => a == b
  | .dateTimeOffset a, .dateTimeOffset b => a == b
  | .timeSpan a, .timeSpan b => a == b
  | .guid a, .guid b => a == b
  | .array as, .array bs => sameList as bs
  | .object _ i, .object _ j => i == j
  | _, _ => false

/-- Equality of lists of values. -/
def sameList : List Value → List Value → Bool
  | [], [] => true
  | a :: as, b :: bs => same a b && sameList as bs
  | _, _ => false
end

instance : BEq Value := ⟨same⟩

/-- The absent value. -/
def isNull : Value → Bool
  | .null => true
  | _ => false

/-- The truth value, if it is one. -/
def bool? : Value → Option Bool
  | .bool b => some b
  | _ => none

/-- The text, if it is one. -/
def string? : Value → Option String
  | .string s => some s
  | _ => none

/-- The items, if it is an array. -/
def items? : Value → Option (List Value)
  | .array items => some items
  | _ => none

/-- Whether it is an object. -/
def isObject : Value → Bool
  | .object _ _ => true
  | _ => false

/-- The primitive type of a value, where it has one. -/
def primitive? : Value → Option Primitive
  | .bool _ => some .boolean
  | .char _ => some .char
  | .integer k _ => some (.integer k)
  | .single _ => some .single
  | .double _ => some .double
  | .string _ => some .string
  | _ => none

/-- The type of a value as it is named in messages. -/
def typeName : Value → String
  | .null => "null"
  | .dateTime _ => "DateTime"
  | .dateTimeOffset _ => "DateTimeOffset"
  | .timeSpan _ => "TimeSpan"
  | .guid _ => "Guid"
  | .array _ => "Array"
  | .object type _ => type.text
  | v => (v.primitive?.map Primitive.hostName).getD ""

end Value

/-! ## The store of objects -/

/-- What an object holds: named slots, or the name of a culture. -/
inductive Payload where
  | record (slots : List (String × Value))
  | culture (name : String)

/-- The objects made so far, by identity. -/
structure Store where
  objects : List Payload

namespace Store

/-- No object yet. -/
def empty : Store := ⟨[]⟩

/-- What an object holds. -/
def payload? (s : Store) (id : Nat) : Option Payload := s.objects[id]?

/-- A new object, and the store that holds it. -/
def make (s : Store) (type : HostType) (payload : Payload) : Value × Store :=
  (.object type s.objects.length, ⟨s.objects ++ [payload]⟩)

/-- A slot of a list of slots. -/
def slotOf (slots : List (String × Value)) (name : String) : Value :=
  (slots.lookup name).getD .null

/-- The slots with one of them written. -/
def writeSlot (slots : List (String × Value)) (name : String) (value : Value) :
    List (String × Value) :=
  match slots with
  | [] => [(name, value)]
  | (n, v) :: rest => if n == name then (n, value) :: rest else (n, v) :: writeSlot rest name value

/-- The store after a slot of a record is written; nothing happens where there is no record. -/
def setSlot (s : Store) (id : Nat) (name : String) (value : Value) : Store :=
  match s.payload? id with
  | some (.record slots) => ⟨s.objects.set id (.record (writeSlot slots name value))⟩
  | _ => s

end Store

end FatArrow
