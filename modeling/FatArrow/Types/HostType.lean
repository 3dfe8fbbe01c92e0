import FatArrow.Types.Primitive
import FatArrow.Types.QualifiedName

/-!
Host types. A type has a shape, arguments, and a flag that says whether it admits null on top of
its own values. Main facts: equality is decidable, and substitution replaces generic parameters by
position.
-/

namespace FatArrow

/-- What a type is before its arguments. -/
inductive Shape where
  | primitive (kind : Primitive)
  | named (name : QualifiedName)
  | array
  | param (position : Nat)
deriving DecidableEq, Repr

/-- A host type. -/
structure HostType where
  shape : Shape
  args : List HostType
  nullable : Bool
deriving Repr

mutual
/-- Equality of types is decided part by part. -/
def HostType.decEq : (a b : HostType) → Decidable (a = b)
  | ⟨s, as, n⟩, ⟨t, bs, m⟩ =>
    if hs : s = t then
      if hn : n = m then
        match HostType.decEqList as bs with
        | isTrue h => isTrue (by rw [hs, hn, h])
        | isFalse h => isFalse (fun e => h (by injection e))
      else isFalse (fun e => hn (by injection e))
    else isFalse (fun e => hs (by injection e))

/-- Equality of lists of types is decided item by item. -/
def HostType.decEqList : (as bs : List HostType) → Decidable (as = bs)
  | [], [] => isTrue rfl
  | [], _ :: _ => isFalse nofun
  | _ :: _, [] => isFalse nofun
  | a :: as, b :: bs =>
    match HostType.decEq a b, HostType.decEqList as bs with
    | isTrue h, isTrue h' => isTrue (by rw [h, h'])
    | isFalse h, _ => isFalse (fun e => h (by injection e))
    | _, isFalse h => isFalse (fun e => h (by injection e))
end

instance : DecidableEq HostType := HostType.decEq

/-! ## Dotted names of the types and the module that play a part of their own -/
namespace WellKnown

/-- The date and time of day. -/
def dateTime : String := "System.DateTime"

/-- The date and time of day with its distance from universal time. -/
def dateTimeOffset : String := "System.DateTimeOffset"

/-- A length of time. -/
def timeSpan : String := "System.TimeSpan"

/-- A 128-bit identifier. -/
def guid : String := "System.Guid"

/-- The definition of the nullable types. -/
def nullable : String := "System.Nullable`1"

/-- The definition of the sequence types. -/
def enumerable : String := "System.Collections.Generic.IEnumerable`1"

/-- The type whose static methods are called on sequences. -/
def sequenceOps : String := "System.Linq.Enumerable"

/-- The module that holds the sequence operations. -/
def sequenceOpsModule : String := "System.Linq"

end WellKnown

namespace HostType

/-! ## Making types -/

/-- A primitive type. -/
def primitive (p : Primitive) : HostType := ⟨.primitive p, [], false⟩

/-- The type of no value. -/
def void : HostType := primitive .void

/-- Truth values. -/
def boolean : HostType := primitive .boolean

/-- Characters. -/
def char : HostType := primitive .char

/-- An integer type. -/
def integer (k : IntegerKind) : HostType := primitive (.integer k)

/-- Integers of 32 bits. -/
def int32 : HostType := integer .int32

/-- Integers of 64 bits. -/
def int64 : HostType := integer .int64

/-- Floats of 32 bits. -/
def single : HostType := primitive .single

/-- Floats of 64 bits. -/
def double : HostType := primitive .double

/-- Texts. -/
def string : HostType := primitive .string

/-- The type of every value. -/
def object : HostType := primitive .object

/-- A type by its name, with arguments. -/
def applied (name : QualifiedName) (args : List HostType) : HostType := ⟨.named name, args, false⟩

/-- A type by its dotted name. -/
def named (name : String) : HostType := applied (.ofDotted name) []

/-- The arrays of an element type. -/
def arrayOf (element : HostType) : HostType := ⟨.array, [element], false⟩

/-- The sequences of an element type. -/
def sequenceOf (element : HostType) : HostType := applied (.ofDotted WellKnown.enumerable) [element]

/-- The generic parameter at a position. -/
def param (position : Nat) : HostType := ⟨.param position, [], false⟩

/-- The type of `System.DateTime` values. -/
def dateTime : HostType := named WellKnown.dateTime

/-- The type of `System.DateTimeOffset` values. -/
def dateTimeOffset : HostType := named WellKnown.dateTimeOffset

/-- The type of `System.TimeSpan` values. -/
def timeSpan : HostType := named WellKnown.timeSpan

/-- The type of `System.Guid` values. -/
def guid : HostType := named WellKnown.guid

/-! ## Reading types -/

/-- The primitive a type is, null or not. -/
def primitive? (t : HostType) : Option Primitive :=
  match t.shape with
  | .primitive p => some p
  | _ => none

/-- The name of a named type. -/
def name? (t : HostType) : Option QualifiedName :=
  match t.shape with
  | .named q => some q
  | _ => none

/-- A named type with the given dotted name. -/
def isNamed (t : HostType) (dottedName : String) : Bool :=
  t.name?.any (·.text == dottedName)

/-- An array type. -/
def isArray (t : HostType) : Bool := t.shape == .array

/-- The element type of an array type. -/
def element? (t : HostType) : Option HostType :=
  if t.isArray then t.args.head? else none

/-- The given primitive, not admitting null. -/
def isPrimitive (t : HostType) (p : Primitive) : Bool := !t.nullable && t.shape == .primitive p

/-- A number type that does not admit null. -/
def isNumeric (t : HostType) : Bool := !t.nullable && t.primitive?.any (·.isNumeric)

/-- The truth values. -/
def isBoolean (t : HostType) : Bool := t.isPrimitive .boolean

/-- The texts. -/
def isString (t : HostType) : Bool := t.isPrimitive .string

/-- The type of no value. -/
def isVoid (t : HostType) : Bool := t.isPrimitive .void

/-- A type whose own values are never null. -/
def isValueType (t : HostType) : Bool :=
  match t.shape with
  | .primitive p => p.isValueType
  | .named q =>
    [WellKnown.dateTime, WellKnown.dateTimeOffset, WellKnown.timeSpan, WellKnown.guid].contains
      q.text
  | .array | .param _ => false

/-- The type with null added; a type that has null already stays as it is. -/
def orNull (t : HostType) : HostType := { t with nullable := t.nullable || t.isValueType }

/-- The type without the null that was added to it. -/
def underlying (t : HostType) : HostType := { t with nullable := false }

mutual
/-- Whether a generic parameter occurs in the type. -/
def hasParam : HostType → Bool
  | ⟨.param _, _, _⟩ => true
  | ⟨_, args, _⟩ => hasParamList args

/-- Whether a generic parameter occurs in one of the types. -/
def hasParamList : List HostType → Bool
  | [] => false
  | t :: ts => t.hasParam || hasParamList ts
end

mutual
/-- The type with its generic parameters replaced by position. A parameter past the end of the list
stays, and a nullable parameter makes its replacement nullable. -/
def subst (actual : List HostType) : HostType → HostType
  | ⟨.param i, args, n⟩ =>
    match actual[i]? with
    | some t => { t with nullable := t.nullable || n }
    | none => ⟨.param i, substList actual args, n⟩
  | ⟨s, args, n⟩ => ⟨s, substList actual args, n⟩

/-- Replacement in each type of a list. -/
def substList (actual : List HostType) : List HostType → List HostType
  | [] => []
  | t :: ts => t.subst actual :: substList actual ts
end

/-! ## Fingerprints and names -/

mutual
/-- The fingerprint of a type, mixed from those of its parts. -/
def fingerprint : HostType → Fingerprint
  | ⟨shape, args, nullable⟩ =>
    let base :=
      match shape with
      | .primitive p => Fingerprint.ofName ("System." ++ p.hostName)
      | .named q =>
        if args.isEmpty then q.fingerprint
        else Fingerprint.ofInstance q.fingerprint (fingerprints args)
      | .array => Fingerprint.ofArray ((fingerprints args).headD Fingerprint.empty)
      | .param i => Fingerprint.ofGenericParam i
    if nullable then Fingerprint.ofNullable base else base

/-- The fingerprints of a list of types. -/
def fingerprints : List HostType → List Fingerprint
  | [] => []
  | t :: ts => t.fingerprint :: fingerprints ts
end

mutual
/-- The full name of a type. Arguments stand in angle brackets after the display name. -/
def text : HostType → String
  | ⟨shape, args, nullable⟩ =>
    let base :=
      match shape with
      | .primitive p => p.hostName
      | .array => (texts args).headD "" ++ "[]"
      | .param i => s!"T{i}"
      | .named q =>
        if args.isEmpty then q.text
        else
          (if q.isGlobal then "" else q.namespaceText ++ ".") ++ q.displayName ++ "<"
            ++ ", ".intercalate (texts args) ++ ">"
    if nullable then "Nullable<" ++ base ++ ">" else base

/-- The full names of a list of types. -/
def texts : List HostType → List String
  | [] => []
  | t :: ts => t.text :: texts ts
end

/-- The full names of types, separated by commas. -/
def listText (ts : List HostType) : String := ", ".intercalate (texts ts)

@[simp] theorem substList_eq_map (actual : List HostType) (ts : List HostType) :
    substList actual ts = ts.map (subst actual) := by
  induction ts with
  | nil => rfl
  | cons t ts ih => simp [substList, ih]

@[simp] theorem texts_eq_map (ts : List HostType) : texts ts = ts.map text := by
  induction ts with
  | nil => rfl
  | cons t ts ih => simp [texts, ih]

@[simp] theorem fingerprints_eq_map (ts : List HostType) :
    fingerprints ts = ts.map fingerprint := by
  induction ts with
  | nil => rfl
  | cons t ts ih => simp [fingerprints, ih]

@[simp] theorem hasParamList_eq_any (ts : List HostType) :
    hasParamList ts = ts.any hasParam := by
  induction ts with
  | nil => rfl
  | cons t ts ih => simp [hasParamList, ih]

end HostType

end FatArrow
