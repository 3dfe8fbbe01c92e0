import FatArrow.Syntax.Node
import FatArrow.Tree.Term
import FatArrow.Typing.Error
import FatArrow.Typing.Namespaces
import FatArrow.Typing.Resolver

/-!
The types that written types mean, and the constants that literals mean.
-/

namespace FatArrow

open Syntax (TypeNode Segment Name Literal IntSuffix RealSuffix)

/-- What typing goes by: a host, the default namespaces, and the answers of a caller. -/
structure Surface where
  host : Host
  namespaces : Namespaces
  resolver : Resolver

namespace Surface

/-- The type that a bare or dotted name means; the caller is asked first. -/
def typeNamed? (s : Surface) (name : String) : Option HostType :=
  (s.resolver.typeName? name).or (s.namespaces.typeOf? s.host name)

/-- The type that a keyword means. -/
def keywordType (keyword : Name) : Except BuildError HostType :=
  match Primitive.ofKeyword? keyword.text with
  | some p => .ok (.primitive p)
  | none => .error ⟨.unknownType keyword.text, keyword.span⟩

/-- The type that a name without type arguments means. -/
def plainType (s : Surface) (name : String) (span : Span) : Except BuildError HostType :=
  match s.typeNamed? name with
  | some type => .ok type
  | none => .error ⟨.unknownType name, span⟩

/-- The type that a name with type arguments means. The definition is looked up under the name with
the number of arguments; that of the nullable types adds null to its argument. -/
def genericType (s : Surface) (name : String) (args : List HostType) (span : Span) :
    Except BuildError HostType := do
  let definition ← s.plainType (name ++ "`" ++ toString args.length) span
  match definition.isNamed WellKnown.nullable, args with
  | true, [inner] => return inner.orNull
  | _, _ => return definition.subst args

mutual
/-- The type that a written type means. Of a dotted name only the last piece has type arguments
that count. -/
def typeOf (s : Surface) : TypeNode → Except BuildError HostType
  | .predefined keyword => keywordType keyword
  | .named segments span => do
    let args ← s.lastTypes segments
    let name := TypeNode.dottedName segments
    if args.isEmpty then s.plainType name span else s.genericType name args span
  | .array element _ => do return .arrayOf (← s.typeOf element)
  | .nullable inner _ => do return (← s.typeOf inner).orNull

/-- The type arguments of the last segment. -/
def lastTypes (s : Surface) : List Segment → Except BuildError (List HostType)
  | [] => .ok []
  | [.mk _ args] => s.typesOf args
  | _ :: segment :: segments => s.lastTypes (segment :: segments)

/-- The types that written types mean. -/
def typesOf (s : Surface) : List TypeNode → Except BuildError (List HostType)
  | [] => .ok []
  | node :: nodes => do
    let type ← s.typeOf node
    return type :: (← s.typesOf nodes)
end

end Surface

/-! ## Literals -/

/-- The first of the types `int`, `uint`, `long` and `ulong` that the suffix allows and that holds
the number. -/
def intKind (n : Nat) : IntSuffix → IntegerKind
  | .none =>
    if n ≤ IntegerKind.int32.greatest then .int32
    else if n ≤ IntegerKind.uint32.greatest then .uint32
    else if n ≤ IntegerKind.int64.greatest then .int64
    else .uint64
  | .unsigned => if n ≤ IntegerKind.uint32.greatest then .uint32 else .uint64
  | .long => if n ≤ IntegerKind.int64.greatest then .int64 else .uint64
  | .unsignedLong => .uint64

/-- The constant that a literal means. There is no type for literals that ask for `decimal`. -/
def literalTerm (literal : Literal) (span : Span) : Except BuildError Term :=
  match literal with
  | .int n suffix =>
    let kind := intKind n suffix
    .ok (.const (.integer kind (kind.wrap n)) (.integer kind))
  | .real x .none => .ok (.const (.double x) .double)
  | .real x .double => .ok (.const (.double x) .double)
  | .real x .float => .ok (.const (.single (narrowFloat x)) .single)
  | .real _ .decimal => .error ⟨.unknownType "decimal", span⟩
  | .string text => .ok (.const (.string text) .string)
  | .char c => .ok (.const (.char c) .char)
  | .bool b => .ok (.const (.bool b) .boolean)
  | .null => .ok (.null .object)

end FatArrow
