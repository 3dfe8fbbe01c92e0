import FatArrow.Typing.Name
import FatArrow.Typing.Operator
import FatArrow.Typing.Overload

/-!
What a written expression can mean before it is known how it is used: a value, a type, a method
that waits for its call, or a dotted name that a member access may still complete.
-/

namespace FatArrow

open Syntax (Name)

/-- A method picked for a call. -/
inductive Callee where
  | onValue (target : Term) (method : Method)
  | alone (method : Method)
  | onSequence (receiver : Term) (method : Method)

/-- The method of a picked callee. -/
def Callee.method : Callee → Method
  | .onValue _ m | .alone m | .onSequence _ m => m

/-- What a written expression means. -/
inductive Resolved where
  | value (term : Term)
  | type (type : HostType)
  | method (callee : Callee)
  | pending (name : String) (span : Span)

namespace Resolved

/-- The value, where one is needed. -/
def needValue (r : Resolved) (span : Span) : Except BuildError Term :=
  match r with
  | .value term => .ok term
  | .pending name at_ => .error ⟨.unknownName name, at_⟩
  | .type t => .error ⟨.typeAsValue t, span⟩
  | .method callee => .error ⟨.methodAsValue callee.method.name, span⟩

/-- The value with its type, where one is needed that has a type. -/
def needOperand (r : Resolved) (span : Span) : Except BuildError (Term × HostType) := do
  let term ← r.needValue span
  match term.type? with
  | some t => return (term, t)
  | none => throw ⟨.lambdaAsOperand, span⟩

end Resolved

namespace Surface

/-- The property with a name, or else the field. -/
def member? (s : Surface) (type : HostType) (name : String) : Option Member :=
  (s.host.property? type name).or (s.host.field? type name)

/-- What a name means: a parameter, where a call is expected a method that the caller knows, and
otherwise a type. -/
def ofName (s : Surface) (scope : List Param) (site : Option CallSite) (name : Name)
    (typeArgs : List Syntax.TypeNode) (span : Span) : Except BuildError Resolved :=
  match if typeArgs.isEmpty then scope.find? (·.name == name.text) else none with
  | some p => .ok (.value (.param p))
  | none =>
    match site with
    | some site =>
      match if site.typeArgs.isEmpty then s.resolver.method? name.text site.args else none with
      | some m => .ok (.method (.alone m))
      | none => .ok (.pending name.text span)
    | none =>
      if typeArgs.isEmpty then
        match s.typeNamed? name.text with
        | some type => .ok (.type type)
        | none => .ok (.pending name.text span)
      else do
        let args ← s.typesOf typeArgs
        return .type (← s.genericType name.text args span)

/-- What a member of a dotted name means that is nothing by itself yet. -/
def ofPending (s : Surface) (site : Option CallSite) (dotted : String)
    (typeArgs : List Syntax.TypeNode) (span : Span) : Except BuildError Resolved :=
  match site with
  | some _ => .ok (.pending dotted span)
  | none =>
    if typeArgs.isEmpty then
      match s.typeNamed? dotted with
      | some type => .ok (.type type)
      | none => .ok (.pending dotted span)
    else do
      let args ← s.typesOf typeArgs
      return .type (← s.genericType dotted args span)

/-- What a member of a value means: where a call is expected a method of an instance or a sequence
operation, and otherwise the length of an array, a property or a field. -/
def ofValue (s : Surface) (site : Option CallSite) (target : Term) (name : Name)
    (objectSpan span : Span) : Except BuildError Resolved :=
  match target.type? with
  | none => .error ⟨.lambdaWithMember, objectSpan⟩
  | some type =>
    match site with
    | some site =>
      let candidates := (s.host.methods type name.text).filter fun m => !m.isStatic
      match CallSite.select? s.host.toTypeOrder candidates site with
      | some m => .ok (.method (.onValue target m))
      | none =>
        match (s.host.itemType? type).bind fun item =>
            CallSite.selectSequenceOp? s.host name.text type item site with
        | some m => .ok (.method (.onSequence target m))
        | none => .error ⟨.noMethod type name.text site.args, span⟩
    | none =>
      if type.isArray && name.text == "Length" then .ok (.value (.applied .arrayLength target))
      else
        match s.member? type name.text with
        | some m => .ok (.value (if m.isStatic then .staticMember m else .member target m))
        | none => .error ⟨.unknownMember type name.text, name.span⟩

/-- What a member of a type means: where a call is expected a static method, and otherwise a static
property or field, or a nested type. -/
def ofType (s : Surface) (site : Option CallSite) (type : HostType) (name : Name) (span : Span) :
    Except BuildError Resolved :=
  match site with
  | some site =>
    let candidates := (s.host.methods type name.text).filter (·.isStatic)
    match CallSite.select? s.host.toTypeOrder candidates site with
    | some m => .ok (.method (.alone m))
    | none => .error ⟨.noMethod type name.text site.args, span⟩
  | none =>
    match s.member? type name.text with
    | some m =>
      if m.isStatic then .ok (.value (.staticMember m))
      else .error ⟨.instanceNeeded m.text, span⟩
    | none =>
      match s.host.nested? type name.text with
      | some nested => .ok (.type nested)
      | none => .error ⟨.unknownMember type name.text, name.span⟩

/-- What a member access means, by what its object means. -/
def ofMember (s : Surface) (site : Option CallSite) (object : Resolved) (objectSpan : Span)
    (name : Name) (typeArgs : List Syntax.TypeNode) (span : Span) : Except BuildError Resolved :=
  match object with
  | .pending start at_ =>
    s.ofPending site (start ++ "." ++ name.text) typeArgs (at_.merge name.span)
  | .value target => s.ofValue site target name objectSpan span
  | .type type => s.ofType site type name span
  | .method callee => .error ⟨.methodAsValue callee.method.name, objectSpan⟩

/-- The call that a callee and its arguments make. -/
def callOf (callee : Resolved) (calleeSpan : Span) (args : List Term) (span : Span) :
    Except BuildError Term :=
  let make (m : Method) (args : List Term) (term : List Term → Term) : Except BuildError Term :=
    if args.length = m.params.length then .ok (term (Term.asArguments args m.params))
    else .error ⟨.argumentCount m.name m.params.length args.length, span⟩
  match callee with
  | .method (.onValue target m) => make m args (.call target m)
  | .method (.alone m) => make m args (.staticCall m)
  | .method (.onSequence receiver m) => make m (receiver :: args) (.staticCall m)
  | .pending name at_ => .error ⟨.unknownName name, at_⟩
  | .value term => .error ⟨.invokedValue term.type?, calleeSpan⟩
  | .type type => .error ⟨.invokedType type, calleeSpan⟩

/-- The element access that an object and its arguments make: an array index, or a call of the
indexer. -/
def indexOf (s : Surface) (target : Term) (type : HostType) (args : List (Term × HostType))
    (span : Span) : Except BuildError Term :=
  let order := s.host.toTypeOrder
  if type.isArray then
    match args with
    | [(index, found)] =>
      if found = .int32 ∨ (found.isNumeric ∧ order.assignable .int32 found) then
        .ok (.joined .arrayIndex target (index.convert .int32))
      else .error ⟨.indexType found, span⟩
    | _ => .error ⟨.indexCount, span⟩
  else
    let types := args.map (·.2)
    let candidates := (s.host.methods type "get_Item").filter fun m => !m.isStatic
    match CallSite.select? order candidates ⟨types, []⟩ with
    | some m => .ok (.index target m (Term.asArguments (args.map (·.1)) m.params))
    | none => .error ⟨.noIndexer type types, span⟩

/-- The creation of an object from arguments. -/
def creationOf (s : Surface) (type : HostType) (args : List (Term × HostType)) (span : Span) :
    Except BuildError Term :=
  let types := args.map (·.2)
  match s.host.constructor? type types with
  | some c => .ok (.new c (Term.asArguments (args.map (·.1)) c.params))
  | none => .error ⟨.noConstructor type types, span⟩

/-- An operator between two operands, each brought to the type of the other. -/
def binaryOf (s : Surface) (op : Syntax.BinaryOperator) (left right : Term × HostType)
    (span : Span) : Except BuildError Term :=
  let order := s.host.toTypeOrder
  let a := left.1.coerce order right.2
  let b := right.1.coerce order left.2
  let leftType := a.type?.getD left.2
  let rightType := b.type?.getD right.2
  match typedBinary? order op leftType rightType with
  | some op => .ok (.joined op a b)
  | none => .error ⟨.binaryOperands op leftType rightType, span⟩

/-- An item of an array with a type: the declared one if the item can be brought to it, and
otherwise that of the items before it. -/
def itemOf (s : Surface) (declared element : Option HostType) (item : Term × HostType)
    (span : Span) : Except BuildError (Term × HostType) :=
  let (term, type) :=
    match declared with
    | some expected =>
      if expected = item.2 then item
      else
        let term := item.1.coerce s.host.toTypeOrder expected
        (term, term.type?.getD item.2)
    | none => item
  match element with
  | some expected =>
    if expected = type then .ok (term, type) else .error ⟨.itemType type expected, span⟩
  | none => .ok (term, type)

/-- The type of a parameter: as it is written, as it is expected, or as the caller says. -/
def paramType (s : Surface) (p : Syntax.Parameter) (expected : Option HostType) :
    Except BuildError HostType :=
  match p.type, expected with
  | some written, expected => do
    let type ← s.typeOf written
    match expected with
    | some wanted =>
      if wanted = type then return type
      else throw ⟨.parameterType p.name.text type wanted, p.span⟩
    | none => return type
  | none, some wanted => .ok wanted
  | none, none =>
    match s.resolver.paramType? p.name.text with
    | some type => .ok type
    | none => .error ⟨.untypedParameter p.name.text, p.span⟩

/-- The parameters of a lambda inside a scope. No name is declared twice, in the lambda or in the
scope. -/
def declare (s : Surface) (scope : List Param) :
    List (Syntax.Parameter × Option HostType) → Except BuildError (List Param)
  | [] => .ok []
  | (p, expected) :: rest => do
    if scope.any (·.name == p.name.text) then throw ⟨.repeatedParameter p.name.text, p.span⟩
    let type ← s.paramType p expected
    let param : Param := ⟨p.name.text, type⟩
    return param :: (← s.declare (scope ++ [param]) rest)

end Surface

end FatArrow
