import FatArrow.Typing.Resolved

/-!
Typing of lambdas: from what is written to a typed tree. The tree is walked once; types are checked
and conversions inserted on the way, and the first error ends it.
-/

namespace FatArrow

open Syntax (Node Lambda)

namespace Surface

/-- A lambda, which is no argument. -/
def isLambdaNode (node : Node) : Bool :=
  match node.bare with
  | .lambda _ _ _ _ => true
  | _ => false

/-- The type arguments written on a callee. -/
def calleeTypeArgs (callee : Node) : List Syntax.TypeNode :=
  match callee.bare with
  | .name _ typeArgs _ => typeArgs
  | .member _ _ typeArgs _ => typeArgs
  | _ => []

mutual
/-- What a written expression means in a scope; `site` is the call whose callee it is, if it is
one. -/
def resolve (s : Surface) (scope : List Param) (site : Option CallSite) :
    Node → Except BuildError Resolved
  | .literal value span => do return .value (← literalTerm value span)
  | .name name typeArgs span => s.ofName scope site name typeArgs span
  | .predefined keyword => do return .type (← keywordType keyword)
  | .binary op left right span => do
    let a ← (← s.resolve scope none left).needOperand left.span
    let b ← (← s.resolve scope none right).needOperand right.span
    return .value (← s.binaryOf op a b span)
  | .unary op operand span => do
    let (term, type) ← (← s.resolve scope none operand).needOperand operand.span
    match typedUnary? op type with
    | some op => return .value (.applied op term)
    | none => throw ⟨.unaryOperand op type, span⟩
  | .conditional test ifTrue ifFalse _ => do
    let (condition, type) ← (← s.resolve scope none test).needOperand test.span
    if !type.isBoolean then throw ⟨.conditionType type, test.span⟩
    let (a, _) ← (← s.resolve scope none ifTrue).needOperand ifTrue.span
    let (b, _) ← (← s.resolve scope none ifFalse).needOperand ifFalse.span
    return .value (.cond condition a b)
  | .call callee args span => do
    let terms ← s.arguments scope args
    let typeArgs ← s.typesOf (calleeTypeArgs callee)
    let site : CallSite := ⟨terms.map (·.2), typeArgs⟩
    let found ← s.resolve scope (some site) callee
    return .value (← callOf found callee.span (terms.map (·.1)) span)
  | .index object args span => do
    let (target, type) ← (← s.resolve scope none object).needOperand object.span
    let terms ← s.arguments scope args
    return .value (← s.indexOf target type terms span)
  | .member object name typeArgs span => do
    let found ← s.resolve scope none object
    s.ofMember site found object.span name typeArgs span
  | .cast written operand span => do
    let target ← s.typeOf written
    let (term, type) ← (← s.resolve scope none operand).needOperand operand.span
    if s.host.castable type target then return .value (.cast term target)
    else throw ⟨.noConversion type target, span⟩
  | .new written args span => do
    let type ← s.typeOf written
    let terms ← s.arguments scope args
    return .value (← s.creationOf type terms span)
  | .newArray written items span => do
    let declared ← match written with
      | some node => some <$> s.typeOf node
      | none => pure none
    let (terms, element) ← s.items scope declared declared items
    match element with
    | some type => return .value (.newArray type terms)
    | none => throw ⟨.emptyArray, span⟩
  | .lambda _ params body _ => do
    let declared ← s.declare scope (params.map fun p => (p, none))
    let term ← (← s.resolve (scope ++ declared) none body).needValue body.span
    return .value (.lambda declared term)
  | .paren inner _ => s.resolve scope site inner

/-- The arguments of a call with their types. No lambda is an argument. -/
def arguments (s : Surface) (scope : List Param) :
    List Node → Except BuildError (List (Term × HostType))
  | [] => .ok []
  | node :: nodes => do
    if isLambdaNode node then throw ⟨.lambdaAsArgument, node.span⟩
    let first ← (← s.resolve scope none node).needOperand node.span
    return first :: (← s.arguments scope nodes)

/-- The items of an array, and the type of its items: the declared one, or that of the first
item. -/
def items (s : Surface) (scope : List Param) (declared element : Option HostType) :
    List Node → Except BuildError (List Term × Option HostType)
  | [] => .ok ([], element)
  | node :: nodes => do
    let item ← (← s.resolve scope none node).needOperand node.span
    let (term, type) ← s.itemOf declared element item node.span
    let (terms, element) ← s.items scope declared (element.or (some type)) nodes
    return (term :: terms, element)
end

end Surface

/-- What a caller expects of a lambda. -/
structure LambdaShape where
  params : List HostType
  returns : Option HostType
deriving DecidableEq, Repr

namespace Surface

/-- A body brought to the type that is expected of it. -/
def returned (s : Surface) (body : Term) (span : Span) (expected : HostType) :
    Except BuildError Term :=
  match body.type? with
  | some found =>
    if found = expected then .ok body
    else if s.host.assignable expected found then .ok (body.convert expected)
    else .error ⟨.returnType (some found) expected, span⟩
  | none => .error ⟨.returnType none expected, span⟩

/-- The typed lambda of a written one, of the expected shape if there is one. -/
def elaborate (s : Surface) (shape : Option LambdaShape) (written : Lambda) :
    Except BuildError Function := do
  let expected : List (Option HostType) ← match shape with
    | some shape =>
      if shape.params.length = written.params.length then pure (shape.params.map some)
      else throw ⟨.parameterCount written.params.length shape.params.length, written.span⟩
    | none => pure (written.params.map fun _ => none)
  let params ← s.declare [] (written.params.zip expected)
  let body ← (← s.resolve params none written.body).needValue written.body.span
  match shape.bind (·.returns) with
  | some type => return ⟨params, ← s.returned body written.body.span type⟩
  | none => return ⟨params, body⟩

end Surface

end FatArrow
