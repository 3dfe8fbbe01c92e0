import FatArrow.Host.Member
import FatArrow.Tree.Operator

/-!
Typed trees. Every term but a lambda has a type. Two terms are the same when they agree node for
node, types included, whatever native functions their members carry.
-/

namespace FatArrow

/-- A parameter of a lambda. -/
structure Param where
  name : String
  type : HostType
deriving DecidableEq, Repr

/-- A typed expression. Members and methods of a type, and free functions, have no target; an
array creation has the type of its items and its own. -/
inductive Term where
  | lambda (params : List Param) (body : Term)
  | param (p : Param)
  | const (value : Value) (type : HostType)
  | member (target : Term) (member : Member)
  | staticMember (member : Member)
  | call (target : Term) (method : Method) (args : List Term)
  | staticCall (method : Method) (args : List Term)
  | binary (op : BinaryOp) (left right : Term) (type : HostType)
  | unary (op : UnaryOp) (operand : Term) (type : HostType)
  | cond (test ifTrue ifFalse : Term)
  | new (constructor : Constructor) (args : List Term)
  | array (element : HostType) (items : List Term) (type : HostType)
  | cast (operand : Term) (type : HostType)
  | index (target : Term) (indexer : Method) (args : List Term)

/-- A typed lambda by itself. -/
structure Function where
  params : List Param
  body : Term

namespace Term

/-- The type of a term. A lambda has none, and a conditional has that of its first branch. -/
def type? : Term → Option HostType
  | .lambda _ _ => none
  | .param p => some p.type
  | .const _ type => some type
  | .member _ m => some m.type
  | .staticMember m => some m.type
  | .call _ m _ => some m.returns
  | .staticCall m _ => some m.returns
  | .binary _ _ _ type => some type
  | .unary _ _ type => some type
  | .cond _ ifTrue _ => ifTrue.type?
  | .new c _ => some c.declaring
  | .array _ _ type => some type
  | .cast _ type => some type
  | .index _ m _ => some m.returns

/-- How a kind of term is named in messages. -/
def kindName : Term → String
  | .lambda _ _ => "lambda"
  | .param _ => "parameter"
  | .const _ _ => "constant"
  | .member _ _ | .staticMember _ => "member access"
  | .call _ _ _ | .staticCall _ _ => "method call"
  | .binary _ _ _ _ => "binary operator"
  | .unary _ _ _ => "unary operator"
  | .cond _ _ _ => "conditional"
  | .new _ _ => "constructor call"
  | .array _ _ _ => "array creation"
  | .cast _ _ => "conversion"
  | .index _ _ _ => "indexer"

/-! ## Making terms -/

/-- The typed null. -/
def null (type : HostType) : Term := .const .null type

/-- Two operands joined: the type of the result follows from the operator and the left operand. -/
def joined (op : BinaryOp) (left right : Term) : Term :=
  let type :=
    if op.yieldsBool then .boolean
    else if op = .arrayIndex then (left.type?.bind (·.element?)).getD .object
    else (left.type?.or right.type?).getD .object
  .binary op left right type

/-- An operator on an operand: the type of the result follows from both. -/
def applied (op : UnaryOp) (operand : Term) : Term :=
  let type :=
    match op with
    | .arrayLength => .int32
    | .not =>
      if operand.type?.all (·.isBoolean) then .boolean else operand.type?.getD .object
    | _ => operand.type?.getD .object
  .unary op operand type

/-- A new array of an element type. -/
def newArray (element : HostType) (items : List Term) : Term :=
  .array element items (.arrayOf element)

/-! ## Reading terms -/

mutual
/-- The term and the terms inside it, each before those inside it. -/
def nodes : Term → List Term
  | .lambda params body => .lambda params body :: body.nodes
  | .param p => [.param p]
  | .const value type => [.const value type]
  | .member target m => .member target m :: target.nodes
  | .staticMember m => [.staticMember m]
  | .call target m args => .call target m args :: (target.nodes ++ nodesList args)
  | .staticCall m args => .staticCall m args :: nodesList args
  | .binary op left right type => .binary op left right type :: (left.nodes ++ right.nodes)
  | .unary op operand type => .unary op operand type :: operand.nodes
  | .cond test ifTrue ifFalse =>
    .cond test ifTrue ifFalse :: (test.nodes ++ ifTrue.nodes ++ ifFalse.nodes)
  | .new c args => .new c args :: nodesList args
  | .array element items type => .array element items type :: nodesList items
  | .cast operand type => .cast operand type :: operand.nodes
  | .index target m args => .index target m args :: (target.nodes ++ nodesList args)

/-- The terms of a list and the terms inside them. -/
def nodesList : List Term → List Term
  | [] => []
  | t :: ts => t.nodes ++ nodesList ts
end

/-- A reference to a parameter with a name. -/
def isReferenceTo (name : String) : Term → Bool
  | .param p => p.name == name
  | _ => false

/-- Whether a parameter with a name is referred to anywhere inside the term. -/
def references (t : Term) (name : String) : Bool := t.nodes.any (isReferenceTo name)

/-- The value of a constant. -/
def value? : Term → Option Value
  | .const value _ => some value
  | _ => none

/-- Whether the term is a lambda. -/
def isLambda : Term → Bool
  | .lambda _ _ => true
  | _ => false

mutual
/-- Agreement node for node. -/
def same : Term → Term → Bool
  | .lambda ps a, .lambda qs b => ps == qs && same a b
  | .param p, .param q => p == q
  | .const v s, .const w t => v.same w && s == t
  | .member a m, .member b n => same a b && m.same n
  | .staticMember m, .staticMember n => m.same n
  | .call a m as, .call b n bs => same a b && m.same n && sameList as bs
  | .staticCall m as, .staticCall n bs => m.same n && sameList as bs
  | .binary o a b s, .binary p c d t => o == p && same a c && same b d && s == t
  | .unary o a s, .unary p b t => o == p && same a b && s == t
  | .cond a b c, .cond d e f => same a d && same b e && same c f
  | .new c as, .new d bs => c.same d && sameList as bs
  | .array e as s, .array f bs t => e == f && sameList as bs && s == t
  | .cast a s, .cast b t => same a b && s == t
  | .index a m as, .index b n bs => same a b && m.same n && sameList as bs
  | _, _ => false

/-- Agreement term for term. -/
def sameList : List Term → List Term → Bool
  | [], [] => true
  | a :: as, b :: bs => same a b && sameList as bs
  | _, _ => false
end

end Term

namespace Function

/-- The lambda as a term. -/
def term (f : Function) : Term := .lambda f.params f.body

/-- The type of the body, if it has one. -/
def returns? (f : Function) : Option HostType := f.body.type?

/-- The number of parameters. -/
def arity (f : Function) : Nat := f.params.length

/-- The first parameter with a name. -/
def param? (f : Function) (name : String) : Option Param := f.params.find? (·.name == name)

/-- The types of the parameters. -/
def paramTypes (f : Function) : List HostType := f.params.map (·.type)

/-- Agreement in parameters and body. -/
def same (f g : Function) : Bool := f.params == g.params && f.body.same g.body

end Function

end FatArrow
