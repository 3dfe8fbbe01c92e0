import FatArrow.Meaning.Operator
import FatArrow.Tree.Term

/-!
The value of a term for values of its parameters. Operands are evaluated from left to right, and a
lambda inside a term has no value.
-/

namespace FatArrow

/-- The values of parameters by name, the innermost first. -/
abbrev Bindings := List (String × Value)

namespace Term

/-- The receiver of a call, which is null only if the type of the target admits it. -/
def receiver (target : Term) (method : Method) (v : Value) : Except EvalError Value :=
  if v.isNull && !target.type?.any (·.nullable) then .error (.nullReference method.name)
  else .ok v

mutual
/-- The value of a term. -/
def eval (env : Bindings) : Term → Eval Value
  | .lambda _ _ => throw (.unsupported "a nested lambda")
  | .param p =>
    match env.lookup p.name with
    | some v => return v
    | none => throw (.unboundParameter p.name)
  | .const value _ => return value
  | .member target m => do
    let v ← eval env target
    m.get (some v)
  | .staticMember m => m.get none
  | .call target m args => do
    let v ← receiver target m (← eval env target)
    m.invoke (some v) (← evalAll env args)
  | .staticCall m args => do m.invoke none (← evalAll env args)
  | .binary .andAlso left right _ => do
    if ← (← eval env left).needBool then return .bool (← (← eval env right).needBool)
    else return .bool false
  | .binary .orElse left right _ => do
    if ← (← eval env left).needBool then return .bool true
    else return .bool (← (← eval env right).needBool)
  | .binary op left right type => do
    let a ← eval env left
    let b ← eval env right
    op.apply type a b
  | .unary op operand type => do op.apply type (← eval env operand)
  | .cond test ifTrue ifFalse => do
    if ← (← eval env test).needBool then eval env ifTrue else eval env ifFalse
  | .new c args => do c.invoke (← evalAll env args)
  | .array _ items _ => do return .array (← evalAll env items)
  | .cast operand type => do (← eval env operand).castTo type
  | .index target m args => do
    let v ← eval env target
    if v.isNull then throw (.nullReference m.name)
    m.invoke (some v) (← evalAll env args)

/-- The values of a list of terms. -/
def evalAll (env : Bindings) : List Term → Eval (List Value)
  | [] => return []
  | t :: ts => do
    let v ← eval env t
    return v :: (← evalAll env ts)
end

end Term

namespace Function

/-- The values of the parameters. Of two with one name the later counts. -/
def bindings (f : Function) (args : List Value) : Bindings :=
  ((f.params.map (·.name)).zip args).reverse

/-- The value of a lambda for arguments. -/
def apply (f : Function) (args : List Value) : Eval Value :=
  if f.arity = args.length then f.body.eval (f.bindings args)
  else throw (.argumentCount f.arity args.length)

end Function

end FatArrow
