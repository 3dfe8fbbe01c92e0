import FatArrow.Value.Basic

/-!
Why an evaluation fails, and evaluation as a computation on the store of objects. A failed
evaluation leaves no trace in the store.
-/

namespace FatArrow

/-- Why an evaluation fails. -/
inductive EvalError where
  | typeMismatch (expected found : String)
  | nullReference (context : String)
  | divideByZero
  | indexOutOfRange (index : Int) (length : Nat)
  | argumentCount (expected got : Nat)
  | unboundParameter (name : String)
  | notInvocable (name : String)
  | unsupported (what : String)
  | reported (text : String)
deriving DecidableEq, Repr

/-- What is said about a failed evaluation. -/
def EvalError.message : EvalError → String
  | .typeMismatch expected found => "type mismatch: expected " ++ expected ++ ", found " ++ found
  | .nullReference context => "null reference while evaluating " ++ context
  | .divideByZero => "division by zero"
  | .indexOutOfRange index length => s!"index {index} out of range for length {length}"
  | .argumentCount expected got => s!"expected {expected} arguments, got {got}"
  | .unboundParameter name => s!"unbound parameter '{name}'"
  | .notInvocable name => s!"'{name}' has no native implementation"
  | .unsupported what => "cannot evaluate " ++ what
  | .reported text => text

/-- A computation that may make objects and may fail. -/
abbrev Eval := StateT Store (Except EvalError)

/-- The outcome of a computation on a store, and the store after it. -/
def Eval.outcome (e : Eval Value) (store : Store) : Except EvalError Value × Store :=
  match e store with
  | .ok (value, after) => (.ok value, after)
  | .error failure => (.error failure, store)

end FatArrow
