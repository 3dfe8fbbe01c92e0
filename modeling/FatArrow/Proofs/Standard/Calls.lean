import FatArrow.Standard.Declare

/-!
# Calls of standard methods

A standard method that only computes has one outcome for its receiver and its arguments, and leaves the
objects as they are.
-/

namespace FatArrow.Standard

/-- Of methods, the one with a name and as many parameters as there are arguments ends in this way when
it is called, whatever objects there are, and changes none of them. -/
def Answers (methods : List Method) (name : String) (receiver : Option Value) (args : List Value)
    (outcome : Except EvalError Value) : Prop :=
  ∃ m, methods.find? (fun m => m.name == name && m.params.length == args.length) = some m ∧
    ∀ store, m.invoke receiver args store = outcome.map (·, store)

/-- What is computed without the objects leaves them as they are. -/
theorem run_lift (x : Except EvalError Value) (store : Store) :
    (liftM x : Eval Value) store = x.map (·, store) := by
  cases x <;> rfl

end FatArrow.Standard
