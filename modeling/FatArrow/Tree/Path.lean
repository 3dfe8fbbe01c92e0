import FatArrow.Tree.Term

/-!
The dotted path of members that a lambda follows from its parameter.
-/

namespace FatArrow

/-- Why a lambda follows no path. -/
inductive PathError where
  | unexpectedNode (kind : String)
  | noMember
deriving DecidableEq, Repr

/-- What is said about a lambda that follows no path. -/
def PathError.message : PathError → String
  | .unexpectedNode kind => "unexpected use of " ++ kind ++ " in the given expression"
  | .noMember => "the expression does not access any member"

namespace Term

/-- The names of the members that a term follows, the outermost last. A static member begins a
path, and a lambda is looked through. -/
def memberNames : Term → Except PathError (List String)
  | .member target m => do return (← target.memberNames) ++ [m.name]
  | .staticMember m => .ok [m.name]
  | .param _ => .ok []
  | .lambda _ body => body.memberNames
  | other => .error (.unexpectedNode other.kindName)

end Term

/-- The path that a lambda follows. -/
def Function.path (f : Function) : Except PathError String := do
  let names ← f.body.memberNames
  if names.isEmpty then throw .noMember
  return dotted names

end FatArrow
