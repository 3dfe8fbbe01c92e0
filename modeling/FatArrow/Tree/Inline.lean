import FatArrow.Tree.Replace

/-!
Inlining. A replaced parameter of a lambda gives way to the parameters of its replacement, and
references to it to the replacement's body. A parameter whose name is taken gets a number.
-/

namespace FatArrow

/-- Which lambda replaces a parameter, if one does. -/
abbrev InlineResolver := Param → Option Function

namespace InlineResolver

/-- Replacements by the names of parameters; of two for one name the later counts. -/
def byName (replacements : List (String × Function)) : InlineResolver := fun p =>
  replacements.reverse.lookup p.name

/-- One replacement for every parameter of the type that it returns. -/
def single (f : Function) : InlineResolver := fun p =>
  if f.returns? = some p.type then some f else none

end InlineResolver

/-- A name that is not taken: the name itself, or the name with the first number that makes it
free. -/
def freshName (name : String) (taken : List String) : String :=
  if taken.contains name then
    let numbered := (List.range (taken.length + 1)).map fun n => name ++ toString (n + 1)
    (numbered.find? fun candidate => !taken.contains candidate).getD name
  else name

/-- What stands for the references to parameters, by name, the innermost first. -/
abbrev Substitution := List (String × Term)

namespace Substitution

/-- What stands for a reference. -/
def term (s : Substitution) (p : Param) : Term := (s.lookup p.name).getD (.param p)

/-- The term with references replaced. A lambda inside it that declares one of the names again is
left alone. -/
def apply (s : Substitution) (t : Term) : Term :=
  t.replace (fun params => params.any fun p => (s.lookup p.name).isSome) s.term

end Substitution

/-- New names for parameters next to taken ones: the renamed parameters, and what stands for
references to those whose names have changed. -/
def renamed (taken : List String) : List Param → List Param × Substitution
  | [] => ([], [])
  | p :: ps =>
    let name := freshName p.name taken
    let (rest, changes) := renamed (taken ++ [name]) ps
    let fresh : Param := { p with name }
    (fresh :: rest, changes ++ (if name = p.name then [] else [(p.name, .param fresh)]))

/-- The parameters that take the place of others, and what stands for references to these. -/
def spliced (resolver : InlineResolver) (taken : List String) :
    List Param → List Param × Substitution
  | [] => ([], [])
  | p :: ps =>
    let (fresh, body) : List Param × Term :=
      match resolver p with
      | some f =>
        let (fresh, changes) := renamed taken f.params
        (fresh, if changes.isEmpty then f.body else changes.apply f.body)
      | none =>
        let kept : Param := { p with name := freshName p.name taken }
        ([kept], .param kept)
    let (rest, others) := spliced resolver (taken ++ fresh.map (·.name)) ps
    (fresh ++ rest, others ++ [(p.name, body)])

namespace Term

mutual
/-- The term with parameters inlined, where `s` stands for the references to parameters of the
lambdas around it. -/
def inline (resolver : InlineResolver) (s : Substitution) : Term → Term
  | .lambda params body =>
    let (fresh, own) := spliced resolver [] params
    .lambda fresh (body.inline resolver (own ++ s))
  | .param p => s.term p
  | .const value type => .const value type
  | .member target m => .member (target.inline resolver s) m
  | .staticMember m => .staticMember m
  | .call target m args => .call (target.inline resolver s) m (inlineList resolver s args)
  | .staticCall m args => .staticCall m (inlineList resolver s args)
  | .binary op left right type =>
    .binary op (left.inline resolver s) (right.inline resolver s) type
  | .unary op operand type => .unary op (operand.inline resolver s) type
  | .cond test ifTrue ifFalse =>
    .cond (test.inline resolver s) (ifTrue.inline resolver s) (ifFalse.inline resolver s)
  | .new c args => .new c (inlineList resolver s args)
  | .array element items _ => newArray element (inlineList resolver s items)
  | .cast operand type => .cast (operand.inline resolver s) type
  | .index target m args => .index (target.inline resolver s) m (inlineList resolver s args)

/-- Inlining in every term of a list. -/
def inlineList (resolver : InlineResolver) (s : Substitution) : List Term → List Term
  | [] => []
  | t :: ts => t.inline resolver s :: inlineList resolver s ts
end

end Term

/-- The lambda with parameters inlined. -/
def Function.inline (resolver : InlineResolver) (f : Function) : Function :=
  let (fresh, own) := spliced resolver [] f.params
  ⟨fresh, f.body.inline resolver own⟩

end FatArrow
