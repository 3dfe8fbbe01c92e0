import FatArrow.Tree.Term

/-!
Replacement of references to parameters. Types of terms are kept as they are; that of an array
follows from the type of its items.
-/

namespace FatArrow.Term

mutual
/-- The term with every reference replaced. Lambdas inside it whose parameters satisfy `skip` are
left alone. -/
def replace (skip : List Param → Bool) (f : Param → Term) : Term → Term
  | .lambda params body => .lambda params (if skip params then body else body.replace skip f)
  | .param p => f p
  | .const value type => .const value type
  | .member target m => .member (target.replace skip f) m
  | .staticMember m => .staticMember m
  | .call target m args => .call (target.replace skip f) m (replaceList skip f args)
  | .staticCall m args => .staticCall m (replaceList skip f args)
  | .binary op left right type => .binary op (left.replace skip f) (right.replace skip f) type
  | .unary op operand type => .unary op (operand.replace skip f) type
  | .cond test ifTrue ifFalse =>
    .cond (test.replace skip f) (ifTrue.replace skip f) (ifFalse.replace skip f)
  | .new c args => .new c (replaceList skip f args)
  | .array element items _ => newArray element (replaceList skip f items)
  | .cast operand type => .cast (operand.replace skip f) type
  | .index target m args => .index (target.replace skip f) m (replaceList skip f args)

/-- Replacement in every term of a list. -/
def replaceList (skip : List Param → Bool) (f : Param → Term) : List Term → List Term
  | [] => []
  | t :: ts => t.replace skip f :: replaceList skip f ts
end

/-- The term with references to one name turned into references to another. -/
def rename (t : Term) (old new : String) : Term :=
  t.replace (fun _ => false) fun p => .param (if p.name = old then { p with name := new } else p)

end FatArrow.Term
