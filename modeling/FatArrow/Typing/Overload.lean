import FatArrow.Host.Basic
import FatArrow.Typing.Conversion

/-!
Which method a call means, by the types of its arguments.
-/

namespace FatArrow

/-- What is known of a call before its method is found: the types of its arguments, and the type
arguments written after the name. -/
structure CallSite where
  args : List HostType
  typeArgs : List HostType
deriving DecidableEq, Repr

namespace CallSite

/-- A method with the written type arguments bound. Without any, a generic definition is no
candidate; with some, only a definition of as many parameters is one. -/
def bind? (typeArgs : List HostType) (m : Method) : Option Method :=
  if typeArgs.isEmpty then
    if m.isGenericDefinition then none else some m
  else if m.isGenericDefinition && m.arity == typeArgs.length then some (m.instantiate typeArgs)
  else none

/-- Whether every argument can stand for its parameter. -/
def accepts (o : TypeOrder) (params args : List HostType) : Bool :=
  (params.zip args).all fun (p, a) => o.assignable p a

/-- The candidate with exactly the types of the arguments, or else the only one that accepts
them. -/
def select? (o : TypeOrder) (candidates : List Method) (site : CallSite) : Option Method :=
  let bound := (candidates.filterMap (bind? site.typeArgs)).filter
    (·.params.length == site.args.length)
  match bound.find? (·.params == site.args) with
  | some m => some m
  | none =>
    match bound.filter (fun m => accepts o m.params site.args) with
    | [m] => some m
    | _ => none

/-- A generic sequence operation with the type of the items bound, unless the call binds its
parameters itself. -/
def bindItem (site : CallSite) (item : HostType) (m : Method) : Method :=
  if m.isGenericDefinition && site.typeArgs.isEmpty then m.instantiate [item] else m

/-- The sequence operation that a call on a sequence means, with the sequence as its first
argument. -/
def selectSequenceOp? (h : Host) (name : String) (receiver item : HostType) (site : CallSite) :
    Option Method := do
  let holder ← h.sequenceOps?
  let candidates := ((h.methods holder name).filter (·.isSequenceOp)).map (site.bindItem item)
  select? h.toTypeOrder candidates { site with args := receiver :: site.args }

end CallSite

end FatArrow
