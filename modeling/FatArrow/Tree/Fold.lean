import FatArrow.Host.Basic
import FatArrow.Tree.Term

/-!
Folding. A static member, and a member of a constant, is read once and for all and replaced by its
value. A value is written as a constant, but points of time and identifiers are made anew by a
constructor of the host, and sequences item by item.
-/

namespace FatArrow

namespace Host

/-- The creation of an object of a type from arguments, or the constant if the host has no
constructor for them. -/
def construct (h : Host) (type : HostType) (args : List Term) (value : Value) : Term :=
  match h.constructor? type (args.filterMap (·.type?)) with
  | some c => .new c args
  | none => .const value type

/-- An integer constant of 64 bits. -/
def ticksTerm (ticks : Int) : Term := .const (.int64 ticks) .int64

/-- The term of a value of a type, given the term of it below null. -/
def lifted (type : HostType) (value : Value) (plain : Term) : Term :=
  if type.nullable then
    if value.isNull then .null type else .cast plain type
  else plain

mutual
/-- The term of a value of a type that is not made from another by adding null. -/
def wrapPlain (h : Host) (type : HostType) : Value → Term
  | .dateTime t => h.construct type [ticksTerm t.ticks] (.dateTime t)
  | .dateTimeOffset t =>
    let offset := h.construct .timeSpan [ticksTerm t.offset.ticks] (.timeSpan t.offset)
    h.construct type [ticksTerm t.ticks, offset] (.dateTimeOffset t)
  | .guid g => h.construct type [.const (.string g.text) .string] (.guid g)
  | .array items =>
    match if type.isString then none else h.itemType? type with
    | some element => .newArray element (h.wrapItems element items)
    | none => .const (.array items) type
  | value => .const value type

/-- The terms of values of a type. -/
def wrapItems (h : Host) (type : HostType) : List Value → List Term
  | [] => []
  | v :: vs => lifted type v (h.wrapPlain type.underlying v) :: h.wrapItems type vs
end

/-- The term of a value of a type. -/
def wrap (h : Host) (type : HostType) (value : Value) : Term :=
  lifted type value (h.wrapPlain type.underlying value)

end Host

/-- How far folding has come: the store, and the number of members read. -/
structure FoldState where
  store : Store
  folded : Nat

/-- A step of folding. -/
abbrev Fold := StateM FoldState

namespace Fold

/-- A member read from a receiver, or the term given for it if that fails. -/
def read (h : Host) (m : Member) (receiver : Option Value) (otherwise : Term) : Fold Term := do
  let state ← get
  match m.get receiver state.store with
  | .ok (value, store) =>
    set (⟨store, state.folded + 1⟩ : FoldState)
    return h.wrap m.type value
  | .error _ => return otherwise

end Fold

namespace Term

mutual
/-- The term with its known members folded. -/
def fold (h : Host) : Term → Fold Term
  | .lambda params body => do return .lambda params (← body.fold h)
  | .param p => return .param p
  | .const value type => return .const value type
  | .member target m => do
    let target ← target.fold h
    match target.value? with
    | some value => Fold.read h m (some value) (.member target m)
    | none => return .member target m
  | .staticMember m =>
    if m.isStatic then Fold.read h m none (.staticMember m) else return .staticMember m
  | .call target m args => do
    let target ← target.fold h
    return .call target m (← foldList h args)
  | .staticCall m args => do return .staticCall m (← foldList h args)
  | .binary op left right type => do
    let left ← left.fold h
    return .binary op left (← right.fold h) type
  | .unary op operand type => do return .unary op (← operand.fold h) type
  | .cond test ifTrue ifFalse => do
    let test ← test.fold h
    let ifTrue ← ifTrue.fold h
    return .cond test ifTrue (← ifFalse.fold h)
  | .new c args => do return .new c (← foldList h args)
  | .array element items _ => do return newArray element (← foldList h items)
  | .cast operand type => do return .cast (← operand.fold h) type
  | .index target m args => do
    let target ← target.fold h
    return .index target m (← foldList h args)

/-- Folding of every term of a list. -/
def foldList (h : Host) : List Term → Fold (List Term)
  | [] => return []
  | t :: ts => do
    let t ← t.fold h
    return t :: (← foldList h ts)
end

end Term

/-- The lambda with its known members folded, the number of members read, and the store after
that. -/
def Function.fold (h : Host) (f : Function) (store : Store) : Function × FoldState :=
  let (body, state) := (f.body.fold h).run ⟨store, 0⟩
  (⟨f.params, body⟩, state)

end FatArrow
