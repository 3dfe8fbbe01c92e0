import FatArrow.Standard.Text

/-!
Sequences. Every sequence is an array of values; its operations are static methods called on it.
Items are compared as numbers or as texts.
-/

namespace FatArrow.Standard

/-- The failure of an operation that needs an item. -/
def noElements : EvalError := .reported "sequence contains no elements"

/-- The order of two items: of numbers as floats, of texts character by character. -/
def compareItems (a b : Value) : Except EvalError Ordering :=
  match a.float?, b.float? with
  | some x, some y => .ok (compare (floatRank x) (floatRank y))
  | _, _ =>
    match a.string?, b.string? with
    | some s, some t => .ok (compare s t)
    | _, _ => .error (.unsupported s!"cannot compare {a.typeName} with {b.typeName}")

/-- The best item, where an item is better than those before it if it compares with the best of
them as `keep` says. -/
def bestFrom (keep : Ordering) (best : Value) : List Value → Except EvalError Value
  | [] => .ok best
  | v :: vs => do bestFrom keep (if (← compareItems v best) = keep then v else best) vs

/-- The first of the least or of the greatest items. -/
def extreme (keep : Ordering) : List Value → Except EvalError Value
  | [] => .error noElements
  | v :: vs => bestFrom keep v vs

/-- The sum of items seen through a partial view. -/
def sumOf {α : Type} (view : Value → Option α) (expected : String) (add : α → α → α) (total : α) :
    List Value → Except EvalError α
  | [] => .ok total
  | v :: vs =>
    match view v with
    | some x => sumOf view expected add (add total x) vs
    | none => .error (.typeMismatch expected v.typeName)

/-- The mean of the items as floats. -/
def average (items : List Value) : Except EvalError Float :=
  if items.isEmpty then .error noElements
  else (sumOf Value.float? "number" (· + ·) 0 items).map (· / floatOfInt items.length)

/-- Whether an item equals a value. -/
def containsItem (items : List Value) (v : Value) : Bool := items.any (·.same v)

/-- An item that an operation needs. -/
def orNoElements (v : Option Value) : Except EvalError Value :=
  match v with
  | some v => .ok v
  | none => .error noElements

/-- The type of the items of a generic sequence. -/
def item : HostType := .param 0

/-- Generic sequences. -/
def items : HostType := .sequenceOf item

/-- The sum of words of a type, which wraps around. -/
def sumNative (k : IntegerKind) : Native := fun call => do
  let total ← sumOf Value.int64? (Primitive.integer k).hostName (· + ·) 0 (← call.argItems 0)
  return .integer k (k.wrap total.toInt)

/-- The sequence operations. -/
def operations : List Method := [
  genericOp "Count" [items] .int32 fun call => return .int32 (← call.argItems 0).length,
  genericOp "Any" [items] .boolean fun call => return .bool !(← call.argItems 0).isEmpty,
  genericOp "First" [items] item fun call => do orNoElements (← call.argItems 0).head?,
  genericOp "Last" [items] item fun call => do orNoElements (← call.argItems 0).getLast?,
  genericOp "Contains" [items, item] .boolean fun call => do
    let needle ← call.arg 1
    return .bool (containsItem (← call.argItems 0) needle),
  genericOp "ElementAt" [items, .int32] item fun call => do
    let values ← call.argItems 0
    itemAt values (← call.argInt 1),
  genericOp "Min" [items] item fun call => do extreme .lt (← call.argItems 0),
  genericOp "Max" [items] item fun call => do extreme .gt (← call.argItems 0),
  sequenceOp "Sum" [.sequenceOf .int32] .int32 (sumNative .int32),
  sequenceOp "Sum" [.sequenceOf .int64] .int64 (sumNative .int64),
  sequenceOp "Sum" [.sequenceOf .double] .double fun call => do
    return .double (← sumOf Value.float? "Double" (· + ·) 0 (← call.argItems 0))] ++
  [HostType.int32, .int64, .double].map fun type =>
    sequenceOp "Average" [.sequenceOf type] .double fun call => do
      return .double (← average (← call.argItems 0))

/-- The module of the sequence operations. It is explicit, so its type is seen only where it is
asked for. -/
def sequenceOperations : HostModule :=
  { HostModule.ofNamespace WellKnown.sequenceOpsModule
      [{ TypeDecl.ofName "Enumerable" with methods := operations }] with isExplicit := true }

/-- The items of the receiver of a member of lists. -/
def thisItems (call : Call) : Except EvalError (List Value) := thisAs call Value.items? "List"

/-- Lists. -/
def list : TypeDecl :=
  { TypeDecl.ofName "List`1" with
    arity := 1
    bases := [items]
    properties := [
      property "Count" .int32 fun call => return .int32 (← thisItems call).length]
    methods := [
      method "Contains" [item] .boolean fun call => do
        let needle ← call.arg 0
        return .bool ((← call.this).items?.any (containsItem · needle)),
      method "get_Item" [.int32] item fun call => do
        let values ← thisItems call
        itemAt values (← call.argInt 0)]
    constructors := [
      ⟨[], fun _ => return .array []⟩,
      ⟨[items], fun call => return .array (← call.argItems 0)⟩] }

/-- The module of sequence types. -/
def collections : HostModule :=
  HostModule.ofNamespace "System.Collections.Generic"
    [{ TypeDecl.ofName "IEnumerable`1" with arity := 1, itemType := some item }, list]

end FatArrow.Standard
