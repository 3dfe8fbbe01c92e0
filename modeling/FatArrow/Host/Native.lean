import FatArrow.Host.Error
import FatArrow.Value.Convert
import FatArrow.Value.Text

/-!
Native functions: what members, methods and constructors of host types do. A native function sees
its receiver, its arguments and the types bound to the parameters of a generic method. Scripts
describe the simple ones as data.
-/

namespace FatArrow

/-- What a native function is called with. -/
structure Call where
  receiver : Option Value
  args : List Value
  typeArgs : List HostType

/-- A native function. -/
abbrev Native := Call → Eval Value

namespace Call

/-- An argument. -/
def arg (c : Call) (i : Nat) : Except EvalError Value :=
  match c.args[i]? with
  | some v => .ok v
  | none => .error (.argumentCount (i + 1) c.args.length)

/-- An argument seen through a partial view, with what it should have been for the message. -/
def argAs {α : Type} (c : Call) (i : Nat) (view : Value → Option α) (expected : String) :
    Except EvalError α := do
  let v ← c.arg i
  match view v with
  | some a => .ok a
  | none => .error (.typeMismatch expected v.typeName)

/-- An argument as a float. -/
def argFloat (c : Call) (i : Nat) : Except EvalError Float := c.argAs i Value.float? "number"

/-- An argument as an integer of 64 bits. -/
def argInt (c : Call) (i : Nat) : Except EvalError Int64 := c.argAs i Value.int64? "integer"

/-- An argument as a text. -/
def argText (c : Call) (i : Nat) : Except EvalError String := c.argAs i Value.string? "String"

/-- An argument as a list of items. -/
def argItems (c : Call) (i : Nat) : Except EvalError (List Value) :=
  c.argAs i Value.items? "Array"

/-- The receiver, which has to be there. -/
def this (c : Call) : Except EvalError Value :=
  match c.receiver with
  | none | some .null => .error (.nullReference "instance member")
  | some v => .ok v

/-- The receiver, null if there is none. -/
def receiverOrNull (c : Call) : Value := c.receiver.getD .null

/-- The receiver as a text. -/
def thisText (c : Call) : Except EvalError String := do
  let v ← c.this
  match v.string? with
  | some s => .ok s
  | none => .error (.typeMismatch "String" v.typeName)

end Call

/-- What an object holds. -/
def payloadOf (v : Value) (store : Store) : Option Payload :=
  match v with
  | .object _ id => store.payload? id
  | _ => none

/-- A new object. -/
def makeObject (type : HostType) (payload : Payload) : Eval Value := fun store =>
  .ok (store.make type payload)

/-- A simple native function as data. -/
inductive Script where
  | answer (value : Value)
  | fail (text : String)
  | arg (i : Nat)
  | float (i : Nat)
  | int (i : Nat)
  | text (i : Nat)
  | length (i : Nat)
  | count
  | this
  | thisText
  | slot (name : String)
  | format
  | make (type : HostType)

/-- The native function that a script describes. -/
def Script.native (script : Script) : Native := fun call => do
  match script with
  | .answer value => return value
  | .fail reason => throw (.reported reason)
  | .arg i => call.arg i
  | .float i => return .double (← call.argFloat i)
  | .int i => return .int64 (← call.argInt i).toInt
  | .text i => return .string (← call.argText i)
  | .length i => return .int32 (← call.argItems i).length
  | .count => return .int32 call.args.length
  | .this => call.this
  | .thisText => return .string (← call.thisText)
  | .slot name =>
    let v ← call.this
    match payloadOf v (← get) with
    | some (.record slots) => return Store.slotOf slots name
    | _ => throw (.typeMismatch "Record" v.typeName)
  | .format =>
    return .string ("|".intercalate
      (call.receiverOrNull.text :: call.args.map Value.text ++ call.typeArgs.map HostType.text))
  | .make type =>
    makeObject type (.record (call.args.zipIdx.map fun (v, i) => (toString i, v)))

end FatArrow
