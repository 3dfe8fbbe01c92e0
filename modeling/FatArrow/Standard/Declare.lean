import FatArrow.Registry.Module

/-!
Short forms for declaring the members of host types.
-/

namespace FatArrow.Standard

/-- A property of an instance. -/
def property (name : String) (type : HostType) (getter : Native) : MemberDecl :=
  ⟨name, type, false, getter⟩

/-- A property of the type itself. -/
def staticProperty (name : String) (type : HostType) (getter : Native) : MemberDecl :=
  ⟨name, type, true, getter⟩

/-- A property of the type itself that always has the same value. -/
def constant (name : String) (type : HostType) (value : Value) : MemberDecl :=
  staticProperty name type fun _ => return value

/-- A method of an instance. -/
def method (name : String) (params : List HostType) (returns : HostType) (invoker : Native) :
    Method :=
  { Method.onReceiver name params returns with invoker := some invoker }

/-- A method of the type itself. -/
def staticMethod (name : String) (params : List HostType) (returns : HostType)
    (invoker : Native) : Method :=
  { method name params returns invoker with isStatic := true }

/-- A sequence operation for items of one type. -/
def sequenceOp (name : String) (params : List HostType) (returns : HostType) (invoker : Native) :
    Method :=
  { staticMethod name params returns invoker with isSequenceOp := true }

/-- A sequence operation for items of any type. -/
def genericOp (name : String) (params : List HostType) (returns : HostType) (invoker : Native) :
    Method :=
  { sequenceOp name params returns invoker with arity := 1 }

/-- The receiver seen through a partial view, with what it should have been for the message. -/
def thisAs {α : Type} (call : Call) (view : Value → Option α) (expected : String) :
    Except EvalError α := do
  let v ← call.this
  match view v with
  | some a => .ok a
  | none => .error (.typeMismatch expected v.typeName)

end FatArrow.Standard
