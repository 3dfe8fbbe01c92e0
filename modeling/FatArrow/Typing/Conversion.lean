import FatArrow.Host.TypeOrder
import FatArrow.Tree.Term
import FatArrow.Value.Convert

/-!
Conversions: those that typing inserts by itself, and those that a cast may ask for. A constant is
converted on the spot where its value allows it.
-/

namespace FatArrow

/-- Whether null is a value of the type. -/
def HostType.admitsNull (t : HostType) : Bool := t.nullable || !t.isValueType

namespace Term

/-- The null constant, of whatever type. -/
def isNullConstant (t : Term) : Bool := t.value?.any (·.isNull)

/-- A constant as one of another type: null where the type admits it, a number as a number. -/
def retyped? (value : Value) (type target : HostType) : Option Term :=
  if value.isNull then
    if target.admitsNull then some (.null target) else none
  else do
    let source ← type.primitive?
    let kind ← target.primitive?
    if source.isNumeric && kind.isNumeric then
      (value.convert? kind).map (.const · target)
    else none

/-- The term converted to a type. A lambda, and a term that has the type, stay as they are. -/
def convert (t : Term) (target : HostType) : Term :=
  match t.type? with
  | none => t
  | some type =>
    if type = target then t
    else
      match t with
      | .const value type => (retyped? value type target).getD (.cast t target)
      | _ => .cast t target

/-- An operand brought to the type of the other one, where it can be without loss. Operands that
admit null, and operands next to an object, stay as they are. -/
def coerce (o : TypeOrder) (operand : Term) (target : HostType) : Term :=
  match operand.type? with
  | none => operand
  | some source =>
    if source = target || target.isPrimitive .object then operand
    else if operand.isNullConstant then
      if target.admitsNull then .null target else operand
    else if source.nullable || !o.assignable target source then operand
    else operand.convert target

/-- An argument brought to the type of its parameter. For a parameter whose type is no value type,
only null changes its type. -/
def asArgument (arg : Term) (param : HostType) : Term :=
  match arg.type? with
  | none => arg
  | some type =>
    if type = param then arg
    else if arg.isNullConstant then
      if param.admitsNull then .null param else arg
    else if param.isValueType then arg.convert param
    else arg

/-- Arguments brought to the types of their parameters. -/
def asArguments (args : List Term) (params : List HostType) : List Term :=
  (args.zip params).map fun (arg, type) => arg.asArgument type

end Term

/-- A number or a character, or one that admits null. -/
def HostType.isScalar (t : HostType) : Bool := t.primitive?.any fun p => p.isNumeric || p == .char

/-- Whether a cast may convert the source type to the target type: where one can stand for the
other, and between numbers and characters. -/
def TypeOrder.castable (o : TypeOrder) (source target : HostType) : Bool :=
  o.assignable target source || o.assignable source target
    || (source.isScalar && target.isScalar)

end FatArrow
