import FatArrow.Typing.Conversion
import FatArrow.Typing.Error

/-!
Which typed operator a written one means for operands of given types.
-/

namespace FatArrow

open Syntax (BinaryOperator UnaryOperator)

namespace HostType

/-- A number type, null or not. -/
def isArithmetic (t : HostType) : Bool := t.underlying.isNumeric

/-- A type whose values have an order, null or not. -/
def isOrdered (t : HostType) : Bool :=
  let u := t.underlying
  u.isNumeric || u.isPrimitive .char || u.isNamed WellKnown.dateTime
    || u.isNamed WellKnown.dateTimeOffset || u.isNamed WellKnown.timeSpan

end HostType

/-- The operator between operands of two types. Operands are calculated with and ordered only
when their types are the same; they are compared for equality when one can stand for the other. -/
def typedBinary? (o : TypeOrder) (op : BinaryOperator) (left right : HostType) :
    Option BinaryOp :=
  let same := left == right
  let bools := left.isBoolean && right.isBoolean
  let numbers := same && left.isArithmetic
  let ordered := same && left.isOrdered
  let comparable := same || o.assignable left right || o.assignable right left
  let only (allowed : Bool) (op : BinaryOp) : Option BinaryOp := if allowed then some op else none
  match op with
  | .or => only bools .orElse
  | .and => only bools .andAlso
  | .caret => if bools then some .exclusiveOr else only numbers .power
  | .add => only (numbers || (same && left.isString)) .add
  | .subtract => only numbers .subtract
  | .multiply => only numbers .multiply
  | .divide => only numbers .divide
  | .modulo => only numbers .modulo
  | .less => only ordered .lessThan
  | .lessEqual => only ordered .lessThanOrEqual
  | .greater => only ordered .greaterThan
  | .greaterEqual => only ordered .greaterThanOrEqual
  | .equal => only comparable .equal
  | .notEqual => only comparable .notEqual

/-- The operator on an operand of a type. -/
def typedUnary? (op : UnaryOperator) (operand : HostType) : Option UnaryOp :=
  match op with
  | .negate => if operand.isArithmetic then some .negate else none
  | .plus => if operand.isArithmetic then some .unaryPlus else none
  | .not => if operand.underlying.isBoolean then some .not else none

end FatArrow
