/-!
The operators of typed trees.
-/

namespace FatArrow

/-- The operators between two operands. `^` is one operator on truth values and another on
numbers; an array index is an operator, too. -/
inductive BinaryOp where
  | add | subtract | multiply | divide | modulo
  | greaterThan | greaterThanOrEqual | lessThan | lessThanOrEqual | equal | notEqual
  | andAlso | orElse | exclusiveOr | power | arrayIndex
deriving DecidableEq, Repr

namespace BinaryOp

/-- Every operator, in the order in which they are listed. -/
def all : List BinaryOp := [
  .add, .subtract, .multiply, .divide, .modulo, .greaterThan, .greaterThanOrEqual, .lessThan,
  .lessThanOrEqual, .equal, .notEqual, .andAlso, .orElse, .exclusiveOr, .power, .arrayIndex]

/-- The operator as it is written. An array index is written around its right operand. -/
def symbol : BinaryOp → String
  | .add => "+"
  | .subtract => "-"
  | .multiply => "*"
  | .divide => "/"
  | .modulo => "%"
  | .greaterThan => ">"
  | .greaterThanOrEqual => ">="
  | .lessThan => "<"
  | .lessThanOrEqual => "<="
  | .equal => "=="
  | .notEqual => "!="
  | .andAlso => "&&"
  | .orElse => "||"
  | .exclusiveOr | .power => "^"
  | .arrayIndex => "[]"

/-- An operator that calculates. -/
def isArithmetic : BinaryOp → Bool
  | .add | .subtract | .multiply | .divide | .modulo | .power => true
  | _ => false

/-- An operator that orders. -/
def isRelational : BinaryOp → Bool
  | .greaterThan | .greaterThanOrEqual | .lessThan | .lessThanOrEqual => true
  | _ => false

/-- An operator that tests for equality. -/
def isEquality : BinaryOp → Bool
  | .equal | .notEqual => true
  | _ => false

/-- An operator that joins truth values. -/
def isLogical : BinaryOp → Bool
  | .andAlso | .orElse | .exclusiveOr => true
  | _ => false

/-- An operator whose result is a truth value. -/
def yieldsBool (op : BinaryOp) : Bool := op.isRelational || op.isEquality || op.isLogical

end BinaryOp

/-- The operators on one operand; the length of an array is one of them. -/
inductive UnaryOp where
  | negate | unaryPlus | not | arrayLength | postIncrement | postDecrement
deriving DecidableEq, Repr

namespace UnaryOp

/-- Every operator, in the order in which they are listed. -/
def all : List UnaryOp := [
  .negate, .unaryPlus, .not, .arrayLength, .postIncrement, .postDecrement]

/-- What is written before the operand. -/
def before : UnaryOp → String
  | .negate => "-"
  | .unaryPlus => "+"
  | .not => "!"
  | _ => ""

/-- What is written after the operand. -/
def after : UnaryOp → String
  | .arrayLength => ".Length"
  | .postIncrement => "++"
  | .postDecrement => "--"
  | _ => ""

/-- The operator without an operand. -/
def symbol (op : UnaryOp) : String := op.before ++ op.after

end UnaryOp

end FatArrow
