import FatArrow.Host.Error
import FatArrow.Tree.Operator
import FatArrow.Value.Convert
import FatArrow.Value.Text

/-!
What the operators do to values. Integers are calculated in words of 64 bits and floats in 64 bits,
and the result is brought to the type of the node. Null makes a sum null and an order false.
-/

namespace FatArrow

namespace Value

/-- The value as a truth value. -/
def needBool (v : Value) : Except EvalError Bool :=
  match v.bool? with
  | some b => .ok b
  | none => .error (.typeMismatch "Boolean" v.typeName)

/-- The value as an integer of 64 bits. -/
def needInt (v : Value) : Except EvalError Int64 :=
  match v.int64? with
  | some n => .ok n
  | none => .error (.typeMismatch "integer" v.typeName)

/-- The value as a float. -/
def needFloat (v : Value) : Except EvalError Float :=
  match v.float? with
  | some x => .ok x
  | none => .error (.typeMismatch "number" v.typeName)

/-- A value of one of the two float types. -/
def isFloat : Value → Bool
  | .single _ | .double _ => true
  | _ => false

/-- A number or a character. -/
def isNumber (v : Value) : Bool := v.float?.isSome

/-- The order of two integers or characters. Two words of the widest unsigned type are compared as
what they are, all others as words of 64 bits with a sign. -/
def compareWhole (a b : Value) : Except EvalError Ordering :=
  match a, b with
  | .integer .uint64 v, .integer .uint64 w => .ok (compare v.toNat w.toNat)
  | a, b => do
    let m ← a.needInt
    let n ← b.needInt
    return compare m.toInt n.toInt

/-- The order of two values. Points of local time are ordered by their universal time, and numbers
as floats if one of them is a float. -/
def order (a b : Value) : Except EvalError Ordering :=
  match a, b with
  | .string s, .string t => .ok (compare s t)
  | .dateTime s, .dateTime t => .ok (compare s.ticks t.ticks)
  | .timeSpan s, .timeSpan t => .ok (compare s.ticks t.ticks)
  | .dateTimeOffset s, .dateTimeOffset t => .ok (compare s.utc.ticks t.utc.ticks)
  | a, b =>
    if a.isFloat || b.isFloat then do
      let x ← a.needFloat
      let y ← b.needFloat
      return compare (floatRank x) (floatRank y)
    else compareWhole a b

/-- Equality by the operator: numbers by their order, null only to null. -/
def equals (a b : Value) : Bool :=
  if a.isNull || b.isNull then a.isNull && b.isNull
  else if a.isNumber && b.isNumber then
    match a.order b with
    | .ok o => o == .eq
    | .error _ => false
  else a.same b

/-- The text of a value between other text; that of null is empty. -/
def joinedText (v : Value) : String := if v.isNull then "" else v.text

/-- The value converted to a type that has to be possible. -/
def needConvert (v : Value) (p : Primitive) : Except EvalError Value :=
  match v.convert? p with
  | some w => .ok w
  | none => .error (.typeMismatch p.hostName v.typeName)

end Value

/-- The type in which a node calculates: its own, or that of an operand if its own is no number
type. -/
def numberType (type : HostType) (operand : Value) : Except EvalError Primitive :=
  let numeric (p : Option Primitive) : Option Primitive := p.filter (·.isNumeric)
  match (numeric type.primitive?).or (numeric operand.primitive?) with
  | some p => .ok p
  | none => .error (.typeMismatch "number" operand.typeName)

namespace BinaryOp

/-- The operator on floats. -/
def onFloats (op : BinaryOp) (a b : Float) : Float :=
  match op with
  | .add => a + b
  | .subtract => a - b
  | .multiply => a * b
  | .divide => a / b
  | .modulo => floatRemainder a b
  | _ => Float.pow a b

/-- The operator on words of 64 bits. -/
def onInts (op : BinaryOp) (a b : Int64) : Except EvalError Int64 :=
  match op with
  | .add => .ok (a + b)
  | .subtract => .ok (a - b)
  | .multiply => .ok (a * b)
  | .divide => if b = 0 then .error .divideByZero else .ok (a / b)
  | _ => if b = 0 then .error .divideByZero else .ok (a % b)

/-- The operator on numbers. Powers are calculated with floats. -/
def calculate (op : BinaryOp) (type : HostType) (a b : Value) : Except EvalError Value :=
  if a.isNull || b.isNull then .ok .null
  else do
    let p ← numberType type a
    if p.isFloating || op = .power then
      let x ← a.needFloat
      let y ← b.needFloat
      (Value.double (op.onFloats x y)).needConvert p
    else
      let m ← a.needInt
      let n ← b.needInt
      (Value.int64 (← op.onInts m n).toInt).needConvert p

/-- Whether an order is the one that an operator asks for. -/
def holdsFor (op : BinaryOp) (o : Ordering) : Bool :=
  match op with
  | .greaterThan => o == .gt
  | .greaterThanOrEqual => o != .lt
  | .lessThan => o == .lt
  | _ => o != .gt

/-- The item of an array at a position. -/
def itemOf (array position : Value) : Except EvalError Value :=
  match array with
  | .array items => do
    let i ← position.needInt
    match if i < 0 then none else items[i.toInt.toNat]? with
    | some v => return v
    | none => throw (.indexOutOfRange i.toInt items.length)
  | .null => .error (.nullReference "array index")
  | other => .error (.typeMismatch "Array" other.typeName)

/-- Exclusive or, of truth values or bit by bit. -/
def exclusive (type : HostType) (a b : Value) : Except EvalError Value :=
  match a, b with
  | .bool x, .bool y => .ok (.bool (x != y))
  | a, b => do
    let p ← numberType type a
    let m ← a.needInt
    let n ← b.needInt
    (Value.int64 (m ^^^ n).toInt).needConvert p

/-- The operator on values of both operands, for a node of a type. -/
def apply (op : BinaryOp) (type : HostType) (a b : Value) : Except EvalError Value :=
  match op with
  | .equal => .ok (.bool (a.equals b))
  | .notEqual => .ok (.bool !(a.equals b))
  | .greaterThan | .greaterThanOrEqual | .lessThan | .lessThanOrEqual =>
    if a.isNull || b.isNull then .ok (.bool false)
    else (a.order b).map fun o => .bool (op.holdsFor o)
  | .arrayIndex => itemOf a b
  | .exclusiveOr => exclusive type a b
  | .add =>
    if type.isString then .ok (.string (a.joinedText ++ b.joinedText)) else op.calculate type a b
  | .subtract | .multiply | .divide | .modulo | .power => op.calculate type a b
  | .andAlso | .orElse =>
    .error (.unsupported ("'" ++ op.symbol ++ "' without short-circuiting"))

end BinaryOp

namespace UnaryOp

/-- The negative of a number. -/
def negative (type : HostType) (v : Value) : Except EvalError Value :=
  if v.isNull then .ok .null
  else do
    let p ← numberType type v
    if p.isFloating then (Value.double (-(← v.needFloat))).needConvert p
    else (Value.int64 (-(← v.needInt)).toInt).needConvert p

/-- The number of items of an array. -/
def lengthOf (v : Value) : Except EvalError Value :=
  match v with
  | .array items => .ok (.int32 items.length)
  | .null => .error (.nullReference "Length")
  | other => .error (.typeMismatch "Array" other.typeName)

/-- The operator on the value of its operand, for a node of a type. -/
def apply (op : UnaryOp) (type : HostType) (v : Value) : Except EvalError Value :=
  match op with
  | .unaryPlus | .postIncrement | .postDecrement => .ok v
  | .not => v.needBool.map fun b => .bool !b
  | .arrayLength => lengthOf v
  | .negate => negative type v

end UnaryOp

/-- A value converted by a cast. Null stays null, and only numbers and characters change. -/
def Value.castTo (v : Value) (type : HostType) : Except EvalError Value :=
  if v.isNull then .ok .null
  else
    match type.primitive? with
    | some p => if p.isNumeric || p == .char then v.needConvert p else .ok v
    | none => .ok v

end FatArrow
