import FatArrow.Proofs.Typing.Conversion
import FatArrow.Typing.Operator
import Mathlib.Data.List.Forall2

/-!
# The typing judgement

What it means for a typed tree to be well typed in a scope.  References name a parameter of the
scope with its type, operands have the types that their operator asks for, and arguments fit their
parameters.  The last is left open, since it depends on who picked the method: `Fits args params`
says of a whole list of arguments what is known of it.
-/

namespace FatArrow

/-! ## 1. Operands -/

/-- The types of two operands, and the type of the term in which an operator joins them.  An array
type without an element type has elements of type `Object`. -/
def BinaryOp.Joins (op : BinaryOp) (left right type : HostType) : Prop :=
  match op with
  | .add => left = type ∧ right = type ∧ (type.isArithmetic ∨ type.isString)
  | .subtract | .multiply | .divide | .modulo | .power =>
    left = type ∧ right = type ∧ type.isArithmetic
  | .greaterThan | .greaterThanOrEqual | .lessThan | .lessThanOrEqual =>
    left = right ∧ left.isOrdered ∧ type = .boolean
  | .equal | .notEqual => type = .boolean
  | .andAlso | .orElse | .exclusiveOr => left.isBoolean ∧ right.isBoolean ∧ type = .boolean
  | .arrayIndex => left.isArray ∧ left.element?.getD .object = type ∧ right = .int32

/-- The types of operands that an operator can be applied to. -/
def UnaryOp.Applies (op : UnaryOp) (operand : HostType) : Prop :=
  match op with
  | .negate | .unaryPlus => operand.isArithmetic
  | .not => operand.underlying.isBoolean
  | .arrayLength => operand.isArray
  | .postIncrement | .postDecrement => False

/-! ## 2. Terms -/

/-- A term that is well typed in a scope, the outermost parameters first. -/
inductive WellTyped (Fits : List Term → List HostType → Prop) : List Param → Term → Prop where
  | lambda {scope params : List Param} {body : Term}
      (names : ((scope ++ params).map (·.name)).Nodup)
      (inside : WellTyped Fits (scope ++ params) body) :
      WellTyped Fits scope (.lambda params body)
  | param {scope : List Param} {p : Param} (declared : p ∈ scope) :
      WellTyped Fits scope (.param p)
  | const {scope : List Param} {value : Value} {type : HostType} :
      WellTyped Fits scope (.const value type)
  | member {scope : List Param} {target : Term} {m : Member}
      (inside : WellTyped Fits scope target) : WellTyped Fits scope (.member target m)
  | staticMember {scope : List Param} {m : Member} : WellTyped Fits scope (.staticMember m)
  | call {scope : List Param} {target : Term} {m : Method} {args : List Term}
      (receiver : WellTyped Fits scope target) (inside : ∀ a ∈ args, WellTyped Fits scope a)
      (fits : Fits args m.params) : WellTyped Fits scope (.call target m args)
  | staticCall {scope : List Param} {m : Method} {args : List Term}
      (inside : ∀ a ∈ args, WellTyped Fits scope a) (fits : Fits args m.params) :
      WellTyped Fits scope (.staticCall m args)
  | binary {scope : List Param} {op : BinaryOp} {left right : Term} {a b type : HostType}
      (first : WellTyped Fits scope left) (second : WellTyped Fits scope right)
      (leftType : left.type? = some a) (rightType : right.type? = some b)
      (joins : op.Joins a b type) : WellTyped Fits scope (.binary op left right type)
  | unary {scope : List Param} {op : UnaryOp} {operand : Term} {t type : HostType}
      (inside : WellTyped Fits scope operand) (operandType : operand.type? = some t)
      (applies : op.Applies t) : WellTyped Fits scope (.unary op operand type)
  | cond {scope : List Param} {test ifTrue ifFalse : Term} {t : HostType}
      (condition : WellTyped Fits scope test) (first : WellTyped Fits scope ifTrue)
      (second : WellTyped Fits scope ifFalse) (testType : test.type? = some t)
      (boolean : t.isBoolean) : WellTyped Fits scope (.cond test ifTrue ifFalse)
  | new {scope : List Param} {c : Constructor} {args : List Term}
      (inside : ∀ a ∈ args, WellTyped Fits scope a) (fits : Fits args c.params) :
      WellTyped Fits scope (.new c args)
  | array {scope : List Param} {element : HostType} {items : List Term}
      (inside : ∀ i ∈ items, WellTyped Fits scope i)
      (itemTypes : ∀ i ∈ items, i.type? = some element) :
      WellTyped Fits scope (.array element items (.arrayOf element))
  | cast {scope : List Param} {operand : Term} {type : HostType}
      (inside : WellTyped Fits scope operand) : WellTyped Fits scope (.cast operand type)
  | index {scope : List Param} {target : Term} {m : Method} {args : List Term}
      (receiver : WellTyped Fits scope target) (inside : ∀ a ∈ args, WellTyped Fits scope a)
      (fits : Fits args m.params) : WellTyped Fits scope (.index target m args)

namespace WellTyped

variable {Fits : List Term → List HostType → Prop} {scope : List Param} {t u : Term}

/-- Conversions keep terms well typed. -/
theorem converts (ht : WellTyped Fits scope t) (hu : t.Converts u) : WellTyped Fits scope u := by
  cases hu with
  | kept => exact ht
  | constant value type => exact .const
  | cast type => exact .cast ht

theorem asArguments {args : List Term} (ha : ∀ a ∈ args, WellTyped Fits scope a)
    (params : List HostType) : ∀ a ∈ Term.asArguments args params, WellTyped Fits scope a := by
  intro a h
  obtain ⟨⟨arg, param⟩, hm, rfl⟩ := List.mem_map.mp h
  exact (ha arg (List.of_mem_zip hm).1).converts (Term.converts_asArgument arg param)

/-- What fits in one sense of the word fits in any weaker one. -/
theorem mono {Fits' : List Term → List HostType → Prop}
    (h : ∀ args params, Fits args params → Fits' args params) (ht : WellTyped Fits scope t) :
    WellTyped Fits' scope t := by
  induction ht with
  | lambda names _ ih => exact .lambda names ih
  | param declared => exact .param declared
  | const => exact .const
  | member _ ih => exact .member ih
  | staticMember => exact .staticMember
  | call _ _ fits ih ihs => exact .call ih ihs (h _ _ fits)
  | staticCall _ fits ihs => exact .staticCall ihs (h _ _ fits)
  | binary _ _ leftType rightType joins ih ih' => exact .binary ih ih' leftType rightType joins
  | unary _ operandType applies ih => exact .unary ih operandType applies
  | cond _ _ _ testType boolean ih ih' ih'' => exact .cond ih ih' ih'' testType boolean
  | new _ fits ihs => exact .new ihs (h _ _ fits)
  | array _ itemTypes ihs => exact .array ihs itemTypes
  | cast _ ih => exact .cast ih
  | index _ _ fits ih ihs => exact .index ih ihs (h _ _ fits)

end WellTyped

/-! ## 3. Arguments -/

/-- The null constants as they are written: of type `Object`. -/
def Term.PlainNull (t : Term) : Prop := ∀ type, t = .null type → type = .object

/-- A written argument with its type. -/
def Term.Typed (t : Term) (type : HostType) : Prop := t.type? = some type ∧ t.PlainNull

/-- An argument can be passed for a parameter.  For a parameter of a value type it has exactly that
type; the one exception is the written null where the host derives `Object` from the type. -/
def Term.Passes (o : TypeOrder) (arg : Term) (param : HostType) : Prop :=
  ∃ type, arg.type? = some type ∧ o.assignable param type = true ∧
    (param.isValueType → type = param ∨ arg = .null .object ∧ o.derives param .object = true)

/-- As many arguments as parameters, each of which can be passed. -/
def TypeOrder.Accepts (o : TypeOrder) (args : List Term) (params : List HostType) : Prop :=
  List.Forall₂ (Term.Passes o) args params

end FatArrow
