import FatArrow.Proofs.Decimal.Literal
import FatArrow.Proofs.Printing.Signs
import Mathlib.Data.List.Forall2

/-!
# What printed terms mirror

Which written types and expressions have the same parts as a printed type or term, whatever their
places are and wherever parentheses stand around an expression.
-/

namespace FatArrow

open Syntax

/-! ## 1. Types -/

mutual
/-- A written type has the parts of a printed one. -/
def HostType.Mirrors (ns : Namespaces) : HostType → TypeNode → Prop
  | ⟨shape, args, nullable⟩, node =>
    let base (node : TypeNode) : Prop :=
      match shape with
      | .primitive p => ∃ name span, node = .named [.mk name []] span ∧ name.text = p.hostName
      | .array => ∃ element span, node = .array element span ∧ HostType.MirrorsList ns args [element]
      | .param _ => False
      | .named q =>
        ∃ segments span, node = .named segments span ∧
          segments.map (·.name.text) = ns.pieces q ∧ (∀ s ∈ segments.dropLast, s.args = []) ∧
          HostType.MirrorsList ns args (TypeNode.lastArgs segments)
    if nullable then
      ∃ name inner span, node = .named [.mk name [inner]] span ∧ name.text = "Nullable" ∧ base inner
    else base node

/-- Written types have the parts of printed ones. -/
def HostType.MirrorsList (ns : Namespaces) : List HostType → List TypeNode → Prop
  | [], nodes => nodes = []
  | t :: ts, nodes =>
    ∃ first rest, nodes = first :: rest ∧ HostType.Mirrors ns t first ∧
      HostType.MirrorsList ns ts rest
end

@[simp] theorem HostType.mirrorsList_iff {ns : Namespaces} {ts : List HostType}
    {nodes : List TypeNode} : MirrorsList ns ts nodes ↔ List.Forall₂ (Mirrors ns) ts nodes := by
  induction ts generalizing nodes with
  | nil => cases nodes <;> simp [MirrorsList]
  | cons t ts ih => cases nodes <;> simp [MirrorsList, ih]

/-- An expression that is written like the name of a type, piece by piece. -/
def Syntax.Node.segments? : Node → Option (List Segment)
  | .name id args _ => some [.mk id args]
  | .member object id args _ => object.segments?.map (· ++ [.mk id args])
  | _ => none

/-- An expression is the name of a printed type. -/
def HostType.MirrorsName (ns : Namespaces) (t : HostType) (node : Node) : Prop :=
  ∃ segments span, node.segments? = some segments ∧ t.Mirrors ns (.named segments span)

/-! ## 2. Constants and operators -/

/-- What an integer literal says of its type. -/
def IntegerKind.intSuffix : IntegerKind → IntSuffix
  | .int64 => .long
  | .uint32 => .unsigned
  | .uint64 => .unsignedLong
  | .byte | .sbyte | .int16 | .uint16 | .int32 => .none

/-- A literal denotes what is printed of a value: of a float of 32 bits that is its shortest decimal. -/
def Value.IsLiteral : Value → Literal → Prop
  | .null, .null => True
  | .bool b, .bool c => b = c
  | .string s, .string t => s = t
  | .char c, .char d => c = d
  | .integer kind w, .int n suffix => kind.denote w = n ∧ suffix = kind.intSuffix
  | .single x, .real y .float =>
    ∃ m q, datumOf32 x = .finite false m q ∧ y = (Decimal.shortest .single m q).nearest
  | .double x, .real y .none => x = y
  | _, _ => False

/-- The type of an integer that is printed under a cast. -/
def Value.narrow? : Value → Option IntegerKind
  | .integer kind _ => if kind.suffix?.isNone then some kind else none
  | _ => none

/-- An expression has the parts of a printed constant: a literal, for the narrow integers under a
cast. -/
def Value.Mirrors (ns : Namespaces) (v : Value) (node : Node) : Prop :=
  match v.narrow? with
  | none => ∃ l span, node.bare = .literal l span ∧ v.IsLiteral l
  | some kind =>
    ∃ written inner l span span', node.bare = .cast written inner span ∧
      (HostType.integer kind).Mirrors ns written ∧ inner.bare = .literal l span' ∧ v.IsLiteral l

/-- An expression is an integer as it is printed: a literal, behind a minus sign if it has one. -/
def Syntax.Node.IsInteger : Int → IntSuffix → Node → Prop
  | .ofNat n, suffix, node => ∃ span, node.bare = .literal (.int n suffix) span
  | .negSucc n, suffix, node =>
    ∃ inner span span', node.bare = .unary .negate inner span ∧
      inner.bare = .literal (.int (n + 1) suffix) span'

theorem Syntax.Node.IsInteger.paren {n : Int} {suffix : IntSuffix} {node : Node}
    (h : node.IsInteger n suffix) (span : Span) : (Node.paren node span).IsInteger n suffix := by
  cases n <;> exact h

/-- An expression has the parts of a printed word: an integer, for the narrow integers under a
cast. -/
def IntegerKind.MirrorsWord (ns : Namespaces) (kind : IntegerKind) (w : BitVec kind.width)
    (node : Node) : Prop :=
  if kind.suffix?.isSome then node.IsInteger (kind.denote w) kind.intSuffix
  else
    ∃ written inner span, node.bare = .cast written inner span ∧
      (HostType.integer kind).Mirrors ns written ∧ inner.IsInteger (kind.denote w) .none

/-- The written form of an operator between two operands. -/
def BinaryOp.written : BinaryOp → BinaryOperator
  | .add => .add
  | .subtract => .subtract
  | .multiply => .multiply
  | .divide => .divide
  | .modulo => .modulo
  | .greaterThan => .greater
  | .greaterThanOrEqual => .greaterEqual
  | .lessThan => .less
  | .lessThanOrEqual => .lessEqual
  | .equal => .equal
  | .notEqual => .notEqual
  | .andAlso => .and
  | .orElse => .or
  | .exclusiveOr | .power | .arrayIndex => .caret

/-- The written form of an operator before an operand. -/
def UnaryOp.written? : UnaryOp → Option UnaryOperator
  | .negate => some .negate
  | .unaryPlus => some .plus
  | .not => some .not
  | .arrayLength | .postIncrement | .postDecrement => none

/-! ## 3. Terms -/

/-- An expression is the name of a method, with its type arguments, behind an object. -/
def Method.IsMemberOf (ns : Namespaces) (m : Method) (object callee : Node) : Prop :=
  ∃ name written span, callee = .member object name written span ∧ name.text = m.name ∧
    List.Forall₂ (HostType.Mirrors ns) m.typeArgs written

/-- An expression is the name of a method by itself, with its type arguments. -/
def Method.IsName (ns : Namespaces) (m : Method) (callee : Node) : Prop :=
  ∃ name written span, callee = .name name written span ∧ name.text = m.name ∧
    List.Forall₂ (HostType.Mirrors ns) m.typeArgs written

/-- An expression is the name of a static method: behind its type, if it has one. -/
def Method.IsStaticName (ns : Namespaces) (m : Method) (callee : Node) : Prop :=
  match m.declaring with
  | some type => ∃ object, m.IsMemberOf ns object callee ∧ type.MirrorsName ns object
  | none => m.IsName ns callee

namespace Term

mutual
/-- An expression has the parts of a printed term. -/
def Mirrors (ns : Namespaces) : Term → Node → Prop
  | .lambda _ _, _ => False
  | .staticMember m, node =>
    ∃ object name span, node.bare = .member object name [] span ∧ name.text = m.name ∧
      m.declaring.MirrorsName ns object
  | .param p, node => ∃ name span, node.bare = .name name [] span ∧ name.text = p.name
  | .const value _, node => value.Mirrors ns node
  | .member target m, node =>
    ∃ object name span, node.bare = .member object name [] span ∧ name.text = m.name ∧
      Mirrors ns target object
  | .call target m args, node =>
    ∃ object callee nodes span, node.bare = .call callee nodes span ∧
      m.IsMemberOf ns object callee ∧ Mirrors ns target object ∧ MirrorsList ns args nodes
  | .staticCall m args, node =>
    ∃ callee nodes span, node.bare = .call callee nodes span ∧
      if onFirst m args then
        ∃ object, m.IsMemberOf ns object callee ∧ MirrorsList ns args (object :: nodes)
      else m.IsStaticName ns callee ∧ MirrorsList ns args nodes
  | .binary op left right _, node =>
    if op = .arrayIndex then
      ∃ object index span, node.bare = .index object [index] span ∧ Mirrors ns left object ∧
        Mirrors ns right index
    else
      ∃ first second span, node.bare = .binary op.written first second span ∧
        Mirrors ns left first ∧ Mirrors ns right second
  | .unary op operand _, node =>
    (∃ operator inner span, op.written? = some operator ∧ node.bare = .unary operator inner span ∧
        Mirrors ns operand inner) ∨
      ∃ object name span, op = .arrayLength ∧ node.bare = .member object name [] span ∧
        name.text = "Length" ∧ Mirrors ns operand object
  | .cond test ifTrue ifFalse, node =>
    ∃ condition first second span, node.bare = .conditional condition first second span ∧
      Mirrors ns test condition ∧ Mirrors ns ifTrue first ∧ Mirrors ns ifFalse second
  | .new c args, node =>
    ∃ written nodes span, node.bare = .new written nodes span ∧ c.declaring.Mirrors ns written ∧
      MirrorsList ns args nodes
  | .array _ items type, node =>
    ∃ written nodes span, node.bare = .newArray (some written) nodes span ∧
      List.Forall₂ (HostType.Mirrors ns) type.args [written] ∧ MirrorsList ns items nodes
  | .cast operand type, node =>
    ∃ written inner span, node.bare = .cast written inner span ∧ type.Mirrors ns written ∧
      Mirrors ns operand inner
  | .index target _ args, node =>
    ∃ object nodes span, node.bare = .index object nodes span ∧ Mirrors ns target object ∧
      MirrorsList ns args nodes

/-- Expressions have the parts of printed terms. -/
def MirrorsList (ns : Namespaces) : List Term → List Node → Prop
  | [], nodes => nodes = []
  | t :: ts, nodes =>
    ∃ first rest, nodes = first :: rest ∧ Mirrors ns t first ∧ MirrorsList ns ts rest
end

@[simp] theorem mirrorsList_iff {ns : Namespaces} {ts : List Term} {nodes : List Node} :
    MirrorsList ns ts nodes ↔ List.Forall₂ (Mirrors ns) ts nodes := by
  induction ts generalizing nodes with
  | nil => cases nodes <;> simp [MirrorsList]
  | cons t ts ih => cases nodes <;> simp [MirrorsList, ih]

end Term

/-- A parameter is written without a type. -/
def Param.Mirrors (p : Param) (written : Parameter) : Prop :=
  written.type = none ∧ written.name.text = p.name

namespace Term

mutual
/-- An expression has the parts of a printed term, with expressions in the places of its constants
that stand in a relation to them. -/
def MirrorsBy (L : Value → Node → Prop) (ns : Namespaces) : Term → Node → Prop
  | .lambda params body, node =>
    ∃ parenthesized written inner span, node.bare = .lambda parenthesized written inner span ∧
      List.Forall₂ Param.Mirrors params written ∧ MirrorsBy L ns body inner
  | .staticMember m, node =>
    ∃ object name span, node.bare = .member object name [] span ∧ name.text = m.name ∧
      m.declaring.MirrorsName ns object
  | .param p, node => ∃ name span, node.bare = .name name [] span ∧ name.text = p.name
  | .const value _, node => L value node
  | .member target m, node =>
    ∃ object name span, node.bare = .member object name [] span ∧ name.text = m.name ∧
      MirrorsBy L ns target object
  | .call target m args, node =>
    ∃ object callee nodes span, node.bare = .call callee nodes span ∧
      m.IsMemberOf ns object callee ∧ MirrorsBy L ns target object ∧
      MirrorsListBy L ns args nodes
  | .staticCall m args, node =>
    ∃ callee nodes span, node.bare = .call callee nodes span ∧
      if onFirst m args then
        ∃ object, m.IsMemberOf ns object callee ∧ MirrorsListBy L ns args (object :: nodes)
      else m.IsStaticName ns callee ∧ MirrorsListBy L ns args nodes
  | .binary op left right _, node =>
    if op = .arrayIndex then
      ∃ object index span, node.bare = .index object [index] span ∧ MirrorsBy L ns left object ∧
        MirrorsBy L ns right index
    else
      ∃ first second span, node.bare = .binary op.written first second span ∧
        MirrorsBy L ns left first ∧ MirrorsBy L ns right second
  | .unary op operand _, node =>
    (∃ operator inner span, op.written? = some operator ∧ node.bare = .unary operator inner span ∧
        MirrorsBy L ns operand inner) ∨
      ∃ object name span, op = .arrayLength ∧ node.bare = .member object name [] span ∧
        name.text = "Length" ∧ MirrorsBy L ns operand object
  | .cond test ifTrue ifFalse, node =>
    ∃ condition first second span, node.bare = .conditional condition first second span ∧
      MirrorsBy L ns test condition ∧ MirrorsBy L ns ifTrue first ∧ MirrorsBy L ns ifFalse second
  | .new c args, node =>
    ∃ written nodes span, node.bare = .new written nodes span ∧ c.declaring.Mirrors ns written ∧
      MirrorsListBy L ns args nodes
  | .array _ items type, node =>
    ∃ written nodes span, node.bare = .newArray (some written) nodes span ∧
      List.Forall₂ (HostType.Mirrors ns) type.args [written] ∧ MirrorsListBy L ns items nodes
  | .cast operand type, node =>
    ∃ written inner span, node.bare = .cast written inner span ∧ type.Mirrors ns written ∧
      MirrorsBy L ns operand inner
  | .index target _ args, node =>
    ∃ object nodes span, node.bare = .index object nodes span ∧ MirrorsBy L ns target object ∧
      MirrorsListBy L ns args nodes

/-- Expressions have the parts of printed terms, with expressions in the places of their constants
that stand in a relation to them. -/
def MirrorsListBy (L : Value → Node → Prop) (ns : Namespaces) : List Term → List Node → Prop
  | [], nodes => nodes = []
  | t :: ts, nodes =>
    ∃ first rest, nodes = first :: rest ∧ MirrorsBy L ns t first ∧ MirrorsListBy L ns ts rest
end

variable {L : Value → Node → Prop} {ns : Namespaces}

@[simp] theorem mirrorsListBy_iff {ts : List Term} {nodes : List Node} :
    MirrorsListBy L ns ts nodes ↔ List.Forall₂ (MirrorsBy L ns) ts nodes := by
  induction ts generalizing nodes with
  | nil => cases nodes <;> simp [MirrorsListBy]
  | cons t ts ih => cases nodes <;> simp [MirrorsListBy, ih]

/-- A term without lambdas is mirrored as it is printed if its constants are. -/
theorem mirrors_iff {C : Value → Prop} {t : Term} {node : Node} (h : t.LegibleBy C ns) :
    t.MirrorsBy (Value.Mirrors ns) ns node ↔ t.Mirrors ns node := by
  have hlist {ts : List Term}
      (ih : ∀ t ∈ ts, ∀ node, t.MirrorsBy (Value.Mirrors ns) ns node ↔ t.Mirrors ns node)
      (nodes : List Node) :
      MirrorsListBy (Value.Mirrors ns) ns ts nodes ↔ MirrorsList ns ts nodes := by
    induction ts generalizing nodes with
    | nil => rfl
    | cons t ts ih' =>
      obtain ⟨first, rest⟩ := List.forall_mem_cons.mp ih
      simp only [MirrorsListBy, MirrorsList, first, ih' rest]
  induction t generalizing node with
  | lambda => exact h.elim
  | staticMember | param | const => rfl
  | member target m ih =>
    simp only [LegibleBy] at h
    simp only [MirrorsBy, Mirrors, ih h.1]
  | call target m args ih ihs =>
    simp only [LegibleBy, legibleListBy_iff] at h
    have hargs := hlist fun a ha _ => ihs a ha (h.2.2.2.2 a ha)
    simp only [MirrorsBy, Mirrors, ih h.1, hargs]
  | staticCall m args ihs =>
    simp only [LegibleBy, legibleListBy_iff] at h
    have hargs := hlist fun a ha _ => ihs a ha (h.2.2.2 a ha)
    simp only [MirrorsBy, Mirrors, hargs]
  | binary op left right type ih ih' =>
    simp only [LegibleBy] at h
    simp only [MirrorsBy, Mirrors, ih h.1, ih' h.2.1]
  | unary op operand type ih =>
    simp only [LegibleBy] at h
    simp only [MirrorsBy, Mirrors, ih h.2.2]
  | cond test ifTrue ifFalse ih ih' ih'' =>
    simp only [LegibleBy] at h
    simp only [MirrorsBy, Mirrors, ih h.1, ih' h.2.1, ih'' h.2.2]
  | new c args ihs =>
    simp only [LegibleBy, legibleListBy_iff] at h
    have hargs := hlist fun a ha _ => ihs a ha (h.2 a ha)
    simp only [MirrorsBy, Mirrors, hargs]
  | array element items type ihs =>
    simp only [LegibleBy, legibleListBy_iff] at h
    have hitems := hlist fun a ha _ => ihs a ha (h.2 a ha)
    simp only [MirrorsBy, Mirrors, hitems]
  | cast operand type ih =>
    simp only [LegibleBy] at h
    simp only [MirrorsBy, Mirrors, ih h.2]
  | index target m args ih ihs =>
    simp only [LegibleBy, legibleListBy_iff] at h
    have hargs := hlist fun a ha _ => ihs a ha (h.2.2.2 a ha)
    simp only [MirrorsBy, Mirrors, ih h.2.1, hargs]

end Term

/-- A written lambda has the parts of a printed one. -/
def Function.Mirrors (ns : Namespaces) (f : Function) (written : Lambda) : Prop :=
  List.Forall₂ Param.Mirrors f.params written.params ∧ f.body.Mirrors ns written.body

end FatArrow
