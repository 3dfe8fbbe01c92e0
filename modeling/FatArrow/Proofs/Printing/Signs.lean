import FatArrow.Binary.Format
import FatArrow.Proofs.Syntax.Cursor
import FatArrow.Proofs.Tree.Nodes
import FatArrow.Proofs.Types.Induction
import FatArrow.Tree.Printer

/-!
# Printed types and terms as signs

What is printed, sign by sign and without the blanks in between, and which types and terms are
legible: those whose names are names, and whose parts have a written form.
-/

namespace FatArrow

open Syntax

/-! ## 1. Signs -/

namespace Syntax

/-- A text that is scanned as a word. -/
def isWord (s : String) : Bool :=
  s.toList.head?.any Text.isNameStart && s.toList.tail.all Text.isNamePart

/-- A text that is scanned as an identifier. -/
def isName (s : String) : Bool := isWord s && (keyword? s).isNone

namespace Sign

/-- An identifier. -/
def name (s : String) : Sign := (.identifier, s)

/-- A `(`. -/
def leftParen : Sign := (.leftParen, "(")

/-- A `)`. -/
def rightParen : Sign := (.rightParen, ")")

/-- A `[`. -/
def leftBracket : Sign := (.leftBracket, "[")

/-- A `]`. -/
def rightBracket : Sign := (.rightBracket, "]")

/-- An opening brace. -/
def leftBrace : Sign := (.leftBrace, "\x7b")

/-- A closing brace. -/
def rightBrace : Sign := (.rightBrace, "\x7d")

/-- A `-`. -/
def minus : Sign := (.minus, "-")

/-- A `,`. -/
def comma : Sign := (.comma, ",")

/-- A `.`. -/
def dot : Sign := (.dot, ".")

/-- A `<`. -/
def less : Sign := (.less, "<")

/-- The word `new`. -/
def new : Sign := (.newWord, "new")

/-- A `?`. -/
def question : Sign := (.question, "?")

/-- A `:`. -/
def colon : Sign := (.colon, ":")

/-- An arrow. -/
def arrow : Sign := (.arrow, "=>")

/-- The end of the text. -/
def eof : Sign := (.eof, "")

end Sign

/-- Lists of signs with commas between them. -/
def commas : List (List Sign) → List Sign
  | [] => []
  | [ss] => ss
  | ss :: ts :: rest => ss ++ Sign.comma :: commas (ts :: rest)

/-- Names with dots between them. -/
def dots : List String → List Sign
  | [] => []
  | [s] => [Sign.name s]
  | s :: t :: rest => Sign.name s :: Sign.dot :: dots (t :: rest)

/-- Lists of signs in angle brackets, nothing if there are none. -/
def angled (lists : List (List Sign)) : List Sign :=
  if lists.isEmpty then [] else Sign.less :: (commas lists ++ [Sign.close])

end Syntax

/-! ## 2. Types -/

/-- The names between the dots of a printed type name. -/
def Namespaces.pieces (ns : Namespaces) (q : QualifiedName) : List String :=
  (if q.isGlobal || ns.isDefault q.namespaceText then [] else q.path) ++ [q.displayName]

theorem Namespaces.pieces_ne_nil (ns : Namespaces) (q : QualifiedName) : ns.pieces q ≠ [] := by
  unfold Namespaces.pieces
  exact List.append_ne_nil_of_right_ne_nil _ (List.cons_ne_nil _ _)

mutual
/-- A printed type. -/
def HostType.signs (ns : Namespaces) : HostType → List Sign
  | ⟨shape, args, nullable⟩ =>
    let base :=
      match shape with
      | .primitive p => [Sign.name p.hostName]
      | .array => (HostType.signsList ns args).headD [] ++ [Sign.leftBracket, Sign.rightBracket]
      | .param i => [Sign.name ("T" ++ toString i)]
      | .named q => dots (ns.pieces q) ++ angled (HostType.signsList ns args)
    if nullable then Sign.name "Nullable" :: angled [base] else base

/-- Printed types. -/
def HostType.signsList (ns : Namespaces) : List HostType → List (List Sign)
  | [] => []
  | t :: ts => HostType.signs ns t :: HostType.signsList ns ts
end

@[simp] theorem HostType.signsList_eq_map (ns : Namespaces) (ts : List HostType) :
    signsList ns ts = ts.map (signs ns) := by
  induction ts with
  | nil => rfl
  | cons t ts ih => rw [signsList, ih, List.map_cons]

mutual
/-- A type that can be read where it is printed: its names are names, and an array has one type of
items. -/
def HostType.Legible (ns : Namespaces) : HostType → Prop
  | ⟨.primitive _, args, _⟩ => args = []
  | ⟨.array, args, _⟩ => args.length = 1 ∧ HostType.LegibleList ns args
  | ⟨.param _, _, _⟩ => False
  | ⟨.named q, args, _⟩ => (∀ s ∈ ns.pieces q, isName s = true) ∧ HostType.LegibleList ns args

/-- Types that can be read where they are printed. -/
def HostType.LegibleList (ns : Namespaces) : List HostType → Prop
  | [] => True
  | t :: ts => HostType.Legible ns t ∧ HostType.LegibleList ns ts
end

@[simp] theorem HostType.legibleList_iff (ns : Namespaces) (ts : List HostType) :
    LegibleList ns ts ↔ ∀ t ∈ ts, Legible ns t := by
  induction ts with
  | nil => simp [LegibleList]
  | cons t ts ih => simp [LegibleList, ih]

/-- The mark of null does not count. -/
theorem HostType.legible_plain {ns : Namespaces} {shape : Shape} {args : List HostType}
    {nullable : Bool} (h : Legible ns ⟨shape, args, nullable⟩) : Legible ns ⟨shape, args, false⟩ := by
  cases shape <;> exact h

theorem HostType.legible_arg {ns : Namespaces} {t a : HostType} (h : t.Legible ns) (ha : a ∈ t.args) :
    a.Legible ns := by
  obtain ⟨shape, args, nullable⟩ := t
  cases shape with
  | primitive p =>
    have hargs : args = [] := h
    rw [hargs] at ha
    cases ha
  | param i => exact h.elim
  | array => exact (legibleList_iff ns args).mp h.2 a ha
  | named q => exact (legibleList_iff ns args).mp h.2 a ha

/-- A type whose members can be read behind its printed name: after the brackets of an array a point
is read as the end of an index. -/
def HostType.LegibleOwner (ns : Namespaces) (t : HostType) : Prop :=
  t.Legible ns ∧ (t.shape = .array → t.nullable = true)

/-! ## 3. Constants and operators -/

/-- What is printed after the digits of an integer, for the types whose literals need no cast. -/
def IntegerKind.suffix? : IntegerKind → Option String
  | .int32 => some ""
  | .int64 => some "L"
  | .uint32 => some "U"
  | .uint64 => some "UL"
  | .byte | .sbyte | .int16 | .uint16 => none

/-- A printed number of a kind: the minus sign stands for itself. -/
def Syntax.numberSigns (kind : TokenKind) (text : String) : List Sign :=
  match text.toList with
  | '-' :: rest => [Sign.minus, (kind, String.ofList rest)]
  | _ => [(kind, text)]

theorem Syntax.numberSigns_of_digit (kind : TokenKind) {text : String}
    (h : startsWith Text.isDigit text.toList = true) : numberSigns kind text = [(kind, text)] := by
  unfold numberSigns
  split
  next hminus =>
    rw [hminus] at h
    cases h
  next => rfl

theorem Syntax.numberSigns_minus (kind : TokenKind) (text : String) :
    numberSigns kind ("-" ++ text) = [Sign.minus, (kind, text)] := by
  have hminus : ("-" ++ text).toList = '-' :: text.toList := by
    rw [String.toList_append]
    rfl
  unfold numberSigns
  rw [hminus]
  show [Sign.minus, (kind, String.ofList text.toList)] = _
  rw [String.ofList_toList]

/-- A printed constant. Values without a literal are left out. -/
def Value.signs (v : Value) : List Sign :=
  match v with
  | .null => [(.nullWord, "null")]
  | .bool true => [(.trueWord, "true")]
  | .bool false => [(.falseWord, "false")]
  | .string _ => [(.stringLiteral, v.literalText)]
  | .char _ => [(.charLiteral, v.literalText)]
  | .single x =>
    match floatName? (widenFloat x) with
    | some name => [Sign.name "Single", Sign.dot, Sign.name name]
    | none => numberSigns .realLiteral v.literalText
  | .double x =>
    match floatName? x with
    | some name => [Sign.name "Double", Sign.dot, Sign.name name]
    | none => numberSigns .realLiteral v.literalText
  | .integer kind w =>
    let digits := toString (kind.denote w)
    match kind.suffix? with
    | some suffix => numberSigns .intLiteral (digits ++ suffix)
    | none =>
      Sign.leftParen :: Sign.leftParen :: Sign.name (Primitive.integer kind).hostName ::
        Sign.rightParen :: Sign.leftParen ::
          (numberSigns .intLiteral digits ++ [Sign.rightParen, Sign.rightParen])
  | _ => []

/-- A constant that can be read where it is printed: no number with a minus sign, and of the floats
those that are finite. -/
def Value.Legible : Value → Prop
  | .null | .bool _ | .string _ | .char _ => True
  | .integer kind w => 0 ≤ kind.denote w
  | .single x => ∃ m q, datumOf32 x = .finite false m q
  | .double x => ∃ m q, datumOf x = .finite false m q
  | _ => False

/-- Whether a minus sign is printed first. -/
def Value.isSigned (v : Value) : Bool := v.literalText.toList.head? == some '-'

/-- A printed operator between two operands. -/
def BinaryOp.sign (op : BinaryOp) : Sign :=
  (match op with
    | .add => .plus
    | .subtract => .minus
    | .multiply => .star
    | .divide => .slash
    | .modulo => .percent
    | .greaterThan => .greater
    | .greaterThanOrEqual => .greaterEqual
    | .lessThan => .less
    | .lessThanOrEqual => .lessEqual
    | .equal => .equalEqual
    | .notEqual => .bangEqual
    | .andAlso => .ampAmp
    | .orElse => .pipePipe
    | .exclusiveOr | .power | .arrayIndex => .caret, op.symbol)

/-- What is printed before an operand. -/
def UnaryOp.signsBefore : UnaryOp → List Sign
  | .negate => [(.minus, "-")]
  | .unaryPlus => [(.plus, "+")]
  | .not => [(.bang, "!")]
  | _ => []

/-- What is printed after an operand. -/
def UnaryOp.signsAfter : UnaryOp → List Sign
  | .arrayLength => [Sign.dot, Sign.name "Length"]
  | .postIncrement => [(.plusPlus, "++")]
  | .postDecrement => [(.minusMinus, "--")]
  | _ => []

/-! ## 4. Terms -/

namespace Term

/-- Arguments in parentheses. -/
def argsSigns (lists : List (List Sign)) : List Sign :=
  Sign.leftParen :: (commas lists ++ [Sign.rightParen])

/-- A method's name and its type arguments, and the arguments of a call of it. -/
def freeCallSigns (ns : Namespaces) (m : Method) (args : List (List Sign)) : List Sign :=
  Sign.name m.name :: (angled (m.typeArgs.map (HostType.signs ns)) ++ argsSigns args)

/-- The signs of a call that is printed after its receiver. -/
def callSigns (ns : Namespaces) (receiver : List Sign) (m : Method) (args : List (List Sign)) :
    List Sign :=
  receiver ++ Sign.dot :: freeCallSigns ns m args

/-- The signs of a call of a static method, behind its type if it has one. -/
def staticSigns (ns : Namespaces) (m : Method) (args : List (List Sign)) : List Sign :=
  match m.declaring with
  | some type => callSigns ns (type.signs ns) m args
  | none => freeCallSigns ns m args

/-- A call without a target is printed as one on its first argument. -/
def onFirst (m : Method) (args : List Term) : Bool := m.isSequenceOp && !args.isEmpty

mutual
/-- A printed term. Lambdas are left out. -/
def signs (ns : Namespaces) : Term → List Sign
  | .lambda _ _ => []
  | .staticMember m => m.declaring.signs ns ++ [Sign.dot, Sign.name m.name]
  | .param p => [Sign.name p.name]
  | .const value _ => value.signs
  | .member target m => signs ns target ++ [Sign.dot, Sign.name m.name]
  | .call target m args => callSigns ns (signs ns target) m (signsList ns args)
  | .staticCall m args =>
    if onFirst m args then callSigns ns ((signsList ns args).headD []) m (signsList ns args).tail
    else staticSigns ns m (signsList ns args)
  | .binary op left right _ =>
    if op = .arrayIndex then
      signs ns left ++ Sign.leftBracket :: (signs ns right ++ [Sign.rightBracket])
    else Sign.leftParen :: (signs ns left ++ op.sign :: (signs ns right ++ [Sign.rightParen]))
  | .unary op operand _ =>
    Sign.leftParen :: (op.signsBefore ++ Sign.leftParen ::
      (signs ns operand ++ Sign.rightParen :: (op.signsAfter ++ [Sign.rightParen])))
  | .cond test ifTrue ifFalse =>
    Sign.leftParen :: (signs ns test ++ Sign.question :: (signs ns ifTrue ++ Sign.colon ::
      (signs ns ifFalse ++ [Sign.rightParen])))
  | .new c args => Sign.new :: (c.declaring.signs ns ++ argsSigns (signsList ns args))
  | .array _ items type =>
    Sign.new :: (type.signs ns ++ Sign.leftBrace :: (commas (signsList ns items) ++
      [Sign.rightBrace]))
  | .cast operand type =>
    Sign.leftParen :: Sign.leftParen :: (type.signs ns ++ Sign.rightParen :: Sign.leftParen ::
      (signs ns operand ++ [Sign.rightParen, Sign.rightParen]))
  | .index target _ args =>
    signs ns target ++ Sign.leftBracket :: (commas (signsList ns args) ++ [Sign.rightBracket])

/-- Printed terms. -/
def signsList (ns : Namespaces) : List Term → List (List Sign)
  | [] => []
  | t :: ts => signs ns t :: signsList ns ts
end

@[simp] theorem signsList_eq_map (ns : Namespaces) (ts : List Term) :
    signsList ns ts = ts.map (signs ns) := by
  induction ts with
  | nil => rfl
  | cons t ts ih => rw [signsList, ih, List.map_cons]

theorem exists_first {m : Method} {args : List Term} (h : onFirst m args = true) :
    m.isSequenceOp = true ∧ ∃ first rest, args = first :: rest := by
  unfold onFirst at h
  rw [Bool.and_eq_true, Bool.not_eq_true', List.isEmpty_eq_false_iff] at h
  exact ⟨h.1, List.exists_cons_of_ne_nil h.2⟩

mutual
/-- A term that can be read where it is printed. Lambdas are left out. -/
def Legible (ns : Namespaces) : Term → Prop
  | .lambda _ _ => False
  | .staticMember m => m.declaring.LegibleOwner ns ∧ isName m.name = true
  | .param p => isName p.name = true
  | .const value _ => value.Legible
  | .member target m => Legible ns target ∧ isName m.name = true
  | .call target m args =>
    Legible ns target ∧ isName m.name = true ∧ (∀ t ∈ m.typeArgs, t.Legible ns) ∧
      LegibleList ns args
  | .staticCall m args =>
    (onFirst m args = false → ∀ type ∈ m.declaring, type.LegibleOwner ns) ∧
      isName m.name = true ∧ (∀ t ∈ m.typeArgs, t.Legible ns) ∧ LegibleList ns args
  | .binary _ left right _ => Legible ns left ∧ Legible ns right
  | .unary op operand _ => op ≠ .postIncrement ∧ op ≠ .postDecrement ∧ Legible ns operand
  | .cond test ifTrue ifFalse => Legible ns test ∧ Legible ns ifTrue ∧ Legible ns ifFalse
  | .new c args => c.declaring.Legible ns ∧ LegibleList ns args
  | .array _ items type =>
    (∃ item, type = .arrayOf item ∧ item.Legible ns) ∧ LegibleList ns items
  | .cast operand type => type.Legible ns ∧ Legible ns operand
  | .index target _ args => args ≠ [] ∧ Legible ns target ∧ LegibleList ns args

/-- Terms that can be read where they are printed. -/
def LegibleList (ns : Namespaces) : List Term → Prop
  | [] => True
  | t :: ts => Legible ns t ∧ LegibleList ns ts
end

@[simp] theorem legibleList_iff (ns : Namespaces) (ts : List Term) :
    LegibleList ns ts ↔ ∀ t ∈ ts, Legible ns t := by
  induction ts with
  | nil => simp [LegibleList]
  | cons t ts ih => simp [LegibleList, ih]

/-- Whether a minus sign is printed first. -/
def isSigned : Term → Bool
  | .const value _ => value.isSigned
  | _ => false

mutual
/-- A term that can be read where it is printed if its constants have a property. What a member, a
call or an element is printed behind is no number with a minus sign. Lambdas are left out. -/
def LegibleBy (C : Value → Prop) (ns : Namespaces) : Term → Prop
  | .lambda _ _ => False
  | .staticMember m => m.declaring.LegibleOwner ns ∧ isName m.name = true
  | .param p => isName p.name = true
  | .const value _ => C value
  | .member target m => LegibleBy C ns target ∧ target.isSigned = false ∧ isName m.name = true
  | .call target m args =>
    LegibleBy C ns target ∧ target.isSigned = false ∧ isName m.name = true ∧
      (∀ t ∈ m.typeArgs, t.Legible ns) ∧ LegibleListBy C ns args
  | .staticCall m args =>
    (if onFirst m args then ∀ first ∈ args.head?, first.isSigned = false
      else ∀ type ∈ m.declaring, type.LegibleOwner ns) ∧
      isName m.name = true ∧ (∀ t ∈ m.typeArgs, t.Legible ns) ∧ LegibleListBy C ns args
  | .binary op left right _ =>
    LegibleBy C ns left ∧ LegibleBy C ns right ∧ (op = .arrayIndex → left.isSigned = false)
  | .unary op operand _ => op ≠ .postIncrement ∧ op ≠ .postDecrement ∧ LegibleBy C ns operand
  | .cond test ifTrue ifFalse =>
    LegibleBy C ns test ∧ LegibleBy C ns ifTrue ∧ LegibleBy C ns ifFalse
  | .new c args => c.declaring.Legible ns ∧ LegibleListBy C ns args
  | .array _ items type =>
    (∃ item, type = .arrayOf item ∧ item.Legible ns) ∧ LegibleListBy C ns items
  | .cast operand type => type.Legible ns ∧ LegibleBy C ns operand
  | .index target _ args =>
    args ≠ [] ∧ LegibleBy C ns target ∧ target.isSigned = false ∧ LegibleListBy C ns args

/-- Terms that can be read where they are printed if their constants have a property. -/
def LegibleListBy (C : Value → Prop) (ns : Namespaces) : List Term → Prop
  | [] => True
  | t :: ts => LegibleBy C ns t ∧ LegibleListBy C ns ts
end

@[simp] theorem legibleListBy_iff (C : Value → Prop) (ns : Namespaces) (ts : List Term) :
    LegibleListBy C ns ts ↔ ∀ t ∈ ts, LegibleBy C ns t := by
  induction ts with
  | nil => simp [LegibleListBy]
  | cons t ts ih => simp [LegibleListBy, ih]

/-- Lambdas inside lambdas, and at their end a term that can be read where it is printed if its
constants have a property. -/
def CurriedBy (C : Value → Prop) (ns : Namespaces) : Term → Prop
  | .lambda params body => (∀ p ∈ params, isName p.name = true) ∧ CurriedBy C ns body
  | t => LegibleBy C ns t

/-- Printed parameters; a single one stands without parentheses. -/
def paramsSigns : List Param → List Sign
  | [p] => [Sign.name p.name]
  | ps => argsSigns (ps.map fun p => [Sign.name p.name])

/-- Printed lambdas inside lambdas. -/
def curriedSigns (ns : Namespaces) : Term → List Sign
  | .lambda params body => paramsSigns params ++ Sign.arrow :: curriedSigns ns body
  | t => t.signs ns

end Term

namespace Function

/-- A printed lambda, up to the end of the text. -/
def signs (f : Function) (ns : Namespaces) : List Sign := f.term.curriedSigns ns ++ [Sign.eof]

/-- A lambda that can be read where it is printed. -/
def Legible (f : Function) (ns : Namespaces) : Prop :=
  (∀ p ∈ f.params, isName p.name = true) ∧ f.body.Legible ns

end Function

end FatArrow
