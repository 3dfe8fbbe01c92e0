import FatArrow.Syntax.ReadNode
import Mathlib.Algebra.Group.Nat.Defs

/-!
# Reading with every check

A text is read through a buffer of tokens, by places in it, and the tokens are cut out of the text by
byte offsets.  Here the same is done with a check wherever it could go wrong: an index outside of the
buffer, a cut inside of a character or outside of the text, a counter that would leave its range, or a
depth beyond every bound.  A check that fails is a fault, and not a refusal of the text.

Lines and columns are only shown, and nothing is found through them, so they are not checked.
-/

namespace FatArrow.Syntax

/-- What must not happen while a text is read. -/
inductive Fault where
  /-- A token is read or written outside of the buffer. -/
  | outside
  /-- A text is cut inside of a character or outside of the text. -/
  | torn
  /-- A counter goes below zero, or an offset beyond 32 bits. -/
  | counter
  /-- The bound on the depth is used up. -/
  | endless
deriving DecidableEq, Repr

namespace Checked

/-! ## 1. Cutting a text into tokens -/

/-- The difference of two counters. -/
def minus (m n : Nat) : Except Fault Nat := if n ≤ m then .ok (m - n) else .error .counter

/-- The characters of a range of bytes. -/
def cut (first stop : Nat) (text : List Char) : Except Fault (List Char) :=
  match bytesBetween? first stop text with
  | some cs => .ok cs
  | none => .error .torn

/-- How many bytes characters take. -/
def size (cs : List Char) : Nat := (String.ofList cs).utf8ByteSize

/-- The place after a run of characters. -/
def after (p : Position) : List Char → Except Fault Position
  | [] => .ok p
  | c :: cs => if p.offset + c.utf8Size < 2 ^ 32 then after (p.next c) cs else .error .counter

/-- The characters between two places, and their span. -/
def between (text : List Char) (p q : Position) : Except Fault (String × Span) := do
  let lexeme ← cut p.offset q.offset text
  return (String.ofList lexeme, ⟨p.line, p.col, p.offset, ← minus q.offset p.offset⟩)

/-- The tokens of a text from a place on, behind which `rest` is left. -/
def tokensFrom (text : List Char) (p : Position) (rest : List Char) :
    Except Fault (Except SyntaxError (List Token)) :=
  match rest with
  | [] => do
    let (lexeme, span) ← between text p p
    return .ok [⟨.eof, lexeme, span⟩]
  | c :: cs =>
    match piece c cs with
    | .error bad => do
      let q ← after p (c :: cs.take bad.more)
      let (_, span) ← between text p q
      return .error ⟨bad.cause, span⟩
    | .ok piece => do
      let q ← after p (c :: cs.take piece.more)
      let (lexeme, span) ← between text p q
      match ← tokensFrom text q (cs.drop piece.more) with
      | .error e => return .error e
      | .ok tokens =>
        match piece.kind with
        | none => return .ok tokens
        | some kind => return .ok (⟨kind, lexeme, span⟩ :: tokens)
termination_by rest.length
decreasing_by
  simp only [List.length_drop, List.length_cons]
  omega

/-- The tokens of a text; the last one is its end. -/
def tokenize (text : String) : Except Fault (Except SyntaxError (List Token)) :=
  tokensFrom text.toList .start text.toList

/-! ## 2. Literals -/

/-- A text cut before its longest ending of characters that satisfy a test. -/
def splitEnd (test : Char → Bool) (cs : List Char) : Except Fault (List Char × List Char) := do
  let n := size (Syntax.splitEnd test cs).1
  return (← cut 0 n cs, ← cut n (size cs) cs)

/-- The value of an integer literal. -/
def intLiteral (lexeme : String) : Except Fault (Except Cause Literal) := do
  let (base, body) := baseOf lexeme.toList
  let isSuffix (c : Char) : Bool :=
    if base = 16 then ['u', 'U', 'l', 'L'].contains c else Text.isAsciiLetter c
  let (digits, letters) ← splitEnd isSuffix body
  return match intSuffix? letters with
    | none => .error (.integerSuffix lexeme)
    | some suffix =>
      match Decimal.natOfDigits? base (bare digits) with
      | some n => if n < UInt64.size then .ok (.int n suffix) else .error (.integerRange lexeme)
      | none => .error (.integerRange lexeme)

/-- The value of a real literal. -/
def realLiteral (lexeme : String) : Except Fault (Except Cause Literal) := do
  let (digits, letters) ← splitEnd Text.isAsciiLetter lexeme.toList
  return match realSuffix? letters with
    | none => .error (.realSuffix lexeme)
    | some suffix =>
      match Decimal.float? (bare digits) with
      | some x => if x.isFinite then .ok (.real x suffix) else .error (.realRange lexeme)
      | none => .error (.realRange lexeme)

/-- The characters between the quotes, cut off byte by byte. -/
def unquoted (cs : List Char) : Except Fault (List Char) := do
  let inner ← cut 1 (size cs) cs
  cut 0 (← minus (size inner) 1) inner

/-- The text of a string literal. -/
def stringLiteral (lexeme : String) : Except Fault (Except Cause Literal) :=
  match lexeme.toList with
  | '@' :: cs => do
    let inner ← unquoted cs
    return .ok (.string (String.ofList (undouble inner)))
  | cs => do
    let inner ← unquoted cs
    return (unescape inner).map fun text => .string (String.ofList text)

/-- The character of a character literal. -/
def charLiteral (lexeme : String) : Except Fault (Except Cause Literal) := do
  let inner ← unquoted lexeme.toList
  return match unescape inner with
    | .error cause => .error cause
    | .ok [c] => .ok (.char c)
    | .ok _ => .error .charLength

/-- What a literal token denotes. -/
def literalOf (token : Token) : Except Fault (Except SyntaxError Literal) := do
  let read ← match token.kind with
    | .trueWord => return .ok (.bool true)
    | .falseWord => return .ok (.bool false)
    | .nullWord => return .ok .null
    | .intLiteral => intLiteral token.lexeme
    | .realLiteral => realLiteral token.lexeme
    | .stringLiteral => stringLiteral token.lexeme
    | .charLiteral => charLiteral token.lexeme
    | other => return .error ⟨.expectedExpression other, token.span⟩
  return match read with
    | .ok literal => .ok literal
    | .error cause => .error ⟨cause, token.span⟩

/-! ## 3. Steps -/

/-- How a checked step fails: the text is refused, or a check fails. -/
inductive Stop where
  | refused (error : SyntaxError)
  | fault (fault : Fault)

/-- A step with checks. -/
abbrev Step := EStateM Stop Cursor

/-- The outcome of a check. -/
def verify {α : Type} : Except Fault α → Step α
  | .ok a => return a
  | .error fault => throw (.fault fault)

/-- Refuse the text. -/
def refuse {α : Type} (cause : Cause) (span : Span) : Step α := throw (.refused ⟨cause, span⟩)

/-- The token at an index of the buffer. -/
def tokenAt (i : Nat) : Step Token := do
  match (← get).buffer[i]? with
  | some token => return token
  | none => throw (.fault .outside)

/-- The token `n` places on; the last token stands for all places after it. -/
def peekAt (n : Nat) : Step Token := do
  let c ← get
  let last ← verify (minus c.buffer.size 1)
  tokenAt (min (c.position + n) last)

/-- The next token. -/
def peek : Step Token := peekAt 0

/-- A token is written at an index of the buffer. -/
def write (i : Nat) (token : Token) : Step Unit := do
  let c ← get
  if i < c.buffer.size then set { c with buffer := c.buffer.setIfInBounds i token }
  else throw (.fault .outside)

/-- The span of the token read last. -/
def previousSpan : Step Span := return (← get).previousSpan

/-- The least span that covers both. -/
def merge (a b : Span) : Step Span := do
  let first := if a.offset ≤ b.offset then a else b
  let len ← verify (minus (max a.stop b.stop) first.offset)
  return { first with len }

/-- Take the next token. -/
def advance : Step Token := do
  let token ← peek
  if token.kind = .eof then return token
  modify fun c => { c with position := c.position + 1 }
  return token

/-- Whether the next token has a kind. -/
def check (kind : TokenKind) : Step Bool := do
  return (← peek).kind == kind

/-- Take the next token if it has a kind. -/
def eat (kind : TokenKind) : Step Bool := do
  if ← check kind then
    let _ ← advance
    return true
  else return false

/-- Take the next token, which has to have a kind. -/
def expect (kind : TokenKind) : Step Token := do
  let next ← peek
  if next.kind = kind then advance
  else refuse (.expectedToken kind next.kind) next.span

/-- Take a `>`, if need be the first half of a `>>`, which is cut after its first byte. -/
def expectClosingAngle : Step Token := do
  let token ← peek
  if token.kind = .greaterGreater then
    let s := token.span
    let first ← verify (cut 0 1 token.lexeme.toList)
    let second ← verify (cut 1 token.lexeme.utf8ByteSize token.lexeme.toList)
    modify fun c => { c with splits := (c.position, token) :: c.splits }
    write (← get).position
      ⟨.greater, String.ofList second, ⟨s.line, s.col + 1, s.offset + 1, 1⟩⟩
    return ⟨.greater, String.ofList first, ⟨s.line, s.col, s.offset, 1⟩⟩
  else expect .greater

/-- The last splits are undone. -/
def undo : Nat → Step Unit
  | 0 => return ()
  | n + 1 => do
    let c ← get
    match c.splits with
    | [] => return ()
    | (i, token) :: splits =>
      set { c with splits }
      write i token
      undo n

/-- Go back to an earlier position and number of splits. -/
def rewind (position count : Nat) : Step Unit := do
  undo ((← get).splits.length - count)
  modify fun c => { c with position }

/-- The outcome of a step as a value. -/
def observe {α : Type} (s : Step α) : Step (Except Stop α) := fun c =>
  match s c with
  | .ok a c => .ok (.ok a) c
  | .error e c => .ok (.error e) c

/-- Try a step. Where it is refused, or its result is not accepted before the token it leads to, go
back to where it started. -/
def attempt {α : Type} (s : Step α) (accepts : α → TokenKind → Bool) : Step (Option α) := do
  let start ← get
  match ← observe s with
  | .ok a =>
    if accepts a (← peek).kind then return some a
    else
      rewind start.position start.splits.length
      return none
  | .error (.refused _) =>
    rewind start.position start.splits.length
    return none
  | .error (.fault fault) => throw (.fault fault)

/-- Further items, each after a comma. -/
def itemsAfter {α : Type} (item : Step α) (ends : TokenKind → Bool) : Nat → Step (List α)
  | 0 => throw (.fault .endless)
  | fuel + 1 => do
    if ← eat .comma then
      if ends (← peek).kind then return []
      let first ← item
      let rest ← itemsAfter item ends fuel
      return first :: rest
    else return []

/-- Items separated by commas, up to a closing token. -/
def items {α : Type} (item : Step α) (close : TokenKind) (trailingComma : Bool) (fuel : Nat) :
    Step (List α) := do
  if ← check close then return []
  let first ← item
  let rest ← itemsAfter item (fun kind => trailingComma && kind == close) fuel
  return first :: rest

/-! ## 4. Types -/

/-- Question marks and pairs of brackets after a type. -/
def typeEndings : Nat → TypeNode → Step TypeNode
  | 0, _ => throw (.fault .endless)
  | fuel + 1, type => do
    if (← peek).kind = .question then
      let last ← advance
      typeEndings fuel (.nullable type (← merge type.span last.span))
    else if (← peek).kind = .leftBracket ∧ (← peekAt 1).kind = .rightBracket then
      let _ ← advance
      let last ← advance
      typeEndings fuel (.array type (← merge type.span last.span))
    else return type

mutual
/-- A type. -/
def type : Nat → Step TypeNode
  | 0 => throw (.fault .endless)
  | fuel + 1 => do
    let base ← typeBase fuel
    typeEndings fuel base

/-- A type without what may follow it. -/
def typeBase : Nat → Step TypeNode
  | 0 => throw (.fault .endless)
  | fuel + 1 => do
    let token ← peek
    match token.kind with
    | .typeKeyword =>
      let _ ← advance
      return .predefined ⟨token.lexeme, token.span⟩
    | .identifier =>
      let first ← segment fuel
      let rest ← segments fuel
      return .named (first :: rest) (← merge token.span (← previousSpan))
    | other => refuse (.expectedType other) token.span

/-- Further segments of a dotted name. -/
def segments : Nat → Step (List Segment)
  | 0 => throw (.fault .endless)
  | fuel + 1 => do
    if (← peek).kind = .dot ∧ (← peekAt 1).kind = .identifier then
      let _ ← advance
      let first ← segment fuel
      let rest ← segments fuel
      return first :: rest
    else return []

/-- A name with its type arguments. -/
def segment : Nat → Step Segment
  | 0 => throw (.fault .endless)
  | fuel + 1 => do
    let token ← expect .identifier
    let args ← if ← check .less then typeArgs fuel else pure []
    return .mk ⟨token.lexeme, token.span⟩ args

/-- Types between angle brackets. -/
def typeArgs : Nat → Step (List TypeNode)
  | 0 => throw (.fault .endless)
  | fuel + 1 => do
    let _ ← expect .less
    let first ← type fuel
    let rest ← itemsAfter (type fuel) (fun _ => false) fuel
    let _ ← expectClosingAngle
    return first :: rest
end

/-- Type arguments after a name in an expression, if that is what the text can mean. -/
def attemptTypeArgs (fuel : Nat) : Step (Option (List TypeNode)) := do
  if ← check .less then
    attempt (typeArgs fuel) fun _ kind => Reader.followsTypeArgs kind
  else return none

/-! ## 5. Expressions -/

/-- Whether the parenthesis at the cursor opens the parameters of a lambda. The depth is counted down
at every closing parenthesis. -/
def opensLambda : (fuel depth n : Nat) → Step Bool
  | 0, _, _ => throw (.fault .endless)
  | fuel + 1, depth, n => do
    match (← peekAt n).kind with
    | .leftParen => opensLambda fuel (depth + 1) (n + 1)
    | .rightParen =>
      let depth ← verify (minus depth 1)
      if depth = 0 then return (← peekAt (n + 1)).kind == .arrow
      else opensLambda fuel depth (n + 1)
    | .eof => return false
    | _ => opensLambda fuel depth (n + 1)

/-- The type of a cast in parentheses. -/
def castTarget (fuel : Nat) : Step TypeNode := do
  let _ ← advance
  let target ← type fuel
  let _ ← expect .rightParen
  return target

/-- The opening parenthesis, the type and the closing parenthesis of a cast, if that is what the text
can mean. -/
def attemptCast (fuel : Nat) : Step (Option TypeNode) :=
  attempt (castTarget fuel) Reader.startsCastOperand

/-- A parameter of a lambda, with or without a type. -/
def parameter (fuel : Nat) : Step Parameter := do
  let start ← peek
  let next ← peekAt 1
  let untyped := start.kind = .identifier ∧ (next.kind = .comma ∨ next.kind = .rightParen)
  let written ← if untyped then pure none else some <$> type fuel
  let name ← expect .identifier
  return ⟨written, ⟨name.lexeme, name.span⟩, ← merge start.span name.span⟩

/-- A literal token as an expression. -/
def literalNode (token : Token) : Step Node := do
  match ← verify (literalOf token) with
  | .ok value => return .literal value token.span
  | .error e => throw (.refused e)

mutual
/-- An expression whose operators bind at least as tightly as `power`. -/
def node : (fuel power : Nat) → Step Node
  | 0, _ => throw (.fault .endless)
  | fuel + 1, power => do
    let first ← operand fuel
    continued fuel power first

/-- What can follow an expression. -/
def continued : (fuel power : Nat) → Node → Step Node
  | 0, _, _ => throw (.fault .endless)
  | fuel + 1, power, left => do
    let token ← peek
    match token.kind with
    | .dot =>
      if postfixPower < power then return left
      let _ ← advance
      let name ← expect .identifier
      let args := (← attemptTypeArgs fuel).getD []
      continued fuel power
        (.member left ⟨name.lexeme, name.span⟩ args (← merge left.span (← previousSpan)))
    | .leftParen =>
      if postfixPower < power then return left
      let args ← arguments fuel .leftParen .rightParen
      continued fuel power (.call left args (← merge left.span (← previousSpan)))
    | .leftBracket =>
      if postfixPower < power then return left
      let args ← arguments fuel .leftBracket .rightBracket
      if args.isEmpty then refuse .emptyIndex (← previousSpan)
      continued fuel power (.index left args (← merge left.span (← previousSpan)))
    | .question =>
      if conditionalPower < power then return left
      let _ ← advance
      let ifTrue ← node fuel 0
      let _ ← expect .colon
      let ifFalse ← node fuel conditionalPower
      continued fuel power (.conditional left ifTrue ifFalse (← merge left.span ifFalse.span))
    | kind =>
      if kind.isUnsupportedOperator then refuse (.unsupportedOperator token.lexeme) token.span
      else
        match BinaryOperator.ofToken? kind with
        | none => return left
        | some op =>
          if op.power.1 < power then return left
          let _ ← advance
          let right ← node fuel op.power.2
          continued fuel power (.binary op left right (← merge left.span right.span))

/-- An expression without what may follow it. -/
def operand : Nat → Step Node
  | 0 => throw (.fault .endless)
  | fuel + 1 => do
    let token ← peek
    match token.kind with
    | .identifier =>
      let second ← peekAt 1
      let _ ← advance
      if second.kind = .arrow then
        let _ ← expect .arrow
        let body ← node fuel 0
        let name : Name := ⟨token.lexeme, token.span⟩
        return .lambda false [⟨none, name, token.span⟩] body (← merge token.span body.span)
      else
        let args := (← attemptTypeArgs fuel).getD []
        return .name ⟨token.lexeme, token.span⟩ args (← merge token.span (← previousSpan))
    | .typeKeyword =>
      let _ ← advance
      return .predefined ⟨token.lexeme, token.span⟩
    | .leftParen =>
      if ← opensLambda ((← get).buffer.size + 1) 0 0 then parenthesizedLambda fuel
      else
        match ← attemptCast fuel with
        | some target =>
          let inner ← node fuel UnaryOperator.power
          return .cast target inner (← merge token.span inner.span)
        | none =>
          let _ ← advance
          let inner ← node fuel 0
          let close ← expect .rightParen
          return .paren inner (← merge token.span close.span)
    | .newWord => creation fuel
    | kind =>
      if kind.isLiteral then
        let _ ← advance
        literalNode token
      else
        match UnaryOperator.ofToken? kind with
        | some op =>
          let _ ← advance
          let inner ← node fuel UnaryOperator.power
          return .unary op inner (← merge token.span inner.span)
        | none =>
          if kind.isUnsupportedOperator then refuse (.unsupportedOperator token.lexeme) token.span
          else refuse (.expectedExpression kind) token.span

/-- A lambda with its parameters in parentheses. -/
def parenthesizedLambda : Nat → Step Node
  | 0 => throw (.fault .endless)
  | fuel + 1 => do
    let start ← expect .leftParen
    let params ← items (parameter fuel) .rightParen false fuel
    let _ ← expect .rightParen
    let _ ← expect .arrow
    let body ← node fuel 0
    return .lambda true params body (← merge start.span body.span)

/-- The creation of an object or an array. -/
def creation : Nat → Step Node
  | 0 => throw (.fault .endless)
  | fuel + 1 => do
    let start ← expect .newWord
    if ← eat .leftBracket then
      let _ ← expect .rightBracket
      let members ← initializer fuel
      return .newArray none members (← merge start.span (← previousSpan))
    else
      let created ← type fuel
      if ← check .leftParen then
        let args ← arguments fuel .leftParen .rightParen
        return .new created args (← merge start.span (← previousSpan))
      else
        match created with
        | .array element _ =>
          let members ← initializer fuel
          return .newArray (some element) members (← merge start.span (← previousSpan))
        | _ =>
          let found ← peek
          if found.kind = .leftBracket then refuse .sizedArray found.span
          else refuse (.expectedArguments found.kind) found.span

/-- The items of an array between braces; a comma may follow the last one. -/
def initializer : Nat → Step (List Node)
  | 0 => throw (.fault .endless)
  | fuel + 1 => do
    let _ ← expect .leftBrace
    let members ← items (node fuel 0) .rightBrace true fuel
    let _ ← expect .rightBrace
    return members

/-- Arguments between an opening and a closing token. -/
def arguments : (fuel : Nat) → (opening closing : TokenKind) → Step (List Node)
  | 0, _, _ => throw (.fault .endless)
  | fuel + 1, opening, closing => do
    let _ ← expect opening
    let args ← items (node fuel 0) closing false fuel
    let _ ← expect closing
    return args
end

/-! ## 6. Texts -/

/-- The end of the text. -/
def atEnd : Step Unit := do
  let token ← peek
  if token.kind = .eof then return ()
  else if token.kind.isUnsupportedOperator then
    refuse (.unsupportedOperator token.lexeme) token.span
  else refuse (.trailingInput token.kind) token.span

/-- A lambda and the end of the text, with at most one semicolon between them. -/
def wholeLambda (fuel : Nat) : Step Lambda := do
  let read ← node fuel 0
  match read.bare with
  | .lambda parenthesized params body span =>
    let _ ← eat .semicolon
    atEnd
    return ⟨parenthesized, params, body, span⟩
  | other => refuse (.expectedLambda other.kindName) other.span

/-- An expression and the end of the text. -/
def wholeNode (fuel : Nat) : Step Node := do
  let read ← node fuel 0
  atEnd
  return read

/-- A whole text read by a step. -/
def read {α : Type} (step : Nat → Step α) (text : String) :
    Except Fault (Except SyntaxError α) := do
  match ← tokenize text with
  | .error e => return .error e
  | .ok tokens =>
    match step (readingDepth tokens) (Cursor.ofTokens tokens) with
    | .ok a _ => return .ok a
    | .error (.refused e) _ => return .error e
    | .error (.fault fault) _ => .error fault

/-- The lambda that a text spells. -/
def parseLambda (text : String) : Except Fault (Except SyntaxError Lambda) := read wholeLambda text

/-- The expression that a text spells. -/
def parseNode (text : String) : Except Fault (Except SyntaxError Node) := read wholeNode text

/-- The type at the beginning of a text. -/
def parseType (text : String) : Except Fault (Except SyntaxError TypeNode) := read type text

end Checked

end FatArrow.Syntax
