import FatArrow.Syntax.ReadType

/-!
Reading expressions by the binding powers of their operators, and the three entries to reading: a
lambda, an expression, and a type.
-/

namespace FatArrow.Syntax.Reader

/-- Whether the parenthesis at the cursor opens the parameters of a lambda: an arrow follows its
closing partner. The tokens `n` places on and later are looked at, with `depth` parentheses
open. -/
def opensLambda (c : Cursor) : (fuel depth n : Nat) → Bool
  | 0, _, _ => false
  | fuel + 1, depth, n =>
    match (c.peekAt n).kind with
    | .leftParen => opensLambda c fuel (depth + 1) (n + 1)
    | .rightParen =>
      if depth = 1 then (c.peekAt (n + 1)).kind == .arrow
      else opensLambda c fuel (depth - 1) (n + 1)
    | .eof => false
    | _ => opensLambda c fuel depth (n + 1)

/-- What can follow a type in parentheses that converts. After a keyword a sign belongs to the
operand, after a name it is an operator. -/
def startsCastOperand (target : TypeNode) : TokenKind → Bool
  | .identifier | .typeKeyword | .leftParen | .newWord | .bang => true
  | .plus | .minus =>
    match target with
    | .predefined _ => true
    | _ => false
  | kind => kind.isLiteral

/-- The type of a cast in parentheses. -/
def castTarget (fuel : Nat) : Reader TypeNode := do
  let _ ← advance
  let target ← type fuel
  let _ ← expect .rightParen
  return target

/-- The opening parenthesis, the type and the closing parenthesis of a cast, if that is what the
text can mean. -/
def attemptCast (fuel : Nat) : Reader (Option TypeNode) :=
  attempt (castTarget fuel) fun target c => startsCastOperand target c.kind

/-- A parameter of a lambda, with or without a type. -/
def parameter (fuel : Nat) : Reader Parameter := do
  let c ← get
  let untyped :=
    c.kind = .identifier ∧ ((c.peekAt 1).kind = .comma ∨ (c.peekAt 1).kind = .rightParen)
  let written ← if untyped then pure none else some <$> type fuel
  let name ← expect .identifier
  return ⟨written, ⟨name.lexeme, name.span⟩, c.peek.span.merge name.span⟩

/-- A literal token as an expression. -/
def literalNode (token : Token) : Reader Node :=
  match literalOf token with
  | .ok value => return .literal value token.span
  | .error e => throw (.refused e)

mutual
/-- An expression whose operators bind at least as tightly as `power`. -/
def node : (fuel power : Nat) → Reader Node
  | 0, _ => throw .exhausted
  | fuel + 1, power => do
    let first ← operand fuel
    continued fuel power first

/-- What can follow an expression: member accesses, invocations, element accesses, a conditional,
and operators with their right operands. -/
def continued : (fuel power : Nat) → Node → Reader Node
  | 0, _, _ => throw .exhausted
  | fuel + 1, power, left => do
    let token := (← get).peek
    match token.kind with
    | .dot =>
      if postfixPower < power then return left
      let _ ← advance
      let name ← expect .identifier
      let args := (← attemptTypeArgs fuel).getD []
      continued fuel power
        (.member left ⟨name.lexeme, name.span⟩ args (left.span.merge (← get).previousSpan))
    | .leftParen =>
      if postfixPower < power then return left
      let args ← arguments fuel .leftParen .rightParen
      continued fuel power (.call left args (left.span.merge (← get).previousSpan))
    | .leftBracket =>
      if postfixPower < power then return left
      let args ← arguments fuel .leftBracket .rightBracket
      if args.isEmpty then refuse .emptyIndex (← get).previousSpan
      continued fuel power (.index left args (left.span.merge (← get).previousSpan))
    | .question =>
      if conditionalPower < power then return left
      let _ ← advance
      let ifTrue ← node fuel 0
      let _ ← expect .colon
      let ifFalse ← node fuel conditionalPower
      continued fuel power (.conditional left ifTrue ifFalse (left.span.merge ifFalse.span))
    | kind =>
      if kind.isUnsupportedOperator then refuse (.unsupportedOperator token.lexeme) token.span
      else
        match BinaryOperator.ofToken? kind with
        | none => return left
        | some op =>
          if op.power.1 < power then return left
          let _ ← advance
          let right ← node fuel op.power.2
          continued fuel power (.binary op left right (left.span.merge right.span))

/-- An expression without what may follow it. -/
def operand : Nat → Reader Node
  | 0 => throw .exhausted
  | fuel + 1 => do
    let c ← get
    let token := c.peek
    match token.kind with
    | .identifier =>
      let _ ← advance
      if (c.peekAt 1).kind = .arrow then
        let _ ← expect .arrow
        let body ← node fuel 0
        let name : Name := ⟨token.lexeme, token.span⟩
        return .lambda false [⟨none, name, token.span⟩] body (token.span.merge body.span)
      else
        let args := (← attemptTypeArgs fuel).getD []
        return .name ⟨token.lexeme, token.span⟩ args (token.span.merge (← get).previousSpan)
    | .typeKeyword =>
      let _ ← advance
      return .predefined ⟨token.lexeme, token.span⟩
    | .leftParen =>
      if opensLambda c (c.buffer.size + 1) 0 0 then parenthesizedLambda fuel
      else
        match ← attemptCast fuel with
        | some target =>
          let inner ← node fuel UnaryOperator.power
          return .cast target inner (token.span.merge inner.span)
        | none =>
          let _ ← advance
          let inner ← node fuel 0
          let close ← expect .rightParen
          return .paren inner (token.span.merge close.span)
    | .newWord => creation fuel
    | kind =>
      if kind.isLiteral then
        let _ ← advance
        literalNode token
      else
        match UnaryOperator.ofToken? kind with
        | some op =>
          let _ ← advance
          let inner ← node fuel UnaryOperator.power
          return .unary op inner (token.span.merge inner.span)
        | none =>
          if kind.isUnsupportedOperator then refuse (.unsupportedOperator token.lexeme) token.span
          else refuse (.expectedExpression kind) token.span

/-- A lambda with its parameters in parentheses. -/
def parenthesizedLambda : Nat → Reader Node
  | 0 => throw .exhausted
  | fuel + 1 => do
    let start ← expect .leftParen
    let params ← items (parameter fuel) .rightParen false fuel
    let _ ← expect .rightParen
    let _ ← expect .arrow
    let body ← node fuel 0
    return .lambda true params body (start.span.merge body.span)

/-- The creation of an object or an array. -/
def creation : Nat → Reader Node
  | 0 => throw .exhausted
  | fuel + 1 => do
    let start ← expect .newWord
    if ← eat .leftBracket then
      let _ ← expect .rightBracket
      let members ← initializer fuel
      return .newArray none members (start.span.merge (← get).previousSpan)
    else
      let created ← type fuel
      if ← check .leftParen then
        let args ← arguments fuel .leftParen .rightParen
        return .new created args (start.span.merge (← get).previousSpan)
      else
        match created with
        | .array element _ =>
          let members ← initializer fuel
          return .newArray (some element) members (start.span.merge (← get).previousSpan)
        | _ =>
          let found := (← get).peek
          if found.kind = .leftBracket then refuse .sizedArray found.span
          else refuse (.expectedArguments found.kind) found.span

/-- The items of an array between braces; a comma may follow the last one. -/
def initializer : Nat → Reader (List Node)
  | 0 => throw .exhausted
  | fuel + 1 => do
    let _ ← expect .leftBrace
    let members ← items (node fuel 0) .rightBrace true fuel
    let _ ← expect .rightBrace
    return members

/-- Arguments between an opening and a closing token. -/
def arguments : (fuel : Nat) → (opening closing : TokenKind) → Reader (List Node)
  | 0, _, _ => throw .exhausted
  | fuel + 1, opening, closing => do
    let _ ← expect opening
    let args ← items (node fuel 0) closing false fuel
    let _ ← expect closing
    return args
end

/-- The end of the text. -/
def atEnd : Reader Unit := do
  let token := (← get).peek
  if token.kind = .eof then return ()
  else if token.kind.isUnsupportedOperator then
    refuse (.unsupportedOperator token.lexeme) token.span
  else refuse (.trailingInput token.kind) token.span

/-- A lambda and the end of the text, with at most one semicolon between them. Parentheses around
the lambda do not count. -/
def wholeLambda (fuel : Nat) : Reader Lambda := do
  let read ← node fuel 0
  match read.bare with
  | .lambda parenthesized params body span =>
    let _ ← eat .semicolon
    atEnd
    return ⟨parenthesized, params, body, span⟩
  | other => refuse (.expectedLambda other.kindName) other.span

/-- An expression and the end of the text. -/
def wholeNode (fuel : Nat) : Reader Node := do
  let read ← node fuel 0
  atEnd
  return read

end Reader

/-- A bound on the depth of reading a buffer: no token takes more than eight steps down, and a
split token counts twice. -/
def readingDepth (tokens : List Token) : Nat := 16 * (tokens.length + 1)

/-- A whole text read by a step. -/
def read {α : Type} (step : Nat → Reader α) (text : String) : Except SyntaxError α :=
  match tokenize text with
  | .error e => .error e
  | .ok tokens =>
    match step (readingDepth tokens) (Cursor.ofTokens tokens) with
    | .ok a _ => .ok a
    | .error (.refused e) _ => .error e
    | .error .exhausted c => .error ⟨.expectedExpression c.kind, c.peek.span⟩

/-- The lambda that a text spells. -/
def parseLambda (text : String) : Except SyntaxError Lambda := read Reader.wholeLambda text

/-- The expression that a text spells. -/
def parseNode (text : String) : Except SyntaxError Node := read Reader.wholeNode text

/-- The type at the beginning of a text; what follows it is not looked at. -/
def parseType (text : String) : Except SyntaxError TypeNode := read Reader.type text

end FatArrow.Syntax
