import FatArrow.Syntax.Cursor

/-!
Reading types. The depth of reading is bounded by a number that falls at every step.
-/

namespace FatArrow.Syntax.Reader

/-- Question marks and pairs of brackets after a type. -/
def typeEndings : Nat → TypeNode → Reader TypeNode
  | 0, _ => throw .exhausted
  | fuel + 1, type => do
    let c ← get
    if c.kind = .question then
      let last ← advance
      typeEndings fuel (.nullable type (type.span.merge last.span))
    else if c.kind = .leftBracket ∧ (c.peekAt 1).kind = .rightBracket then
      let _ ← advance
      let last ← advance
      typeEndings fuel (.array type (type.span.merge last.span))
    else return type

mutual
/-- A type. -/
def type : Nat → Reader TypeNode
  | 0 => throw .exhausted
  | fuel + 1 => do
    let base ← typeBase fuel
    typeEndings fuel base

/-- A type without what may follow it. -/
def typeBase : Nat → Reader TypeNode
  | 0 => throw .exhausted
  | fuel + 1 => do
    let token := (← get).peek
    match token.kind with
    | .typeKeyword =>
      let _ ← advance
      return .predefined ⟨token.lexeme, token.span⟩
    | .identifier =>
      let first ← segment fuel
      let rest ← segments fuel
      return .named (first :: rest) (token.span.merge (← get).previousSpan)
    | other => refuse (.expectedType other) token.span

/-- Further segments of a dotted name. -/
def segments : Nat → Reader (List Segment)
  | 0 => throw .exhausted
  | fuel + 1 => do
    let c ← get
    if c.kind = .dot ∧ (c.peekAt 1).kind = .identifier then
      let _ ← advance
      let first ← segment fuel
      let rest ← segments fuel
      return first :: rest
    else return []

/-- A name with its type arguments. -/
def segment : Nat → Reader Segment
  | 0 => throw .exhausted
  | fuel + 1 => do
    let token ← expect .identifier
    let args ← if ← check .less then typeArgs fuel else pure []
    return .mk ⟨token.lexeme, token.span⟩ args

/-- Types between angle brackets. -/
def typeArgs : Nat → Reader (List TypeNode)
  | 0 => throw .exhausted
  | fuel + 1 => do
    let _ ← expect .less
    let first ← type fuel
    let rest ← itemsAfter (type fuel) (fun _ => false) fuel
    let _ ← expectClosingAngle
    return first :: rest
end

/-- What can follow type arguments in an expression; anything else makes the `<` a comparison. -/
def followsTypeArgs : TokenKind → Bool
  | .leftParen | .rightParen | .rightBracket | .rightBrace | .colon | .semicolon | .comma | .dot
  | .question | .equalEqual | .bangEqual | .eof => true
  | _ => false

/-- Type arguments after a name in an expression, if that is what the text can mean. -/
def attemptTypeArgs (fuel : Nat) : Reader (Option (List TypeNode)) := do
  if ← check .less then
    attempt (typeArgs fuel) fun _ c => followsTypeArgs c.kind
  else return none

end FatArrow.Syntax.Reader
