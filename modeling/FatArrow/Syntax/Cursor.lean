import FatArrow.Syntax.Node
import FatArrow.Syntax.Scan

/-!
Reading a buffer of tokens. A cursor has a position in the buffer and a log of the tokens that were
split in place: a `>>` that closes two lists of type arguments is read as one `>` and then another.
Going back to an earlier point undoes the splits made since.
-/

namespace FatArrow.Syntax

/-- A place in a buffer of tokens, and the splits made so far, the last one first. -/
structure Cursor where
  buffer : Array Token
  position : Nat
  splits : List (Nat × Token)
deriving DecidableEq, Repr

/-- How reading fails: the text is refused, or the bound on the depth of reading is used up. -/
inductive Failure where
  | refused (error : SyntaxError)
  | exhausted
deriving DecidableEq, Repr

/-- A step that reads tokens. A failure leaves the cursor where it occurred. -/
abbrev Reader := EStateM Failure Cursor

/-- The token that is read past the end of a buffer without one. -/
def Token.none : Token := ⟨.eof, "", Span.zero⟩

namespace Cursor

/-- A cursor at the first token. -/
def ofTokens (tokens : List Token) : Cursor := ⟨tokens.toArray, 0, []⟩

/-- The token `n` places on; the last token stands for all places after it. -/
def peekAt (c : Cursor) (n : Nat) : Token :=
  (c.buffer[min (c.position + n) (c.buffer.size - 1)]?).getD Token.none

/-- The next token. -/
def peek (c : Cursor) : Token := c.peekAt 0

/-- The kind of the next token. -/
def kind (c : Cursor) : TokenKind := c.peek.kind

/-- The span of the token read last. -/
def previousSpan (c : Cursor) : Span :=
  if c.position = 0 then Span.zero
  else ((c.buffer[c.position - 1]?).map (·.span)).getD Span.zero

/-- The cursor after the next token; the end of the text is not passed. -/
def skip (c : Cursor) : Cursor :=
  if c.kind = .eof then c else { c with position := c.position + 1 }

/-- The two halves of a `>>`. -/
def halves (token : Token) : Token × Token :=
  let s := token.span
  (⟨.greater, ">", ⟨s.line, s.col, s.offset, 1⟩⟩,
   ⟨.greater, ">", ⟨s.line, s.col + 1, s.offset + 1, 1⟩⟩)

/-- The cursor after the first half of a `>>`, which leaves the second half to be read. -/
def split (c : Cursor) : Cursor :=
  { c with
    buffer := c.buffer.setIfInBounds c.position (halves c.peek).2
    splits := (c.position, c.peek) :: c.splits }

/-- The buffer with the `n` last splits undone, and the splits that remain. -/
def undo (buffer : Array Token) : Nat → List (Nat × Token) → Array Token × List (Nat × Token)
  | 0, splits => (buffer, splits)
  | _ + 1, [] => (buffer, [])
  | n + 1, (i, token) :: splits => undo (buffer.setIfInBounds i token) n splits

/-- The cursor brought back to an earlier position and number of splits. -/
def rewind (c : Cursor) (position count : Nat) : Cursor :=
  let (buffer, splits) := undo c.buffer (c.splits.length - count) c.splits
  ⟨buffer, position, splits⟩

end Cursor

namespace Reader

/-- Refuse the text. -/
def refuse {α : Type} (cause : Cause) (span : Span) : Reader α :=
  throw (.refused ⟨cause, span⟩)

/-- Take the next token. -/
def advance : Reader Token := do
  let c ← get
  set c.skip
  return c.peek

/-- Whether the next token has a kind. -/
def check (kind : TokenKind) : Reader Bool := do
  return (← get).kind == kind

/-- Take the next token if it has a kind. -/
def eat (kind : TokenKind) : Reader Bool := do
  if ← check kind then
    let _ ← advance
    return true
  else return false

/-- Take the next token, which has to have a kind. -/
def expect (kind : TokenKind) : Reader Token := do
  let next := (← get).peek
  if next.kind = kind then advance
  else refuse (.expectedToken kind next.kind) next.span

/-- Take a `>`, if need be the first half of a `>>`. -/
def expectClosingAngle : Reader Token := do
  let c ← get
  if c.kind = .greaterGreater then
    set c.split
    return (Cursor.halves c.peek).1
  else expect .greater

/-- The outcome of a step as a value. -/
def observe {α : Type} (r : Reader α) : Reader (Except Failure α) := fun c =>
  match r c with
  | .ok a c => .ok (.ok a) c
  | .error e c => .ok (.error e) c

/-- Try a step. Where it is refused, or its result is not accepted at the place it leads to, the
cursor goes back to where it was. -/
def attempt {α : Type} (r : Reader α) (accepts : α → Cursor → Bool) : Reader (Option α) := do
  let start ← get
  match ← observe r with
  | .ok a =>
    if accepts a (← get) then return some a
    else
      modify fun c => c.rewind start.position start.splits.length
      return none
  | .error (.refused _) =>
    modify fun c => c.rewind start.position start.splits.length
    return none
  | .error .exhausted => throw .exhausted

/-- Further items, each after a comma. An item is not read where the token after its comma ends
the list. -/
def itemsAfter {α : Type} (item : Reader α) (ends : TokenKind → Bool) : Nat → Reader (List α)
  | 0 => throw .exhausted
  | fuel + 1 => do
    if ← eat .comma then
      if ends (← get).kind then return []
      let first ← item
      let rest ← itemsAfter item ends fuel
      return first :: rest
    else return []

/-- Items separated by commas, up to a closing token; there may be none. -/
def items {α : Type} (item : Reader α) (close : TokenKind) (trailingComma : Bool) (fuel : Nat) :
    Reader (List α) := do
  if ← check close then return []
  let first ← item
  let rest ← itemsAfter item (fun kind => trailingComma && kind == close) fuel
  return first :: rest

end Reader

end FatArrow.Syntax
