import FatArrow.Syntax.Error
import FatArrow.Text.Letter

/-!
Cutting a text into tokens. The text is read piece by piece; a piece is a blank, a comment or a
token, and takes at least one character. A piece is found from its first character `c` and the
characters `cs` after it, and says how many of `cs` belong to it.
-/

namespace FatArrow.Syntax

open Text

/-- A piece of text: a token of a kind, or a gap, and how many characters it takes after its
first one. -/
structure Piece where
  kind : Option TokenKind
  more : Nat
deriving DecidableEq, Repr

/-- A piece that cannot be read, and how many characters were taken after its first one. -/
structure BadPiece where
  cause : Cause
  more : Nat
deriving DecidableEq, Repr

/-! ## Quoted pieces -/

/-- The length of the rest of a literal after its opening quote, up to and with the closing one. A
backslash takes the next character with it; a line end, or the end of the text, leaves the literal
open, and then the length is that of what was read. -/
def quoted (quote : Char) : List Char → Nat × Bool
  | [] => (0, false)
  | ['\\'] => (1, false)
  | '\\' :: _ :: cs =>
    let (n, closed) := quoted quote cs
    (n + 2, closed)
  | c :: cs =>
    if c = '\n' ∨ c = '\r' then (0, false)
    else if c = quote then (1, true)
    else
      let (n, closed) := quoted quote cs
      (n + 1, closed)

/-- The length of the rest of a verbatim literal, in which a quote is written twice. -/
def verbatim : List Char → Nat × Bool
  | [] => (0, false)
  | '"' :: '"' :: cs =>
    let (n, closed) := verbatim cs
    (n + 2, closed)
  | '"' :: _ => (1, true)
  | _ :: cs =>
    let (n, closed) := verbatim cs
    (n + 1, closed)

/-- The length of the rest of a comment after its opening mark. -/
def comment : List Char → Nat × Bool
  | [] => (0, false)
  | '*' :: '/' :: _ => (2, true)
  | _ :: cs =>
    let (n, closed) := comment cs
    (n + 1, closed)

/-! ## Numbers -/

/-- How many characters at the front satisfy a test. -/
def run (p : Char → Bool) (cs : List Char) : Nat := (cs.takeWhile p).length

/-- The length of a run of digits and underscores. -/
def digitRun (cs : List Char) : Nat := run (fun c => isDigit c || c == '_') cs

/-- Whether a character at the front satisfies a test. -/
def startsWith (p : Char → Bool) (cs : List Char) : Bool := cs.head?.any p

/-- The length of a point and the digits after it, zero where there is no digit. -/
def fractionRun : List Char → Nat
  | '.' :: cs => if startsWith isDigit cs then 1 + digitRun cs else 0
  | _ => 0

/-- The length of an exponent, zero where it has no digit. -/
def exponentRun : List Char → Nat
  | c :: cs =>
    if c = 'e' ∨ c = 'E' then
      let sign := if startsWith (fun c => c == '+' || c == '-') cs then 1 else 0
      if startsWith isDigit (cs.drop sign) then 1 + sign + digitRun (cs.drop sign) else 0
    else 0
  | [] => 0

/-- A letter that makes a number a real one. -/
def isRealSuffix (c : Char) : Bool := ['f', 'F', 'd', 'D', 'm', 'M'].contains c

/-- A letter of the suffixes of integers. -/
def isIntSuffix (c : Char) : Bool := ['u', 'U', 'l', 'L'].contains c

/-- The kind and length of a decimal number. -/
def decimalNumber (cs : List Char) : TokenKind × Nat :=
  let whole := digitRun cs
  let fraction := fractionRun (cs.drop whole)
  let exponent := exponentRun (cs.drop (whole + fraction))
  let size := whole + fraction + exponent
  let suffix := (cs.drop size).takeWhile isAsciiLetter
  let real := fraction > 0 || exponent > 0 || suffix.any isRealSuffix
  (if real then .realLiteral else .intLiteral, size + suffix.length)

/-- The number that starts with `c`. -/
def number (c : Char) (cs : List Char) : Except BadPiece Piece :=
  let hexadecimal := c == '0' && startsWith (fun c => c == 'x' || c == 'X') cs
  if hexadecimal then
    let digits := run (fun c => isHexDigit c || c == '_') (cs.drop 1)
    if digits = 0 then .error ⟨.missingHexDigits, 1⟩
    else .ok ⟨some .intLiteral, 1 + digits + run isIntSuffix (cs.drop (1 + digits))⟩
  else
    let (kind, size) := decimalNumber (c :: cs)
    .ok ⟨some kind, size - 1⟩

/-! ## Operators -/

/-- The operator of two characters. -/
def twoCharOperator? : Char → Char → Option TokenKind
  | '?', '?' => some .questionQuestion
  | '+', '+' => some .plusPlus
  | '-', '-' => some .minusMinus
  | '=', '=' => some .equalEqual
  | '=', '>' => some .arrow
  | '!', '=' => some .bangEqual
  | '<', '=' => some .lessEqual
  | '<', '<' => some .lessLess
  | '>', '=' => some .greaterEqual
  | '>', '>' => some .greaterGreater
  | '&', '&' => some .ampAmp
  | '|', '|' => some .pipePipe
  | c, '=' => if ['+', '-', '*', '/', '%', '^', '&', '|'].contains c then some .compoundAssign
    else none
  | _, _ => none

/-- The operator or delimiter of one character. -/
def oneCharOperator? : Char → Option TokenKind
  | '(' => some .leftParen
  | ')' => some .rightParen
  | '[' => some .leftBracket
  | ']' => some .rightBracket
  | '\x7b' => some .leftBrace
  | '\x7d' => some .rightBrace
  | ',' => some .comma
  | ';' => some .semicolon
  | ':' => some .colon
  | '.' => some .dot
  | '~' => some .tilde
  | '?' => some .question
  | '+' => some .plus
  | '-' => some .minus
  | '*' => some .star
  | '/' => some .slash
  | '%' => some .percent
  | '^' => some .caret
  | '=' => some .equal
  | '!' => some .bang
  | '<' => some .less
  | '>' => some .greater
  | '&' => some .amp
  | '|' => some .pipe
  | _ => none

/-- The operator that starts with `c`; the longer one is preferred. -/
def operator (c : Char) (cs : List Char) : Except BadPiece Piece :=
  match cs.head?.bind (twoCharOperator? c) with
  | some kind => .ok ⟨some kind, 1⟩
  | none =>
    match oneCharOperator? c with
    | some kind => .ok ⟨some kind, 0⟩
    | none => .error ⟨.unexpectedChar c, 0⟩

/-! ## Pieces -/

/-- A literal that ends where `scan` says, after `skip` further characters of its opening mark. -/
def literalPiece (kind : TokenKind) (cause : Cause) (skip : Nat) (scanned : Nat × Bool) :
    Except BadPiece Piece :=
  if scanned.2 then .ok ⟨some kind, skip + scanned.1⟩ else .error ⟨cause, skip + scanned.1⟩

/-- The word that starts with `c`. -/
def word (c : Char) (cs : List Char) : Piece :=
  let more := cs.takeWhile isNamePart
  ⟨some ((keyword? (String.ofList (c :: more))).getD .identifier), more.length⟩

/-- The piece of text that starts with `c`. -/
def piece (c : Char) (cs : List Char) : Except BadPiece Piece :=
  if isBlank c then .ok ⟨none, 0⟩
  else if c = '/' ∧ cs.head? = some '/' then .ok ⟨none, 1 + run (· != '\n') (cs.drop 1)⟩
  else if c = '/' ∧ cs.head? = some '*' then
    let (n, closed) := comment (cs.drop 1)
    if closed then .ok ⟨none, 1 + n⟩ else .error ⟨.openComment, 1 + n⟩
  else if c = '"' then literalPiece .stringLiteral .openString 0 (quoted '"' cs)
  else if c = '@' ∧ cs.head? = some '"' then
    literalPiece .stringLiteral .openString 1 (verbatim (cs.drop 1))
  else if c = '\'' then literalPiece .charLiteral .openChar 0 (quoted '\'' cs)
  else if isDigit c || (c == '.' && startsWith isDigit cs) then number c cs
  else if isNameStart c then .ok (word c cs)
  else operator c cs

/-- The tokens of a text that starts at a place, with the token of its end. -/
def tokensFrom (p : Position) (text : List Char) : Except SyntaxError (List Token) :=
  match text with
  | [] => .ok [⟨.eof, "", p.spanTo p⟩]
  | c :: cs =>
    match piece c cs with
    | .error bad => .error ⟨bad.cause, p.spanTo (p.after (c :: cs.take bad.more))⟩
    | .ok piece =>
      let taken := c :: cs.take piece.more
      let q := p.after taken
      match tokensFrom q (cs.drop piece.more) with
      | .error e => .error e
      | .ok tokens =>
        match piece.kind with
        | none => .ok tokens
        | some kind => .ok (⟨kind, String.ofList taken, p.spanTo q⟩ :: tokens)
termination_by text.length
decreasing_by
  simp only [List.length_drop, List.length_cons]
  omega

/-- The tokens of a text; the last one is its end. -/
def tokenize (text : String) : Except SyntaxError (List Token) :=
  tokensFrom .start text.toList

end FatArrow.Syntax
