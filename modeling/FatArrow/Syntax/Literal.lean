import FatArrow.Decimal.Read
import FatArrow.Syntax.Error

/-!
Literals: what the lexeme of a literal token denotes.
-/

namespace FatArrow.Syntax

/-- What an integer literal says of its type. -/
inductive IntSuffix where
  | none | long | unsigned | unsignedLong
deriving DecidableEq, Repr

/-- What a real literal says of its type. -/
inductive RealSuffix where
  | none | float | double | decimal
deriving DecidableEq, Repr

/-- What a literal denotes. -/
inductive Literal where
  | int (value : Nat) (suffix : IntSuffix)
  | real (value : Float) (suffix : RealSuffix)
  | string (text : String)
  | char (c : Char)
  | bool (b : Bool)
  | null

/-! ## Numbers -/

/-- A text cut before its longest ending of characters that satisfy a test. -/
def splitEnd (p : Char → Bool) (cs : List Char) : List Char × List Char :=
  let ending := (cs.reverse.takeWhile p).reverse
  (cs.take (cs.length - ending.length), ending)

/-- An ASCII capital as its small letter. -/
def smallLetter (c : Char) : Char :=
  if 'A' ≤ c ∧ c ≤ 'Z' then Char.ofNat (c.toNat + 32) else c

/-- The suffix that letters of either case spell. -/
def intSuffix? (cs : List Char) : Option IntSuffix :=
  match String.ofList (cs.map smallLetter) with
  | "" => some .none
  | "l" => some .long
  | "u" => some .unsigned
  | "ul" | "lu" => some .unsignedLong
  | _ => none

/-- The suffix that a letter spells. -/
def realSuffix? (cs : List Char) : Option RealSuffix :=
  match String.ofList cs with
  | "" => some .none
  | "f" | "F" => some .float
  | "d" | "D" => some .double
  | "m" | "M" => some .decimal
  | _ => none

/-- The characters without underscores. -/
def bare (cs : List Char) : List Char := cs.filter (· != '_')

/-- The digits of a numeral after its mark, and their base. -/
def baseOf (cs : List Char) : Nat × List Char :=
  match cs with
  | '0' :: 'x' :: rest => (16, rest)
  | '0' :: 'X' :: rest => (16, rest)
  | cs => (10, cs)

/-- The value of an integer literal, at most `2^64 - 1`. -/
def intLiteral (lexeme : String) : Except Cause Literal :=
  let (base, body) := baseOf lexeme.toList
  let isSuffix (c : Char) : Bool :=
    if base = 16 then ['u', 'U', 'l', 'L'].contains c else Text.isAsciiLetter c
  let (digits, letters) := splitEnd isSuffix body
  match intSuffix? letters with
  | none => .error (.integerSuffix lexeme)
  | some suffix =>
    match Decimal.natOfDigits? base (bare digits) with
    | some n => if n < UInt64.size then .ok (.int n suffix) else .error (.integerRange lexeme)
    | none => .error (.integerRange lexeme)

/-- The value of a real literal, which has to be finite. -/
def realLiteral (lexeme : String) : Except Cause Literal :=
  let (digits, letters) := splitEnd Text.isAsciiLetter lexeme.toList
  match realSuffix? letters with
  | none => .error (.realSuffix lexeme)
  | some suffix =>
    match Decimal.float? (bare digits) with
    | some x => if x.isFinite then .ok (.real x suffix) else .error (.realRange lexeme)
    | none => .error (.realRange lexeme)

/-! ## Text -/

/-- The characters between the quotes. -/
def unquoted (cs : List Char) : List Char := (cs.drop 1).dropLast

/-- A quote written twice stands for one. -/
def undouble : List Char → List Char
  | '"' :: '"' :: cs => '"' :: undouble cs
  | c :: cs => c :: undouble cs
  | [] => []

/-- The character that a letter stands for after a backslash. -/
def escaped? : Char → Option Char
  | '\'' => some '\''
  | '"' => some '"'
  | '\\' => some '\\'
  | '0' => some '\x00'
  | 'a' => some '\x07'
  | 'b' => some '\x08'
  | 'f' => some '\x0c'
  | 'n' => some '\n'
  | 'r' => some '\r'
  | 't' => some '\t'
  | 'v' => some '\x0b'
  | _ => none

/-- The character with a number, if it is one. -/
def charOfNat? (n : Nat) : Option Char :=
  if h : n.isValidChar then some (Char.ofNatAux n h) else none

/-- The character of four hexadecimal digits, of which the first may be a plus sign. -/
def unicodeEscape? (digits : List Char) : Option Char :=
  if digits.length = 4 then (Decimal.natOfSigned? 16 digits).bind charOfNat? else none

/-- The text that the inside of a quoted literal denotes. -/
def unescape : List Char → Except Cause (List Char)
  | [] => .ok []
  | ['\\'] => .error (.unknownEscape none)
  | '\\' :: 'u' :: cs =>
    let digits := cs.take 4
    match unicodeEscape? digits with
    | some c => (unescape (cs.drop 4)).map (c :: ·)
    | none => .error (.unicodeEscape (String.ofList digits))
  | '\\' :: c :: cs =>
    match escaped? c with
    | some e => (unescape cs).map (e :: ·)
    | none => .error (.unknownEscape (some c))
  | c :: cs => (unescape cs).map (c :: ·)
termination_by cs => cs.length

/-- The text of a string literal, verbatim or with escapes. -/
def stringLiteral (lexeme : String) : Except Cause Literal :=
  match lexeme.toList with
  | '@' :: cs => .ok (.string (String.ofList (undouble (unquoted cs))))
  | cs => (unescape (unquoted cs)).map fun text => .string (String.ofList text)

/-- The character of a character literal. -/
def charLiteral (lexeme : String) : Except Cause Literal :=
  match unescape (unquoted lexeme.toList) with
  | .error cause => .error cause
  | .ok [c] => .ok (.char c)
  | .ok _ => .error .charLength

/-- What a literal token denotes. -/
def literalOf (token : Token) : Except SyntaxError Literal :=
  let read : Except Cause Literal :=
    match token.kind with
    | .trueWord => .ok (.bool true)
    | .falseWord => .ok (.bool false)
    | .nullWord => .ok .null
    | .intLiteral => intLiteral token.lexeme
    | .realLiteral => realLiteral token.lexeme
    | .stringLiteral => stringLiteral token.lexeme
    | .charLiteral => charLiteral token.lexeme
    | other => .error (.expectedExpression other)
  match read with
  | .ok literal => .ok literal
  | .error cause => .error ⟨cause, token.span⟩

end FatArrow.Syntax
