import FatArrow.Syntax.Token

/-!
Why a text is refused. Each cause has a class, named first in its message, and mostly a detail.
-/

namespace FatArrow.Syntax

/-- The classes of causes. -/
inductive ErrorClass where
  | unexpectedChar | unterminatedString | unterminatedComment | invalidNumber | invalidEscape
  | expectedToken | expectedExpression | expectedType | expectedLambda | unsupportedOperator
  | trailingInput
deriving DecidableEq, Repr

/-- How a class of causes is named in messages. -/
def ErrorClass.title : ErrorClass → String
  | .unexpectedChar => "unexpected character"
  | .unterminatedString => "unterminated literal"
  | .unterminatedComment => "unterminated comment"
  | .invalidNumber => "invalid number"
  | .invalidEscape => "invalid escape sequence"
  | .expectedToken => "expected token"
  | .expectedExpression => "expected expression"
  | .expectedType => "expected type"
  | .expectedLambda => "expected lambda expression"
  | .unsupportedOperator => "unsupported operator"
  | .trailingInput => "unexpected trailing input"

/-- Why a text is refused. -/
inductive Cause where
  | unexpectedChar (c : Char)
  | charLength
  | openString
  | openChar
  | openComment
  | missingHexDigits
  | integerSuffix (lexeme : String)
  | integerRange (lexeme : String)
  | realSuffix (lexeme : String)
  | realRange (lexeme : String)
  | unicodeEscape (digits : String)
  | unknownEscape (c : Option Char)
  | expectedToken (wanted found : TokenKind)
  | expectedArguments (found : TokenKind)
  | sizedArray
  | expectedExpression (found : TokenKind)
  | emptyIndex
  | expectedType (found : TokenKind)
  | expectedLambda (found : String)
  | unsupportedOperator (lexeme : String)
  | trailingInput (found : TokenKind)
deriving DecidableEq, Repr

namespace Cause

/-- The class of a cause. -/
def errorClass : Cause → ErrorClass
  | .unexpectedChar _ | .charLength => .unexpectedChar
  | .openString | .openChar => .unterminatedString
  | .openComment => .unterminatedComment
  | .missingHexDigits | .integerSuffix _ | .integerRange _ | .realSuffix _ | .realRange _ =>
    .invalidNumber
  | .unicodeEscape _ | .unknownEscape _ => .invalidEscape
  | .expectedToken _ _ | .expectedArguments _ | .sizedArray => .expectedToken
  | .expectedExpression _ | .emptyIndex => .expectedExpression
  | .expectedType _ => .expectedType
  | .expectedLambda _ => .expectedLambda
  | .unsupportedOperator _ => .unsupportedOperator
  | .trailingInput _ => .trailingInput

/-- What a message says besides the class. -/
def detail : Cause → String
  | .unexpectedChar c => s!"unexpected character '{c}'"
  | .charLength => "char literal must hold exactly one character"
  | .openString => "missing closing '\"'"
  | .openChar => "missing closing '\\''"
  | .openComment => "missing '*/'"
  | .missingHexDigits => "expected hex digits after '0x'"
  | .integerSuffix lexeme => "invalid integer suffix: " ++ lexeme
  | .integerRange lexeme => "integer literal is out of range: " ++ lexeme
  | .realSuffix lexeme => "invalid real suffix: " ++ lexeme
  | .realRange lexeme => "real literal is out of range: " ++ lexeme
  | .unicodeEscape digits => "invalid unicode escape '\\u" ++ digits ++ "'"
  | .unknownEscape c => "unknown escape '\\" ++ (c.map Char.toString).getD "" ++ "'"
  | .expectedToken wanted found =>
    "expected " ++ wanted.description ++ ", found " ++ found.description
  | .expectedArguments found =>
    "expected '(' after type in object creation, found " ++ found.description
  | .sizedArray => "array sizes are not supported, use an initializer: new T[] \x7b ... \x7d"
  | .expectedExpression found => "expected expression, found " ++ found.description
  | .emptyIndex => "element access needs at least one index"
  | .expectedType found => "expected type, found " ++ found.description
  | .expectedLambda found => "found " ++ found
  | .unsupportedOperator lexeme => lexeme
  | .trailingInput found => "found " ++ found.description

end Cause

/-- A refusal: why, and where. -/
structure SyntaxError where
  cause : Cause
  span : Span
deriving DecidableEq, Repr

namespace SyntaxError

/-- The refusal in one line. -/
def text (e : SyntaxError) : String :=
  let head := e.cause.errorClass.title ++ " at " ++ e.span.text
  if e.cause.detail = "" then head else head ++ ": " ++ e.cause.detail

end SyntaxError

end FatArrow.Syntax
