import FatArrow.Text.Span

/-!
Tokens: the kinds of them, how each is named in messages, and which operators are read but not
supported.
-/

namespace FatArrow.Syntax

/-- The kinds of tokens. -/
inductive TokenKind where
  | intLiteral | realLiteral | stringLiteral | charLiteral
  | identifier
  | trueWord | falseWord | nullWord | newWord | typeKeyword
  | plus | minus | star | slash | percent | caret | bang | tilde | amp | pipe
  | ampAmp | pipePipe | equalEqual | bangEqual
  | less | lessEqual | greater | greaterEqual | lessLess | greaterGreater
  | plusPlus | minusMinus | equal | compoundAssign | arrow
  | question | questionQuestion | colon | dot
  | leftParen | rightParen | leftBracket | rightBracket | leftBrace | rightBrace
  | comma | semicolon
  | eof
deriving DecidableEq, Repr

namespace TokenKind

/-- Tokens that are an expression by themselves. -/
def isLiteral : TokenKind → Bool
  | .intLiteral | .realLiteral | .stringLiteral | .charLiteral
  | .trueWord | .falseWord | .nullWord => true
  | _ => false

/-- Operators that are read only to be refused by name. -/
def isUnsupportedOperator : TokenKind → Bool
  | .tilde | .amp | .pipe | .lessLess | .greaterGreater | .plusPlus | .minusMinus | .equal
  | .compoundAssign | .questionQuestion => true
  | _ => false

/-- How a kind of token is named in messages. -/
def description : TokenKind → String
  | .intLiteral => "integer literal"
  | .realLiteral => "real literal"
  | .stringLiteral => "string literal"
  | .charLiteral => "char literal"
  | .identifier => "identifier"
  | .trueWord => "'true'"
  | .falseWord => "'false'"
  | .nullWord => "'null'"
  | .newWord => "'new'"
  | .typeKeyword => "type keyword"
  | .plus => "'+'"
  | .minus => "'-'"
  | .star => "'*'"
  | .slash => "'/'"
  | .percent => "'%'"
  | .caret => "'^'"
  | .bang => "'!'"
  | .tilde => "'~'"
  | .amp => "'&'"
  | .pipe => "'|'"
  | .ampAmp => "'&&'"
  | .pipePipe => "'||'"
  | .equalEqual => "'=='"
  | .bangEqual => "'!='"
  | .less => "'<'"
  | .lessEqual => "'<='"
  | .greater => "'>'"
  | .greaterEqual => "'>='"
  | .lessLess => "'<<'"
  | .greaterGreater => "'>>'"
  | .plusPlus => "'++'"
  | .minusMinus => "'--'"
  | .equal => "'='"
  | .compoundAssign => "compound assignment"
  | .arrow => "'=>'"
  | .question => "'?'"
  | .questionQuestion => "'??'"
  | .colon => "':'"
  | .dot => "'.'"
  | .leftParen => "'('"
  | .rightParen => "')'"
  | .leftBracket => "'['"
  | .rightBracket => "']'"
  | .leftBrace => "'\x7b'"
  | .rightBrace => "'\x7d'"
  | .comma => "','"
  | .semicolon => "';'"
  | .eof => "end of input"

end TokenKind

/-- The words that name a type. -/
def typeKeywords : List String := [
  "bool", "byte", "sbyte", "char", "short", "ushort", "int", "uint", "long", "ulong", "float",
  "double", "decimal", "string", "object"]

/-- The kind of a word with a meaning of its own. -/
def keyword? (word : String) : Option TokenKind :=
  if word = "true" then some .trueWord
  else if word = "false" then some .falseWord
  else if word = "null" then some .nullWord
  else if word = "new" then some .newWord
  else if typeKeywords.contains word then some .typeKeyword
  else none

/-- A stretch of the text that the grammar takes as one. -/
structure Token where
  kind : TokenKind
  lexeme : String
  span : Span
deriving DecidableEq, Repr

end FatArrow.Syntax
