import FatArrow.Syntax.Literal

/-!
Syntax trees: types, operators, expressions and lambdas as they are written. Every node has the
span of its text.
-/

namespace FatArrow.Syntax

/-- A name where it is written. -/
structure Name where
  text : String
  span : Span
deriving DecidableEq, Repr

mutual
/-- A type as it is written. -/
inductive TypeNode where
  | predefined (keyword : Name)
  | named (segments : List Segment) (span : Span)
  | array (element : TypeNode) (span : Span)
  | nullable (inner : TypeNode) (span : Span)

/-- A name between the dots of a type, with its type arguments. -/
inductive Segment where
  | mk (name : Name) (args : List TypeNode)
end

/-- The name of a segment. -/
def Segment.name : Segment → Name
  | .mk name _ => name

/-- The type arguments of a segment. -/
def Segment.args : Segment → List TypeNode
  | .mk _ args => args

namespace TypeNode

/-- Where the type is written. -/
def span : TypeNode → Span
  | .predefined keyword => keyword.span
  | .named _ span => span
  | .array _ span => span
  | .nullable _ span => span

/-- The segments' names joined by dots. -/
def dottedName (segments : List Segment) : String :=
  ".".intercalate (segments.map (·.name.text))

/-- The type arguments of the last segment. -/
def lastArgs (segments : List Segment) : List TypeNode :=
  (segments.getLast?.map Segment.args).getD []

mutual
/-- The type as it is written, without blanks but those after commas. -/
def text : TypeNode → String
  | .predefined keyword => keyword.text
  | .named segments _ => segmentsText segments
  | .array element _ => element.text ++ "[]"
  | .nullable inner _ => inner.text ++ "?"

/-- Segments joined by dots. -/
def segmentsText : List Segment → String
  | [] => ""
  | [s] => segmentText s
  | s :: rest => segmentText s ++ "." ++ segmentsText rest

/-- A name with its type arguments. -/
def segmentText : Segment → String
  | .mk name [] => name.text
  | .mk name (a :: args) => name.text ++ "<" ++ a.text ++ argsText args ++ ">"

/-- Further type arguments, each after a comma. -/
def argsText : List TypeNode → String
  | [] => ""
  | a :: args => ", " ++ a.text ++ argsText args
end

end TypeNode

/-- The operators between two operands. -/
inductive BinaryOperator where
  | or | and | caret | equal | notEqual | less | lessEqual | greater | greaterEqual
  | add | subtract | multiply | divide | modulo
deriving DecidableEq, Repr

namespace BinaryOperator

/-- How tightly the operator binds its left and its right operand. -/
def power : BinaryOperator → Nat × Nat
  | .or => (3, 4)
  | .and => (5, 6)
  | .caret => (7, 8)
  | .equal | .notEqual => (9, 10)
  | .less | .lessEqual | .greater | .greaterEqual => (11, 12)
  | .add | .subtract => (13, 14)
  | .multiply | .divide | .modulo => (15, 16)

/-- The operator that a token stands for. -/
def ofToken? : TokenKind → Option BinaryOperator
  | .pipePipe => some .or
  | .ampAmp => some .and
  | .caret => some .caret
  | .equalEqual => some .equal
  | .bangEqual => some .notEqual
  | .less => some .less
  | .lessEqual => some .lessEqual
  | .greater => some .greater
  | .greaterEqual => some .greaterEqual
  | .plus => some .add
  | .minus => some .subtract
  | .star => some .multiply
  | .slash => some .divide
  | .percent => some .modulo
  | _ => none

/-- The operator as it is written. -/
def symbol : BinaryOperator → String
  | .or => "||"
  | .and => "&&"
  | .caret => "^"
  | .equal => "=="
  | .notEqual => "!="
  | .less => "<"
  | .lessEqual => "<="
  | .greater => ">"
  | .greaterEqual => ">="
  | .add => "+"
  | .subtract => "-"
  | .multiply => "*"
  | .divide => "/"
  | .modulo => "%"

/-- One of the six operators that compare. -/
def isComparison : BinaryOperator → Bool
  | .equal | .notEqual | .less | .lessEqual | .greater | .greaterEqual => true
  | _ => false

end BinaryOperator

/-- The operators before an operand. -/
inductive UnaryOperator where
  | negate | plus | not
deriving DecidableEq, Repr

namespace UnaryOperator

/-- How tightly every operator before an operand binds it. -/
def power : Nat := 17

/-- The operator that a token stands for. -/
def ofToken? : TokenKind → Option UnaryOperator
  | .minus => some .negate
  | .plus => some .plus
  | .bang => some .not
  | _ => none

/-- The operator as it is written. -/
def symbol : UnaryOperator → String
  | .negate => "-"
  | .plus => "+"
  | .not => "!"

end UnaryOperator

/-- How tightly a conditional binds its condition and its last branch. -/
def conditionalPower : Nat := 2

/-- How tightly a member access, an invocation and an element access bind what they follow. -/
def postfixPower : Nat := 19

/-- A parameter of a lambda as it is written. -/
structure Parameter where
  type : Option TypeNode
  name : Name
  span : Span

/-- An expression as it is written. -/
inductive Node where
  | literal (value : Literal) (span : Span)
  | name (name : Name) (typeArgs : List TypeNode) (span : Span)
  | predefined (keyword : Name)
  | binary (op : BinaryOperator) (left right : Node) (span : Span)
  | unary (op : UnaryOperator) (operand : Node) (span : Span)
  | conditional (test ifTrue ifFalse : Node) (span : Span)
  | call (callee : Node) (args : List Node) (span : Span)
  | index (object : Node) (args : List Node) (span : Span)
  | member (object : Node) (member : Name) (typeArgs : List TypeNode) (span : Span)
  | cast (target : TypeNode) (operand : Node) (span : Span)
  | new (type : TypeNode) (args : List Node) (span : Span)
  | newArray (element : Option TypeNode) (items : List Node) (span : Span)
  | lambda (parenthesized : Bool) (params : List Parameter) (body : Node) (span : Span)
  | paren (inner : Node) (span : Span)

/-- A lambda as it is written. -/
structure Lambda where
  parenthesized : Bool
  params : List Parameter
  body : Node
  span : Span

namespace Node

/-- Where the expression is written. -/
def span : Node → Span
  | .literal _ span => span
  | .name _ _ span => span
  | .predefined keyword => keyword.span
  | .binary _ _ _ span => span
  | .unary _ _ span => span
  | .conditional _ _ _ span => span
  | .call _ _ span => span
  | .index _ _ span => span
  | .member _ _ _ span => span
  | .cast _ _ span => span
  | .new _ _ span => span
  | .newArray _ _ span => span
  | .lambda _ _ _ span => span
  | .paren _ span => span

/-- How a kind of expression is named in messages. -/
def kindName : Node → String
  | .literal _ _ => "literal"
  | .name _ _ _ => "identifier"
  | .predefined _ => "predefined type"
  | .binary _ _ _ _ => "binary expression"
  | .unary _ _ _ => "unary expression"
  | .conditional _ _ _ _ => "conditional expression"
  | .call _ _ _ => "invocation"
  | .index _ _ _ => "element access"
  | .member _ _ _ _ => "member access"
  | .cast _ _ _ => "cast"
  | .new _ _ _ => "object creation"
  | .newArray _ _ _ => "array creation"
  | .lambda _ _ _ _ => "lambda"
  | .paren _ _ => "parenthesized expression"

/-- The expression inside any parentheses around it. -/
def bare : Node → Node
  | .paren inner _ => inner.bare
  | node => node

end Node

end FatArrow.Syntax
