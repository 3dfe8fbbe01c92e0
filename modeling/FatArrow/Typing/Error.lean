import FatArrow.Syntax.Error
import FatArrow.Syntax.Node
import FatArrow.Types.HostType

/-!
Why a lambda cannot be typed. Each cause has a class and a message; where it arose is a span of
the text. A text that cannot be read is one of the causes.
-/

namespace FatArrow

open Syntax (BinaryOperator UnaryOperator)

/-- The classes of causes. -/
inductive BuildClass where
  | syntaxError | unresolvedIdentifier | unresolvedType | unresolvedMember | unsupportedOperator
  | argumentShape
deriving DecidableEq, Repr

/-- Why a lambda cannot be typed. -/
inductive BuildCause where
  | unread (cause : Syntax.Cause)
  | unknownName (name : String)
  | unknownType (name : String)
  | untypedParameter (name : String)
  | unknownMember (type : HostType) (name : String)
  | typeAsValue (type : HostType)
  | methodAsValue (name : String)
  | lambdaAsOperand
  | lambdaWithMember
  | lambdaAsArgument
  | instanceNeeded (member : String)
  | noMethod (type : HostType) (name : String) (args : List HostType)
  | noIndexer (type : HostType) (args : List HostType)
  | noConstructor (type : HostType) (args : List HostType)
  | indexCount
  | indexType (found : HostType)
  | invokedValue (type : Option HostType)
  | invokedType (type : HostType)
  | argumentCount (method : String) (expected given : Nat)
  | unaryOperand (op : UnaryOperator) (operand : HostType)
  | binaryOperands (op : BinaryOperator) (left right : HostType)
  | noConversion (source target : HostType)
  | conditionType (found : HostType)
  | itemType (found expected : HostType)
  | emptyArray
  | parameterCount (declared expected : Nat)
  | repeatedParameter (name : String)
  | parameterType (name : String) (declared expected : HostType)
  | returnType (found : Option HostType) (expected : HostType)
deriving DecidableEq, Repr

namespace BuildCause

/-- The class of a cause. -/
def buildClass : BuildCause → BuildClass
  | .unread (.unsupportedOperator _) => .unsupportedOperator
  | .unread _ => .syntaxError
  | .unknownName _ => .unresolvedIdentifier
  | .unknownType _ | .untypedParameter _ => .unresolvedType
  | .unknownMember _ _ => .unresolvedMember
  | _ => .argumentShape

/-- Types as they are listed in messages. -/
def listed (types : List HostType) : String := "(" ++ HostType.listText types ++ ")"

/-- A refused text in a message. -/
def unreadText (cause : Syntax.Cause) : String :=
  match cause with
  | .unsupportedOperator lexeme => "unsupported operator '" ++ lexeme ++ "'"
  | _ =>
    "syntax error: " ++ cause.errorClass.title
      ++ (if cause.detail = "" then "" else ": " ++ cause.detail)

/-- What is said about a cause. -/
def text : BuildCause → String
  | .unread cause => unreadText cause
  | .unknownName name => "unresolved identifier '" ++ name ++ "'"
  | .unknownType name => "unresolved type '" ++ name ++ "'"
  | .untypedParameter name => "unresolved type 'type of parameter '" ++ name ++ "''"
  | .unknownMember type name => "type '" ++ type.text ++ "' has no member '" ++ name ++ "'"
  | .typeAsValue type => "type '" ++ type.text ++ "' cannot be used as a value"
  | .methodAsValue name => "method '" ++ name ++ "' must be invoked"
  | .lambdaAsOperand => "a lambda cannot be used as an operand"
  | .lambdaWithMember => "a lambda has no members"
  | .lambdaAsArgument => "lambda arguments are not supported"
  | .instanceNeeded member => "instance member '" ++ member ++ "' needs an instance"
  | .noMethod type name args =>
    "no method '" ++ name ++ "' on " ++ type.text ++ " accepts " ++ listed args
  | .noIndexer type args => type.text ++ " has no indexer taking " ++ listed args
  | .noConstructor type args => "no constructor of " ++ type.text ++ " accepts " ++ listed args
  | .indexCount => "array access takes exactly one index"
  | .indexType found => "array index must be Int32, found " ++ found.text
  | .invokedValue type =>
    "a value of type " ++ (type.map HostType.text).getD "lambda" ++ " cannot be invoked"
  | .invokedType type => "type " ++ type.text ++ " cannot be invoked; use 'new'"
  | .argumentCount method expected given =>
    "method '" ++ method ++ "' takes " ++ toString expected ++ " arguments but " ++ toString given
      ++ " were given"
  | .unaryOperand op operand =>
    "operator '" ++ op.symbol ++ "' cannot be applied to " ++ operand.text
  | .binaryOperands op left right =>
    "operator '" ++ op.symbol ++ "' cannot be applied to " ++ left.text ++ " and " ++ right.text
  | .noConversion source target => "cannot convert " ++ source.text ++ " to " ++ target.text
  | .conditionType found => "condition must be Boolean, found " ++ found.text
  | .itemType found expected =>
    "array element of type " ++ found.text ++ " does not match " ++ expected.text
  | .emptyArray => "cannot infer the element type of an empty array"
  | .parameterCount declared expected =>
    "lambda declares " ++ toString declared ++ " parameters but " ++ toString expected
      ++ " are expected"
  | .repeatedParameter name => "parameter '" ++ name ++ "' is declared more than once"
  | .parameterType name declared expected =>
    "parameter '" ++ name ++ "' is declared " ++ declared.text ++ " but " ++ expected.text
      ++ " is expected"
  | .returnType found expected =>
    "lambda returns " ++ (found.map HostType.text).getD "a lambda" ++ " but " ++ expected.text
      ++ " is expected"

end BuildCause

/-- Why a lambda cannot be typed, and where. -/
structure BuildError where
  cause : BuildCause
  span : Span
deriving DecidableEq, Repr

namespace BuildError

/-- The refusal of a text as a reason that it cannot be typed. -/
def ofSyntax (e : Syntax.SyntaxError) : BuildError := ⟨.unread e.cause, e.span⟩

/-- The error in one line. -/
def text (e : BuildError) : String := "at " ++ e.span.text ++ ": " ++ e.cause.text

/-- The error, and the line of the text where it arose. -/
def textWithSource (e : BuildError) (source : String) : String := e.text ++ e.span.excerpt source

end BuildError

end FatArrow
