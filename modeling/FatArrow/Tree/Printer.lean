import FatArrow.Decimal.Shortest
import FatArrow.Tree.Term
import FatArrow.Typing.Namespaces
import FatArrow.Value.Text

/-!
Typed trees as text that can be read back. Every operator stands in parentheses with its operands,
and names of types are short where their namespace is a default one.
-/

namespace FatArrow

/-! ## Types -/

mutual
/-- A type as it is written. -/
def HostType.shortText (ns : Namespaces) : HostType → String
  | ⟨shape, args, nullable⟩ =>
    let base :=
      match shape with
      | .primitive p => p.hostName
      | .array => (HostType.shortTexts ns args).headD "" ++ "[]"
      | .param i => "T" ++ toString i
      | .named q =>
        (if q.isGlobal || ns.isDefault q.namespaceText then "" else q.namespaceText ++ ".")
          ++ q.displayName
          ++ (if args.isEmpty then ""
              else "<" ++ ", ".intercalate (HostType.shortTexts ns args) ++ ">")
    if nullable then "Nullable<" ++ base ++ ">" else base

/-- Types as they are written. -/
def HostType.shortTexts (ns : Namespaces) : List HostType → List String
  | [] => []
  | t :: ts => HostType.shortText ns t :: HostType.shortTexts ns ts
end

/-- Type arguments as they are written, nothing if there are none. -/
def HostType.shortArgs (ns : Namespaces) (types : List HostType) : String :=
  if types.isEmpty then "" else "<" ++ ", ".intercalate (HostType.shortTexts ns types) ++ ">"

/-! ## Values -/

/-- A character between quotes. -/
def escapeChar (quote c : Char) : List Char :=
  if c = '\\' then ['\\', '\\']
  else if c = '\n' then ['\\', 'n']
  else if c = '\t' then ['\\', 't']
  else if c = '\r' then ['\\', 'r']
  else if c = '\x00' then ['\\', '0']
  else if c = quote then ['\\', c]
  else [c]

/-- A text between quotes. -/
def quotedText (quote : Char) (cs : List Char) : String :=
  String.ofList (quote :: (cs.flatMap (escapeChar quote) ++ [quote]))

/-- A float that has no digits, as a member of its type. -/
def floatName? (x : Float) : Option String :=
  if x.isNaN then some "NaN"
  else if x.isInf then some (if x < 0 then "NegativeInfinity" else "PositiveInfinity")
  else none

/-- A value as it is written. Integers of types without a suffix are converted from `Int32`. -/
def Value.literalText (v : Value) : String :=
  match v with
  | .string s => quotedText '"' s.toList
  | .char c => quotedText '\'' [c]
  | .single x =>
    match floatName? (widenFloat x) with
    | some name => "Single." ++ name
    | none => Decimal.Layout.literal.float32Text x ++ "F"
  | .double x =>
    match floatName? x with
    | some name => "Double." ++ name
    | none => Decimal.Layout.literal.floatText x
  | .integer kind w =>
    let digits := toString (kind.denote w)
    match kind with
    | .int32 => digits
    | .int64 => digits ++ "L"
    | .uint32 => digits ++ "U"
    | .uint64 => digits ++ "UL"
    | .byte | .sbyte | .int16 | .uint16 =>
      "((" ++ (Primitive.integer kind).hostName ++ ")(" ++ digits ++ "))"
  | other => other.text

/-! ## Terms -/

namespace Term

/-- Parameters as they are written; a single one stands without parentheses. -/
def paramsText : List Param → String
  | [p] => p.name
  | ps => "(" ++ ", ".intercalate (ps.map (·.name)) ++ ")"

mutual
/-- A term as it is written. -/
def text (ns : Namespaces) : Term → String
  | .lambda params body => paramsText params ++ " => " ++ text ns body
  | .param p => p.name
  | .const value _ => value.literalText
  | .member target m => text ns target ++ "." ++ m.name
  | .staticMember m => m.declaring.shortText ns ++ "." ++ m.name
  | .call target m args =>
    text ns target ++ "." ++ m.name ++ HostType.shortArgs ns m.typeArgs
      ++ "(" ++ ", ".intercalate (texts ns args) ++ ")"
  | .staticCall m args =>
    let written := texts ns args
    let (front, rest) :=
      match m.isSequenceOp, written, m.declaring with
      | true, first :: rest, _ => (first ++ ".", rest)
      | _, written, some type => (type.shortText ns ++ ".", written)
      | _, written, none => ("", written)
    front ++ m.name ++ HostType.shortArgs ns m.typeArgs ++ "(" ++ ", ".intercalate rest ++ ")"
  | .binary op left right _ =>
    if op = .arrayIndex then text ns left ++ "[" ++ text ns right ++ "]"
    else "(" ++ text ns left ++ " " ++ op.symbol ++ " " ++ text ns right ++ ")"
  | .unary op operand _ => "(" ++ op.before ++ "(" ++ text ns operand ++ ")" ++ op.after ++ ")"
  | .cond test ifTrue ifFalse =>
    "(" ++ text ns test ++ " ? " ++ text ns ifTrue ++ " : " ++ text ns ifFalse ++ ")"
  | .new c args =>
    "new " ++ c.declaring.shortText ns ++ "(" ++ ", ".intercalate (texts ns args) ++ ")"
  | .array _ items type =>
    let written := texts ns items
    "new " ++ type.shortText ns ++ " \x7b"
      ++ (if written.isEmpty then "" else " " ++ ", ".intercalate written) ++ " \x7d"
  | .cast operand type => "((" ++ type.shortText ns ++ ")(" ++ text ns operand ++ "))"
  | .index target _ args => text ns target ++ "[" ++ ", ".intercalate (texts ns args) ++ "]"

/-- Terms as they are written. -/
def texts (ns : Namespaces) : List Term → List String
  | [] => []
  | t :: ts => text ns t :: texts ns ts
end

end Term

/-- A lambda as it is written. -/
def Function.text (f : Function) (ns : Namespaces) : String := f.term.text ns

end FatArrow
