import FatArrow.Standard.Declare
import FatArrow.Text.Casing

/-!
The members of texts. Positions and lengths count characters, and `-1` stands for no position.
-/

namespace FatArrow.Standard

/-- The position of the first occurrence of a text in another. -/
def indexOf? (needle : List Char) : List Char → Option Nat
  | [] => if needle.isEmpty then some 0 else none
  | c :: cs => if needle.isPrefixOf (c :: cs) then some 0 else (indexOf? needle cs).map (· + 1)

/-- The characters from a position on. The position after the last character is allowed. -/
def substringFrom (cs : List Char) (start : Int64) : Except EvalError (List Char) :=
  if start < 0 ∨ cs.length < start.toInt then .error (.indexOutOfRange start.toInt cs.length)
  else .ok (cs.drop start.toInt.toNat)

/-- A number of characters from a position on. -/
def substring (cs : List Char) (start length : Int64) : Except EvalError (List Char) := do
  let rest ← substringFrom cs start
  let stop := start + length
  if length < 0 ∨ cs.length < stop.toInt then throw (.indexOutOfRange stop.toInt cs.length)
  return rest.take length.toInt.toNat

/-- The item at a position. -/
def itemAt {α : Type} (items : List α) (i : Int64) : Except EvalError α :=
  match if i < 0 then none else items[i.toInt.toNat]? with
  | some a => .ok a
  | none => .error (.indexOutOfRange i.toInt items.length)

/-- A text made from the receiver. -/
def textNative (f : String → String) : Native := fun call =>
  return .string (f (← call.thisText))

/-- A question about the receiver and a text. -/
def textPredicate (f : List Char → List Char → Bool) : Native := fun call => do
  let s ← call.thisText
  return .bool (f s.toList (← call.argText 0).toList)

/-- The type of cultures. -/
def cultureInfo : HostType := .named "System.Globalization.CultureInfo"

/-- Texts. Changes of case that name a culture are the same for all cultures. -/
def text : TypeDecl :=
  { TypeDecl.ofPrimitive .string with
    properties := [
      constant "Empty" .string (.string ""),
      property "Length" .int32 fun call => return .int32 (← call.thisText).length]
    methods := [
      staticMethod "IsNullOrEmpty" [.string] .boolean fun call => do
        let v ← call.arg 0
        return .bool (v.string?.all (·.isEmpty)),
      method "ToUpper" [] .string (textNative Text.toUpper),
      method "ToUpper" [cultureInfo] .string (textNative Text.toUpper),
      method "ToLower" [] .string (textNative Text.toLower),
      method "ToLower" [cultureInfo] .string (textNative Text.toLower),
      method "Trim" [] .string (textNative Text.trim),
      method "Contains" [.string] .boolean (textPredicate fun s t => (indexOf? t s).isSome),
      method "StartsWith" [.string] .boolean (textPredicate fun s t => t.isPrefixOf s),
      method "EndsWith" [.string] .boolean (textPredicate fun s t => t.isSuffixOf s),
      method "IndexOf" [.string] .int32 fun call => do
        let s ← call.thisText
        let found := indexOf? (← call.argText 0).toList s.toList
        return .int32 ((found.map Int.ofNat).getD (-1)),
      method "Substring" [.int32] .string fun call => do
        let s ← call.thisText
        return .string (String.ofList (← substringFrom s.toList (← call.argInt 0))),
      method "Substring" [.int32, .int32] .string fun call => do
        let s ← call.thisText
        let start ← call.argInt 0
        return .string (String.ofList (← substring s.toList start (← call.argInt 1))),
      method "get_Item" [.int32] .char fun call => do
        let s ← call.thisText
        return .char (← itemAt s.toList (← call.argInt 0))] }

/-- The module of texts. -/
def texts : HostModule := HostModule.ofNamespace "System" [text]

end FatArrow.Standard
