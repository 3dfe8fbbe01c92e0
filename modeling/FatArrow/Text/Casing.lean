import FatArrow.Text.CaseTable
import FatArrow.Text.Letter

/-!
Full case conversion of text. A character can become several (`ß` becomes `SS`), and a capital
sigma that ends a word becomes the final form of the small letter.
-/

namespace FatArrow.Text

/-- The image of a code point under a table of runs: the first run that holds it decides. -/
def shifted (runs : List CaseRun) (n : Nat) : Nat :=
  match runs.find? fun r => r.first ≤ n && n ≤ r.last && (n - r.first) % r.step == 0 with
  | some r => (n + r.shift).toNat
  | none => n

/-- The upper case form of one character. -/
def upperForm (c : Char) : List Char :=
  match upperLong.lookup c.toNat with
  | some form => form.map Char.ofNat
  | none => [Char.ofNat (shifted upperRuns c.toNat)]

/-- The lower case form of one character that stands alone. -/
def lowerForm (c : Char) : List Char :=
  match lowerLong.lookup c.toNat with
  | some form => form.map Char.ofNat
  | none => [Char.ofNat (shifted lowerRuns c.toNat)]

/-- A character that has upper, lower or title case. -/
def isCased (c : Char) : Bool :=
  within casedBounds c

/-- A character that is skipped when the end of a word is looked for. -/
def isCaseIgnorable (c : Char) : Bool :=
  within caseIgnorableBounds c

/-- The first character that is not skipped is cased. -/
def meetsCased (cs : List Char) : Bool :=
  ((cs.dropWhile isCaseIgnorable).head?.map isCased).getD false

/-- A capital sigma with a letter before it and none after it ends its word. -/
def endsWord (before after : List Char) : Bool :=
  meetsCased before && !meetsCased after

/-- Lower case with the characters already read, nearest first, as context. -/
def lowerFrom (before : List Char) : List Char → List Char
  | [] => []
  | c :: cs =>
    let form :=
      if c == 'Σ' then [if endsWord before cs then 'ς' else 'σ'] else lowerForm c
    form ++ lowerFrom (c :: before) cs

/-- The text in upper case. -/
def toUpper (s : String) : String :=
  String.ofList (s.toList.flatMap upperForm)

/-- The text in lower case. -/
def toLower (s : String) : String :=
  String.ofList (lowerFrom [] s.toList)

end FatArrow.Text
