import FatArrow.Text.Letter

/-!
Identifiers of 128 bits and their texts. The written form has groups of 8, 4, 4, 4 and 12 lower
case hexadecimal digits between hyphens.
-/

namespace FatArrow

/-- A 128-bit identifier. -/
structure Guid where
  bits : BitVec 128
deriving DecidableEq, Repr

namespace Guid

/-- The identifier of nothing. -/
def zero : Guid := ⟨0⟩

/-- The lengths of the groups of digits. -/
def groups : List Nat := [8, 4, 4, 4, 12]

/-- The 32 digits. -/
def digits (g : Guid) : List Char :=
  let digits := Nat.toDigits 16 g.bits.toNat
  List.replicate (32 - digits.length) '0' ++ digits

/-- A text cut into groups of the given lengths; what follows the last group is left over. -/
def cut (lengths : List Nat) (cs : List Char) : List (List Char) :=
  match lengths with
  | [] => []
  | n :: lengths => cs.take n :: cut lengths (cs.drop n)

/-- The groups of digits between hyphens. -/
def text (g : Guid) : String :=
  "-".intercalate ((cut groups g.digits).map String.ofList)

/-- The identifier of 32 hexadecimal digits. -/
def ofDigits? (cs : List Char) : Option Guid :=
  if cs.length = 32 ∧ cs.all Text.isHexDigit then
    some ⟨BitVec.ofNat 128 (cs.foldl (fun n c => n * 16 + (Text.digitValue? c).getD 0) 0)⟩
  else none

/-- The identifier of groups of digits between hyphens. -/
def ofGroups? (cs : List Char) : Option Guid :=
  let pieces := cs.splitOnP (· == '-')
  if pieces.map List.length = groups then ofDigits? pieces.flatten else none

/-- What stands before the groups in the name of an identifier. -/
def namePrefix : List Char := "urn:uuid:".toList

/-- The identifier of a text: digits alone, groups, groups in braces, or groups in a name. -/
def parse? (s : String) : Option Guid :=
  let cs := s.toList
  if cs.length = 32 then ofDigits? cs
  else if cs.length = 36 then ofGroups? cs
  else if cs.length = 38 ∧ cs.head? = some '\x7b' ∧ cs.getLast? = some '\x7d' then
    ofGroups? (cs.drop 1).dropLast
  else if cs.take 9 = namePrefix then ofGroups? (cs.drop 9)
  else none

end Guid

end FatArrow
