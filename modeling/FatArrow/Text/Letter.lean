import FatArrow.Text.Alphabetic
import FatArrow.Text.Numeric

/-!
Character classes: letters, letters or digits, and blanks, by the Unicode properties Alphabetic,
general category N and White_Space. Below 128 the classes are decided by comparison, above it by
the tables.
-/

namespace FatArrow.Text

/-- Membership in the set whose boundaries are `bounds`: as many boundaries lie at or below a
member as open the set, so their number is odd. -/
def within (bounds : List Nat) (c : Char) : Bool :=
  (bounds.takeWhile (· ≤ c.toNat)).length % 2 == 1

/-- A letter, by the property Alphabetic. -/
def isAlphabetic (c : Char) : Bool :=
  if c.toNat < 128 then c.isAlpha else within alphabeticBounds c

/-- A digit or other number, by the general categories Nd, Nl and No. -/
def isNumeric (c : Char) : Bool :=
  if c.toNat < 128 then c.isDigit else within numericBounds c

/-- A letter or a number. -/
def isAlphanumeric (c : Char) : Bool :=
  isAlphabetic c || isNumeric c

/-- Where membership in White_Space changes. -/
def blankBounds : List Nat := [
  0x9, 0xe, 0x20, 0x21, 0x85, 0x86, 0xa0, 0xa1, 0x1680, 0x1681, 0x2000, 0x200b, 0x2028, 0x202a,
  0x202f, 0x2030, 0x205f, 0x2060, 0x3000, 0x3001]

/-- A blank, by the property White_Space. -/
def isBlank (c : Char) : Bool :=
  within blankBounds c

/-- One of the ten ASCII digits. -/
def isDigit (c : Char) : Bool :=
  '0' ≤ c && c ≤ '9'

/-- One of the ASCII letters. -/
def isAsciiLetter (c : Char) : Bool :=
  ('a' ≤ c && c ≤ 'z') || ('A' ≤ c && c ≤ 'Z')

/-- The value of a digit of a base up to 36, or nothing for any other character. -/
def digitValue? (c : Char) : Option Nat :=
  if isDigit c then some (c.toNat - '0'.toNat)
  else if 'a' ≤ c && c ≤ 'z' then some (c.toNat - 'a'.toNat + 10)
  else if 'A' ≤ c && c ≤ 'Z' then some (c.toNat - 'A'.toNat + 10)
  else none

/-- A hexadecimal digit, in either case. -/
def isHexDigit (c : Char) : Bool :=
  isDigit c || ('a' ≤ c && c ≤ 'f') || ('A' ≤ c && c ≤ 'F')

/-- A character that can open a name. -/
def isNameStart (c : Char) : Bool :=
  isAlphabetic c || c == '_'

/-- A character that can stand inside a name. -/
def isNamePart (c : Char) : Bool :=
  isAlphanumeric c || c == '_'

/-- The text without the blanks at its two ends. -/
def trim (s : String) : String :=
  let front := s.toList.dropWhile isBlank
  String.ofList (front.reverse.dropWhile isBlank).reverse

end FatArrow.Text
