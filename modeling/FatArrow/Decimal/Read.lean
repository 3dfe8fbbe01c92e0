import FatArrow.Binary.Format
import FatArrow.Text.Letter

/-!
Reading numerals: naturals in a base, and decimal fractions as the nearest 64-bit float.
-/

namespace FatArrow.Decimal

/-- The value of a non-empty run of digits of a base, or nothing when a character is no digit of
it. -/
def natOfDigits? (base : Nat) (cs : List Char) : Option Nat :=
  if cs.isEmpty then none
  else cs.foldl (fun acc c => do
    let n ← acc
    let d ← Text.digitValue? c
    if d < base then some (n * base + d) else none) (some 0)

/-- The numeral, with an optional plus sign in front of it. -/
def natOfSigned? (base : Nat) : List Char → Option Nat
  | '+' :: cs => natOfDigits? base cs
  | cs => natOfDigits? base cs

/-- The numeral, with an optional sign in front of it. -/
def intOfSigned? (base : Nat) : List Char → Option Int
  | '-' :: cs => (natOfDigits? base cs).map fun n => -(n : Int)
  | cs => (natOfSigned? base cs).map Int.ofNat

/-- The 64-bit float nearest to `digits · 10^exponent`. Far outside the range of the format the
power of ten is not formed. -/
def nearest (digits : Nat) (exponent : Int) : Float :=
  let size : Int := (Nat.toDigits 10 digits).length + exponent
  let datum : Binary.Datum :=
    if size > 400 then .infinite false else .finite false 0 0
  if digits = 0 ∨ size > 400 ∨ size < -400 then
    floatOf (if digits = 0 then .finite false 0 0 else datum)
  else
    let (num, den) := Binary.scaledBy 10 digits 1 (-exponent)
    Float.ofBits (UInt64.ofNat (Binary.Format.double.encodeRatio false num den))

/-- A decimal fraction: digits, a point and digits, and an optional power of ten. Either run of
digits may be missing, not both. -/
def float? (cs : List Char) : Option Float := do
  let isMark (c : Char) : Bool := c == 'e' || c == 'E'
  let mantissa := cs.takeWhile (fun c => !isMark c)
  let power ← match cs.drop mantissa.length with
    | [] => some 0
    | _ :: rest => intOfSigned? 10 rest
  let whole := mantissa.takeWhile (· != '.')
  let fraction := (mantissa.drop whole.length).drop 1
  let digits ← natOfDigits? 10 (whole ++ fraction)
  some (nearest digits (power - fraction.length))

end FatArrow.Decimal
