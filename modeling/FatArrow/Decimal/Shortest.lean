import FatArrow.Binary.Format

/-!
The shortest decimal digits that read back as a given binary datum, and the layouts in which they
are written. For one, two, … digits the two neighbours of the value on that decimal grid are
tested against the interval of reals that round to the datum; the first grid with a hit wins, and
of two hits the nearer one.
-/

namespace FatArrow.Decimal

open FatArrow.Binary

/-- A positive decimal `digits · 10^exponent`. -/
structure Numeral where
  digits : Nat
  exponent : Int
deriving DecidableEq, Repr

/-- `num / den` divided by `10^e`, as a ratio of naturals. -/
def scaledTen (num den : Nat) (e : Int) : Nat × Nat :=
  scaledBy 10 num den e

/-- The exponent of the first digit of `num / den`, found from a guess that is at most one away. -/
def leadingExponent (num den : Nat) : Int :=
  let guess : Int := (((num.log2 : Int) - den.log2) * 30103) / 100000
  let atLeast (e : Int) : Bool := let (n, d) := scaledTen num den e; n ≥ d
  if atLeast (guess + 2) then guess + 2
  else if atLeast (guess + 1) then guess + 1
  else if atLeast guess then guess
  else if atLeast (guess - 1) then guess - 1
  else guess - 2

/-- The reals that round to a datum: four times the datum and of its two bounds, in units of
`2^(q-2)`, and whether the bounds belong to it. -/
structure Interval where
  low : Nat
  middle : Nat
  high : Nat
  closed : Bool
  unit : Int
deriving Repr

/-- The interval of `m · 2^q`. Below a power of two the neighbour is only half as far. -/
def interval (f : Format) (m : Nat) (q : Int) : Interval :=
  let near := m = f.leadingBit ∧ q > f.minExponent
  { low := 4 * m - (if near then 1 else 2), middle := 4 * m, high := 4 * m + 2,
    closed := m % 2 = 0, unit := q - 2 }

/-- Whether `d · 10^e` lies in the interval. -/
def Interval.holds (i : Interval) (d : Nat) (e : Int) : Bool :=
  let (dn, dd) := scaledTen d 1 (-e)
  let (n, k) := Format.scaled dn dd i.unit
  if i.closed then i.low * k ≤ n && n ≤ i.high * k else i.low * k < n && n < i.high * k

/-- The point of the grid `10^e` nearest to the middle of the interval among those inside it. -/
def Interval.pick? (i : Interval) (num den : Nat) (e : Int) : Option Nat :=
  let (n, d) := scaledTen num den e
  let floor := n / d
  let below := i.holds floor e
  let above := i.holds (floor + 1) e
  if below && above then some (if 2 * (n % d) < d then floor else floor + 1)
  else if below then some floor
  else if above then some (floor + 1)
  else none

/-- The first grid with a point in the interval, trying `count` further digits. -/
def firstHit (i : Interval) (num den : Nat) (top : Int) : Nat → Nat → Numeral
  | digits, 0 => ⟨num / den, top - digits⟩
  | digits, count + 1 =>
    let e := top - digits
    match i.pick? num den e with
    | some d => ⟨d, e⟩
    | none => firstHit i num den top (digits + 1) count

/-- The shortest decimal that reads back as `m · 2^q` with `m` positive. Seventeen digits suffice
for the 64-bit format. -/
def shortest (f : Format) (m : Nat) (q : Int) : Numeral :=
  let (num, den) := Format.scaled m 1 (-q)
  firstHit (interval f m q) num den (leadingExponent num den) 0 20

/-- How a float is laid out. -/
structure Layout where
  /-- The least number of digits after the point. -/
  places : Nat
  /-- First-digit exponents from this one on are written with an exponent. -/
  scientificFrom : Option Int
  /-- First-digit exponents below this one are written with an exponent. -/
  scientificBelow : Option Int
deriving Repr

/-- A float as part of a message: always positional, a whole number without a point. -/
def Layout.plain : Layout := ⟨0, none, none⟩

/-- A float as a literal: a point or an exponent always shows that it is one; from `10^16` on and
below `10^-4` an exponent keeps it short. -/
def Layout.literal : Layout := ⟨1, some 16, some (-4)⟩

/-- The digits of a decimal without zeros at its end. -/
def Numeral.significant (d : Numeral) : List Char :=
  ((Nat.toDigits 10 d.digits).reverse.dropWhile (· == '0')).reverse

/-- The exponent of the first digit. -/
def Numeral.leading (d : Numeral) : Int :=
  d.exponent + (Nat.toDigits 10 d.digits).length - 1

/-- Digits with the point after the digit of exponent zero. -/
def positional (places : Nat) (digits : List Char) (leading : Int) : String :=
  let (whole, rest) :=
    if leading < 0 then (['0'], List.replicate ((-leading).toNat - 1) '0' ++ digits)
    else
      let count := leading.toNat + 1
      (digits.take count ++ List.replicate (count - digits.length) '0', digits.drop count)
  let rest := rest ++ List.replicate (places - rest.length) '0'
  String.ofList (if rest.isEmpty then whole else whole ++ '.' :: rest)

/-- One digit before the point and a power of ten. -/
def scientific (digits : List Char) (leading : Int) : String :=
  let head := digits.take 1
  let rest := digits.drop 1
  String.ofList (if rest.isEmpty then head else head ++ '.' :: rest) ++ "e" ++ toString leading

/-- A positive decimal in a layout. -/
def Layout.write (l : Layout) (d : Numeral) : String :=
  let digits := d.significant
  let leading := d.leading
  if (l.scientificFrom.any (leading ≥ ·)) || (l.scientificBelow.any (leading < ·)) then
    scientific digits leading
  else positional l.places digits leading

/-- A datum of a format as text. -/
def Layout.datumText (l : Layout) (f : Format) : Datum → String
  | .nan => "NaN"
  | .infinite negative => if negative then "-inf" else "inf"
  | .finite negative m q =>
    let magnitude := if m = 0 then positional l.places ['0'] 0 else l.write (shortest f m q)
    if negative then "-" ++ magnitude else magnitude

/-- A 64-bit float as text. -/
def Layout.floatText (l : Layout) (x : Float) : String :=
  l.datumText .double (datumOf x)

/-- A 32-bit float as text. -/
def Layout.float32Text (l : Layout) (x : Float32) : String :=
  l.datumText .single (datumOf32 x)

end FatArrow.Decimal
