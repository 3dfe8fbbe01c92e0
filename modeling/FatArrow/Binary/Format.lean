/-!
Binary floating point formats as exact numbers. A finite datum is `± m · 2^q` with a natural `m`;
a ratio of naturals is rounded to the nearest datum, a tie going to the even one.
-/

namespace FatArrow.Binary

/-- An interchange format: the width of its stored fraction and of its exponent field. -/
structure Format where
  fraction : Nat
  exponent : Nat
deriving DecidableEq, Repr

/-- The 64-bit format. -/
def Format.double : Format := ⟨52, 11⟩

/-- The 32-bit format. -/
def Format.single : Format := ⟨23, 8⟩

/-- What the bits of a datum stand for. -/
inductive Datum where
  | nan
  | infinite (negative : Bool)
  | finite (negative : Bool) (m : Nat) (q : Int)
deriving DecidableEq, Repr

/-- `num / den` divided by `base ^ e`, as a ratio of naturals. -/
def scaledBy (base num den : Nat) (e : Int) : Nat × Nat :=
  if e ≥ 0 then (num, den * Nat.pow base e.toNat) else (num * Nat.pow base (-e).toNat, den)

namespace Format

/-- The least significand with the leading bit set. -/
def leadingBit (f : Format) : Nat := Nat.pow 2 f.fraction

/-- The exponent of the least positive datum. -/
def minExponent (f : Format) : Int :=
  2 - (Nat.pow 2 (f.exponent - 1) : Int) - f.fraction

/-- The bits of positive infinity; larger magnitudes are NaN. -/
def infinity (f : Format) : Nat :=
  (Nat.pow 2 f.exponent - 1) * f.leadingBit

/-- The weight of the sign bit. -/
def signBit (f : Format) : Nat :=
  Nat.pow 2 (f.fraction + f.exponent)

/-- The datum that a word of the format's width stands for. -/
def decode (f : Format) (bits : Nat) : Datum :=
  let negative := bits ≥ f.signBit
  let magnitude := bits % f.signBit
  if magnitude > f.infinity then .nan
  else if magnitude = f.infinity then .infinite negative
  else
    let stored := magnitude / f.leadingBit
    let low := magnitude % f.leadingBit
    if stored = 0 then .finite negative low f.minExponent
    else .finite negative (low + f.leadingBit) (f.minExponent + (stored - 1))

/-- The quotient rounded to the nearest natural, a tie going to the even one. -/
def roundDiv (num den : Nat) : Nat :=
  let quotient := num / den
  let rest := 2 * (num % den)
  if rest > den ∨ (rest = den ∧ quotient % 2 = 1) then quotient + 1 else quotient

/-- `num / den` divided by `2^q`, as a ratio of naturals. -/
def scaled (num den : Nat) (q : Int) : Nat × Nat :=
  scaledBy 2 num den q

/-- The exponent at which `num / den` fills the significand, or the least one of the format. -/
def exponentOf (f : Format) (num den : Nat) : Int :=
  let guess : Int := (num.log2 : Int) - den.log2 - 1 - f.fraction
  let (n, d) := scaled num den guess
  max f.minExponent (if n / d ≥ 2 * f.leadingBit then guess + 1 else guess)

/-- The word of the datum nearest to `± num / den`; magnitudes past the largest datum become
infinite. The sum of exponent field and significand carries by itself when rounding reaches the
next power of two. -/
def encodeRatio (f : Format) (negative : Bool) (num den : Nat) : Nat :=
  let magnitude :=
    if num = 0 then 0
    else
      let q := f.exponentOf num den
      let (n, d) := scaled num den q
      min f.infinity ((q - f.minExponent).toNat * f.leadingBit + roundDiv n d)
  if negative then f.signBit + magnitude else magnitude

/-- The word of the datum nearest to a given datum of any format; NaN has one word. -/
def encode (f : Format) : Datum → Nat
  | .nan => f.infinity + f.leadingBit / 2
  | .infinite negative => if negative then f.signBit + f.infinity else f.infinity
  | .finite negative m q =>
    let (n, d) := scaled m 1 (-q)
    f.encodeRatio negative n d

end Format

namespace Datum

/-- The integer part of a datum, brought into the range `lo … hi`; NaN counts as zero. -/
def clamp (lo hi : Int) : Datum → Int
  | .nan => 0
  | .infinite negative => if negative then lo else hi
  | .finite negative m q =>
    let (n, d) := Format.scaled m 1 (-q)
    let whole : Int := (n / d : Nat)
    max lo (min hi (if negative then -whole else whole))

/-- The remainder of a truncating division, exact and with the sign of the dividend. It is NaN
where there is no quotient. -/
def remainder : Datum → Datum → Datum
  | .nan, _ => .nan
  | _, .nan => .nan
  | .infinite _, _ => .nan
  | .finite s m q, .infinite _ => .finite s m q
  | .finite s m q, .finite _ m' q' =>
    if m' = 0 then .nan
    else
      let low := min q q'
      .finite s ((m * Nat.pow 2 (q - low).toNat) % (m' * Nat.pow 2 (q' - low).toNat)) low

end Datum

end FatArrow.Binary

namespace FatArrow

open Binary

/-- What a 64-bit float stands for. -/
def datumOf (x : Float) : Datum := Format.double.decode x.toBits.toNat

/-- What a 32-bit float stands for. -/
def datumOf32 (x : Float32) : Datum := Format.single.decode x.toBits.toNat

/-- The 64-bit float nearest to a datum. -/
def floatOf (d : Datum) : Float := Float.ofBits (UInt64.ofNat (Format.double.encode d))

/-- The 32-bit float nearest to a datum. -/
def float32Of (d : Datum) : Float32 := Float32.ofBits (UInt32.ofNat (Format.single.encode d))

/-- A 32-bit float as the 64-bit float of the same value. -/
def widenFloat (x : Float32) : Float := floatOf (datumOf32 x)

/-- The 32-bit float nearest to a 64-bit float. -/
def narrowFloat (x : Float) : Float32 := float32Of (datumOf x)

/-- An integer as an exact datum. -/
def datumOfInt (n : Int) : Datum := .finite (n < 0) n.natAbs 0

/-- The 64-bit float nearest to an integer. -/
def floatOfInt (n : Int) : Float := floatOf (datumOfInt n)

/-- The 32-bit float nearest to an integer. -/
def float32OfInt (n : Int) : Float32 := float32Of (datumOfInt n)

/-- The remainder of a truncating division of floats. -/
def floatRemainder (x y : Float) : Float := floatOf (Datum.remainder (datumOf x) (datumOf y))

/-- Place in the total order of 64-bit floats: negative ones below positive ones, `-0.0` below
`0.0`, NaN outside the infinities. -/
def floatRank (x : Float) : Int :=
  let bits := x.toBits.toNat
  if bits ≥ Format.double.signBit then (Format.double.signBit : Int) - bits - 1 else bits

end FatArrow
