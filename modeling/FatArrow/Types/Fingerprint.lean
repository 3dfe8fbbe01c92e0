import FatArrow.Digest.Xxh64

/-!
Fingerprints: 64-bit stand-ins for types and method signatures. A fingerprint of a compound is
mixed from those of its parts, each under a marker of its position.
-/

namespace FatArrow

/-- A 64-bit stand-in for a type or a signature. -/
structure Fingerprint where
  bits : UInt64
deriving DecidableEq, Repr, Inhabited

namespace Fingerprint

/-- What separates the parts of a compound. -/
def separator : UInt64 := 0x4bc94d6bd06053ad

/-- Marks the names of types. -/
def typeMark : UInt64 := 0x2fac10b63a6cc57c

/-- Marks method signatures. -/
def functionMark : UInt64 := 0x5ea77ffbcdf5f302

/-- Marks arrays. -/
def arrayMark : UInt64 := 0x7d3c8b4a92e15f6d

/-- Marks nullable types. -/
def nullableMark : UInt64 := 0x3e9f5d2a8c7b1403

/-- Marks generic parameters. -/
def genericParamMark : UInt64 := 0x9a7f3d5e2b8c4601

/-- The markers of the first eight positions. -/
def positionMarks : List UInt64 := [
  0x9e3779b97f4a7c15, 0xbf58476d1ce4e5b9, 0x94d049bb133111eb, 0xd6e8feb86659fd93,
  0xe7037ed1a0b428db, 0xc6a4a7935bd1e995, 0x8648dbbc94d49b8d, 0xa2b48b2c69e0d657]

/-- The marker of a position; past the eighth it is counted on from the first. -/
def positionMark (i : Nat) : UInt64 :=
  (positionMarks[i]?).getD (0x9e3779b97f4a7c15 + UInt64.ofNat i)

/-- The fingerprint of nothing. -/
def empty : Fingerprint := ⟨0⟩

/-- The fingerprint of no part at all. -/
def isEmpty (f : Fingerprint) : Bool := f.bits == 0

/-- Parts mixed into a start value, each under the marker of its position. -/
def mix (start : UInt64) (parts : List Fingerprint) : Fingerprint :=
  ⟨(parts.zipIdx).foldl (fun acc (p, i) => acc * separator + (positionMark i ^^^ p.bits)) start⟩

/-- The fingerprint of a type name. -/
def ofName (name : String) : Fingerprint := ⟨typeMark ^^^ Digest.ofText name⟩

/-- The fingerprint of a method with its parameter types. -/
def ofSignature (name : String) (params : List Fingerprint) : Fingerprint :=
  mix (functionMark ^^^ Digest.ofText name) params

/-- The fingerprint of a generic type applied to arguments. -/
def ofInstance (definition : Fingerprint) (args : List Fingerprint) : Fingerprint :=
  mix definition.bits args

/-- The fingerprint of an array type. -/
def ofArray (element : Fingerprint) : Fingerprint := ⟨arrayMark * separator + element.bits⟩

/-- The fingerprint of a nullable type. -/
def ofNullable (inner : Fingerprint) : Fingerprint := ⟨nullableMark * separator + inner.bits⟩

/-- The fingerprint of a generic parameter. -/
def ofGenericParam (position : Nat) : Fingerprint :=
  ⟨genericParamMark ^^^ positionMark position⟩

/-- Sixteen lower case hexadecimal digits after `0x`. -/
def text (f : Fingerprint) : String :=
  let digits := Nat.toDigits 16 f.bits.toNat
  String.ofList ('0' :: 'x' :: (List.replicate (16 - digits.length) '0' ++ digits))

end Fingerprint

end FatArrow
