/-!
The 64-bit xxHash digest of a byte string. Four lanes take in blocks of 32 bytes; what is left is
mixed in by words of eight, then four bytes, then single bytes, and a final scramble spreads every
bit.
-/

namespace FatArrow.Digest

/-- The five primes of the digest. -/
def prime1 : UInt64 := 0x9e3779b185ebca87

@[inherit_doc prime1] def prime2 : UInt64 := 0xc2b2ae3d27d4eb4f

@[inherit_doc prime1] def prime3 : UInt64 := 0x165667b19e3779f9

@[inherit_doc prime1] def prime4 : UInt64 := 0x85ebca77c2b2ae63

@[inherit_doc prime1] def prime5 : UInt64 := 0x27d4eb2f165667c5

/-- Rotation to the left by `n` bits, `0 < n < 64`. -/
def rotate (x : UInt64) (n : UInt64) : UInt64 :=
  (x <<< n) ||| (x >>> (64 - n))

/-- The number whose digits in base 256 are the bytes, lowest first. -/
def littleEndian (bytes : List UInt8) : UInt64 :=
  bytes.foldr (fun b acc => acc * 256 + b.toUInt64) 0

/-- One word taken into a lane. -/
def lane (acc word : UInt64) : UInt64 :=
  rotate (acc + word * prime2) 31 * prime1

/-- A lane folded into the digest. -/
def fold (acc value : UInt64) : UInt64 :=
  (acc ^^^ lane 0 value) * prime1 + prime4

/-- The four lanes. -/
structure Lanes where
  a : UInt64
  b : UInt64
  c : UInt64
  d : UInt64

/-- The lanes before any block. -/
def Lanes.start (seed : UInt64) : Lanes :=
  ⟨seed + prime1 + prime2, seed + prime2, seed, seed - prime1⟩

/-- The lanes after one block of 32 bytes. -/
def Lanes.block (l : Lanes) (bytes : List UInt8) : Lanes :=
  ⟨lane l.a (littleEndian (bytes.take 8)),
   lane l.b (littleEndian ((bytes.drop 8).take 8)),
   lane l.c (littleEndian ((bytes.drop 16).take 8)),
   lane l.d (littleEndian ((bytes.drop 24).take 8))⟩

/-- The lanes brought together. -/
def Lanes.merge (l : Lanes) : UInt64 :=
  let sum := rotate l.a 1 + rotate l.b 7 + rotate l.c 12 + rotate l.d 18
  [l.a, l.b, l.c, l.d].foldl fold sum

/-- All blocks of 32 bytes taken in; the bytes that fill no block are left. -/
def blocks (l : Lanes) (bytes : List UInt8) : Lanes × List UInt8 :=
  if bytes.length < 32 then (l, bytes)
  else blocks (l.block (bytes.take 32)) (bytes.drop 32)
termination_by bytes.length
decreasing_by simp; omega

/-- Fewer than eight bytes taken in. -/
def tailBytes (acc : UInt64) (bytes : List UInt8) : UInt64 :=
  let (acc, bytes) :=
    if bytes.length < 4 then (acc, bytes)
    else
      (rotate (acc ^^^ (littleEndian (bytes.take 4) * prime1)) 23 * prime2 + prime3, bytes.drop 4)
  bytes.foldl (fun acc b => rotate (acc ^^^ (b.toUInt64 * prime5)) 11 * prime1) acc

/-- Fewer than 32 bytes taken in, eight at a time as long as they last. -/
def tailWords (acc : UInt64) (bytes : List UInt8) : UInt64 :=
  if bytes.length < 8 then tailBytes acc bytes
  else
    let word := lane 0 (littleEndian (bytes.take 8))
    tailWords (rotate (acc ^^^ word) 27 * prime1 + prime4) (bytes.drop 8)
termination_by bytes.length
decreasing_by simp; omega

/-- The final scramble. -/
def avalanche (x : UInt64) : UInt64 :=
  let x := (x ^^^ (x >>> 33)) * prime2
  let x := (x ^^^ (x >>> 29)) * prime3
  x ^^^ (x >>> 32)

/-- The digest of a byte string under a seed. -/
def xxh64 (seed : UInt64) (bytes : List UInt8) : UInt64 :=
  let start :=
    if bytes.length < 32 then (seed + prime5, bytes)
    else
      let (lanes, rest) := blocks (Lanes.start seed) bytes
      (lanes.merge, rest)
  avalanche (tailWords (start.1 + UInt64.ofNat bytes.length) start.2)

/-- The digest of a text's UTF-8 form under the seed zero. -/
def ofText (s : String) : UInt64 :=
  xxh64 0 s.toUTF8.data.toList

end FatArrow.Digest
