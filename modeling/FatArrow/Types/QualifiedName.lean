import FatArrow.Types.Fingerprint
import FatArrow.Decimal.Read

/-!
Dotted names of types: a simple name inside a path of namespaces. The simple name of a generic
type ends in a backtick and its number of parameters.
-/

namespace FatArrow

/-- A simple name inside a path of namespaces. -/
structure QualifiedName where
  path : List String
  name : String
deriving DecidableEq, Repr, Inhabited

/-- The pieces of a text between its dots. -/
def dottedPieces (s : String) : List String :=
  (s.toList.splitOnP (· == '.')).map String.ofList

/-- Pieces joined by dots. -/
def dotted (pieces : List String) : String :=
  ".".intercalate pieces

/-- A name without what follows its first backtick. -/
def stripArity (name : String) : String :=
  String.ofList (name.toList.takeWhile (· != '`'))

namespace QualifiedName

/-- A name outside any namespace. -/
def global (name : String) : QualifiedName := ⟨[], name⟩

/-- The name that a dotted text spells; empty pieces do not count. -/
def ofDotted (s : String) : QualifiedName :=
  let pieces := (dottedPieces s).filter (· != "")
  ⟨pieces.dropLast, pieces.getLastD ""⟩

/-- Outside any namespace. -/
def isGlobal (q : QualifiedName) : Bool := q.path.isEmpty

/-- The namespaces joined by dots. -/
def namespaceText (q : QualifiedName) : String := dotted q.path

/-- The dotted spelling. -/
def text (q : QualifiedName) : String :=
  if q.path.isEmpty then q.name else dotted q.path ++ "." ++ q.name

/-- The simple name without its number of parameters. -/
def displayName (q : QualifiedName) : String := stripArity q.name

/-- The number of generic parameters after the last backtick, zero without one. -/
def arity (q : QualifiedName) : Nat :=
  let back := q.name.toList.reverse
  let digits := back.takeWhile (· != '`')
  if digits.length = back.length then 0
  else
    match Decimal.natOfSigned? 10 digits.reverse with
    | some n => if n < UInt64.size then n else 0
    | none => 0

/-- A name one level below; an empty name adds no level. -/
def child (q : QualifiedName) (name : String) : QualifiedName :=
  ⟨if q.name = "" then q.path else q.path ++ [q.name], name⟩

/-- The name one level above, if there is one. -/
def parent? (q : QualifiedName) : Option QualifiedName :=
  q.path.getLast?.map fun last => ⟨q.path.dropLast, last⟩

/-- The fingerprint of the dotted spelling. -/
def fingerprint (q : QualifiedName) : Fingerprint := Fingerprint.ofName q.text

end QualifiedName

end FatArrow
