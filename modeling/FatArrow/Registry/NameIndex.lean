import FatArrow.Types.QualifiedName

/-!
The index of registered names: which fingerprint is registered where, and under which dotted name
a fingerprint was registered last.
-/

namespace FatArrow

/-- Why a type or a module is not registered. -/
inductive RegistrationError where
  | duplicateType (name : String)
  | unknownBase (type base : String)
  | duplicateMethod (type method : String)
  | invalidNamespace (name : String)
deriving DecidableEq, Repr

/-- What is said about a failed registration. -/
def RegistrationError.message : RegistrationError → String
  | .duplicateType name => "duplicate type: " ++ name
  | .unknownBase type base => s!"type '{type}': unknown base type '{base}'"
  | .duplicateMethod type method => s!"type '{type}': duplicate overload of '{method}'"
  | .invalidNamespace name => s!"invalid namespace: '{name}'"

/-- Registered places, by path and simple name, and dotted names by fingerprint. -/
structure NameIndex where
  places : List ((List String × String) × Fingerprint)
  names : List (Fingerprint × String)
deriving DecidableEq, Repr

namespace NameIndex

/-- No name yet. -/
def empty : NameIndex := ⟨[], []⟩

/-- What is registered at a place. -/
def at? (index : NameIndex) (path : List String) (name : String) : Option Fingerprint :=
  index.places.lookup (path, name)

/-- The index with one more name, which has to have no empty part and to be new at its place. -/
def register (index : NameIndex) (path : List String) (name : String) (key : Fingerprint) :
    Except RegistrationError NameIndex :=
  let full := dotted (path ++ [name])
  if name = "" ∨ path.contains "" then .error (.invalidNamespace full)
  else if (index.at? path name).isSome then .error (.duplicateType full)
  else
    .ok ⟨index.places ++ [((path, name), key)], (key, full) :: index.names⟩

/-- What a dotted name means: the last piece is the simple name. -/
def resolve? (index : NameIndex) (name : String) : Option Fingerprint :=
  let pieces := dottedPieces name
  index.at? pieces.dropLast (pieces.getLastD "")

/-- The dotted name under which a fingerprint was registered last. -/
def nameOf? (index : NameIndex) (key : Fingerprint) : Option String :=
  index.names.lookup key

/-- What is registered directly in a namespace. -/
def declaredIn (index : NameIndex) (path : List String) : List Fingerprint :=
  (index.places.filter (·.1.1 == path)).map (·.2)

end NameIndex

end FatArrow
