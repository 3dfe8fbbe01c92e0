import FatArrow.Host.Basic

/-!
Default namespaces. Types are looked for in them by their simple names, and names of types in them
are written short.
-/

namespace FatArrow

/-- A default namespace, and the module to name when its types are looked up. -/
structure NamespaceEntry where
  name : String
  module : Option String
deriving DecidableEq, Repr

/-- Default namespaces in the order in which they are tried. -/
abbrev Namespaces := List NamespaceEntry

namespace Namespaces

/-- The namespaces of the standard types. -/
def system : Namespaces := [
  ⟨"System", none⟩, ⟨"System.Linq", some WellKnown.sequenceOpsModule⟩,
  ⟨"System.Globalization", none⟩]

/-- Whether types of a namespace are written short. -/
def isDefault (ns : Namespaces) (name : String) : Bool := ns.any (·.name == name)

/-- The type of a name in an entry's namespace. -/
def typeUnder? (h : Host) (entry : NamespaceEntry) (name : String) : Option HostType :=
  let full := entry.name ++ "." ++ name
  match entry.module with
  | some module => h.typeIn? full module
  | none => h.typeOf? full

/-- The type of a full name; a name below the namespace of an entry with a module is looked up in
that module, too. -/
def typeNamed? (h : Host) (ns : Namespaces) (name : String) : Option HostType :=
  (h.typeOf? name).or (ns.findSome? fun entry => do
    let module ← entry.module
    if (entry.name ++ ".").toList.isPrefixOf name.toList then h.typeIn? name module else none)

/-- The type of a name by itself or in a default namespace, and else of what is left of it without
its first pieces. -/
def typeOfPieces? (h : Host) (ns : Namespaces) : List String → Option HostType
  | [] => none
  | piece :: pieces =>
    let name := dotted (piece :: pieces)
    match (typeNamed? h ns name).or (ns.findSome? fun entry => typeUnder? h entry name) with
    | some type => some type
    | none => if dotted pieces = "" then none else typeOfPieces? h ns pieces

/-- The type that a bare or dotted name means. -/
def typeOf? (h : Host) (ns : Namespaces) (name : String) : Option HostType :=
  typeOfPieces? h ns (dottedPieces name)

end Namespaces

end FatArrow
