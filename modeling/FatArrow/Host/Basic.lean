import FatArrow.Host.Member
import FatArrow.Host.TypeOrder

/-!
Hosts. A host answers questions about types: which type a name means, which members, methods and
constructors a type has, and which type can stand for which.
-/

namespace FatArrow

/-- The answers of a host. -/
structure Host extends TypeOrder where
  /-- The type that a dotted name means. -/
  typeOf? : (name : String) → Option HostType
  /-- The type that a dotted name means to one who names a module. -/
  typeIn? : (name module : String) → Option HostType
  /-- A property of a type. -/
  property? : HostType → (name : String) → Option Member
  /-- A field of a type. -/
  field? : HostType → (name : String) → Option Member
  /-- All methods of a type with a name. -/
  methods : HostType → (name : String) → List Method
  /-- The constructor of a type for arguments of given types. -/
  constructor? : HostType → (args : List HostType) → Option Constructor
  /-- A type nested in a type. -/
  nested? : HostType → (name : String) → Option HostType

namespace Host

/-- A host that takes every name for a type and knows a list of methods, and nothing else. -/
def bare (known : List Method) : Host where
  toTypeOrder := TypeOrder.bare
  typeOf? name := if name = "" then none else some (.named name)
  typeIn? name _ := if name = "" then none else some (.named name)
  property? _ _ := none
  field? _ _ := none
  methods _ name := known.filter (·.name == name)
  constructor? _ _ := none
  nested? _ _ := none

/-- The method whose parameters have exactly the given types. -/
def method? (h : Host) (type : HostType) (name : String) (args : List HostType) :
    Option Method :=
  (h.methods type name).find? fun m => !m.isGenericDefinition && m.params == args

/-- The type that holds the sequence operations. -/
def sequenceOps? (h : Host) : Option HostType :=
  h.typeIn? WellKnown.sequenceOps WellKnown.sequenceOpsModule

end Host

end FatArrow
