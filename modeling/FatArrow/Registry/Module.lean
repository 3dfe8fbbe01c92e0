import FatArrow.Host.Member

/-!
Modules: host types declared together in a namespace, and the entries that a registry keeps of
them. Declared members are completed with the type they are declared in.
-/

namespace FatArrow

/-- What a registry knows of one type. In the members of a generic type its own parameters stand
for the arguments. -/
structure TypeEntry where
  name : QualifiedName
  type : HostType
  module : String
  arity : Nat
  properties : List Member
  fields : List Member
  methods : List Method
  constructors : List Constructor
  nested : List (String × HostType)
  bases : List HostType
  itemType : Option HostType

namespace TypeEntry

/-- What stands for the type in a registry. -/
def key (e : TypeEntry) : Fingerprint := e.name.fingerprint

/-- A type with parameters. -/
def isGeneric (e : TypeEntry) : Bool := e.arity > 0

/-- The last member with a name; later declarations replace earlier ones. -/
def lastNamed? (members : List Member) (name : String) : Option Member :=
  members.reverse.find? (·.name == name)

/-- The property with a name. -/
def property? (e : TypeEntry) (name : String) : Option Member := lastNamed? e.properties name

/-- The field with a name. -/
def field? (e : TypeEntry) (name : String) : Option Member := lastNamed? e.fields name

/-- The methods with a name, in the order of their declaration. -/
def overloads (e : TypeEntry) (name : String) : List Method := e.methods.filter (·.name == name)

/-- The methods that need no receiver. -/
def staticMethods (e : TypeEntry) : List Method := e.methods.filter (·.isStatic)

/-- The nested type with a name; later declarations replace earlier ones. -/
def nested? (e : TypeEntry) (name : String) : Option HostType := e.nested.reverse.lookup name

end TypeEntry

/-- A property or field as it is declared. -/
structure MemberDecl where
  name : String
  type : HostType
  isStatic : Bool
  getter : Native

/-- A constructor as it is declared. -/
structure ConstructorDecl where
  params : List HostType
  invoker : Native

/-- A type as it is declared. -/
structure TypeDecl where
  name : String
  primitive : Option Primitive
  arity : Nat
  properties : List MemberDecl
  fields : List MemberDecl
  methods : List Method
  constructors : List ConstructorDecl
  nested : List TypeDecl
  bases : List HostType
  itemType : Option HostType

namespace TypeDecl

/-- A type without members. -/
def ofName (name : String) : TypeDecl := ⟨name, none, 0, [], [], [], [], [], [], none⟩

/-- The members of a primitive type. -/
def ofPrimitive (p : Primitive) : TypeDecl :=
  { ofName p.hostName with primitive := some p }

/-- The type that a declaration describes; its own parameters stand for the arguments. -/
def type (d : TypeDecl) (name : QualifiedName) : HostType :=
  match d.primitive with
  | some p => .primitive p
  | none => .applied name ((List.range d.arity).map HostType.param)

/-- A declared member of a type. -/
def member (declaring : HostType) (isField : Bool) (d : MemberDecl) : Member :=
  ⟨d.name, declaring, d.type, d.isStatic, isField, some d.getter⟩

/-- The entry of a declaration below a parent. -/
def entry (d : TypeDecl) (parent : QualifiedName) (module : String) : TypeEntry :=
  let name := parent.child d.name
  let type := d.type name
  { name, type, module
    arity := d.arity
    properties := d.properties.map (member type false)
    fields := d.fields.map (member type true)
    methods := d.methods.map fun m => { m with declaring := some type }
    constructors := d.constructors.map fun c => ⟨type, c.params, some c.invoker⟩
    nested := d.nested.map fun n => (n.name, n.type (name.child n.name))
    bases := d.bases
    itemType := d.itemType }

mutual
/-- The entry of a declaration, followed by those of the types nested in it. -/
def entries (parent : QualifiedName) (module : String) (d : TypeDecl) : List TypeEntry :=
  match d with
  | ⟨name, primitive, arity, properties, fields, methods, constructors, nested, bases, item⟩ =>
    entry ⟨name, primitive, arity, properties, fields, methods, constructors, nested, bases, item⟩
        parent module
      :: entriesList (parent.child name) module nested

/-- The entries of a list of declarations. -/
def entriesList (parent : QualifiedName) (module : String) : List TypeDecl → List TypeEntry
  | [] => []
  | d :: ds => d.entries parent module ++ entriesList parent module ds
end

end TypeDecl

/-- Types declared together. The types of an explicit module are seen only by those who name it. -/
structure HostModule where
  path : List String
  name : String
  isExplicit : Bool
  types : List TypeDecl

namespace HostModule

/-- A module of a dotted namespace, named after it. -/
def ofNamespace (text : String) (types : List TypeDecl) : HostModule :=
  ⟨(dottedPieces text).filter (· != ""), text, false, types⟩

/-- The entries of a module in the order of their declaration. -/
def entries (m : HostModule) : List TypeEntry :=
  TypeDecl.entriesList ⟨m.path, ""⟩ m.name m.types

end HostModule

end FatArrow
