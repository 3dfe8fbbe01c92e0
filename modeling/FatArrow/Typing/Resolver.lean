import FatArrow.Host.Member
import FatArrow.Text.Casing

/-!
What a caller can say about names: the types of parameters without one, the methods that free names
mean, and the types that names mean.
-/

namespace FatArrow

/-- The answers of a caller. -/
structure Resolver where
  paramType? : (name : String) → Option HostType
  method? : (name : String) → (args : List HostType) → Option Method
  typeName? : (name : String) → Option HostType

/-- A caller that knows nothing. -/
def Resolver.none : Resolver := ⟨fun _ => .none, fun _ _ => .none, fun _ => .none⟩

/-- Parameter types by name; of two for one name the later counts. -/
def paramTypeIn (types : List (String × HostType)) (name : String) : Option HostType :=
  types.reverse.lookup name

/-- One type for all parameters, or for the one with a name. -/
def paramTypeOf (type : HostType) (only : Option String) (name : String) : Option HostType :=
  if only.all (· == name) then some type else none

/-- A table of static methods by name and parameter types. -/
structure MethodTable where
  ignoreCase : Bool
  entries : List ((String × List HostType) × Method)

namespace MethodTable

/-- The name under which a method is kept. -/
def key (ignoreCase : Bool) (name : String) : String :=
  if ignoreCase then Text.toUpper name else name

/-- The table with one more method. Only static methods with no unbound parameters are kept, and of
two with the same key the first. -/
def add (t : MethodTable) (m : Method) : MethodTable :=
  let place := (key t.ignoreCase m.name, m.params)
  if !m.isStatic || m.isGenericDefinition || (t.entries.lookup place).isSome then t
  else { t with entries := t.entries ++ [(place, m)] }

/-- The table of a list of methods. -/
def ofList (ignoreCase : Bool) (methods : List Method) : MethodTable :=
  methods.foldl add ⟨ignoreCase, []⟩

/-- The number of methods kept. -/
def size (t : MethodTable) : Nat := t.entries.length

/-- The method with a name and exactly the given parameter types. -/
def find? (t : MethodTable) (name : String) (args : List HostType) : Option Method :=
  t.entries.lookup (key t.ignoreCase name, args)

end MethodTable

/-- A table of types by every dotted ending of their names. -/
structure TypeTable where
  entries : List (String × HostType)

namespace TypeTable

/-- The name of a type, in the namespace of the host types if it is primitive. -/
def fullName? (t : HostType) : Option String :=
  match t.shape with
  | .primitive p => some ("System." ++ p.hostName)
  | .named name => some name.text
  | .array | .param _ => none

/-- The dotted endings of a list of pieces, the longest first. -/
def endings : List String → List String
  | [] => []
  | piece :: pieces => dotted (piece :: pieces) :: endings pieces

/-- The table with a type under one more name, if the name is not taken. -/
def put (type : HostType) (t : TypeTable) (name : String) : TypeTable :=
  if (t.entries.lookup name).isSome then t else ⟨t.entries ++ [(name, type)]⟩

/-- The table with one more type. -/
def add (t : TypeTable) (type : HostType) : TypeTable :=
  match fullName? type with
  | some name => (endings (dottedPieces name)).foldl (put type) t
  | none => t

/-- The table of a list of types. -/
def ofList (types : List HostType) : TypeTable := types.foldl add ⟨[]⟩

/-- The number of names. -/
def size (t : TypeTable) : Nat := t.entries.length

/-- The type with a name. -/
def find? (t : TypeTable) (name : String) : Option HostType := t.entries.lookup name

end TypeTable

end FatArrow
