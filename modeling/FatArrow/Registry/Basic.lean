import FatArrow.Registry.Module
import FatArrow.Registry.NameIndex

/-!
The registry of host types, filled module by module. A type is registered under its dotted name,
after its bases; a failed installation keeps what it registered before it failed.
-/

namespace FatArrow

/-- The registered types, by fingerprint, and the edges from derived types to their bases. -/
structure Registry where
  index : NameIndex
  types : List (Fingerprint × TypeEntry)
  explicit : List String
  edges : List (Fingerprint × Fingerprint)

/-- What stands for the entry that describes a type: a nullable type is described by the entry of
all nullable types, a primitive type by its host type. Arrays and parameters have none. -/
def HostType.key? (t : HostType) : Option Fingerprint :=
  if t.nullable then some (Fingerprint.ofName WellKnown.nullable)
  else
    match t.shape with
    | .primitive p => some (Fingerprint.ofName ("System." ++ p.hostName))
    | .named name => some name.fingerprint
    | .array | .param _ => none

namespace Registry

/-- No type yet. -/
def empty : Registry := ⟨NameIndex.empty, [], [], []⟩

/-- The entry with a fingerprint. -/
def get? (r : Registry) (key : Fingerprint) : Option TypeEntry := r.types.lookup key

/-- The entry with a dotted name, whatever its module. -/
def named? (r : Registry) (name : String) : Option TypeEntry :=
  (r.index.resolve? name).bind r.get?

/-- The entry that describes a type. -/
def entry? (r : Registry) (type : HostType) : Option TypeEntry := type.key?.bind r.get?

/-- Whether a module shows its types only to those who name it. -/
def isExplicit (r : Registry) (module : String) : Bool := r.explicit.contains module

/-! ## Registering -/

/-- The fingerprints of the bases of an entry, or the first base without an entry. -/
def baseKeys (r : Registry) : List HostType → Except HostType (List Fingerprint)
  | [] => .ok []
  | base :: bases =>
    match base.key? with
    | some key =>
      if (r.get? key).isSome then (r.baseKeys bases).map (key :: ·) else .error base
    | none => .error base

/-- Whether two methods cannot be told apart by a call. -/
def clashes (a b : Method) : Bool :=
  a.name == b.name && a.isStatic == b.isStatic && a.signature == b.signature

/-- The first method that clashes with an earlier one. -/
def repeated? (earlier : List Method) : List Method → Option Method
  | [] => none
  | m :: ms => if earlier.any (clashes m) then some m else repeated? (earlier ++ [m]) ms

/-- The registry with an entry in place of any other of its fingerprint. -/
def put (types : List (Fingerprint × TypeEntry)) (e : TypeEntry) :
    List (Fingerprint × TypeEntry) :=
  types.filter (·.1 != e.key) ++ [(e.key, e)]

/-- The registry with one more entry. Its bases come before it, its methods can be told apart, and
its name is new. -/
def register (r : Registry) (e : TypeEntry) : Except RegistrationError Registry :=
  match r.baseKeys e.bases with
  | .error base => .error (.unknownBase e.name.text base.text)
  | .ok keys =>
    match repeated? [] e.methods with
    | some m => .error (.duplicateMethod e.name.text m.name)
    | none =>
      match r.index.register e.name.path e.name.name e.key with
      | .error failure => .error failure
      | .ok index =>
        .ok { r with index, types := put r.types e, edges := r.edges ++ keys.map (e.key, ·) }

/-- Entries registered one after another, up to the first that fails. -/
def registerAll (r : Registry) : List TypeEntry → Registry × Except RegistrationError Unit
  | [] => (r, .ok ())
  | e :: es =>
    match r.register e with
    | .ok r => r.registerAll es
    | .error failure => (r, .error failure)

/-- The registry after the installation of a module, and whether it succeeded. -/
def install (r : Registry) (m : HostModule) : Registry × Except RegistrationError Unit :=
  if m.path.any (·.toList.contains '`') then (r, .error (.invalidNamespace m.name))
  else
    let r := if m.isExplicit then { r with explicit := m.name :: r.explicit } else r
    r.registerAll m.entries

/-- The registry after the installation of modules up to the first that fails. -/
def installAll (r : Registry) : List HostModule → Except RegistrationError Registry
  | [] => .ok r
  | m :: ms =>
    match r.install m with
    | (r, .ok ()) => r.installAll ms
    | (_, .error failure) => .error failure

end Registry

end FatArrow
