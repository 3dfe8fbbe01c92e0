import FatArrow.Host.Basic
import FatArrow.Registry.Basic

/-!
What a type inherits. The lineage of a type is the type and its bases, breadth first and each entry
once, with generic arguments handed down on the way.
-/

namespace FatArrow

/-- An entry of a lineage and the type as which it was reached. -/
structure Ancestor where
  entry : TypeEntry
  receiver : HostType

/-- The types bound to the parameters of the entry that describes a type. -/
def HostType.actuals (t : HostType) : List HostType :=
  if t.nullable then [t.underlying] else t.args

namespace TypeEntry

/-- A type inside an entry, as it is for a receiver with arguments. -/
def bind (e : TypeEntry) (actuals : List HostType) (t : HostType) : HostType :=
  if e.isGeneric then t.subst actuals else t

end TypeEntry

namespace Ancestor

/-- A member of the entry, as it is for the receiver. -/
def bindMember (a : Ancestor) (m : Member) : Member :=
  if a.entry.isGeneric then
    { m with declaring := a.receiver, type := m.type.subst a.receiver.actuals }
  else m

/-- A method of the entry, as it is for the receiver. -/
def bindMethod (a : Ancestor) (m : Method) : Method :=
  if a.entry.isGeneric then
    { m with
      declaring := some a.receiver
      params := m.params.map (·.subst a.receiver.actuals)
      returns := m.returns.subst a.receiver.actuals }
  else m

end Ancestor

namespace Registry

/-- Whether a registered entry describes a type. -/
def describes (t : HostType) (e : Fingerprint × TypeEntry) : Bool := t.key? == some e.1

/-- The lineages of the types in a queue, where `rest` holds the entries not met yet. -/
def lineageFrom (rest : List (Fingerprint × TypeEntry)) (queue : List HostType) :
    List Ancestor :=
  match queue with
  | [] => []
  | t :: queue =>
    match _ : rest.find? (describes t) with
    | none => lineageFrom rest queue
    | some (_, e) =>
      ⟨e, t⟩ :: lineageFrom (rest.eraseP (describes t)) (queue ++ e.bases.map (e.bind t.actuals))
termination_by (rest.length, queue.length)
decreasing_by
  · simp [Prod.lex_def]
  · rename_i found
    have member := List.mem_of_find?_eq_some found
    have shorter := List.length_eraseP_of_mem member (List.find?_some found)
    have := List.length_pos_of_mem member
    simp only [Prod.lex_def]
    omega

/-- A type and its bases, the nearest first. -/
def lineage (r : Registry) (t : HostType) : List Ancestor := lineageFrom r.types [t]

/-- Where the edges from a node lead. -/
def basesOf (edges : List (Fingerprint × Fingerprint)) (key : Fingerprint) : List Fingerprint :=
  (edges.filter (·.1 == key)).map (·.2)

/-- The edges from other nodes. -/
def elsewhere (edges : List (Fingerprint × Fingerprint)) (key : Fingerprint) :
    List (Fingerprint × Fingerprint) :=
  edges.filter (·.1 != key)

theorem length_elsewhere_add_length_basesOf (edges : List (Fingerprint × Fingerprint))
    (key : Fingerprint) :
    (elsewhere edges key).length + (basesOf edges key).length = edges.length := by
  induction edges with
  | nil => rfl
  | cons e edges ih =>
    simp only [elsewhere, basesOf, List.length_map] at ih ⊢
    by_cases h : e.1 = key
    · simp [h]; omega
    · simp [h]; omega

/-- Everything that is reached from a queue along edges; each edge is followed once. -/
def reached (edges : List (Fingerprint × Fingerprint)) (queue : List Fingerprint) :
    List Fingerprint :=
  match queue with
  | [] => []
  | key :: queue => key :: reached (elsewhere edges key) (queue ++ basesOf edges key)
termination_by edges.length + queue.length
decreasing_by
  have := length_elsewhere_add_length_basesOf edges key
  simp only [List.length_append, List.length_cons]
  omega

/-- Whether declared bases lead from one type to another. -/
def derivesFrom (r : Registry) (derived base : HostType) : Bool :=
  match derived.key?, base.key? with
  | some d, some b => d != b && (reached r.edges [d]).contains b
  | _, _ => false

/-- The type of the items of a sequence. Texts are none; of other types the first entry of the
lineage that says so decides. -/
def itemType? (r : Registry) (t : HostType) : Option HostType :=
  if t.nullable || t.isString then none
  else
    match t.element? with
    | some element => some element
    | none =>
      let said : Option (Option HostType) := (r.lineage t).findSome? fun a =>
        match a.entry.itemType with
        | some item => some (some (a.entry.bind a.receiver.actuals item))
        | none =>
          if a.entry.name.text = WellKnown.enumerable then some a.receiver.actuals.head? else none
      said.getD none

/-- The order of the registered types. A derived type can stand for a base without arguments. -/
def order (r : Registry) : TypeOrder where
  itemType? := r.itemType?
  derives target source :=
    target.args.isEmpty && !source.nullable && !target.nullable && r.derivesFrom source target

/-! ## Answers -/

/-- The type of a name, unless its module is explicit. -/
def typeOf? (r : Registry) (name : String) : Option HostType :=
  (r.named? name).bind fun e => if r.isExplicit e.module then none else some e.type

/-- The type of a name for one who names a module. -/
def typeIn? (r : Registry) (name module : String) : Option HostType :=
  (r.named? name).bind fun e =>
    if e.module = module ∨ ¬ r.isExplicit e.module then some e.type else none

/-- The methods of a type with a name. Those of a base are hidden by nearer ones with the same
parameters. -/
def methods (r : Registry) (t : HostType) (name : String) : List Method :=
  ((r.lineage t).flatMap fun a => (a.entry.overloads name).map a.bindMethod).foldl
    (fun found m => if found.any (·.params == m.params) then found else found ++ [m]) []

/-- The constructor of a type for arguments of given types: one with exactly these parameters, or
else the first that they can stand for. -/
def constructor? (r : Registry) (t : HostType) (args : List HostType) : Option Constructor :=
  (r.entry? t).bind fun e =>
    let candidates := (e.constructors.filter (·.params.length == args.length)).map fun c =>
      { c with declaring := t, params := c.params.map (e.bind t.actuals) }
    (candidates.find? (·.params == args)).or
      (candidates.find? fun c => (c.params.zip args).all fun (p, a) => r.order.assignable p a)

/-- The registry as a host. -/
def host (r : Registry) : Host where
  toTypeOrder := r.order
  typeOf? := r.typeOf?
  typeIn? := r.typeIn?
  property? t name :=
    (r.lineage t).findSome? fun a => (a.entry.property? name).map a.bindMember
  field? t name := (r.lineage t).findSome? fun a => (a.entry.field? name).map a.bindMember
  methods := r.methods
  constructor? := r.constructor?
  nested? t name := (r.entry? t).bind (·.nested? name)

/-- The methods of a type's own entry that need no receiver. -/
def staticMethods (r : Registry) (t : HostType) : List Method :=
  ((r.entry? t).map (·.staticMethods)).getD []

end Registry

end FatArrow
