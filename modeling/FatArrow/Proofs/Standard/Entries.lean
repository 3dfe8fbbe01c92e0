import FatArrow.Proofs.Typing.ReadTypes
import FatArrow.Proofs.Typing.Statics
import FatArrow.Standard.Modules

/-!
# The standard entries

What the standard modules say of their types does not depend on the surroundings, apart from what
their native functions do.  So it is checked once, on the entries without these.
-/

namespace FatArrow.Standard

/-! ## 1. Entries without native functions -/

/-- The entries of the standard modules. -/
def entries (around : Surroundings) : List TypeEntry := (modules around).flatMap HostModule.entries

/-- The standard entries without their native functions. -/
def outlines : List TypeEntry := (entries .still).map TypeEntry.outline

theorem map_outline_entries (around : Surroundings) :
    (entries around).map TypeEntry.outline = outlines := rfl

/-- The names of the standard types. -/
def names : Host := Host.ofEntries outlines (Registry.explicitNames (modules .still))

/-- The type that a name means among the standard types. -/
def typeNamed? (name : String) : Option HostType := Namespaces.system.typeOf? names name

/-- A type is printed as a name that means it. -/
def isPrinted (type : HostType) : Bool :=
  (type.printedName? .system).any fun name =>
    Syntax.isName name && typeNamed? name == some type

/-! ## 2. What is checked -/

/-- The type of an entry is read where it is printed. -/
def ReadsName (e : TypeEntry) : Prop :=
  ('`' ∉ e.name.name.toList → isPrinted e.type = true) ∧ ('`' ∈ e.name.name.toList →
    e.type = .applied e.name [.param 0] ∧ stripArity e.name.name ++ "`" ++ toString 1 = e.name.name ∧
      (∀ piece ∈ Namespaces.system.pieces e.name, Syntax.isName piece = true) ∧
        typeNamed? (dotted (Namespaces.system.pieces e.name) ++ "`" ++ toString 1) = some e.type)

/-- The type of an entry has no arguments. -/
abbrev IsPlain (e : TypeEntry) : Prop :=
  '`' ∉ e.name.name.toList ∧ e.isGeneric = false ∧ e.type.key? = some e.key

/-- A type is no base of another, and has none. -/
def IsAlone (e : TypeEntry) : Prop :=
  e.bases = [] ∧ ∀ d ∈ outlines, ∀ base ∈ d.bases, base.key?.any (· != e.key) = true

/-- Static members are properties, and methods of types that stand alone. -/
def NamesStatics (e : TypeEntry) : Prop :=
  e.fields.isEmpty = true ∧
    (∀ m ∈ e.properties, m.isStatic = true →
      IsPlain e ∧ m.declaring = e.type ∧ Syntax.isName m.name = true) ∧
    (e.staticMethods.isEmpty = false → IsPlain e ∧ IsAlone e) ∧
    ∀ m ∈ e.methods, m.typeArgs = [] ∧
      (m.isStatic = true → m.declaring = some e.type ∧ Syntax.isName m.name = true)

/-- A type is that of the sequences of some item. -/
def isSequence (type : HostType) : Bool :=
  match type.args with
  | [item] => type == .sequenceOf item
  | _ => false

/-- A generic method is a sequence operation, and a sequence operation is as it should be. -/
def OrdersSequence (e : TypeEntry) (m : Method) : Prop :=
  (m.arity ≠ 0 → m.isSequenceOp = true) ∧ (m.isSequenceOp = true →
    names.sequenceOps? = some e.type ∧ m.params.head?.any isSequence = true ∧
      (∀ n ∈ e.methods, n.isStatic = n.isSequenceOp) ∧
      (m.arity = 0 → (∀ n ∈ e.methods, n.name = m.name → n.arity = 0) ∧
        ∀ d ∈ outlines, ∀ n ∈ d.methods, n.name = m.name → n.isStatic = true))

instance : DecidablePred ReadsName := fun _ => instDecidableAnd

instance : DecidablePred IsAlone := fun _ => instDecidableAnd

instance : DecidablePred NamesStatics := fun _ => instDecidableAnd

instance (e : TypeEntry) : DecidablePred (OrdersSequence e) := fun _ => instDecidableAnd

theorem outlines_checked :
    ∀ e ∈ outlines, ReadsName e ∧ NamesStatics e ∧ ∀ m ∈ e.methods, OrdersSequence e m := by
  decide +kernel

theorem outlines_nodup : (outlines.map TypeEntry.key).Nodup := by decide +kernel

theorem outlines_primitive : ∀ p ∈ Primitive.all, p ≠ .void →
    ∃ e ∈ outlines, e.type = .primitive p ∧ '`' ∉ e.name.name.toList := by
  decide

theorem outlines_nullable :
    (typeNamed? ("Nullable" ++ "`" ++ toString 1)).any (·.isNamed WellKnown.nullable) = true := by
  decide

theorem outlines_sequence : ∃ e ∈ outlines, e.itemType.isSome = true ∧
    e.key = (QualifiedName.ofDotted WellKnown.enumerable).fingerprint := by
  decide +kernel

/-! ## 3. What holds of the entries -/

/-- A registry filled with the standard modules, with nothing else known of types. -/
structure Fills (s : Surface) (r : Registry) (around : Surroundings) : Prop where
  installed : Registry.empty.installAll (modules around) = .ok r
  host : s.host = r.host
  namespaces : s.namespaces = .system
  resolver : s.resolver = .none

namespace Fills

variable {s : Surface} {r : Registry} {around : Surroundings}

theorem lists (h : Fills s r around) : r.Lists (entries around) := by
  refine Registry.lists_empty.installAll h.installed ?_
  -- keys are kept by outlines
  have hkeys : (entries around).map TypeEntry.key = outlines.map TypeEntry.key := by
    rw [← map_outline_entries around, List.map_map]
    rfl
  show ((entries around).map TypeEntry.key).Nodup
  rw [hkeys]
  exact outlines_nodup

theorem explicit (h : Fills s r around) :
    r.explicit = Registry.explicitNames (modules .still) := by
  rw [Registry.installAll_explicit h.installed]
  rfl

/-- Names mean what they mean among the outlines. -/
theorem typeNamed? (h : Fills s r around) (name : String) :
    s.typeNamed? name = Standard.typeNamed? name := by
  rw [Surface.typeNamed?, h.resolver, h.namespaces, h.host, h.lists.typeOf?, h.explicit,
    ← Host.ofEntries_outline, map_outline_entries]
  rfl

theorem prints (h : Fills s r around) {type : HostType} (ht : isPrinted type = true) :
    s.Prints type := by
  obtain ⟨name, hname, ht⟩ := (Option.any_eq_true _ _).mp ht
  rw [Bool.and_eq_true, beq_iff_eq] at ht
  rw [← h.namespaces] at hname
  exact ⟨name, hname, ht.1, (h.typeNamed? name).trans ht.2⟩

theorem outline_mem {e : TypeEntry} (he : e ∈ entries around) : e.outline ∈ outlines :=
  map_outline_entries around ▸ List.mem_map_of_mem he

theorem exists_of_mem_outlines (around : Surroundings) {e : TypeEntry} (he : e ∈ outlines) :
    ∃ d ∈ entries around, d.outline = e :=
  List.mem_map.mp (map_outline_entries around ▸ he)

theorem prints_of_plain (h : Fills s r around) {e : TypeEntry} (he : e ∈ outlines)
    (hplain : '`' ∉ e.name.name.toList) : s.Prints e.type :=
  h.prints ((outlines_checked e he).1.1 hplain)

theorem prints_primitive (h : Fills s r around) {p : Primitive} (hvoid : p ≠ .void) :
    s.Prints (.primitive p) := by
  obtain ⟨e, he, htype, hplain⟩ := outlines_primitive p p.mem_all hvoid
  exact htype ▸ h.prints_of_plain he hplain

theorem prints_keyword (h : Fills s r around) {word : String} {p : Primitive}
    (hp : Primitive.ofKeyword? word = some p) : s.Prints (.primitive p) := by
  refine h.prints_primitive ?_
  rintro rfl
  unfold Primitive.ofKeyword? at hp
  split at hp <;> cases hp

/-- Every type that a name can mean is read where it is printed. -/
theorem readsEntries (h : Fills s r around) : s.ReadsEntries (entries around) where
  found name type ht := by
    rw [Surface.typeNamed?, h.resolver, h.host, h.lists.typeOf?] at ht
    exact Namespaces.exists_of_typeOf? ht
  keyword _ _ := h.prints_keyword
  plain e he hplain := h.prints_of_plain (e := e.outline) (outline_mem he) hplain
  generic e he hgeneric := by
    obtain ⟨htype, harity, hnames, hnamed⟩ := (outlines_checked _ (outline_mem he)).1.2 hgeneric
    refine ⟨htype, harity, ?_, ?_⟩
    · rw [h.namespaces]
      exact hnames
    · rw [h.namespaces, h.typeNamed?]
      exact hnamed
  nullable := by
    obtain ⟨type, htype, hnamed⟩ := (Option.any_eq_true _ _).mp outlines_nullable
    exact ⟨type, (h.typeNamed? _).trans htype, hnamed⟩

end Fills

end FatArrow.Standard
