import FatArrow.Proofs.Registry.Inheritance
import FatArrow.Proofs.Standard.Types
import FatArrow.Proofs.Typing.Reselection

/-!
# What the standard types are made of

The descriptions of the standard types speak of nothing but the standard types, and of the parameter
of a description that has one.  So the types that are made of the standard ones are closed: under bases
and items, under the members and the methods of instances, and under sequence operations.
-/

namespace FatArrow.Standard

/-! ## 1. What is checked -/

/-- A type without arguments, or the parameter of an open description. -/
def isAtom (isOpen : Bool) (t : HostType) : Bool :=
  (isOpen && t == .param 0) || outlines.any fun e => !e.isGeneric && e.type == t

/-- A type that a description speaks of: an atom, or the sequences of one. -/
def isMade (isOpen : Bool) (t : HostType) : Bool :=
  isAtom isOpen t || match t.args with
    | [item] => t == .sequenceOf item && isAtom isOpen item
    | _ => false

/-- The names of the types that take an argument. -/
def genericNames : List String := WellKnown.nullable :: sequenceNames

/-- A type without parameters has no arguments, no bases and no items. -/
def IsGround (e : TypeEntry) : Prop :=
  e.isGeneric = false → e.type.args = [] ∧ e.type.nullable = false ∧ e.type.key? = some e.key ∧
    e.type.isNamed WellKnown.enumerable = false ∧ e.bases = [] ∧ e.itemType = none

/-- The members of instances have names, and types that are made of what is described; no method of an
instance is generic. -/
def DescribesInstances (e : TypeEntry) : Prop :=
  (∀ m ∈ e.properties, m.isStatic = false →
    Syntax.isName m.name = true ∧ isMade e.isGeneric m.type = true) ∧
  (∀ m ∈ e.methods, m.isStatic = false → Syntax.isName m.name = true ∧ m.arity = 0 ∧
    ∀ type ∈ m.returns :: m.params, isMade e.isGeneric type = true) ∧
  ∀ m ∈ e.methods, m.name = "get_Item" → m.params ≠ []

/-- Bases, items and sequence operations are made of what is described, and so are the parameters of
constructors, which have different numbers of them. -/
def DescribesMaking (e : TypeEntry) : Prop :=
  (∀ type ∈ e.bases ++ e.itemType.toList, isMade e.isGeneric type = true) ∧
  (∀ m ∈ e.methods, m.isSequenceOp = true → m.arity ≤ 1 ∧
    ∀ type ∈ m.returns :: m.params, isMade (m.arity == 1) type = true) ∧
  (∀ c ∈ e.constructors, ∀ type ∈ c.params, isMade e.isGeneric type = true) ∧
    (e.constructors.map (·.params.length)).Nodup

instance (e : TypeEntry) : Decidable (IsGround e) := inferInstanceAs (Decidable (_ → _))

instance : DecidablePred DescribesInstances := fun _ => instDecidableAnd

instance : DecidablePred DescribesMaking := fun _ => instDecidableAnd

theorem outlines_described :
    ∀ e ∈ outlines, IsGround e ∧ DescribesInstances e ∧ DescribesMaking e := by
  decide +kernel

theorem outlines_generic : ∀ e ∈ outlines, e.isGeneric = true → '`' ∈ e.name.name.toList ∧
    ∃ name ∈ genericNames, e.name = .ofDotted name ∧ e.type = .applied e.name [.param 0] := by
  decide +kernel

theorem outlines_bases : ∀ e ∈ outlines, ∀ base ∈ e.bases,
    base.key? = some (QualifiedName.ofDotted WellKnown.enumerable).fingerprint := by
  decide +kernel

theorem outlines_items : (∃ e ∈ outlines,
      (QualifiedName.ofDotted WellKnown.enumerable).fingerprint = e.key ∧
        e.itemType = some (.param 0) ∧ e.isGeneric = true) ∧
    ∀ e ∈ outlines, e.itemType = none → e.name.text ≠ WellKnown.enumerable := by
  decide +kernel

theorem isValueType_listOf (item : HostType) : (listOf item).isValueType = false := by
  show List.contains _ (QualifiedName.ofDotted _).text = false
  decide

theorem isValueType_sequenceOf (item : HostType) : (HostType.sequenceOf item).isValueType = false := by
  show List.contains _ (QualifiedName.ofDotted _).text = false
  decide

/-! ## 2. Types that are made of the standard ones -/

variable {s : Surface} {r : Registry} {around : Surroundings} {t item : HostType} {e : TypeEntry}

theorem ground (he : e ∈ entries around) : IsGround e :=
  (outlines_described e.outline (Fills.outline_mem he)).1

theorem instances (he : e ∈ entries around) : DescribesInstances e.outline :=
  (outlines_described e.outline (Fills.outline_mem he)).2.1

theorem making (he : e ∈ entries around) : DescribesMaking e.outline :=
  (outlines_described e.outline (Fills.outline_mem he)).2.2

namespace Makes

theorem of_outline {o : TypeEntry} (ho : o ∈ outlines) (hplain : o.isGeneric = false) :
    Makes around o.type := by
  obtain ⟨e, he, rfl⟩ := Fills.exists_of_mem_outlines around ho
  exact Makes.named (e := e) he hplain

theorem underlying (ht : Makes around t) : Makes around t.underlying := by
  induction ht with
  | primitive hp => exact .primitive hp
  | @named e he hplain =>
    rw [HostType.underlying_eq_self (ground he hplain).2.1]
    exact .named he hplain
  | list ht _ => exact .list ht
  | sequence ht _ => exact .sequence ht
  | array ht _ => exact .array ht
  | nullable _ _ ih => exact ih

/-- A type that is made of the standard ones is a value type with null added; without null, it is the
type of an entry without parameters, or the lists, the sequences or the arrays of such a type. -/
theorem cases (ht : Makes around t) : t.nullable = true ∧ t.isValueType = true ∨
    t.nullable = false ∧ ((∃ e ∈ entries around, e.isGeneric = false ∧ e.type = t) ∨
      ∃ item, Makes around item ∧ (t = listOf item ∨ t = .sequenceOf item ∨ t = .arrayOf item)) := by
  cases ht with
  | @primitive p hp =>
    obtain ⟨o, ho, htype, hname⟩ := outlines_primitive p p.mem_all hp
    obtain ⟨e, he, rfl⟩ := Fills.exists_of_mem_outlines around ho
    refine .inr ⟨rfl, .inl ⟨e, he, ?_, htype⟩⟩
    rw [Bool.eq_false_iff]
    exact fun hgeneric => hname (outlines_generic _ ho hgeneric).1
  | @named e he hplain => exact .inr ⟨(ground he hplain).2.1, .inl ⟨e, he, hplain, rfl⟩⟩
  | @list item hitem => exact .inr ⟨rfl, .inr ⟨item, hitem, .inl rfl⟩⟩
  | @sequence item hitem => exact .inr ⟨rfl, .inr ⟨item, hitem, .inr (.inl rfl)⟩⟩
  | @array item hitem => exact .inr ⟨rfl, .inr ⟨item, hitem, .inr (.inr rfl)⟩⟩
  | @nullable u _ hv => exact .inl ⟨by rw [HostType.orNull, hv, Bool.or_true], hv⟩

theorem orNull (ht : Makes around t) : Makes around t.orNull := by
  cases hv : t.isValueType with
  | true => exact .nullable ht hv
  | false =>
    -- nothing is added to a type that is no value type
    have hn : t.nullable = false := by
      rcases ht.cases with ⟨-, hvalue⟩ | ⟨hn, -⟩
      · cases hv.symm.trans hvalue
      · exact hn
    have hsame : t.orNull = t := by
      obtain ⟨shape, args, nullable⟩ := t
      cases hn
      rw [HostType.orNull, hv]
      rfl
    rwa [hsame]

theorem element (ht : Makes around t) (hitem : t.element? = some item) : Makes around item := by
  unfold HostType.element? at hitem
  split at hitem
  next harray =>
    have hshape : t.shape = .array := beq_iff_eq.mp harray
    rcases ht.cases with ⟨-, hv⟩ | ⟨-, ⟨e, he, hplain, rfl⟩ | ⟨found, hfound, rfl | rfl | rfl⟩⟩
    · rw [HostType.isValueType, hshape] at hv
      cases hv
    · rw [(ground he hplain).1] at hitem
      cases hitem
    · cases hshape
    · cases hshape
    · cases hitem
      exact hfound
  next => cases hitem

end Makes

/-! ## 3. Descriptions -/

theorem subst_eq_self {actuals : List HostType} (hargs : t.args = []) (hkey : t.key?.isSome = true)
    (hn : t.nullable = false) : t.subst actuals = t := by
  obtain ⟨shape, args, nullable⟩ := t
  cases hargs
  cases hn
  cases shape with
  | param i => cases hkey
  | _ => rfl

theorem subst_param (item : HostType) : (HostType.param 0).subst [item] = item := by
  obtain ⟨shape, args, nullable⟩ := item
  show HostType.mk shape args (nullable || false) = _
  rw [Bool.or_false]

theorem makes_of_isAtom (h : isAtom false t = true) : Makes around t := by
  obtain ⟨o, ho, h⟩ := List.any_eq_true.mp h
  rw [Bool.and_eq_true, Bool.not_eq_true', beq_iff_eq] at h
  exact h.2 ▸ .of_outline ho h.1

theorem makes_subst_of_isAtom (h : isAtom true t = true) (hitem : Makes around item) :
    Makes around (t.subst [item]) := by
  rcases Bool.or_eq_true_iff.mp h with hparam | hplain
  · obtain rfl := beq_iff_eq.mp hparam
    rwa [subst_param]
  · obtain ⟨o, ho, hsame⟩ := List.any_eq_true.mp hplain
    rw [Bool.and_eq_true, Bool.not_eq_true', beq_iff_eq] at hsame
    obtain ⟨hargs, hn, hkey, -⟩ := (outlines_described o ho).1 hsame.1
    rw [← hsame.2, subst_eq_self hargs (by rw [hkey]; rfl) hn]
    exact .of_outline ho hsame.1

theorem isMade_cases {isOpen : Bool} (h : isMade isOpen t = true) : isAtom isOpen t = true ∨
    ∃ item, t = .sequenceOf item ∧ isAtom isOpen item = true := by
  refine (Bool.or_eq_true_iff.mp h).imp_right fun hsequence => ?_
  split at hsequence
  next item _ =>
    rw [Bool.and_eq_true, beq_iff_eq] at hsequence
    exact ⟨item, hsequence⟩
  next => cases hsequence

theorem makes_of_isMade (h : isMade false t = true) : Makes around t := by
  obtain hatom | ⟨item, rfl, hatom⟩ := isMade_cases h
  · exact makes_of_isAtom hatom
  · exact .sequence (makes_of_isAtom hatom)

theorem makes_subst_of_isMade (h : isMade true t = true) (hitem : Makes around item) :
    Makes around (t.subst [item]) := by
  obtain hatom | ⟨inner, rfl, hatom⟩ := isMade_cases h
  · exact makes_subst_of_isAtom hatom hitem
  · have hsubst : (HostType.sequenceOf inner).subst [item] = .sequenceOf (inner.subst [item]) := by
      simp [HostType.sequenceOf, HostType.applied, HostType.subst]
    rw [hsubst]
    exact .sequence (makes_subst_of_isAtom hatom hitem)

/-- A type that an entry speaks of is made of the standard ones, if what stands for the parameter of
the entry is. -/
theorem makes_bind {actuals : List HostType} (h : isMade e.isGeneric t = true)
    (hactuals : e.isGeneric = true → ∃ item, Makes around item ∧ actuals = [item]) :
    Makes around (e.bind actuals t) := by
  unfold TypeEntry.bind
  cases hgeneric : e.isGeneric with
  | false =>
    rw [hgeneric] at h
    exact makes_of_isMade h
  | true =>
    rw [hgeneric] at h
    obtain ⟨item, hitem, rfl⟩ := hactuals hgeneric
    exact makes_subst_of_isMade h hitem

/-! ## 4. Ancestors -/

namespace Fills

theorem eq_of_key_eq (h : Fills s r around) {d : TypeEntry} (hd : d ∈ entries around)
    (he : e ∈ entries around) (hkey : d.key = e.key) : d = e :=
  List.inj_on_of_nodup_map h.lists.distinct hd he hkey

/-- What stands for the parameter of the entry that describes a type. -/
theorem actuals_eq (h : Fills s r around) (ht : Makes around t) (he : e ∈ entries around)
    (hkey : t.key? = some e.key) (hgeneric : e.isGeneric = true) :
    ∃ item, Makes around item ∧ t.actuals = [item] := by
  rcases ht.cases with ⟨hn, -⟩ | ⟨-, ⟨d, hd, hplain, rfl⟩ | ⟨item, hitem, rfl | rfl | rfl⟩⟩
  · exact ⟨t.underlying, ht.underlying, by rw [HostType.actuals, hn]; rfl⟩
  · obtain ⟨-, -, hown, -⟩ := ground hd hplain
    rw [h.eq_of_key_eq hd he (Option.some.inj (hown.symm.trans hkey)), hgeneric] at hplain
    cases hplain
  · exact ⟨item, hitem, rfl⟩
  · exact ⟨item, hitem, rfl⟩
  · cases hkey

/-- The ancestors of a type are entries that describe types made of the standard ones. -/
theorem ancestor (h : Fills s r around) (ht : Makes around t) {a : Ancestor} (ha : a ∈ r.lineage t) :
    a.entry ∈ entries around ∧ Makes around a.receiver ∧ a.receiver.key? = some a.entry.key := by
  refine Registry.forall_mem_lineageFrom (P := fun a => a.entry ∈ entries around ∧
    Makes around a.receiver ∧ a.receiver.key? = some a.entry.key) ?_ ?_ a ha
  · intro u hu p hp hdescribes
    obtain rfl := List.mem_singleton.mp hu
    obtain ⟨hkey, hentry⟩ := h.lists.mem_types hp
    exact ⟨hentry, ht, hkey ▸ beq_iff_eq.mp hdescribes⟩
  · rintro ⟨d, receiver⟩ ⟨hd, hreceiver, hkey⟩ base hbase p hp hdescribes
    obtain ⟨hentryKey, hentry⟩ := h.lists.mem_types hp
    refine ⟨hentry, makes_bind ?_ (h.actuals_eq hreceiver hd hkey), hentryKey ▸ beq_iff_eq.mp hdescribes⟩
    exact (making hd).1 base (List.mem_append_left _ hbase)

/-- What an ancestor of a type speaks of is made of the standard types. -/
theorem makes_bind_ancestor (h : Fills s r around) (ht : Makes around t) {a : Ancestor}
    (ha : a ∈ r.lineage t) {type : HostType} (htype : isMade a.entry.isGeneric type = true) :
    Makes around (a.entry.bind a.receiver.actuals type) := by
  obtain ⟨he, hreceiver, hkey⟩ := h.ancestor ht ha
  exact makes_bind htype (h.actuals_eq hreceiver he hkey)

/-- A type without parameters has no ancestor but its entry. -/
theorem lineage_plain (h : Fills s r around) (he : e ∈ entries around) (hplain : e.isGeneric = false) :
    r.lineage e.type = [⟨e, e.type⟩] := by
  obtain ⟨-, -, hkey, -, hbases, -⟩ := ground he hplain
  rw [Registry.lineage, Registry.lineageFrom_of_some (h.lists.find?_describes he hkey), hbases,
    List.map_nil, List.append_nil, Registry.lineageFrom]

/-- Items are those of an array, or an ancestor says what they are. -/
theorem exists_of_itemType? (h : Fills s r around) (hitem : r.itemType? t = some item) :
    t.nullable = false ∧ (t.element? = some item ∨ ∃ a ∈ r.lineage t, ∃ type,
      a.entry.itemType = some type ∧ a.entry.bind a.receiver.actuals type = item) := by
  obtain ⟨hn, helement | ⟨a, ha, hsaid | ⟨hnone, hname, -⟩⟩⟩ := Registry.exists_of_itemType? hitem
  · exact ⟨hn, .inl helement⟩
  · exact ⟨hn, .inr ⟨a, ha, hsaid⟩⟩
  · -- the standard sequence says what its items are
    exact absurd hname (outlines_items.2 a.entry.outline (outline_mem (h.lists.entry_mem ha)) hnone)

theorem itemType?_plain (h : Fills s r around) (he : e ∈ entries around)
    (hplain : e.isGeneric = false) : r.itemType? e.type = none := by
  obtain ⟨hargs, -, -, -, -, hitem⟩ := ground he hplain
  rw [Option.eq_none_iff_forall_not_mem]
  intro item hsome
  obtain ⟨-, helement | ⟨a, ha, type, htype, -⟩⟩ := h.exists_of_itemType? hsome
  · unfold HostType.element? at helement
    rw [hargs] at helement
    split at helement <;> cases helement
  · rw [h.lineage_plain he hplain, List.mem_singleton] at ha
    subst ha
    cases hitem.symm.trans htype

/-- The items of the sequences of a type. -/
theorem itemType?_sequenceOf (h : Fills s r around) (item : HostType) :
    r.itemType? (.sequenceOf item) = some item := by
  obtain ⟨o, ho, hkey, hitem, hgeneric⟩ := outlines_items.1
  obtain ⟨e, he, rfl⟩ := exists_of_mem_outlines around ho
  obtain ⟨rest, hlineage⟩ := h.lists.lineage_eq_cons (t := .sequenceOf item) he (congrArg some hkey)
  have hbind : e.bind (HostType.sequenceOf item).actuals (.param 0) = item := by
    have hgeneric : e.isGeneric = true := hgeneric
    rw [TypeEntry.bind, hgeneric]
    exact subst_param item
  have hitem : e.itemType = some (.param 0) := hitem
  unfold Registry.itemType?
  rw [hlineage, List.findSome?_cons, hitem]
  show some (e.bind (HostType.sequenceOf item).actuals (.param 0)) = _
  rw [hbind]

/-- The items of a type are made of the standard types, and the type is neither a value type nor an
object. -/
theorem itemType?_makes (h : Fills s r around) (ht : Makes around t)
    (hitem : r.itemType? t = some item) :
    Makes around item ∧ t.isValueType = false ∧ t.isPrimitive .object = false := by
  obtain ⟨hn, hfrom⟩ := h.exists_of_itemType? hitem
  constructor
  · rcases hfrom with helement | ⟨a, ha, type, htype, rfl⟩
    · exact ht.element helement
    · refine h.makes_bind_ancestor ht ha ((making (h.ancestor ht ha).1).1 type ?_)
      exact List.mem_append_right _ (Option.mem_toList.mpr htype)
  · rcases ht.cases with ⟨hnull, -⟩ | ⟨-, ⟨e, he, hplain, rfl⟩ | ⟨found, -, rfl | rfl | rfl⟩⟩
    · cases hn.symm.trans hnull
    · rw [h.itemType?_plain he hplain] at hitem
      cases hitem
    · exact ⟨isValueType_listOf found, rfl⟩
    · exact ⟨isValueType_sequenceOf found, rfl⟩
    · exact ⟨rfl, rfl⟩

/-! ## 5. The order of the types -/

/-- No type that is made of the standard ones derives from another, and a value type from none. -/
theorem derives_eq_false (h : Fills s r around) {target source : HostType} (hs : Makes around source)
    (ht : Makes around target ∨ source.isValueType = true) : r.order.derives target source = false := by
  rw [Bool.eq_false_iff]
  intro hderives
  obtain ⟨hboth, hderives⟩ := Bool.and_eq_true_iff.mp hderives
  simp only [Bool.and_eq_true, Bool.not_eq_true', List.isEmpty_iff] at hboth
  obtain ⟨⟨hargs, hsource⟩, htarget⟩ := hboth
  obtain ⟨⟨d, hd, hdKey, hbases⟩, e, he, base, hbase, hkey⟩ :=
    h.lists.exists_of_derivesFrom hderives
  rcases ht with ht | hv
  · -- the other type would be one of sequences, with an argument
    rw [outlines_bases e.outline (outline_mem he) base hbase] at hkey
    obtain ⟨o, ho, hsame, -, hgeneric⟩ := outlines_items.1
    obtain ⟨e', he', rfl⟩ := exists_of_mem_outlines around ho
    rcases ht.cases with ⟨hnull, -⟩ | ⟨-, ⟨c, hc, hplain, rfl⟩ | ⟨item, -, rfl | rfl | rfl⟩⟩
    · cases hnull.symm.trans htarget
    · obtain ⟨-, -, hown, -⟩ := ground hc hplain
      have hentry : c = e' := by
        refine h.eq_of_key_eq hc he' (Option.some.inj (hown.symm.trans (hkey.symm.trans ?_)))
        exact congrArg some hsame
      rw [hentry] at hplain
      cases hplain.symm.trans hgeneric
    · cases hargs
    · cases hargs
    · cases hargs
  · rcases hs.cases with ⟨hnull, -⟩ | ⟨-, ⟨c, hc, hplain, rfl⟩ | ⟨item, -, rfl | rfl | rfl⟩⟩
    · cases hnull.symm.trans hsource
    · obtain ⟨-, -, hown, -, hnone, -⟩ := ground hc hplain
      rw [h.eq_of_key_eq hd hc (Option.some.inj (hdKey.symm.trans hown))] at hbases
      exact hbases hnone
    · cases hv.symm.trans (isValueType_listOf item)
    · cases hv.symm.trans (isValueType_sequenceOf item)
    · cases hv

/-- The types that are made of the standard ones stand for each other by their shapes. -/
theorem shaped (h : Fills s r around) : r.order.Shaped (Makes around) where
  derives ht hs := h.derives_eq_false hs (.inl ht)
  ground hs hv target := h.derives_eq_false hs (.inr hv)
  underlying ht := ht.underlying
  primitive {t p} ht hshape := by
    have hargs : t.underlying.args = [] := by
      have hshape : t.underlying.shape = .primitive p := hshape
      rcases ht.underlying.cases with ⟨hn, -⟩ | ⟨-, ⟨e, he, hplain, hsame⟩ | ⟨item, -, hsame⟩⟩
      · cases hn
      · exact hsame ▸ (ground he hplain).1
      · rcases hsame with hsame | hsame | hsame <;> (rw [hsame] at hshape; cases hshape)
    exact hargs
  nullable ht hn := by
    rcases ht.cases with ⟨-, hv⟩ | ⟨hplain, -⟩
    · exact hv
    · cases hn.symm.trans hplain
  items ht hitem := (h.itemType?_makes ht hitem).2
  sequence {t} ht hnamed := by
    rcases ht.cases with ⟨-, hv⟩ | ⟨-, ⟨e, he, hplain, rfl⟩ | ⟨item, -, rfl | rfl | rfl⟩⟩
    · cases hnamed.symm.trans (HostType.isNamed_enumerable_of_isValueType hv)
    · cases hnamed.symm.trans (ground he hplain).2.2.2.1
    · have hother : (listOf item).isNamed WellKnown.enumerable = false := by
        show ((QualifiedName.ofDotted _).text == _) = false
        decide
      cases hnamed.symm.trans hother
    · exact ⟨item, rfl, h.itemType?_sequenceOf item⟩
    · cases hnamed
  closed {t} ht i hshape := by
    rcases ht.cases with ⟨-, hv⟩ | ⟨hn, ⟨e, he, hplain, rfl⟩ | ⟨item, -, rfl | rfl | rfl⟩⟩
    · rw [HostType.isValueType, hshape] at hv
      cases hv
    · obtain ⟨-, -, hkey, -⟩ := ground he hplain
      rw [HostType.key?, hn, hshape] at hkey
      cases hkey
    · cases hshape
    · cases hshape
    · cases hshape

/-! ## 6. Members of instances -/

theorem member_makes (h : Fills s r around) (ht : Makes around t) {name : String} {m : Member}
    (hm : s.member? t name = some m) (hinstance : m.isStatic = false) :
    m.name = name ∧ Syntax.isName m.name = true ∧ Makes around m.type := by
  rw [Surface.member?, h.host, Option.or_eq_some_iff] at hm
  rcases hm with hm | ⟨-, hm⟩
  · obtain ⟨a, ha, n, hn, -, hname, rfl⟩ := Registry.exists_of_property? hm
    obtain ⟨he, -⟩ := h.ancestor ht ha
    rw [a.isStatic_bindMember] at hinstance
    obtain ⟨hisName, htype⟩ := (instances he).1 _ (List.mem_map_of_mem hn) hinstance
    obtain ⟨declaring, heq⟩ := a.bindMember_eq n
    rw [heq]
    exact ⟨hname, hisName, h.makes_bind_ancestor ht ha htype⟩
  · obtain ⟨a, ha, n, hn, -⟩ := Registry.exists_of_field? hm
    exact absurd (h.hasStatics.fields _ (h.ancestor ht ha).1) (List.ne_nil_of_mem hn)

theorem method_makes (h : Fills s r around) (ht : Makes around t) {name : String} {m : Method}
    (hm : m ∈ r.methods t name) (hinstance : m.isStatic = false) :
    m.name = name ∧ Syntax.isName m.name = true ∧ m.isGenericDefinition = false ∧ m.typeArgs = [] ∧
      Makes around m.returns ∧ ∀ p ∈ m.params, Makes around p := by
  obtain ⟨a, ha, n, hn, hname, rfl⟩ := Registry.exists_of_mem_methods hm
  obtain ⟨he, -⟩ := h.ancestor ht ha
  rw [a.isStatic_bindMethod] at hinstance
  obtain ⟨hisName, harity, htypes⟩ := (instances he).2.1 _ (plainMethod_mem hn) hinstance
  obtain ⟨hreturns, hparams⟩ := List.forall_mem_cons.mp htypes
  have harity : n.arity = 0 := harity
  obtain ⟨declaring, heq⟩ := a.bindMethod_eq n
  rw [heq]
  refine ⟨hname, hisName, ?_, (h.hasStatics.method _ he n hn).1, h.makes_bind_ancestor ht ha hreturns,
    List.forall_mem_map.mpr fun p hp => h.makes_bind_ancestor ht ha (hparams p hp)⟩
  rw [Method.isGenericDefinition, harity]
  rfl

theorem indexer_params (h : Fills s r around) {m : Method} (hm : m ∈ r.methods t "get_Item") :
    m.params ≠ [] := by
  obtain ⟨a, ha, n, hn, hname, rfl⟩ := Registry.exists_of_mem_methods hm
  have hne := (instances (h.lists.entry_mem ha)).2.2 _ (plainMethod_mem hn) hname
  obtain ⟨declaring, heq⟩ := a.bindMethod_eq n
  rw [heq]
  exact fun hnil => hne (List.map_eq_nil_iff.mp hnil)

/-- A constructor is found again for what is read of its arguments. -/
theorem constructor_again (h : Fills s r around) (ht : Makes around t) {types : List HostType}
    {c : Constructor} (hc : r.constructor? t types = some c) :
    c.declaring = t ∧ (∀ p ∈ c.params, Makes around p) ∧ ∀ {others},
      r.order.RereadsAll c.params types others → r.constructor? t others = some c := by
  have hentry {e : TypeEntry} (he : r.entry? t = some e) :
      e ∈ entries around ∧ t.key? = some e.key := by
    obtain ⟨key, hkey, hget⟩ := Option.bind_eq_some_iff.mp he
    obtain ⟨hsame, hin⟩ := h.lists.mem_types (Registry.mem_types_of_get? hget)
    exact ⟨hin, hkey.trans (congrArg some hsame)⟩
  have hagain {others : List HostType} (hr : r.order.RereadsAll c.params types others) :
      r.constructor? t others = some c := by
    refine Registry.constructor?_again (fun e he => ?_) hr hc
    have hnodup := (making (hentry he).1).2.2.2
    rwa [TypeEntry.outline, List.map_map] at hnodup
  obtain ⟨e, he, hfound⟩ := Option.bind_eq_some_iff.mp hc
  obtain ⟨hin, hkey⟩ := hentry he
  have hmem := (Option.or_eq_some_iff.mp hfound).elim List.mem_of_find?_eq_some
    fun h => List.mem_of_find?_eq_some h.2
  obtain ⟨d, hd, rfl⟩ := List.mem_map.mp hmem
  refine ⟨rfl, List.forall_mem_map.mpr fun p hp => ?_, hagain⟩
  have hp := (making hin).2.2.1 _ (List.mem_map_of_mem (List.mem_filter.mp hd).1) p hp
  exact makes_bind hp (h.actuals_eq ht hin hkey)

end Fills

end FatArrow.Standard
