import FatArrow.Proofs.Types.Induction
import FatArrow.Typing.Conversion

/-!
# Which types stand for which

Where nothing derives from anything, one type stands for another by their shapes alone.  What stands
for a value type is that type, with null or without, or a number of fewer values; so whatever the
value type stands for, its own stand-ins do, too, and no two plain types stand for each other.
-/

namespace FatArrow

/-! ## 1. Numbers -/

namespace IntegerKind

theorem widensTo_iff {a b : IntegerKind} :
    a.widensTo b = true ↔ a.width < b.width ∧ (a.signed = true → b.signed = true) := by
  rw [widensTo, Bool.and_eq_true, Bool.or_eq_true, decide_eq_true_iff]
  cases a.signed <;> simp

theorem widensTo_trans {a b c : IntegerKind} (hab : a.widensTo b = true) (hbc : b.widensTo c = true) :
    a.widensTo c = true := by
  rw [widensTo_iff] at hab hbc ⊢
  exact ⟨Nat.lt_trans hab.1 hbc.1, fun h => hbc.2 (hab.2 h)⟩

theorem widensTo_asymm {a b : IntegerKind} (h : a.widensTo b = true) : b.widensTo a = false := by
  rw [Bool.eq_false_iff]
  exact fun hba => absurd (widensTo_iff.mp hba).1 (Nat.lt_asymm (widensTo_iff.mp h).1)

end IntegerKind

namespace Primitive

theorem widensTo_trans {a b c : Primitive} (hab : a.widensTo b = true) (hbc : b.widensTo c = true) :
    a.widensTo c = true := by
  cases b with
  | integer j =>
    cases c with
    | integer k =>
      cases a with
      | integer i => exact IntegerKind.widensTo_trans hab hbc
      | char =>
        have hab : (j == .uint16 || IntegerKind.uint16.widensTo j) = true := hab
        show (k == .uint16 || IntegerKind.uint16.widensTo k) = true
        rw [Bool.or_eq_true, beq_iff_eq] at hab ⊢
        rcases hab with rfl | hab
        · exact .inr hbc
        · exact .inr (IntegerKind.widensTo_trans hab hbc)
      | _ => cases hab
    | single | double =>
      cases a with
      | integer | char => rfl
      | _ => cases hab
    | _ => cases hbc
  | single =>
    cases c with
    | double =>
      cases a with
      | integer | char => rfl
      | _ => cases hab
    | _ => cases hbc
  | char => cases a <;> cases hab
  | _ => cases c <;> cases hbc

theorem widensTo_asymm {a b : Primitive} (h : a.widensTo b = true) : b.widensTo a = false := by
  cases a with
  | integer i =>
    cases b with
    | integer j => exact IntegerKind.widensTo_asymm h
    | _ => first | rfl | cases h
  | _ => cases b <;> first | rfl | cases h

end Primitive

/-! ## 2. Plain types -/

namespace HostType

variable {t : HostType} {name : String} {p : Primitive}

theorem isNamed_eq (h : t.isNamed name = true) : ∃ q, t.shape = .named q ∧ q.text = name := by
  obtain ⟨shape, args, nullable⟩ := t
  cases shape with
  | named q => exact ⟨q, rfl, beq_iff_eq.mp h⟩
  | _ => cases h

theorem isNamed_enumerable_of_isValueType (h : t.isValueType = true) :
    t.isNamed WellKnown.enumerable = false := by
  rw [Bool.eq_false_iff]
  intro hnamed
  obtain ⟨q, hq, htext⟩ := isNamed_eq hnamed
  -- none of the names of value types is that of the sequence types
  simp only [isValueType, hq, htext] at h
  revert h
  decide

theorem underlying_eq_self (h : t.nullable = false) : t.underlying = t := by
  obtain ⟨shape, args, nullable⟩ := t
  cases h
  rfl

theorem primitive?_eq (h : t.primitive? = some p) : t.shape = .primitive p := by
  unfold primitive? at h
  split at h
  next hs =>
    cases h
    exact hs
  next => cases h

theorem primitive?_of_shape (h : t.shape = .primitive p) : t.primitive? = some p := by
  rw [primitive?, h]

theorem shape_of_isPrimitive (h : t.isPrimitive p = true) : t.shape = .primitive p := by
  rw [isPrimitive, Bool.and_eq_true, beq_iff_eq] at h
  exact h.2

end HostType

namespace TypeOrder

variable {o : TypeOrder} {t a c u : HostType}

/-- How a type without null can be stood for: by itself, as an object, by a number of fewer values, as
a sequence of the same items, or as any type. -/
theorem fitsPlain_cases (h : o.fitsPlain t a = true) : t = a ∨ t.isPrimitive .object = true ∨
    (∃ wide narrow, t.shape = .primitive wide ∧ a.shape = .primitive narrow ∧ a.nullable = false ∧
      narrow.widensTo wide = true) ∨
    (t.isNamed WellKnown.enumerable = true ∧ ∃ item, t.args.head? = some item ∧
      o.itemType? a = some item) ∨ ∃ i, t.shape = .param i := by
  unfold fitsPlain at h
  split at h
  next hsame =>
    rw [Bool.or_eq_true, decide_eq_true_iff] at hsame
    exact hsame.imp_right .inl
  next =>
    split at h
    next wide narrow hwide hnarrow =>
      rw [Bool.and_eq_true, Bool.not_eq_true'] at h
      exact .inr (.inr (.inl ⟨wide, narrow, HostType.primitive?_eq hwide,
        HostType.primitive?_eq hnarrow, h.1, h.2⟩))
    next =>
      cases hsequence : o.fitsSequence? t a with
      | some fits =>
        rw [hsequence] at h
        unfold fitsSequence? at hsequence
        split at hsequence
        next hnamed =>
          rw [Bool.and_eq_true] at hnamed
          obtain ⟨item, hitem, hsequence⟩ := Option.bind_eq_some_iff.mp hsequence
          obtain ⟨found, hfound, hsequence⟩ := Option.bind_eq_some_iff.mp hsequence
          obtain rfl : item = found := by
            rw [← Option.some.inj hsequence] at h
            exact beq_iff_eq.mp h
          exact .inr (.inr (.inr (.inl ⟨hnamed.1, item, hitem, hfound⟩)))
        next => cases hsequence
      | none =>
        rw [hsequence] at h
        cases hs : t.shape with
        | param i => exact .inr (.inr (.inr (.inr ⟨i, rfl⟩)))
        | _ => simp [hs] at h

theorem fitsPlain_refl (o : TypeOrder) (t : HostType) : o.fitsPlain t t = true := by
  simp [fitsPlain]

theorem fitsPlain_of_object (h : t.isPrimitive .object = true) (a : HostType) :
    o.fitsPlain t a = true := by
  simp [fitsPlain, h]

theorem fitsPlain_of_widensTo {wide narrow : Primitive} (ht : t.shape = .primitive wide)
    (ha : a.shape = .primitive narrow) (hn : a.nullable = false) (h : narrow.widensTo wide = true) :
    o.fitsPlain t a = true := by
  simp [fitsPlain, HostType.primitive?, ht, ha, hn, h]

theorem fitsPlain_of_param {i : Nat} (ht : t.shape = .param i) (a : HostType) :
    o.fitsPlain t a = true := by
  simp [fitsPlain, HostType.primitive?, fitsSequence?, HostType.isNamed, HostType.name?, ht]

/-- A type with null added stands for the type without. -/
theorem assignable_underlying (o : TypeOrder) (t : HostType) :
    o.assignable t t.underlying = true := by
  have hplain : t.underlying.underlying = t.underlying := rfl
  cases hn : t.nullable with
  | true => simp [assignable, fits, hn, hplain, fitsPlain_refl]
  | false => simp [assignable, fits, HostType.underlying_eq_self hn]

/-- What stands for a value type is that type, or a number of fewer values. -/
theorem fitsPlain_valueType (hu : u.isValueType = true) (h : o.fitsPlain u a = true) : u = a ∨
    ∃ wide narrow, u.shape = .primitive wide ∧ a.shape = .primitive narrow ∧ a.nullable = false ∧
      narrow.widensTo wide = true := by
  rcases fitsPlain_cases h with h | hobject | h | ⟨hnamed, -⟩ | ⟨i, hparam⟩
  · exact .inl h
  · rw [HostType.isValueType, HostType.shape_of_isPrimitive hobject] at hu
    cases hu
  · exact .inr h
  · rw [HostType.isNamed_enumerable_of_isValueType hu] at hnamed
    cases hnamed
  · rw [HostType.isValueType, hparam] at hu
    cases hu

/-- What a value type without items stands for, its own stand-ins stand for. -/
theorem fitsPlain_trans (hu : u.isValueType = true) (hitems : o.itemType? u = none)
    (hua : o.fitsPlain u a = true) (hcu : o.fitsPlain c u = true) : o.fitsPlain c a = true := by
  rcases fitsPlain_valueType hu hua with rfl | ⟨wide, narrow, hwide, hnarrow, hn, hwidens⟩
  · exact hcu
  rcases fitsPlain_cases hcu with rfl | hobject | ⟨top, between, htop, hbetween, -, htops⟩ |
    ⟨-, item, -, hitem⟩ | ⟨i, hparam⟩
  · exact hua
  · exact fitsPlain_of_object hobject a
  · cases hwide.symm.trans hbetween
    exact fitsPlain_of_widensTo htop hnarrow hn (Primitive.widensTo_trans hwidens htops)
  · rw [hitems] at hitem
    cases hitem
  · exact fitsPlain_of_param hparam a

/-- One type stands for another where it is not for what either derives from: null is left out of
account where the one that is asked for has it. -/
def fitsUnder (o : TypeOrder) (target source : HostType) : Bool :=
  if target.nullable then o.fitsPlain target.underlying source.underlying
  else o.fitsPlain target source

theorem assignable_of_fitsUnder (h : o.fitsUnder c a = true) : o.assignable c a = true := by
  unfold fitsUnder at h
  rw [assignable, fits]
  split
  · rfl
  · split at h
    next hn => simp only [hn, h, ↓reduceIte, Bool.true_or]
    next hn => simp only [hn, h, ↓reduceIte, Bool.true_or, Bool.false_eq_true]

theorem assignable_eq_fitsUnder (hd : o.derives c a = false)
    (hu : o.derives c.underlying a.underlying = false) :
    o.assignable c a = true ↔ o.fitsUnder c a = true := by
  refine ⟨fun h => ?_, assignable_of_fitsUnder⟩
  rw [assignable, hd, Bool.or_false, fits] at h
  split at h
  next hsame =>
    rw [hsame]
    unfold fitsUnder
    split <;> exact o.fitsPlain_refl _
  next =>
    rw [hu, Bool.or_false] at h
    exact h

/-! ## 3. Types of shape -/

/-- Types that stand for each other by their shapes: none derives from another, and value types from
nothing at all; primitive types have no arguments, null is added to value types, neither those nor
objects have items, and sequence types have the items of their argument. -/
structure Shaped (o : TypeOrder) (B : HostType → Prop) : Prop where
  derives : ∀ {target source}, B target → B source → o.derives target source = false
  ground : ∀ {source}, B source → source.isValueType = true → ∀ target,
    o.derives target source = false
  underlying : ∀ {t}, B t → B t.underlying
  primitive : ∀ {t p}, B t → t.shape = .primitive p → t.args = []
  nullable : ∀ {t}, B t → t.nullable = true → t.isValueType = true
  items : ∀ {t item}, B t → o.itemType? t = some item →
    t.isValueType = false ∧ t.isPrimitive .object = false
  sequence : ∀ {t}, B t → t.isNamed WellKnown.enumerable = true →
    ∃ item, t = .sequenceOf item ∧ o.itemType? t = some item
  closed : ∀ {t}, B t → ∀ i, t.shape ≠ .param i

namespace Shaped

variable {B : HostType → Prop} {b p : HostType}

theorem assignable_iff (hs : o.Shaped B) (hc : B c) (ha : B a) :
    o.assignable c a = true ↔ o.fitsUnder c a = true :=
  assignable_eq_fitsUnder (hs.derives hc ha) (hs.derives (hs.underlying hc) (hs.underlying ha))

theorem assignable_iff_of_isValueType (hs : o.Shaped B) (ha : B a) (hv : a.isValueType = true) :
    o.assignable c a = true ↔ o.fitsUnder c a = true :=
  assignable_eq_fitsUnder (hs.ground ha hv c) (hs.ground (hs.underlying ha) hv c.underlying)

theorem no_items (hs : o.Shaped B) (ha : B a) (hv : a.isValueType = true) :
    o.itemType? a = none := by
  rw [Option.eq_none_iff_forall_not_mem]
  intro item hitem
  cases (hs.items ha hitem).1.symm.trans hv

/-- What a value type stands for, its own stand-ins stand for. -/
theorem assignable_trans (hs : o.Shaped B) (ha : B a) (hp : B p) (hv : p.isValueType = true)
    (hpa : o.assignable p a = true) (hcp : o.assignable c p = true) : o.assignable c a = true := by
  rw [hs.assignable_iff hp ha] at hpa
  rw [hs.assignable_iff_of_isValueType hp hv] at hcp
  refine assignable_of_fitsUnder ?_
  unfold fitsUnder at hpa hcp ⊢
  have hu : p.underlying.isValueType = true := hv
  have hitems := hs.no_items (hs.underlying hp) hu
  cases hn : p.nullable with
  | false =>
    have hpu := HostType.underlying_eq_self hn
    rw [hn] at hpa
    have han : a.underlying = a := by
      rcases fitsPlain_valueType hv hpa with rfl | ⟨_, _, -, -, han, -⟩
      · exact hpu
      · exact HostType.underlying_eq_self han
    rw [hpu] at hcp hitems
    rw [han]
    cases hc : c.nullable with
    | false =>
      rw [hc] at hcp
      exact fitsPlain_trans hv hitems hpa hcp
    | true =>
      rw [hc] at hcp
      exact fitsPlain_trans hv hitems hpa hcp
  | true =>
    rw [hn] at hpa
    cases hc : c.nullable with
    | true =>
      rw [hc] at hcp
      exact fitsPlain_trans hu hitems hpa hcp
    | false =>
      rw [hc] at hcp
      -- without null added, only an object and any type have null
      rcases fitsPlain_cases hcp with rfl | hobject | ⟨_, _, -, -, hfalse, -⟩ | ⟨-, item, -, hitem⟩ |
        ⟨i, hparam⟩
      · cases hn.symm.trans hc
      · exact fitsPlain_of_object hobject a
      · cases hn.symm.trans hfalse
      · rw [hs.no_items hp hv] at hitem
        cases hitem
      · exact fitsPlain_of_param hparam a

/-- An object stands for nothing but an object. -/
theorem eq_object (hs : o.Shaped B) (hb : B b) (ho : B .object) (h : o.assignable b .object = true) :
    b = .object := by
  have hobject (t : HostType) (ht : B t) (hn : t.nullable = false)
      (hf : o.fitsPlain t .object = true) : t = .object := by
    rcases fitsPlain_cases hf with h | h | ⟨_, _, -, hnarrow, -, hwidens⟩ | ⟨-, item, -, hitem⟩ |
      ⟨i, hparam⟩
    · exact h
    · have hshape := HostType.shape_of_isPrimitive h
      have hargs := hs.primitive ht hshape
      obtain ⟨shape, args, nullable⟩ := t
      cases hshape
      cases hargs
      cases hn
      rfl
    · cases hnarrow
      cases hwidens
    · cases (hs.items ho hitem).2
    · exact absurd hparam (hs.closed ht i)
  rw [hs.assignable_iff hb ho, fitsUnder] at h
  cases hn : b.nullable with
  | false =>
    rw [hn] at h
    exact hobject b hb hn h
  | true =>
    rw [hn] at h
    have hunder := hobject b.underlying (hs.underlying hb) rfl h
    -- an object has no null added
    have hv := hs.nullable hb hn
    rw [show b.isValueType = b.underlying.isValueType from rfl, hunder] at hv
    cases hv

/-- Two types without null that are not objects do not stand for each other. -/
theorem assignable_asymm (hs : o.Shaped B) (ha : B a) (hb : B b) (hne : a ≠ b)
    (han : a.nullable = false) (hbn : b.nullable = false) (hao : a.isPrimitive .object = false)
    (hbo : b.isPrimitive .object = false) (h : o.assignable a b = true) :
    o.assignable b a = false := by
  rw [Bool.eq_false_iff]
  intro hba
  rw [hs.assignable_iff ha hb, fitsUnder, han] at h
  rw [hs.assignable_iff hb ha, fitsUnder, hbn] at hba
  rcases fitsPlain_cases h with hab | hobject | ⟨wide, narrow, hwide, hnarrow, -, hwidens⟩ |
    ⟨hnamed, item, hitem, hitems⟩ | ⟨i, hparam⟩
  · exact hne hab
  · cases hobject.symm.trans hao
  · rcases fitsPlain_cases hba with hab | hobject | ⟨_, _, hwide', hnarrow', -, hwidens'⟩ |
      ⟨hnamed, -⟩ | ⟨i, hparam⟩
    · exact hne hab.symm
    · cases hobject.symm.trans hbo
    · cases hwide.symm.trans hnarrow'
      cases hnarrow.symm.trans hwide'
      cases (Primitive.widensTo_asymm hwidens).symm.trans hwidens'
    · simp [HostType.isNamed, HostType.name?, hnarrow] at hnamed
    · exact hs.closed hb i hparam
  · rcases fitsPlain_cases hba with hab | hobject | ⟨_, _, -, hnarrow, -⟩ |
      ⟨hnamed', item', hitem', hitems'⟩ | ⟨i, hparam⟩
    · exact hne hab.symm
    · cases hobject.symm.trans hbo
    · simp [HostType.isNamed, HostType.name?, hnarrow] at hnamed
    · -- each of two sequence types has the items of the other
      obtain ⟨x, rfl, hx⟩ := hs.sequence ha hnamed
      obtain ⟨y, rfl, hy⟩ := hs.sequence hb hnamed'
      cases hx.symm.trans hitems'
      cases hitem'
      exact hne rfl
    · exact hs.closed hb i hparam
  · exact hs.closed ha i hparam

end Shaped

end TypeOrder

end FatArrow
