import FatArrow.Meaning.Operator
import FatArrow.Proofs.Typing.Assignable
import FatArrow.Proofs.Typing.Conversion

/-!
# Values of a type

Which values a type has.  The primitive types, the arrays and the four value types with a name have
values of their own; a type that is open to others has the values of every type that can stand for
it.  A cast to an open type, or one that converts, succeeds and yields a value of its target.
-/

namespace FatArrow

/-! ## 1. Open types -/

/-- A type for which other types can be made to stand: an object, a generic parameter, or a named
type that is no value type. -/
def HostType.isOpen (t : HostType) : Bool :=
  match t.shape with
  | .primitive p => p == .object
  | .named _ => !t.isValueType
  | .array => false
  | .param _ => true

/-- The order without the bases that a host declares. -/
def TypeOrder.undeclared (o : TypeOrder) : TypeOrder := { o with derives _ _ := false }

namespace HostType

variable {t : HostType} {p : Primitive} {name : String}

theorem isOpen_of_primitive (h : t.primitive? = some p) : t.isOpen = (p == .object) := by
  simp [isOpen, primitive?_eq h]

theorem isOpen_of_isArray (h : t.isArray = true) : t.isOpen = false := by
  have hs : t.shape = .array := beq_iff_eq.mp h
  simp [isOpen, hs]

theorem isOpen_of_isNamed (h : t.isNamed name = true)
    (hv : name ∈ [WellKnown.dateTime, WellKnown.dateTimeOffset, WellKnown.timeSpan,
      WellKnown.guid]) : t.isOpen = false := by
  obtain ⟨q, hs, rfl⟩ := isNamed_eq h
  simp only [isOpen, isValueType, hs, List.contains_iff_mem.mpr hv, Bool.not_true]

end HostType

/-! ## 2. Values -/

/-- The values of a type. -/
inductive Value.HasType (o : TypeOrder) : Value → HostType → Prop where
  | null {type : HostType} (admits : type.admitsNull = true) : HasType o .null type
  | primitive {v : Value} {type : HostType} {p : Primitive} (own : v.primitive? = some p)
      (same : type.primitive? = some p) : HasType o v type
  | array {items : List Value} {type : HostType} (same : type.isArray = true)
      (inside : ∀ i ∈ items, HasType o i (type.element?.getD .object)) :
      HasType o (.array items) type
  | dateTime {t : DateTime} {type : HostType} (same : type.isNamed WellKnown.dateTime = true) :
      HasType o (.dateTime t) type
  | dateTimeOffset {t : DateTimeOffset} {type : HostType}
      (same : type.isNamed WellKnown.dateTimeOffset = true) : HasType o (.dateTimeOffset t) type
  | timeSpan {t : TimeSpan} {type : HostType} (same : type.isNamed WellKnown.timeSpan = true) :
      HasType o (.timeSpan t) type
  | guid {g : Guid} {type : HostType} (same : type.isNamed WellKnown.guid = true) :
      HasType o (.guid g) type
  | object {type : HostType} {id : Nat} (isOpen : type.isOpen = true) :
      HasType o (.object type id) type
  | subsumed {v : Value} {source type : HostType} (value : HasType o v source)
      (fits : o.assignable type source = true) (isOpen : type.isOpen = true) : HasType o v type

namespace Value.HasType

variable {o : TypeOrder} {v : Value} {type source target : HostType} {p : Primitive}

/-- A closed primitive type has null, if it admits it, and its own values. -/
theorem of_primitive (h : v.HasType o type) (hp : type.primitive? = some p) (hne : p ≠ .object) :
    v = .null ∧ type.admitsNull = true ∨ v.primitive? = some p := by
  have hclosed : type.isOpen = false := by
    rw [HostType.isOpen_of_primitive hp]
    exact beq_eq_false_iff_ne.mpr hne
  have hs := HostType.primitive?_eq hp
  cases h with
  | null admits => exact .inl ⟨rfl, admits⟩
  | primitive own same =>
    rw [hp] at same
    cases same
    exact .inr own
  | array same =>
    have hs' : type.shape = .array := beq_iff_eq.mp same
    rw [hs] at hs'
    cases hs'
  | dateTime same | dateTimeOffset same | timeSpan same | guid same =>
    obtain ⟨q, hs', -⟩ := HostType.isNamed_eq same
    rw [hs] at hs'
    cases hs'
  | object isOpen | subsumed _ _ isOpen =>
    rw [hclosed] at isOpen
    cases isOpen

/-- An array type has null and arrays of its items. -/
theorem of_array (h : v.HasType o type) (ha : type.isArray = true) :
    v = .null ∨ ∃ items, v = .array items ∧
      ∀ i ∈ items, i.HasType o (type.element?.getD .object) := by
  have hclosed := HostType.isOpen_of_isArray ha
  have hs : type.shape = .array := beq_iff_eq.mp ha
  cases h with
  | null => exact .inl rfl
  | array _ inside => exact .inr ⟨_, rfl, inside⟩
  | primitive _ same =>
    rw [HostType.primitive?_eq same] at hs
    cases hs
  | dateTime same | dateTimeOffset same | timeSpan same | guid same =>
    obtain ⟨q, hs', -⟩ := HostType.isNamed_eq same
    rw [hs] at hs'
    cases hs'
  | object isOpen | subsumed _ _ isOpen =>
    rw [hclosed] at isOpen
    cases isOpen

/-- One of the named value types has null, if it admits it, and its own values. -/
theorem of_isNamed {name : String} (h : v.HasType o type) (hn : type.isNamed name = true)
    (hv : name ∈ [WellKnown.dateTime, WellKnown.dateTimeOffset, WellKnown.timeSpan,
      WellKnown.guid]) :
    v = .null ∨ name = WellKnown.dateTime ∧ (∃ t, v = .dateTime t) ∨
      name = WellKnown.dateTimeOffset ∧ (∃ t, v = .dateTimeOffset t) ∨
      name = WellKnown.timeSpan ∧ (∃ t, v = .timeSpan t) ∨
      name = WellKnown.guid ∧ ∃ g, v = .guid g := by
  have hclosed := HostType.isOpen_of_isNamed hn hv
  obtain ⟨q, hs, rfl⟩ := HostType.isNamed_eq hn
  have hname {other : String} (same : type.isNamed other = true) : q.text = other := by
    obtain ⟨q', hs', hq⟩ := HostType.isNamed_eq same
    rw [hs] at hs'
    cases hs'
    exact hq
  cases h with
  | null => exact .inl rfl
  | dateTime same => exact .inr (.inl ⟨hname same, _, rfl⟩)
  | dateTimeOffset same => exact .inr (.inr (.inl ⟨hname same, _, rfl⟩))
  | timeSpan same => exact .inr (.inr (.inr (.inl ⟨hname same, _, rfl⟩)))
  | guid same => exact .inr (.inr (.inr (.inr ⟨hname same, _, rfl⟩)))
  | primitive _ same =>
    rw [HostType.primitive?_eq same] at hs
    cases hs
  | array same =>
    have hs' : type.shape = .array := beq_iff_eq.mp same
    rw [hs] at hs'
    cases hs'
  | object isOpen | subsumed _ _ isOpen =>
    rw [hclosed] at isOpen
    cases isOpen

/-- The values of a type but null are those of the type with null added. -/
theorem of_underlying (h : v.HasType o source) (hclosed : source.isOpen = false)
    (hn : v.isNull = false) (he : source.underlying = target.underlying) : v.HasType o target := by
  have hshape : source.underlying.shape = target.underlying.shape := by rw [he]
  have hargs : source.underlying.args = target.underlying.args := by rw [he]
  dsimp only [HostType.underlying] at hshape hargs
  have hprimitive : source.primitive? = target.primitive? := by
    simp only [HostType.primitive?, hshape]
  have harray : source.isArray = target.isArray := by
    simp only [HostType.isArray, hshape]
  have helement : source.element? = target.element? := by
    simp only [HostType.element?, harray, hargs]
  have hnamed (name : String) : source.isNamed name = target.isNamed name := by
    simp only [HostType.isNamed, HostType.name?, hshape]
  cases h with
  | null => cases hn
  | primitive own same => exact .primitive own (hprimitive ▸ same)
  | array same inside => exact .array (harray ▸ same) (helement ▸ inside)
  | dateTime same => exact .dateTime (hnamed _ ▸ same)
  | dateTimeOffset same => exact .dateTimeOffset (hnamed _ ▸ same)
  | timeSpan same => exact .timeSpan (hnamed _ ▸ same)
  | guid same => exact .guid (hnamed _ ▸ same)
  | object isOpen | subsumed _ _ isOpen =>
    rw [hclosed] at isOpen
    cases isOpen

end Value.HasType

/-! ## 3. Conversions of numbers -/

namespace Value

variable {v w : Value} {p q : Primitive}

theorem convert?_isSome (hv : v.primitive? = some q) (hq : (q.isNumeric || q == .char) = true)
    (hp : (p.isNumeric || p == .char) = true) : ∃ w, v.convert? p = some w := by
  have hwhole (n : Int) : ∃ w, ofWhole? n p = some w := by
    cases p <;> first | exact ⟨_, rfl⟩ | cases hp
  have hfloat (x : Float) : ∃ w, ofFloat? x p = some w := by
    cases p <;> first | exact ⟨_, rfl⟩ | cases hp
  unfold convert?
  split
  · exact ⟨v, rfl⟩
  · cases v with
    | single x => exact hfloat _
    | double x => exact hfloat _
    | char c => exact hwhole _
    | integer k w => exact hwhole _
    | bool | string =>
      cases hv
      cases hq
    | _ => cases hv

/-- A number or a character is converted to any type of numbers or of characters. -/
theorem needConvert_eq (hv : v.primitive? = some q) (hq : (q.isNumeric || q == .char) = true)
    (hp : (p.isNumeric || p == .char) = true) :
    ∃ w, v.needConvert p = .ok w ∧ w.primitive? = some p := by
  obtain ⟨w, hw⟩ := convert?_isSome hv hq hp
  unfold needConvert
  rw [hw]
  exact ⟨w, rfl, convert?_primitive? hw⟩

end Value

/-! ## 4. Casts along the order -/

namespace TypeOrder

variable {o : TypeOrder} {target source : HostType}

/-- What fits a closed type without null is the type itself or a narrower primitive. -/
theorem fitsPlain_closed (hclosed : target.isOpen = false) (h : o.fitsPlain target source = true) :
    target = source ∨ ∃ wide narrow, target.shape = .primitive wide ∧
      source.shape = .primitive narrow ∧ source.nullable = false ∧ narrow.widensTo wide = true := by
  rcases fitsPlain_cases h with h | hobject | h | ⟨hnamed, -⟩ | ⟨i, hparam⟩
  · exact .inl h
  · simp [HostType.isOpen, HostType.shape_of_isPrimitive hobject] at hclosed
  · exact .inr h
  · -- a sequence type is open
    obtain ⟨q, hq, -⟩ := HostType.isNamed_eq hnamed
    have hvalue : target.isValueType = true := by simpa [HostType.isOpen, hq] using hclosed
    cases (HostType.isNamed_enumerable_of_isValueType hvalue).symm.trans hnamed
  · simp [HostType.isOpen, hparam] at hclosed

/-- Without declared bases, what can stand for a closed type is the type itself, with or without null,
or a narrower primitive. -/
theorem undeclared_assignable_cases (hclosed : target.isOpen = false)
    (h : o.undeclared.assignable target source = true) :
    target = source ∨ target.nullable = true ∧ target.underlying = source.underlying ∨
      ∃ wide narrow, target.shape = .primitive wide ∧ source.shape = .primitive narrow ∧
        (source.nullable = true → target.nullable = true) ∧ narrow.widensTo wide = true := by
  unfold assignable fits at h
  split at h
  next hsame => exact .inl hsame
  next =>
    simp only [undeclared, Bool.or_false] at h
    split at h
    next hnull =>
      have hunderlying : target.underlying.isOpen = false := hclosed
      rcases fitsPlain_closed hunderlying h with he | ⟨wide, narrow, hwide, hnarrow, -, hw⟩
      · exact .inr (.inl ⟨hnull, he⟩)
      · exact .inr (.inr ⟨wide, narrow, hwide, hnarrow, fun _ => hnull, hw⟩)
    next =>
      rcases fitsPlain_closed hclosed h with he | ⟨wide, narrow, hwide, hnarrow, hs, hw⟩
      · exact .inl he
      · refine .inr (.inr ⟨wide, narrow, hwide, hnarrow, fun hn => ?_, hw⟩)
        rw [hs] at hn
        cases hn

end TypeOrder

theorem Primitive.scalar_of_widensTo {narrow wide : Primitive} (h : narrow.widensTo wide = true) :
    (narrow.isNumeric || narrow == .char) = true ∧ wide.isNumeric = true := by
  cases narrow <;> cases wide <;> first | exact ⟨rfl, rfl⟩ | cases h

namespace Value

variable {o : TypeOrder} {v : Value} {source target : HostType}

/-- A cast to an open type changes nothing. -/
theorem castTo_of_isOpen (h : target.isOpen = true) : v.castTo target = .ok v := by
  unfold castTo
  split
  next hn => cases v <;> first | rfl | cases hn
  next =>
    split
    next p hp =>
      have hobject : p = .object := by
        rw [HostType.isOpen_of_primitive hp] at h
        exact beq_iff_eq.mp h
      subst hobject
      rfl
    next => rfl

/-- A cast of a value of the very type, or of one that null was added to, changes nothing. -/
theorem castTo_of_hasType (h : v.HasType o target) : v.castTo target = .ok v := by
  unfold castTo
  split
  next hn => cases v <;> first | rfl | cases hn
  next hn =>
    split
    next p hp =>
      split
      next hscalar =>
        have hne : p ≠ .object := by
          rintro rfl
          cases hscalar
        rcases h.of_primitive hp hne with ⟨rfl, -⟩ | hown
        · exact absurd rfl hn
        · simp only [needConvert, convert?, hown, ↓reduceIte]
      next => rfl
    next => rfl

/-- A cast along the order succeeds and yields a value of its target, where the target is open or
stands for the type of the operand without a declared base. -/
theorem HasType.castTo (h : v.HasType o source) (hfits : o.assignable target source = true)
    (hown : target.isOpen = true ∨ o.undeclared.assignable target source = true) :
    ∃ w, v.castTo target = .ok w ∧ w.HasType o target := by
  by_cases hopen : target.isOpen = true
  · exact ⟨v, castTo_of_isOpen hopen, .subsumed h hfits hopen⟩
  have hclosed := Bool.eq_false_iff.mpr hopen
  -- the type itself, the type without null, or a narrower primitive
  rcases TypeOrder.undeclared_assignable_cases hclosed (hown.resolve_left hopen) with rfl | ⟨hnull, he⟩ |
    ⟨wide, narrow, hwide, hnarrow, hkeeps, hw⟩
  · exact ⟨v, castTo_of_hasType h, h⟩
  · have hadmits : target.admitsNull = true := by
      rw [HostType.admitsNull, hnull, Bool.true_or]
    have hv : v.HasType o target := by
      by_cases hn : v.isNull = true
      · cases v <;> first | exact .null hadmits | cases hn
      · refine h.of_underlying ?_ (Bool.eq_false_iff.mpr hn) he.symm
        have : source.underlying.isOpen = target.underlying.isOpen := by rw [he]
        exact this.trans hclosed
    exact ⟨v, castTo_of_hasType hv, hv⟩
  · obtain ⟨hscalar, hnumeric⟩ := Primitive.scalar_of_widensTo hw
    have hwide := HostType.primitive?_of_shape hwide
    have hne : narrow ≠ .object := by
      rintro rfl
      cases hscalar
    rcases h.of_primitive (HostType.primitive?_of_shape hnarrow) hne with ⟨rfl, hadmits⟩ | hown
    · -- a number type admits null only where it was added
      have hvalue : source.isValueType = true := by
        simp only [HostType.isValueType, hnarrow]
        cases narrow <;> first | rfl | cases hscalar
      have hsource : source.nullable = true := by
        simpa [HostType.admitsNull, hvalue] using hadmits
      refine ⟨.null, rfl, .null ?_⟩
      rw [HostType.admitsNull, hkeeps hsource, Bool.true_or]
    · have hwide' : (wide.isNumeric || wide == .char) = true := by rw [hnumeric, Bool.true_or]
      obtain ⟨w, hconvert, hprimitive⟩ := needConvert_eq hown hscalar hwide'
      refine ⟨w, ?_, .primitive hprimitive hwide⟩
      simp only [Value.castTo, isNull_of_primitive? hown, hwide, hwide', hconvert, ↓reduceIte,
        Bool.false_eq_true]

end Value

end FatArrow
