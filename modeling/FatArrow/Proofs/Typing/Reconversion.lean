import FatArrow.Proofs.Typing.Assignable
import FatArrow.Proofs.Typing.Conversion
import FatArrow.Proofs.Typing.Overload

/-!
# Conversions that are made again

What a conversion makes of a term is printed as a cast, or as a constant that is read with the type of
its literal.  Where what is read is converted once more to the type that it was converted to, the same
comes out, and no type stands for what is read that did not stand for the term.
-/

namespace FatArrow

/-- The type of the literal that spells a value. -/
def Value.literalType (v : Value) : HostType :=
  match v.primitive? with
  | some p => .primitive p
  | none => .object

/-- A type that is read where an argument of one type is printed after it was brought to the type of its
parameter: it is that of the parameter if the argument had that, and no more types stand for it. -/
structure TypeOrder.Rereads (o : TypeOrder) (param source type : HostType) : Prop where
  same : source = param → type = param
  fits : o.assignable param type = true
  wider : ∀ {c}, o.assignable c type = true → o.assignable c source = true

namespace Term

/-- What is read where a term is printed: a constant has the type of its literal. -/
def asRead : Term → Term
  | .const v _ => .const v v.literalType
  | t => t

/-- An operand: a term that is read as it is, with its type. -/
structure IsOperand (B : HostType → Prop) (t : Term) (type : HostType) : Prop where
  typed : t.type? = some type
  read : t.asRead = t
  built : B type

variable {o : TypeOrder} {B : HostType → Prop} {t : Term} {source target param : HostType}

/-! ## 1. Nulls -/

/-- A null that is read is an object. -/
theorem eq_null_object (hread : t.asRead = t) (h : t.isNullConstant = true) :
    t = .null .object := by
  obtain ⟨type, rfl⟩ := eq_null_of_isNullConstant h
  exact hread.symm

/-- So an operand of another type is no null. -/
theorem IsOperand.not_null (h : IsOperand B t source) (hne : source ≠ .object) :
    t.isNullConstant = false := by
  rw [Bool.eq_false_iff]
  intro hnull
  have htyped := h.typed
  rw [eq_null_object h.read hnull] at htyped
  exact hne (Option.some.inj htyped).symm

/-! ## 2. Conversions -/

/-- A conversion of what is read, and is no null, keeps it, puts it under a cast, or makes a number of
a number. -/
theorem convert_cases {c : HostType} (hread : t.asRead = t) (ht : t.type? = some source)
    (hnull : t.isNullConstant = false) : t.convert c = t ∧ source = c ∨
      t.convert c = .cast t c ∨ ∃ v w from_ kind, t = .const v (.primitive from_) ∧
        v.primitive? = some from_ ∧ from_.isNumeric = true ∧ t.convert c = .const w c ∧
          c.shape = .primitive kind ∧ kind.isNumeric = true ∧ v.convert? kind = some w := by
  unfold convert
  rw [ht]
  by_cases hsame : source = c
  · exact .inl ⟨by simp only [hsame, ↓reduceIte], hsame⟩
  refine .inr ?_
  simp only [hsame, ↓reduceIte]
  split
  next v type =>
    obtain rfl : v.literalType = type := by
      cases hread
      rfl
    cases hr : retyped? v v.literalType c with
    | none => exact .inl rfl
    | some u =>
      have hv : v.isNull = false := hnull
      unfold retyped? at hr
      rw [hv] at hr
      obtain ⟨from_, hfrom, hr⟩ := Option.bind_eq_some_iff.mp hr
      obtain ⟨kind, hkind, hr⟩ := Option.bind_eq_some_iff.mp hr
      split at hr
      next hnumeric =>
        rw [Bool.and_eq_true] at hnumeric
        obtain ⟨w, hw, rfl⟩ := Option.map_eq_some_iff.mp hr
        -- a value without a type of its own is not numeric
        have hprimitive : v.primitive? = some from_ := by
          unfold Value.literalType at hfrom
          cases hp : v.primitive? with
          | some p =>
            rw [hp] at hfrom
            exact hfrom
          | none =>
            rw [hp] at hfrom
            cases hfrom
            cases hnumeric.1
        have htype : v.literalType = .primitive from_ := by rw [Value.literalType, hprimitive]
        refine .inr ⟨v, w, from_, kind, by rw [htype], hprimitive, hnumeric.1, rfl,
          HostType.primitive?_eq hkind, hnumeric.2, hw⟩
      next => cases hr
  next => exact .inl rfl

/-- A term that is converted has the target type where it is read, or that type without null, and is
converted to the same again. -/
theorem asRead_convert (hs : o.Shaped B) (hb : B target) (hread : t.asRead = t)
    (ht : t.type? = some source) (hnull : t.isNullConstant = false) :
    (t.convert target).asRead.isNullConstant = false ∧
      (t.convert target).asRead.convert target = t.convert target ∧
        ((t.convert target).asRead = t.convert target ∧ (t.convert target).type? = some target ∨
          target.nullable = true ∧ source.nullable = false ∧
            (t.convert target).asRead.type? = some target.underlying) := by
  rcases convert_cases hread ht hnull (c := target) with ⟨he, rfl⟩ | he |
    ⟨v, w, from_, kind, rfl, -, -, he, hshape, hnumeric, hw⟩
  · rw [he, hread]
    exact ⟨hnull, he, .inl ⟨rfl, ht⟩⟩
  · rw [he]
    refine ⟨rfl, ?_, .inl ⟨rfl, rfl⟩⟩
    simp [asRead, convert, type?]
  · have hprimitive := Value.convert?_primitive? hw
    have hargs := hs.primitive hb hshape
    have htype : w.literalType = target.underlying := by
      rw [Value.literalType, hprimitive]
      obtain ⟨shape, args, nullable⟩ := target
      cases hshape
      cases hargs
      rfl
    have hconvert : (Term.const w w.literalType).convert target = .const w target := by
      rw [convert, type?]
      dsimp only
      split
      next hsame => rw [hsame]
      next =>
        have hnot := Value.isNull_of_primitive? hprimitive
        have hkind := HostType.primitive?_of_shape hshape
        have hunder : target.underlying.primitive? = some kind := hkind
        simp [retyped?, hnot, htype, hunder, hkind, hnumeric, Value.convert?_self hprimitive]
    rw [he]
    refine ⟨Value.isNull_of_primitive? hprimitive, hconvert, ?_⟩
    cases hn : target.nullable with
    | true =>
      cases ht
      exact .inr ⟨rfl, rfl, congrArg some htype⟩
    | false =>
      rw [HostType.underlying_eq_self hn] at htype
      exact .inl ⟨congrArg (Term.const w) htype, rfl⟩

/-! ## 3. Operands -/

/-- An operand keeps its type, is a null of the type of the other one, or is converted to it. -/
theorem coerce_cases {c : HostType} (ht : t.type? = some source) : t.coerce o c = t ∨
    (source ≠ c ∧ c.isPrimitive .object = false) ∧
      (t.isNullConstant = true ∧ t.coerce o c = .null c ∨ t.isNullConstant = false ∧
        source.nullable = false ∧ o.assignable c source = true ∧
          t.coerce o c = t.convert c) := by
  unfold coerce
  rw [ht]
  dsimp only
  split
  next => exact .inl rfl
  next hsame =>
    rw [Bool.or_eq_true, decide_eq_true_iff, not_or, Bool.not_eq_true] at hsame
    split
    next hnull =>
      split
      next => exact .inr ⟨hsame, .inl ⟨hnull, rfl⟩⟩
      next => exact .inl rfl
    next hnull =>
      split
      next => exact .inl rfl
      next hfits =>
        simp only [Bool.or_eq_true, Bool.not_eq_true', not_or, Bool.not_eq_true,
          Bool.not_eq_false] at hfits
        exact .inr ⟨hsame, .inr ⟨Bool.not_eq_true _ ▸ hnull, hfits.1, hfits.2, rfl⟩⟩

theorem coerce_of_nullable (ht : t.type? = some source) (hn : source.nullable = true)
    (hnull : t.isNullConstant = false) : t.coerce o target = t := by
  rcases coerce_cases (o := o) (c := target) ht with h | ⟨-, ⟨h, -⟩ | ⟨-, h, -⟩⟩
  · exact h
  · cases hnull.symm.trans h
  · cases hn.symm.trans h

theorem coerce_self (ht : t.type? = some source) : t.coerce o source = t := by
  rcases coerce_cases (o := o) (c := source) ht with h | ⟨⟨h, -⟩, -⟩
  · exact h
  · exact absurd rfl h

theorem coerce_object (ht : t.type? = some source) : t.coerce o .object = t := by
  rcases coerce_cases (o := o) (c := .object) ht with h | ⟨⟨-, h⟩, -⟩
  · exact h
  · cases h

/-- What is read of an operand that was brought to a type is brought to it again. -/
theorem coerce_asRead (hs : o.Shaped B) (hb : B target) (hread : t.asRead = t)
    (ht : t.type? = some source) :
    (t.coerce o target).asRead.coerce o target = t.coerce o target := by
  rcases coerce_cases (o := o) (c := target) ht with he | ⟨-, ⟨hnull, he⟩ | ⟨hnull, -, -, he⟩⟩
  · rw [he, hread, he]
  · -- what is read is the null that was there before
    obtain rfl := eq_null_object hread hnull
    rw [he]
    exact he
  · rw [he]
    obtain ⟨hagain, hconvert, ⟨hself, htype⟩ | ⟨hn, -, htype⟩⟩ :=
      asRead_convert hs hb hread ht hnull
    · rw [hself, coerce_self htype]
    · -- the type without null is brought to the type itself
      have hne : target.underlying ≠ target := fun he => by
        rw [← he] at hn
        cases hn
      have hobject : target.isPrimitive .object = false := by rw [HostType.isPrimitive, hn]; rfl
      have hplain : target.underlying.nullable = false := rfl
      rw [coerce, htype]
      simp only [hne, hobject, hagain, hplain, o.assignable_underlying, hconvert, decide_false,
        Bool.or_false, Bool.not_true, Bool.false_eq_true, ↓reduceIte]

section Pair

variable {a b : Term} {ta tb : HostType}

/-- Of two operands no more than one is brought to the type of the other. -/
theorem coerce_eq_self_or (hs : o.Shaped B) (ha : B ta) (hb : B tb) (hra : a.asRead = a)
    (hrb : b.asRead = b) (hta : a.type? = some ta) (htb : b.type? = some tb) :
    a.coerce o tb = a ∨ b.coerce o ta = b := by
  rcases coerce_cases (o := o) (c := tb) hta with h | ⟨⟨hne, htbo⟩, h⟩
  · exact .inl h
  rcases coerce_cases (o := o) (c := ta) htb with h' | ⟨⟨-, htao⟩, h'⟩
  · exact .inr h'
  exfalso
  -- a null is an object, to which nothing is brought
  have hnull {t : Term} {type : HostType} (hread : t.asRead = t) (ht : t.type? = some type)
      (ho : type.isPrimitive .object = false) : t.isNullConstant = false := by
    rw [Bool.eq_false_iff]
    intro h
    obtain rfl := eq_null_object hread h
    cases ht
    cases ho
  rcases h with ⟨h, -⟩ | ⟨-, hna, hfits, -⟩
  · cases (hnull hra hta htao).symm.trans h
  rcases h' with ⟨h', -⟩ | ⟨-, hnb, hfits', -⟩
  · cases (hnull hrb htb htbo).symm.trans h'
  cases hfits'.symm.trans (hs.assignable_asymm hb ha hne.symm hnb hna htbo htao hfits)

theorem coerce_pair_of_self (hs : o.Shaped B) (hb : B tb) (hra : a.asRead = a)
    (hrb : b.asRead = b) (hta : a.type? = some ta) (htb : b.type? = some tb)
    (hself : b.coerce o ta = b) : ∃ ta', (a.coerce o tb).asRead.type? = some ta' ∧
      (a.coerce o tb).asRead.coerce o tb = a.coerce o tb ∧ b.coerce o ta' = b := by
  have hagain := coerce_asRead hs hb hra hta
  rcases coerce_cases (o := o) (c := tb) hta with he | ⟨-, ⟨hnull, he⟩ | ⟨hnull, -, -, he⟩⟩
  · rw [he] at hagain ⊢
    rw [hra] at hagain ⊢
    exact ⟨ta, hta, hagain, hself⟩
  · rw [he] at hagain ⊢
    exact ⟨.object, rfl, hagain, coerce_object htb⟩
  · rw [he] at hagain ⊢
    obtain ⟨-, -, ⟨hread, htype⟩ | ⟨hn, -, htype⟩⟩ := asRead_convert hs hb hra hta hnull
    · rw [← hread] at htype
      exact ⟨tb, htype, hagain, coerce_self htb⟩
    · refine ⟨_, htype, hagain, coerce_of_nullable htb hn ?_⟩
      rw [Bool.eq_false_iff]
      intro h
      obtain rfl := eq_null_object hrb h
      cases htb
      cases hn

/-- What is read of two operands, each brought to the type of the other, is brought to the same
again. -/
theorem coerce_pair (hs : o.Shaped B) (ha : B ta) (hb : B tb) (hra : a.asRead = a)
    (hrb : b.asRead = b) (hta : a.type? = some ta) (htb : b.type? = some tb) :
    ∃ ta' tb', (a.coerce o tb).asRead.type? = some ta' ∧
      (b.coerce o ta).asRead.type? = some tb' ∧
        (a.coerce o tb).asRead.coerce o tb' = a.coerce o tb ∧
          (b.coerce o ta).asRead.coerce o ta' = b.coerce o ta := by
  rcases coerce_eq_self_or hs ha hb hra hrb hta htb with hself | hself
  · obtain ⟨tb', htype, hagain, hkept⟩ := coerce_pair_of_self hs ha hrb hra htb hta hself
    rw [hself, hra]
    exact ⟨ta, tb', hta, htype, hkept, hagain⟩
  · obtain ⟨ta', htype, hagain, hkept⟩ := coerce_pair_of_self hs hb hra hrb hta htb hself
    rw [hself, hrb]
    exact ⟨ta', tb, htype, htb, hagain, hkept⟩

end Pair

/-! ## 4. Arguments -/

/-- For a parameter whose type is no value type, what is no null stays as it is. -/
theorem asArgument_eq_self (ht : t.type? = some source) (hnull : t.isNullConstant = false)
    (hv : param.isValueType = false) : t.asArgument param = t := by
  rw [asArgument, ht]
  simp only [hnull, hv, Bool.false_eq_true, ↓reduceIte, ite_self]

/-- What is read of an argument that was brought to the type of its parameter is brought to it
again. -/
theorem asArgument_asRead (hs : o.Shaped B) (ha : B source) (hp : B param) (hread : t.asRead = t)
    (ht : t.type? = some source) (hfits : o.assignable param source = true) :
    ∃ type, (t.asArgument param).asRead.type? = some type ∧ o.Rereads param source type ∧
      (t.asArgument param).asRead.asArgument param = t.asArgument param := by
  have hkept (h : t.asArgument param = t) : ∃ type, (t.asArgument param).asRead.type? = some type ∧
      o.Rereads param source type ∧
        (t.asArgument param).asRead.asArgument param = t.asArgument param := by
    rw [h, hread]
    exact ⟨source, ht, ⟨fun he => he, hfits, fun h => h⟩, h⟩
  by_cases hsame : source = param
  · refine hkept ?_
    rw [asArgument, ht]
    simp only [hsame, ↓reduceIte]
  by_cases hnull : t.isNullConstant = true
  · obtain rfl := eq_null_object hread hnull
    cases hadmits : param.admitsNull with
    | false =>
      refine hkept ?_
      rw [asArgument, ht]
      simp only [hsame, hnull, hadmits, Bool.false_eq_true, ↓reduceIte]
    | true =>
      have he : (Term.null .object).asArgument param = .null param := by
        rw [asArgument, ht]
        simp only [hsame, hnull, hadmits, ↓reduceIte]
      rw [he]
      exact ⟨source, ht, ⟨fun h => absurd h hsame, hfits, fun h => h⟩, he⟩
  rw [Bool.not_eq_true] at hnull
  cases hv : param.isValueType with
  | false => exact hkept (asArgument_eq_self ht hnull hv)
  | true =>
    have he (u : Term) (type : HostType) (hu : u.type? = some type) (hn : u.isNullConstant = false) :
        u.asArgument param = u.convert param := by
      rw [asArgument, hu]
      by_cases hs : type = param
      · simp only [hs, ↓reduceIte, convert, hu]
      · simp only [hs, hn, hv, Bool.false_eq_true, ↓reduceIte]
    obtain ⟨hagain, hconvert, htype⟩ := asRead_convert hs hp hread ht hnull
    rw [he t source ht hnull]
    rcases htype with ⟨hself, htype⟩ | ⟨hn, hplain, htype⟩
    · rw [hself] at hconvert ⊢
      refine ⟨param, htype, ⟨fun _ => rfl, o.assignable_refl param, fun h =>
        hs.assignable_trans ha hp hv hfits h⟩, ?_⟩
      rw [he _ param htype (by rwa [hself] at hagain), hconvert]
    · -- a constant of a number type that null was added to is read without it
      have hunder : o.assignable param.underlying source = true := by
        rw [hs.assignable_iff hp ha, TypeOrder.fitsUnder, hn] at hfits
        refine TypeOrder.assignable_of_fitsUnder ?_
        rwa [HostType.underlying_eq_self hplain] at hfits
      exact ⟨_, htype, ⟨fun h => absurd h hsame, o.assignable_underlying param, fun h =>
        hs.assignable_trans ha (hs.underlying hp) hv hunder h⟩, by rw [he _ _ htype hagain, hconvert]⟩

end Term

end FatArrow
