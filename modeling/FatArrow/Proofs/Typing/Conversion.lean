import FatArrow.Typing.Conversion
import Mathlib.Data.List.Forall2

/-!
# What conversions make of a term

A conversion keeps a term, makes a constant of it, or puts it under a cast.  The type of the result
is the one that was asked for, or that of the term where nothing was to be done.
-/

namespace FatArrow

/-! ## 1. Values -/

namespace Value

variable {v w : Value} {p : Primitive}

theorem isNull_of_primitive? (h : v.primitive? = some p) : v.isNull = false := by
  cases v <;> first | rfl | cases h

theorem ofWhole?_primitive? {n : Int} (h : ofWhole? n p = some w) : w.primitive? = some p := by
  cases p <;> cases h <;> rfl

theorem ofFloat?_primitive? {x : Float} (h : ofFloat? x p = some w) : w.primitive? = some p := by
  cases p <;> cases h <;> rfl

/-- What a value is converted to has the type that it is converted to. -/
theorem convert?_primitive? (h : v.convert? p = some w) : w.primitive? = some p := by
  unfold convert? at h
  split at h
  next hsame =>
    cases h
    exact hsame
  next =>
    split at h
    · exact ofFloat?_primitive? h
    · exact ofFloat?_primitive? h
    · obtain ⟨n, -, hn⟩ := Option.bind_eq_some_iff.mp h
      exact ofWhole?_primitive? hn

theorem convert?_self (h : v.primitive? = some p) : v.convert? p = some v := by
  unfold convert?
  rw [if_pos h]

end Value

/-! ## 2. Forms -/

/-- The terms that a conversion can make of one. -/
inductive Term.Converts (t : Term) : Term → Prop where
  | kept : Converts t t
  | constant (value : Value) (type : HostType) : Converts t (.const value type)
  | cast (type : HostType) : Converts t (.cast t type)

namespace Term

theorem retyped?_eq_const {value : Value} {type target : HostType} {t : Term}
    (h : retyped? value type target = some t) : ∃ w, t = .const w target := by
  unfold retyped? at h
  split at h
  · split at h
    · exact ⟨.null, (Option.some.inj h).symm⟩
    · cases h
  · simp only [Option.bind_eq_bind, Option.bind_eq_some_iff] at h
    obtain ⟨source, _, kind, _, h⟩ := h
    split at h
    · obtain ⟨w, _, rfl⟩ := Option.map_eq_some_iff.mp h
      exact ⟨w, rfl⟩
    · cases h

/-- The term as it is or under a cast; of a constant, maybe another constant. -/
inductive Retains : Term → Term → Prop where
  | kept (t : Term) : Retains t t
  | cast (t : Term) (type : HostType) : Retains t (.cast t type)
  | constant (v w : Value) (type target : HostType) : Retains (.const v type) (.const w target)

theorem Retains.converts {t u : Term} (h : t.Retains u) : t.Converts u := by
  cases h with
  | kept => exact .kept
  | cast _ type => exact .cast type
  | constant _ w _ target => exact .constant w target

theorem retains_convert (t : Term) (target : HostType) : t.Retains (t.convert target) := by
  unfold convert
  split
  · exact .kept t
  · split
    · exact .kept t
    · split
      · rename_i value type _
        cases hr : retyped? value type target with
        | none => exact .cast _ target
        | some u =>
          obtain ⟨w, rfl⟩ := retyped?_eq_const hr
          exact .constant value w type target
      · exact .cast t target

theorem eq_null_of_isNullConstant {t : Term} (h : t.isNullConstant = true) :
    ∃ type, t = .null type := by
  cases t with
  | const value type =>
    cases value with
    | null => exact ⟨type, rfl⟩
    | _ => simp [isNullConstant, value?, Value.isNull] at h
  | _ => simp [isNullConstant, value?] at h

theorem retains_null {t : Term} (h : t.isNullConstant = true) (type : HostType) :
    t.Retains (.null type) := by
  obtain ⟨source, rfl⟩ := eq_null_of_isNullConstant h
  exact .constant .null .null source type

theorem retains_coerce (o : TypeOrder) (t : Term) (target : HostType) :
    t.Retains (t.coerce o target) := by
  unfold coerce
  split
  · exact .kept t
  · split
    · exact .kept t
    · split
      next hnull =>
        split
        · exact retains_null hnull target
        · exact .kept t
      next =>
        split
        · exact .kept t
        · exact retains_convert t target

theorem retains_asArgument (t : Term) (param : HostType) : t.Retains (t.asArgument param) := by
  unfold asArgument
  split
  · exact .kept t
  · split
    · exact .kept t
    · split
      next hnull =>
        split
        · exact retains_null hnull param
        · exact .kept t
      next =>
        split
        · exact retains_convert t param
        · exact .kept t

theorem retains_asArguments {args : List Term} {params : List HostType}
    (hl : args.length = params.length) :
    List.Forall₂ Retains args (asArguments args params) := by
  induction args generalizing params with
  | nil => exact .nil
  | cons arg args ih =>
    cases params with
    | nil => cases hl
    | cons param params => exact .cons (arg.retains_asArgument param) (ih (Nat.succ.inj hl))

theorem converts_convert (t : Term) (target : HostType) : t.Converts (t.convert target) :=
  (t.retains_convert target).converts

theorem converts_coerce (o : TypeOrder) (t : Term) (target : HostType) :
    t.Converts (t.coerce o target) :=
  (t.retains_coerce o target).converts

theorem converts_asArgument (t : Term) (param : HostType) : t.Converts (t.asArgument param) :=
  (t.retains_asArgument param).converts

/-! ## 3. Types -/

theorem type?_convert {t : Term} {source : HostType} (h : t.type? = some source)
    (target : HostType) : (t.convert target).type? = some target := by
  unfold convert
  rw [h]
  by_cases hs : source = target
  · simp only [hs, ↓reduceIte]
    rw [h, hs]
  · simp only [hs, ↓reduceIte]
    split
    · rename_i value type
      cases hr : retyped? value type target with
      | none => rfl
      | some u =>
        obtain ⟨w, rfl⟩ := retyped?_eq_const hr
        rfl
    · rfl

/-- An operand keeps its type or takes that of the other one. -/
theorem type?_coerce {t : Term} {source : HostType} (h : t.type? = some source) (o : TypeOrder)
    (target : HostType) :
    (t.coerce o target).type? = some source ∨ (t.coerce o target).type? = some target := by
  unfold coerce
  rw [h]
  dsimp only
  split
  · exact .inl h
  · split
    · split
      · exact .inr rfl
      · exact .inl h
    · split
      · exact .inl h
      · exact .inr (type?_convert h target)

/-- An argument for a parameter of a value type has exactly its type, unless it is a null that the
type does not admit.  Any other argument keeps its type or has that of the parameter. -/
theorem type?_asArgument {t : Term} {source : HostType} (h : t.type? = some source)
    (param : HostType) :
    (t.asArgument param).type? = some param ∨
      t.asArgument param = t ∧
        (param.isValueType → t.isNullConstant ∧ param.admitsNull = false) := by
  unfold asArgument
  rw [h]
  dsimp only
  by_cases hs : source = param
  · simp only [hs, ↓reduceIte]
    exact .inl (h.trans (congrArg some hs))
  · simp only [hs, ↓reduceIte]
    by_cases hn : t.isNullConstant
    · simp only [hn, ↓reduceIte]
      by_cases ha : param.admitsNull
      · simp only [ha, ↓reduceIte]
        exact .inl rfl
      · simp only [ha, Bool.false_eq_true, ↓reduceIte]
        exact .inr ⟨trivial, fun _ => ⟨trivial, trivial⟩⟩
    · simp only [hn, Bool.false_eq_true, ↓reduceIte]
      by_cases hv : param.isValueType
      · simp only [hv, ↓reduceIte]
        exact .inl (type?_convert h param)
      · simp only [hv, Bool.false_eq_true, ↓reduceIte]
        exact .inr ⟨trivial, fun hv => absurd hv (by simp)⟩

end Term

end FatArrow
