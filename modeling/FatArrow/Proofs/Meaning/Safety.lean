import FatArrow.Proofs.Meaning.Inlining
import FatArrow.Proofs.Typing.Operation

/-!
# Operations do not go wrong

For arguments of its parameter types an operation yields a value of its type, or divides by zero,
reads past the end of an array, or finds null in place of an array.  There is one exception: the
negation of a truth value is typed for null as well, and fails on it.
-/

namespace FatArrow

/-! ## 1. Failures -/

/-- The failures that well-typed operands leave possible. -/
def EvalError.IsRegular : EvalError → Prop
  | .divideByZero | .indexOutOfRange _ _ => True
  | .nullReference context => context = "array index" ∨ context = "Length"
  | _ => False

/-- The negation of a truth value that may be null. -/
def Term.negatesNullable : Term → Bool
  | .unary .not operand _ => operand.type?.any (·.nullable)
  | _ => false

/-- The failures of an operation. -/
def Term.MayFail (t : Term) (e : EvalError) : Prop :=
  e.IsRegular ∨ e = .typeMismatch "Boolean" "null" ∧ ∃ u ∈ t.nodes, u.negatesNullable = true

theorem Term.MayFail.of_child {t u : Term} {e : EvalError} (hu : u ∈ t.children)
    (h : u.MayFail e) : t.MayFail e := by
  refine h.imp_right fun ⟨he, w, hw, hn⟩ => ⟨he, w, ?_, hn⟩
  rw [nodes_eq]
  exact List.mem_cons_of_mem _ (List.mem_flatMap.mpr ⟨u, hu, hw⟩)

/-! ## 2. Outcomes -/

/-- A result that is promised, or a failure that is allowed. -/
def Ends {α : Type} (Fails : EvalError → Prop) (P : α → Prop) : Except EvalError α → Prop
  | .ok a => P a
  | .error e => Fails e

/-- A computation that ends so on every store, and leaves the store as it is. -/
def Eval.Ends {α : Type} (Fails : EvalError → Prop) (P : α → Prop) (x : Eval α) : Prop :=
  ∀ store, FatArrow.Ends Fails (fun r => P r.1 ∧ r.2 = store) (x store)

namespace Eval.Ends

variable {α β : Type} {Fails Fails' : EvalError → Prop} {P : α → Prop} {Q : β → Prop}

theorem pure {a : α} (h : P a) : Eval.Ends Fails P (Pure.pure a) := fun _ => ⟨h, rfl⟩

theorem lift {x : Except EvalError α} (h : FatArrow.Ends Fails P x) :
    Eval.Ends Fails P (liftM x) := by
  intro store
  cases x with
  | ok a => exact ⟨h, rfl⟩
  | error e => exact h

theorem bind {x : Eval α} {f : α → Eval β} (hx : Eval.Ends Fails P x)
    (h : ∀ a, P a → Eval.Ends Fails Q (f a)) : Eval.Ends Fails Q (x >>= f) := by
  intro store
  have hrun : (x >>= f) store = x store >>= fun r => f r.1 r.2 := rfl
  have hends := hx store
  rw [hrun]
  cases hr : x store with
  | error e =>
    rw [hr] at hends
    exact hends
  | ok r =>
    rw [hr] at hends
    obtain ⟨hp, hstore⟩ := hends
    have hnext := h r.1 hp r.2
    rw [hstore] at hnext
    show FatArrow.Ends _ _ (f r.1 r.2)
    rw [hstore]
    exact hnext

theorem fails (h : ∀ e, Fails e → Fails' e) {x : Eval α} (hx : Eval.Ends Fails P x) :
    Eval.Ends Fails' P x := by
  intro store
  have hends := hx store
  cases hr : x store with
  | error e =>
    rw [hr] at hends
    exact h e hends
  | ok r =>
    rw [hr] at hends
    exact hends

end Eval.Ends

/-! ## 3. Readings of numbers -/

namespace Value

variable {v w : Value} {p q : Primitive}

theorem needFloat_eq (hv : v.primitive? = some p) (hp : (p.isNumeric || p == .char) = true) :
    ∃ x, v.needFloat = .ok x := by
  cases v with
  | single | double | char | integer => exact ⟨_, rfl⟩
  | bool | string =>
    cases hv
    cases hp
  | _ => cases hv

theorem needInt_eq (hv : v.primitive? = some p) (hp : (p.isNumeric || p == .char) = true)
    (hf : p.isFloating = false) : ∃ n, v.needInt = .ok n := by
  cases v with
  | char | integer => exact ⟨_, rfl⟩
  | bool | string =>
    cases hv
    cases hp
  | single | double =>
    cases hv
    cases hf
  | _ => cases hv

theorem isFloat_eq (hv : v.primitive? = some p) : v.isFloat = p.isFloating := by
  cases v <;> cases hv <;> rfl

theorem compareWhole_eq {m n : Int64} (hv : v.needInt = .ok m) (hw : w.needInt = .ok n) :
    ∃ o, v.compareWhole w = .ok o := by
  unfold compareWhole
  split
  · exact ⟨_, rfl⟩
  · rw [hv, hw]
    exact ⟨_, rfl⟩

/-- Numbers and characters have an order. -/
theorem order_eq (hv : v.primitive? = some p) (hw : w.primitive? = some p)
    (hp : (p.isNumeric || p == .char) = true) : ∃ o, v.order w = .ok o := by
  have horder : v.order w =
      if v.isFloat || w.isFloat then do
        let x ← v.needFloat
        let y ← w.needFloat
        return compare (floatRank x) (floatRank y)
      else compareWhole v w := by
    cases v with
    | single | double | char | integer => rfl
    | bool | string =>
      cases hv
      cases hp
    | _ => cases hv
  rw [horder, isFloat_eq hv, isFloat_eq hw, Bool.or_self]
  cases hf : p.isFloating with
  | true =>
    obtain ⟨x, hx⟩ := needFloat_eq hv hp
    obtain ⟨y, hy⟩ := needFloat_eq hw hp
    rw [hx, hy]
    exact ⟨_, rfl⟩
  | false =>
    obtain ⟨m, hm⟩ := needInt_eq hv hp hf
    obtain ⟨n, hn⟩ := needInt_eq hw hp hf
    exact compareWhole_eq hm hn

end Value

theorem HostType.primitive?_of_isArithmetic {t : HostType} (h : t.isArithmetic = true) :
    ∃ p, t.primitive? = some p ∧ p.isNumeric = true := by
  have hany : t.primitive?.any (·.isNumeric) = true := h
  cases hp : t.primitive? with
  | none =>
    rw [hp] at hany
    cases hany
  | some p =>
    rw [hp] at hany
    exact ⟨p, rfl, hany⟩

theorem HostType.primitive?_of_isPrimitive {t : HostType} {p : Primitive}
    (h : t.isPrimitive p = true) : t.primitive? = some p ∧ t.nullable = false := by
  obtain ⟨hn, hs⟩ := Bool.and_eq_true_iff.mp h
  rw [primitive?, beq_iff_eq.mp hs]
  exact ⟨rfl, by simpa using hn⟩

/-- A node of a number type calculates in it. -/
theorem numberType_eq {type : HostType} {p : Primitive} (hp : type.primitive? = some p)
    (hn : p.isNumeric = true) (v : Value) : numberType type v = .ok p := by
  simp only [numberType, hp, Option.filter_some, hn, ↓reduceIte, Option.some_or]

/-! ## 4. Operators -/

section

variable {o : TypeOrder} {type a b t : HostType} {v w : Value}

theorem Value.hasType_bool (x : Bool) : (Value.bool x).HasType o .boolean := .primitive rfl rfl

/-- A value of a primitive value type without null is one of its own. -/
theorem Value.HasType.primitive?_eq {p : Primitive} (h : v.HasType o type)
    (hp : type.isPrimitive p = true) (hv : p.isValueType = true) : v.primitive? = some p := by
  obtain ⟨hprimitive, hnullable⟩ := HostType.primitive?_of_isPrimitive hp
  have hne : p ≠ .object := by
    rintro rfl
    cases hv
  rcases h.of_primitive hprimitive hne with ⟨-, hadmits⟩ | hown
  · simp [HostType.admitsNull, HostType.isValueType, HostType.primitive?_eq hprimitive, hnullable,
      hv] at hadmits
  · exact hown

theorem Value.HasType.needBool (h : v.HasType o type) (hb : type.isBoolean = true) :
    ∃ x, v.needBool = .ok x := by
  have hown := h.primitive?_eq hb rfl
  cases v <;> first | exact ⟨_, rfl⟩ | cases hown

/-- Calculation with numbers of a type yields a number of the type. -/
theorem BinaryOp.calculate_ends {op : BinaryOp} (ht : type.isArithmetic = true)
    (hv : v.HasType o type) (hw : w.HasType o type) :
    Ends EvalError.IsRegular (·.HasType o type) (op.calculate type v w) := by
  obtain ⟨p, hp, hn⟩ := HostType.primitive?_of_isArithmetic ht
  have hscalar : (p.isNumeric || p == .char) = true := by rw [hn, Bool.true_or]
  have hne : p ≠ .object := by
    rintro rfl
    cases hn
  unfold calculate
  -- null on one side makes the result null
  rcases hv.of_primitive hp hne with ⟨rfl, hadmits⟩ | hv'
  · exact .null hadmits
  rcases hw.of_primitive hp hne with ⟨rfl, hadmits⟩ | hw'
  · simp only [Value.isNull, Bool.or_true, ↓reduceIte]
    exact .null hadmits
  simp only [Value.isNull_of_primitive? hv', Value.isNull_of_primitive? hw', Bool.or_self,
    Bool.false_eq_true, ↓reduceIte, numberType_eq hp hn, bind, Except.bind]
  split
  next =>
    obtain ⟨x, hx⟩ := Value.needFloat_eq hv' hscalar
    obtain ⟨y, hy⟩ := Value.needFloat_eq hw' hscalar
    obtain ⟨r, hr, hprimitive⟩ :=
      Value.needConvert_eq (v := .double (op.onFloats x y)) rfl rfl hscalar
    simp only [hx, hy, hr]
    exact .primitive hprimitive hp
  next hwhole =>
    have hf : p.isFloating = false := by
      simp only [Bool.or_eq_true, not_or, Bool.not_eq_true] at hwhole
      exact hwhole.1
    obtain ⟨m, hm⟩ := Value.needInt_eq hv' hscalar hf
    obtain ⟨n, hn⟩ := Value.needInt_eq hw' hscalar hf
    simp only [hm, hn]
    cases hi : op.onInts m n with
    | error e =>
      have hzero : e = .divideByZero := by
        unfold onInts at hi
        split at hi <;> first | cases hi | (split at hi <;> cases hi; rfl)
      rw [hzero]
      trivial
    | ok k =>
      obtain ⟨r, hr, hprimitive⟩ := Value.needConvert_eq (v := .int64 k.toInt) rfl rfl hscalar
      simp only [hr]
      exact .primitive hprimitive hp

/-- Values of an ordered type but null have an order. -/
theorem Value.HasType.order (ht : type.isOrdered = true) (hv : v.HasType o type)
    (hw : w.HasType o type) (hvn : v.isNull = false) (hwn : w.isNull = false) :
    ∃ r, v.order w = .ok r := by
  have hscalar {p : Primitive} (hp : type.primitive? = some p)
      (hn : (p.isNumeric || p == .char) = true) : ∃ r, v.order w = .ok r := by
    have hne : p ≠ .object := by
      rintro rfl
      cases hn
    rcases hv.of_primitive hp hne with ⟨rfl, -⟩ | hv'
    · cases hvn
    rcases hw.of_primitive hp hne with ⟨rfl, -⟩ | hw'
    · cases hwn
    exact Value.order_eq hv' hw' hn
  simp only [HostType.isOrdered, Bool.or_eq_true] at ht
  rcases ht with (((hnumeric | hchar) | hname) | hname) | hname
  · obtain ⟨p, hp, hn⟩ := HostType.primitive?_of_isArithmetic hnumeric
    exact hscalar hp (by rw [hn, Bool.true_or])
  · exact hscalar (HostType.primitive?_of_isPrimitive hchar).1 rfl
  all_goals
    have hname : type.isNamed _ = true := hname
    have hv' := hv.of_isNamed hname (by simp)
    have hw' := hw.of_isNamed hname (by simp)
    simp only [WellKnown.dateTime, WellKnown.dateTimeOffset, WellKnown.timeSpan, WellKnown.guid,
      String.reduceEq, false_and, or_false, false_or, true_and] at hv' hw'
    rcases hv' with rfl | ⟨_, rfl⟩
    · cases hvn
    rcases hw' with rfl | ⟨_, rfl⟩
    · cases hwn
    exact ⟨_, rfl⟩

/-- An array is read at a position of it. -/
theorem BinaryOp.itemOf_ends (ha : a.isArray = true) (hv : v.HasType o a)
    (hw : w.HasType o .int32) :
    Ends EvalError.IsRegular (·.HasType o (a.element?.getD .object)) (itemOf v w) := by
  obtain ⟨i, hi⟩ := Value.needInt_eq (hw.primitive?_eq (p := .integer .int32) rfl rfl) rfl rfl
  rcases hv.of_array ha with rfl | ⟨items, rfl, hitems⟩
  · exact .inl rfl
  simp only [itemOf, hi, bind, Except.bind]
  split
  next item hitem =>
    split at hitem
    · cases hitem
    · exact hitems item (List.mem_of_getElem? hitem)
  next => trivial

/-- The operators that evaluate both operands. -/
theorem BinaryOp.apply_ends {op : BinaryOp} (hand : op ≠ .andAlso) (hor : op ≠ .orElse)
    (h : op.Joins a b type) (hv : v.HasType o a) (hw : w.HasType o b) :
    Ends EvalError.IsRegular (·.HasType o type) (op.apply type v w) := by
  cases op with
  | add =>
    obtain ⟨rfl, rfl, h⟩ := h
    simp only [apply]
    split
    next hstring => exact .primitive rfl (HostType.primitive?_of_isPrimitive hstring).1
    next hstring => exact calculate_ends (h.resolve_right hstring) hv hw
  | subtract | multiply | divide | modulo | power =>
    obtain ⟨rfl, rfl, h⟩ := h
    exact calculate_ends h hv hw
  | greaterThan | greaterThanOrEqual | lessThan | lessThanOrEqual =>
    obtain ⟨rfl, hordered, rfl⟩ := h
    simp only [apply]
    split
    next => exact Value.hasType_bool false
    next hnull =>
      simp only [Bool.or_eq_true, not_or, Bool.not_eq_true] at hnull
      obtain ⟨r, hr⟩ := hv.order hordered hw hnull.1 hnull.2
      rw [hr]
      exact Value.hasType_bool _
  | equal | notEqual =>
    cases h
    exact Value.hasType_bool _
  | exclusiveOr =>
    obtain ⟨ha, hb, rfl⟩ := h
    have hown := hv.primitive?_eq ha rfl
    have hown' := hw.primitive?_eq hb rfl
    cases v <;> cases hown
    cases w <;> cases hown'
    exact Value.hasType_bool _
  | arrayIndex =>
    obtain ⟨ha, rfl, rfl⟩ := h
    exact itemOf_ends ha hv hw
  | andAlso => exact absurd rfl hand
  | orElse => exact absurd rfl hor

/-- The operators on one operand.  The negation of a truth value fails on null. -/
theorem UnaryOp.apply_ends {op : UnaryOp} (h : op.Applies t) (hmakes : op.Makes t type)
    (hv : v.HasType o t) :
    Ends (fun e => e.IsRegular ∨ e = .typeMismatch "Boolean" "null" ∧ op = .not ∧ t.nullable = true)
      (·.HasType o type) (op.apply type v) := by
  cases op with
  | not =>
    have hboolean : t.underlying.isPrimitive .boolean = true := h
    have hp : t.primitive? = some .boolean := (HostType.primitive?_of_isPrimitive hboolean).1
    rcases hv.of_primitive hp nofun with ⟨rfl, hadmits⟩ | hown
    · refine .inr ⟨rfl, rfl, ?_⟩
      simpa [HostType.admitsNull, HostType.isValueType, HostType.primitive?_eq hp,
        Primitive.isValueType] using hadmits
    · cases v <;> cases hown
      exact .primitive rfl hmakes
  | arrayLength =>
    obtain rfl : type = .int32 := hmakes
    rcases hv.of_array h with rfl | ⟨items, rfl, -⟩
    · exact .inl (.inr rfl)
    · exact .primitive rfl rfl
  | unaryPlus =>
    obtain rfl : type = t := hmakes
    exact hv
  | negate =>
    obtain rfl : type = t := hmakes
    obtain ⟨p, hp, hn⟩ := HostType.primitive?_of_isArithmetic h
    have hscalar : (p.isNumeric || p == .char) = true := by rw [hn, Bool.true_or]
    have hne : p ≠ .object := by
      rintro rfl
      cases hn
    rcases hv.of_primitive hp hne with ⟨rfl, hadmits⟩ | hown
    · exact .null hadmits
    simp only [apply, negative, Value.isNull_of_primitive? hown, Bool.false_eq_true, ↓reduceIte,
      numberType_eq hp hn, bind, Except.bind]
    split
    next =>
      obtain ⟨x, hx⟩ := Value.needFloat_eq hown hscalar
      obtain ⟨r, hr, hprimitive⟩ := Value.needConvert_eq (v := .double (-x)) rfl rfl hscalar
      simp only [hx, hr]
      exact .primitive hprimitive hp
    next hf =>
      obtain ⟨n, hm⟩ := Value.needInt_eq hown hscalar (Bool.not_eq_true _ ▸ hf)
      obtain ⟨r, hr, hprimitive⟩ := Value.needConvert_eq (v := .int64 (-n).toInt) rfl rfl hscalar
      simp only [hm, hr]
      exact .primitive hprimitive hp
  | postIncrement | postDecrement => exact h.elim

end

/-! ## 5. Terms -/

section

variable {o : TypeOrder} {scope : List Param} {env : Bindings} {t : Term} {type : HostType}

theorem Term.evalAll_ends {Fails : EvalError → Prop} {P : Value → Prop} {ts : List Term}
    (h : ∀ t ∈ ts, Eval.Ends Fails P (t.eval env)) :
    Eval.Ends Fails (fun vs => ∀ v ∈ vs, P v) (Term.evalAll env ts) := by
  induction ts with
  | nil => exact .pure nofun
  | cons t ts ih =>
    obtain ⟨first, rest⟩ := List.forall_mem_cons.mp h
    exact first.bind fun v hv => (ih rest).bind fun vs hvs => .pure (List.forall_mem_cons.mpr ⟨hv, hvs⟩)

/-- A truth value decides how a computation goes on. -/
theorem Eval.Ends.needBool {Fails : EvalError → Prop} {P : Value → Prop} {x : Eval Value}
    {next : Bool → Eval Value} (hx : Eval.Ends Fails (·.HasType o type) x)
    (hb : type.isBoolean = true) (hnext : ∀ b, Eval.Ends Fails P (next b)) :
    Eval.Ends Fails P (do next (← (← x).needBool)) := by
  refine hx.bind fun v hv => ?_
  obtain ⟨b, hb⟩ := Value.HasType.needBool hv hb
  rw [hb]
  exact hnext b

/-- A cast to a closed type that nothing but a declared base allows. -/
def Term.followsBase (o : TypeOrder) : Term → Bool
  | .cast operand type => !type.isOpen && !operand.type?.any (o.undeclared.assignable type)
  | _ => false

/-- An operation without accesses ends in a value of its type, or fails as operations may. -/
theorem Term.Operates.eval (h : t.Operates o scope type)
    (hscope : ∀ p ∈ scope, ∃ v, env.lookup p.name = some v ∧ v.HasType o p.type)
    (hplain : t.Throughout fun u => u.isAccess = false ∧ u.followsBase o = false) :
    Eval.Ends t.MayFail (·.HasType o type) (t.eval env) := by
  induction h with
  | param declared =>
    obtain ⟨v, hv, htype⟩ := hscope _ declared
    rw [Term.eval, hv]
    exact .pure htype
  | const has => exact .pure has
  | access isAccess =>
    rw [(throughout_iff.mp hplain).1.1] at isAccess
    cases isAccess
  | @binary op left right a b type first second joins ihleft ihright =>
    obtain ⟨-, hinside⟩ := throughout_iff.mp hplain
    have hleft := (ihleft (hinside left (by simp [children]))).fails fun _ =>
      MayFail.of_child (t := .binary op left right type) (by simp [children])
    have hright := (ihright (hinside right (by simp [children]))).fails fun _ =>
      MayFail.of_child (t := .binary op left right type) (by simp [children])
    by_cases hand : op = .andAlso
    · subst hand
      obtain ⟨ha, hb, rfl⟩ := joins
      refine hleft.needBool ha fun x => ?_
      cases x with
      | true => exact hright.needBool hb fun y => .pure (Value.hasType_bool y)
      | false => exact .pure (Value.hasType_bool false)
    by_cases hor : op = .orElse
    · subst hor
      obtain ⟨ha, hb, rfl⟩ := joins
      refine hleft.needBool ha fun x => ?_
      cases x with
      | true => exact .pure (Value.hasType_bool true)
      | false => exact hright.needBool hb fun y => .pure (Value.hasType_bool y)
    rw [eval_binary hand hor]
    refine hleft.bind fun v hv => hright.bind fun w hw => ?_
    exact (Eval.Ends.lift (BinaryOp.apply_ends hand hor joins hv hw)).fails fun _ => .inl
  | @unary op operand t type inside applies makes ih =>
    obtain ⟨-, hinside⟩ := throughout_iff.mp hplain
    have hoperand := (ih (hinside operand (by simp [children]))).fails fun _ =>
      MayFail.of_child (t := .unary op operand type) (by simp [children])
    refine hoperand.bind fun v hv => ?_
    refine (Eval.Ends.lift (UnaryOp.apply_ends applies makes hv)).fails fun e he => ?_
    rcases he with he | ⟨he, hnot, hnull⟩
    · exact .inl he
    · refine .inr ⟨he, .unary op operand type, ?_, ?_⟩
      · rw [nodes_eq]
        exact List.mem_cons_self
      · subst hnot
        simpa [negatesNullable, inside.type?] using hnull
  | @array element items inside ih =>
    obtain ⟨-, hinside⟩ := throughout_iff.mp hplain
    have hitems := evalAll_ends fun i hi => (ih i hi (hinside i hi)).fails fun _ =>
      MayFail.of_child (t := .array element items (.arrayOf element)) hi
    exact hitems.bind fun vs hvs => .pure (.array rfl hvs)
  | @cast operand source type inside fits ih =>
    obtain ⟨⟨-, hbase⟩, hinside⟩ := throughout_iff.mp hplain
    have hoperand := (ih (hinside operand (by simp [children]))).fails fun _ =>
      MayFail.of_child (t := .cast operand type) (by simp [children])
    have hown : type.isOpen = true ∨ o.undeclared.assignable type source = true := by
      simp only [followsBase, inside.type?, Option.any_some, Bool.and_eq_false_iff,
        Bool.not_eq_false'] at hbase
      exact hbase
    refine hoperand.bind fun v hv => ?_
    obtain ⟨w, hw, htype⟩ := hv.castTo fits hown
    rw [hw]
    exact .pure htype

end

/-! ## 6. Lambdas -/

/-- Each parameter has an argument of its own. -/
theorem exists_argument {Fits : Value → Param → Prop} {args : List Value} {params : List Param}
    (h : List.Forall₂ Fits args params) :
    ∀ p ∈ params, ∃ v, (p, v) ∈ params.zip args ∧ Fits v p := by
  induction h with
  | nil => exact nofun
  | @cons v p _ _ first _ ih =>
    refine List.forall_mem_cons.mpr ⟨⟨v, List.mem_cons_self, first⟩, fun q hq => ?_⟩
    obtain ⟨w, hw, hfits⟩ := ih q hq
    exact ⟨w, List.mem_cons_of_mem _ hw, hfits⟩

/-- An operation does not go wrong.  For arguments of its parameter types, an elaborated lambda whose
body is written as an operation, reads no member and calls no indexer, and has no cast that follows a
declared base into a closed type, yields a value of its type or fails in one of the regular ways. -/
theorem Function.apply_operation {s : Surface} {shape : Option LambdaShape} {written : Syntax.Lambda}
    {f : Function} (hbody : written.body.isOperation = true)
    (h : s.elaborate shape written = .ok f)
    (hplain : f.body.Throughout fun u =>
      u.isAccess = false ∧ u.followsBase s.host.toTypeOrder = false)
    {args : List Value}
    (hargs : List.Forall₂ (fun v (p : Param) => v.HasType s.host.toTypeOrder p.type) args f.params) :
    ∃ type, f.returns? = some type ∧
      Eval.Ends f.body.MayFail (·.HasType s.host.toTypeOrder type) (f.apply args) := by
  obtain ⟨hnodup, type, hoperates⟩ := elaborate_operates hbody h
  have hlength : f.arity = args.length := hargs.length_eq.symm
  refine ⟨type, hoperates.type?, ?_⟩
  rw [apply, if_pos hlength]
  refine hoperates.eval (fun p hp => ?_) hplain
  obtain ⟨v, hv, htype⟩ := exists_argument hargs p hp
  exact ⟨v, f.lookup_bindings hnodup hlength hv, htype⟩

/-- A quotient of an item is brought to the type of what is added to it. -/
theorem Function.apply_quotient : ∃ c f, Context.ofModules [] Namespaces.system = .ok c ∧
    c.parse "(xs, i, y) => xs[i] / i + y"
      (some ⟨[.arrayOf .int32, .int32, .double], none⟩) .none = .ok f ∧
    ∃ type, f.returns? = some type ∧ Eval.Ends f.body.MayFail (·.HasType c.registry.order type)
      (f.apply [.array [.int32 5, .int32 7], .int32 1, .double 0.5]) := by
  obtain ⟨c, f, hc, hf, hkind⟩ := Context.exists_of_reads [] "(xs, i, y) => xs[i] / i + y"
    (some ⟨[.arrayOf .int32, .int32, .double], none⟩) .none
    (fun f => f.body.nodes.all (fun u => !u.isAccess && !u.followsBase Registry.empty.order) &&
      f.params.map (·.type) == [.arrayOf .int32, .int32, .double])
    (by decide +kernel)
  obtain ⟨written, hwritten, h⟩ := Context.parse_eq_ok.mp hf
  have hread : (Syntax.parseLambda "(xs, i, y) => xs[i] / i + y").toOption.any
      (·.body.isOperation) = true := by decide +kernel
  rw [hwritten] at hread
  cases hc
  simp only [Bool.and_eq_true, beq_iff_eq, List.all_eq_true, Bool.not_eq_true'] at hkind
  obtain ⟨hplain, htypes⟩ := hkind
  have hitem (n : Int) : (Value.int32 n).HasType Registry.empty.order .int32 := .primitive rfl rfl
  have hargs : List.Forall₂ (fun v t => Value.HasType Registry.empty.order v t)
      [.array [.int32 5, .int32 7], .int32 1, .double 0.5] (f.params.map (·.type)) := by
    rw [htypes]
    refine .cons (.array rfl ?_) (.cons (hitem 1) (.cons (.primitive rfl rfl) .nil))
    exact List.forall_mem_cons.mpr ⟨hitem 5, List.forall_mem_singleton.mpr (hitem 7)⟩
  exact ⟨_, f, rfl, hf, Function.apply_operation hread h hplain
    (List.forall₂_map_right_iff.mp hargs)⟩

/-- Whether a lambda fails on arguments because a truth value is null. -/
def Function.missesTruth (f : Function) (args : List Value) : Bool :=
  match f.apply args .empty with
  | .error e => e == .typeMismatch "Boolean" "null"
  | .ok _ => false

/-- The negation of a truth value that is null fails on the type of null, although the negation is
typed for it. -/
theorem Function.apply_not_null : ∃ c f, Context.ofModules [] Namespaces.system = .ok c ∧
    c.parse "x => !new bool?[] \x7b null \x7d[0]" (some ⟨[.int32], none⟩) .none = .ok f ∧
    f.apply [.int32 0] .empty = .error (.typeMismatch "Boolean" "null") := by
  obtain ⟨c, f, hc, hf, hkind⟩ := Context.exists_of_reads []
    "x => !new bool?[] \x7b null \x7d[0]" (some ⟨[.int32], none⟩) .none
    (·.missesTruth [.int32 0]) (by decide +kernel)
  refine ⟨c, f, hc, hf, ?_⟩
  unfold missesTruth at hkind
  split at hkind
  next e he => rw [he, beq_iff_eq.mp hkind]
  next => cases hkind

end FatArrow
