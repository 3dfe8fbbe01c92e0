import FatArrow.Proofs.Binary.Order
import FatArrow.Proofs.Meaning.Comparison
import FatArrow.Proofs.Standard.Calls
import FatArrow.Standard.Sequences

/-!
# Members of a sequence

A value is a member of a sequence if it is the same as an item.  The same is narrower than equal: two
numbers that are the same are of one type, while numbers of any types may be equal.  Of one type they
are the same exactly if they are equal, but for the zeros of a float, which are the same whatever
their signs are.  What is no number is the same exactly if it is equal.
-/

namespace FatArrow

namespace Value

variable {a b : Value} {s : Scale} {x y : Float}

/-! ## 1. The same values -/

theorem sameDouble_comm (x y : Float) : sameDouble x y = sameDouble y x := by
  rw [sameDouble, sameDouble, BEq.comm, Bool.and_comm]

theorem sameSingle_comm (x y : Float32) : sameSingle x y = sameSingle y x := by
  rw [sameSingle, sameSingle, BEq.comm, Bool.and_comm]

mutual

theorem same_comm (a b : Value) : a.same b = b.same a := by
  cases a <;> cases b <;> simp only [same]
  case array.array as bs => exact sameList_comm as bs
  case single.single x y => exact sameSingle_comm x y
  case double.double x y => exact sameDouble_comm x y
  case integer.integer k v l w => rw [BEq.comm, BEq.comm (a := v.toNat)]
  all_goals exact BEq.comm

theorem sameList_comm (as bs : List Value) : sameList as bs = sameList bs as := by
  cases as <;> cases bs <;> simp only [sameList]
  case cons.cons a as b bs => rw [same_comm a b, sameList_comm as bs]

end

/-- Values on one scale are the same if they are one value. -/
theorem same_iff_of_scale (ha : a.scale? = some s) (hb : b.scale? = some s) :
    a.same b = true ↔ a = b := by
  cases a <;> cases ha <;> cases b <;> cases hb <;> simp only [same]
  case integer k v w =>
    rw [beq_self_eq_true, Bool.true_and, beq_iff_eq, BitVec.toNat_inj]
    exact ⟨congrArg _, fun h => by cases h; rfl⟩
  case char c d => exact beq_iff_eq.trans (char.injEq c d).to_iff.symm
  case string s t => exact beq_iff_eq.trans (string.injEq s t).to_iff.symm
  case dateTime s t => exact beq_iff_eq.trans (dateTime.injEq s t).to_iff.symm
  case timeSpan s t => exact beq_iff_eq.trans (timeSpan.injEq s t).to_iff.symm
  case dateTimeOffset s t => exact beq_iff_eq.trans (dateTimeOffset.injEq s t).to_iff.symm

/-! ## 2. The same numbers -/

/-- What stands for no number among the floats. -/
def isNaN : Value → Bool
  | .single x => x.isNaN
  | .double x => x.isNaN
  | _ => false

/-- A zero among the floats, whatever its sign is. -/
def isFloatZero : Value → Bool
  | .single x => x == 0
  | .double x => x == 0
  | _ => false

/-- If both values are numbers or characters, they are of one type. -/
def OfOneType (a b : Value) : Prop :=
  a.isNumber = true → b.isNumber = true → a.primitive? = b.primitive?

/-- Being the same, against equality in the language. -/
structure AgreesWithEquals (a b : Value) : Prop where
  of_same (h : a.same b = true) :
    a.equals b = true ∨ a.isFloatZero = true ∧ b.isFloatZero = true
  same_of_equals (htype : a.OfOneType b) (h : a.equals b = true) : a.same b = true

theorem equals_of_not_isNumber (h : (a.isNumber && b.isNumber) = false) : a.equals b = a.same b := by
  unfold equals
  rw [h]
  cases a <;> cases b <;> rfl

theorem agrees_of_not_isNumber (h : (a.isNumber && b.isNumber) = false) : a.AgreesWithEquals b where
  of_same hsame := .inl (by rwa [equals_of_not_isNumber h])
  same_of_equals _ hequals := by rwa [equals_of_not_isNumber h] at hequals

theorem agrees_of_scale (ha : a.scale? = some s) (hb : b.scale? = some s) :
    a.AgreesWithEquals b where
  of_same h := by
    obtain rfl := (same_iff_of_scale ha hb).mp h
    exact .inl ((equals_iff ha hb).mpr rfl)
  same_of_equals _ h := (same_iff_of_scale ha hb).mpr ((equals_iff ha hb).mp h)

/-- Floats that are the same are one float, or are both zero. -/
theorem eq_or_zero_of_sameDouble {x y : Float} (hx : x.isNaN = false) (h : sameDouble x y = true) :
    x = y ∨ (x == 0) = true ∧ (y == 0) = true := by
  rw [sameDouble, hx, Bool.false_and, Bool.or_false] at h
  grind [Float.beq_iff_ne_nan_and_eq]

theorem eq_or_zero_of_sameSingle {x y : Float32} (hx : x.isNaN = false) (h : sameSingle x y = true) :
    x = y ∨ (x == 0) = true ∧ (y == 0) = true := by
  rw [sameSingle, hx, Bool.false_and, Bool.or_false] at h
  grind [Float32.beq_iff_ne_nan_and_eq]

theorem sameDouble_self {x : Float} (hx : x.isNaN = false) : sameDouble x x = true := by
  rw [Float.isNaN_eq_decide_eq_nan, decide_eq_false_iff_not] at hx
  rw [sameDouble, Float.beq_self_iff.mpr hx, Bool.true_or]

theorem sameSingle_self {x : Float32} (hx : x.isNaN = false) : sameSingle x x = true := by
  rw [Float32.isNaN_eq_decide_eq_nan, decide_eq_false_iff_not] at hx
  rw [sameSingle, Float32.beq_self_iff.mpr hx, Bool.true_or]

theorem equals_double {x y : Float} : (Value.double x).equals (.double y) = true ↔ x = y := by
  show (compare (floatRank x) (floatRank y) == .eq) = true ↔ x = y
  rw [beq_iff_eq, compare_eq_iff_eq]
  exact ⟨eq_of_floatRank, congrArg _⟩

theorem equals_single {x y : Float32} (hx : x.isNaN = false) (hy : y.isNaN = false) :
    (Value.single x).equals (.single y) = true ↔ x = y := by
  show (compare (floatRank (widenFloat x)) (floatRank (widenFloat y)) == .eq) = true ↔ x = y
  rw [beq_iff_eq, compare_eq_iff_eq]
  exact ⟨fun h => widenFloat_inj hx hy (eq_of_floatRank h), fun h => h ▸ rfl⟩

theorem agrees_double {x y : Float} (hx : x.isNaN = false) :
    (Value.double x).AgreesWithEquals (.double y) where
  of_same h := (eq_or_zero_of_sameDouble hx h).imp_left equals_double.mpr
  same_of_equals _ h := by
    obtain rfl := equals_double.mp h
    exact sameDouble_self hx

theorem agrees_single {x y : Float32} (hx : x.isNaN = false) (hy : y.isNaN = false) :
    (Value.single x).AgreesWithEquals (.single y) where
  of_same h := (eq_or_zero_of_sameSingle hx h).imp_left (equals_single hx hy).mpr
  same_of_equals _ h := by
    obtain rfl := (equals_single hx hy).mp h
    exact sameSingle_self hx

/-- Values that are the same are of one primitive type, if they are of any. -/
theorem primitive?_eq_of_same (h : a.same b = true) : a.primitive? = b.primitive? := by
  cases a <;> cases b <;> simp only [same, Bool.false_eq_true] at h <;> try rfl
  case integer.integer k v l w =>
    rw [Bool.and_eq_true_iff, beq_iff_eq] at h
    exact congrArg (fun k => some (Primitive.integer k)) h.1

/-- The same and equal agree on values of one type, but for the zeros of a float. -/
theorem agreesWithEquals (ha : a.isNaN = false) (hb : b.isNaN = false) : a.AgreesWithEquals b := by
  cases hnumbers : a.isNumber && b.isNumber with
  | false => exact agrees_of_not_isNumber hnumbers
  | true =>
    obtain ⟨hna, hnb⟩ := Bool.and_eq_true_iff.mp hnumbers
    -- different types make both sides void: the values are not the same, and are not compared
    by_cases htype : a.primitive? = b.primitive?
    · clear hnumbers
      cases a <;> cases hna <;> cases b <;> cases hnb <;> cases htype
      · exact agrees_of_scale (s := .char) rfl rfl
      · exact agrees_of_scale rfl rfl
      · exact agrees_single ha hb
      · exact agrees_double ha
    · exact ⟨fun h => absurd (primitive?_eq_of_same h) htype, fun h => absurd (h hna hnb) htype⟩

end Value

/-! ## 3. Members -/

namespace Standard

variable {xs : List Value} {v : Value}

/-- Being a member of a sequence, against equality in the language. -/
structure DecidesMembership (xs : List Value) (v : Value) : Prop where
  /-- The operation on sequences answers whether an item is the same as the value. -/
  called : Answers operations "Contains" none [.array xs, v] (.ok (.bool (containsItem xs v)))
  /-- A member is equal to an item of its type, or both are zeros of a float. -/
  equal_of_member (h : containsItem xs v = true) : ∃ x ∈ xs, v.OfOneType x ∧
    (BinaryOp.equal.Yields v x true ∨ v.isFloatZero = true ∧ x.isFloatZero = true)
  /-- A value that is equal to an item of its type is a member. -/
  member_of_equal (h : ∃ x ∈ xs, v.OfOneType x ∧ BinaryOp.equal.Yields v x true) :
    containsItem xs v = true

theorem yields_equal_iff {a b : Value} : BinaryOp.equal.Yields a b true ↔ a.equals b = true :=
  BinaryOp.yields_iff (.inr rfl) (fun _ => rfl) true

theorem decidesMembership (hv : v.isNaN = false) (hxs : ∀ x ∈ xs, x.isNaN = false) : DecidesMembership xs v where
  called := ⟨_, rfl, fun _ => rfl⟩
  equal_of_member h := by
    obtain ⟨x, hx, hsame⟩ := List.any_eq_true.mp h
    rw [Value.same_comm] at hsame
    have hequal := (Value.agreesWithEquals hv (hxs x hx)).of_same hsame
    exact ⟨x, hx, fun _ _ => Value.primitive?_eq_of_same hsame,
      hequal.imp_left yields_equal_iff.mpr⟩
  member_of_equal := by
    rintro ⟨x, hx, htype, hequal⟩
    refine List.any_eq_true.mpr ⟨x, hx, ?_⟩
    rw [Value.same_comm]
    exact (Value.agreesWithEquals hv (hxs x hx)).same_of_equals htype (yields_equal_iff.mp hequal)

/-- An array is found among items of several kinds. -/
theorem decidesMembership_nested :
    let xs : List Value := [.null, .int32 1, .double 1, .array [.int32 1, .null]]
    let v : Value := .array [.int32 1, .null]
    (v.isNaN = false ∧ ∀ x ∈ xs, x.isNaN = false) ∧ DecidesMembership xs v := by
  have hxs : ∀ x ∈ [Value.null, .int32 1, .double 1, .array [.int32 1, .null]], x.isNaN = false := by
    decide
  exact ⟨⟨rfl, hxs⟩, decidesMembership rfl hxs⟩

/-- A number is equal to one of another type, but no member of a sequence of it. -/
theorem containsItem_unlike_equal :
    containsItem [.int32 1] (.int64 1) = false ∧
      BinaryOp.equal.Yields (.int64 1) (.int32 1) true :=
  ⟨rfl, yields_equal_iff.mpr (by decide)⟩

end Standard

end FatArrow
