import FatArrow.Proofs.Meaning.Safety
import FatArrow.Proofs.Typing.Constant
import Mathlib.Data.Int.ModEq

/-!
# Integer arithmetic

The operators calculate in words of 64 bits with a sign and cut the result to the type of the node.
That is the sum, the difference and the product up to a multiple of the range of the type, for each of
the eight types.  Quotients and remainders survive no reduction of their operands, so they come out
right only where both operands are read as what they denote: the widest unsigned type has operands
that are not.
-/

namespace FatArrow

/-! ## 1. Words and what they denote -/

namespace IntegerKind

variable {k : IntegerKind}

/-- A word does not show a reduction to 64 bits. -/
theorem bmod_word_modEq (k : IntegerKind) (n : Int) :
    n.bmod (2 ^ 64) ≡ n [ZMOD 2 ^ k.width] := by
  have hdvd : (2 : Int) ^ k.width ∣ (2 ^ 64 : Nat) := by
    rw [Nat.cast_pow, Nat.cast_ofNat]
    exact pow_dvd_pow 2 k.width_le
  exact (bmod_modEq n (2 ^ 64)).of_dvd hdvd

/-- What a word denotes fits into 64 bits with a sign, but for the upper half of the widest unsigned
type. -/
theorem bmod_denote {v : BitVec k.width} (h : k = .uint64 → k.denote v < 2 ^ 63) :
    (k.denote v).bmod (2 ^ 64) = k.denote v := by
  have hlt := v.isLt
  have hlower := v.le_toInt
  have hupper := v.toInt_lt
  apply Int.bmod_eq_of_le <;> cases k <;>
    simp only [denote, signed, width, ↓reduceIte, Bool.false_eq_true] at * <;> norm_num at * <;>
    omega

/-- Only the word of zero is zero in 64 bits. -/
theorem ofInt_denote_eq_zero {w : BitVec k.width} :
    Int64.ofInt (k.denote w) = 0 ↔ k.denote w = 0 := by
  constructor
  · intro hzero
    have hbmod : (k.denote w).bmod (2 ^ 64) = 0 :=
      Int64.toInt_ofInt.symm.trans (congrArg Int64.toInt hzero)
    have hlt := w.isLt
    have hlower := w.le_toInt
    have hupper := w.toInt_lt
    rw [Int.bmod_def] at hbmod
    cases k <;>
      simp only [denote, signed, width, ↓reduceIte, Bool.false_eq_true] at * <;> norm_num at * <;>
      omega
  · intro hzero
    rw [hzero]
    rfl

end IntegerKind

/-! ## 2. Calculation -/

namespace BinaryOp

/-- The operators that fail on zero. -/
def divides : BinaryOp → Bool
  | .divide | .modulo => true
  | _ => false

/-- The operator on the integers themselves.  A quotient is cut off toward zero, and a remainder has
the sign of the dividend. -/
def onWhole (op : BinaryOp) (m n : Int) : Int :=
  match op with
  | .add => m + n
  | .subtract => m - n
  | .multiply => m * n
  | .divide => m.tdiv n
  | _ => m.tmod n

variable {op : BinaryOp}

/-- A word of 64 bits with a sign holds the result on the operands as such words. -/
theorem onInts_eq (hop : op.isArithmetic = true) (hpower : op ≠ .power) {a b : Int64}
    (hb : op.divides = true → b ≠ 0) :
    ∃ r, op.onInts a b = .ok r ∧ r.toInt = (op.onWhole a.toInt b.toInt).bmod (2 ^ 64) := by
  cases op with
  | add => exact ⟨a + b, rfl, Int64.toInt_add a b⟩
  | subtract => exact ⟨a - b, rfl, Int64.toInt_sub a b⟩
  | multiply => exact ⟨a * b, rfl, Int64.toInt_mul a b⟩
  | divide => exact ⟨a / b, if_neg (hb rfl), Int64.toInt_div a b⟩
  | modulo =>
    refine ⟨a % b, if_neg (hb rfl), ?_⟩
    show (a % b).toInt = (a.toInt.tmod b.toInt).bmod (2 ^ 64)
    rw [← Int64.toInt_mod]
    exact (Int64.toInt_bmod_size (a % b)).symm
  | power => exact absurd rfl hpower
  | _ => cases hop

theorem onInts_zero (hop : op.divides = true) (a : Int64) :
    op.onInts a 0 = .error .divideByZero := by
  cases op with
  | divide | modulo => rfl
  | _ => cases hop

end BinaryOp

/-- A word of 64 bits is cut to the type. -/
theorem Value.needConvert_int64 (k : IntegerKind) (r : Int64) :
    (Value.int64 r.toInt).needConvert (.integer k) = .ok (.integer k (k.wrap r.toInt)) := by
  have hword : IntegerKind.denote .int64 (IntegerKind.wrap .int64 r.toInt) = r.toInt :=
    (BitVec.toInt_ofInt r.toInt).trans r.toInt_bmod_size
  cases k with
  | int64 => rfl
  | _ => exact congrArg (fun n => Except.ok (Value.integer _ (IntegerKind.wrap _ n))) hword

theorem BinaryOp.calculate_eq {op : BinaryOp} (hpower : op ≠ .power) {type : HostType}
    {k : IntegerKind} (htype : type.primitive? = some (.integer k)) (v w : BitVec k.width) :
    op.calculate type (.integer k v) (.integer k w) =
      (op.onInts (Int64.ofInt (k.denote v)) (Int64.ofInt (k.denote w))).map fun r =>
        .integer k (k.wrap r.toInt) := by
  have hkind : ((Primitive.integer k).isFloating || decide (op = .power)) = false := by
    rw [decide_eq_false hpower]
    rfl
  have hneed (x : BitVec k.width) :
      (Value.integer k x).needInt = .ok (Int64.ofInt (k.denote x)) := rfl
  simp only [calculate, Value.isNull, numberType_eq htype rfl, hkind, hneed, bind, Except.bind,
    Bool.or_self, Bool.false_eq_true, ↓reduceIte]
  cases op.onInts (Int64.ofInt (k.denote v)) (Int64.ofInt (k.denote w)) with
  | error e => rfl
  | ok r => exact Value.needConvert_int64 k r

/-- The result is that on the integers, where a division is told what its operands are. -/
theorem BinaryOp.onWhole_bmod_modEq {op : BinaryOp} (hop : op.isArithmetic = true)
    (hpower : op ≠ .power) {k : IntegerKind} {v w : BitVec k.width}
    (h : op.divides = true → k = .uint64 → k.denote v < 2 ^ 63 ∧ k.denote w < 2 ^ 63) :
    op.onWhole ((k.denote v).bmod (2 ^ 64)) ((k.denote w).bmod (2 ^ 64)) ≡
      op.onWhole (k.denote v) (k.denote w) [ZMOD 2 ^ k.width] := by
  have hv := k.bmod_word_modEq (k.denote v)
  have hw := k.bmod_word_modEq (k.denote w)
  cases op with
  | add => exact hv.add hw
  | subtract => exact hv.sub hw
  | multiply => exact hv.mul hw
  | divide | modulo =>
    rw [IntegerKind.bmod_denote fun hk => (h rfl hk).1, IntegerKind.bmod_denote fun hk => (h rfl hk).2]
  | power => exact absurd rfl hpower
  | _ => cases hop

/-! ## 3. Nodes -/

/-- An operator that evaluates both operands is applied to their values. -/
theorem Term.eval_binary_of_ok {op : BinaryOp} (hand : op ≠ .andAlso) (hor : op ≠ .orElse)
    {env : Bindings} {left right : Term} {type : HostType} {store between after : Store}
    {a b : Value} (hleft : left.eval env store = .ok (a, between))
    (hright : right.eval env between = .ok (b, after)) :
    (Term.binary op left right type).eval env store =
      (op.apply type a b).map fun v => (v, after) := by
  have hrun : ∀ (x : Eval Value) (f : Value → Eval Value) (s : Store),
      (x >>= f) s = x s >>= fun r => f r.1 r.2 := fun _ _ _ => rfl
  rw [eval_binary hand hor, hrun, hleft]
  show (right.eval env >>= fun b => liftM (op.apply type a b)) between = _
  rw [hrun, hright]
  show (liftM (op.apply type a b) : Eval Value) after = _
  cases op.apply type a b with
  | error e => rfl
  | ok v => rfl

section

variable {op : BinaryOp} {type : HostType} {k : IntegerKind} {env : Bindings} {left right : Term}
  {store between after : Store} {v w : BitVec k.width}

theorem BinaryOp.apply_eq_calculate (hop : op.isArithmetic = true) (htype : type.isString = false)
    (a b : Value) : op.apply type a b = op.calculate type a b := by
  cases op with
  | add =>
    rw [apply, htype]
    rfl
  | subtract | multiply | divide | modulo | power => rfl
  | _ => cases hop

/-- A node on integers of its own type calculates in words of 64 bits and cuts the result. -/
theorem Term.eval_onInts (hop : op.isArithmetic = true) (hpower : op ≠ .power)
    (htype : type.primitive? = some (.integer k))
    (hleft : left.eval env store = .ok (.integer k v, between))
    (hright : right.eval env between = .ok (.integer k w, after)) :
    (Term.binary op left right type).eval env store =
      (op.onInts (Int64.ofInt (k.denote v)) (Int64.ofInt (k.denote w))).map fun r =>
        (.integer k (k.wrap r.toInt), after) := by
  have hand : op ≠ .andAlso := by
    rintro rfl
    cases hop
  have hor : op ≠ .orElse := by
    rintro rfl
    cases hop
  have hstring : type.isString = false := by
    by_contra h
    cases htype.symm.trans (HostType.primitive?_of_isPrimitive (Bool.not_eq_false _ ▸ h)).1
  rw [eval_binary_of_ok hand hor hleft hright, op.apply_eq_calculate hop hstring,
    op.calculate_eq hpower htype]
  cases op.onInts (Int64.ofInt (k.denote v)) (Int64.ofInt (k.denote w)) with
  | error e => rfl
  | ok r => rfl

/-- A node of an integer type on operands of the type divides by zero where its operator divides and
the right operand is zero.  Otherwise it has a value of the type, which up to a multiple of the range
of the type is the result on the integers that the operands denote -- except that a division in the
widest unsigned type with an operand from its upper half takes the operands for words with a sign. -/
theorem Term.eval_integer (hop : op.isArithmetic = true) (hpower : op ≠ .power)
    (htype : type.primitive? = some (.integer k))
    (hleft : left.eval env store = .ok (.integer k v, between))
    (hright : right.eval env between = .ok (.integer k w, after)) :
    ((Term.binary op left right type).eval env store = .error .divideByZero ↔
      op.divides = true ∧ k.denote w = 0) ∧
    (¬(op.divides = true ∧ k.denote w = 0) → ∃ r : BitVec k.width,
      (Term.binary op left right type).eval env store = .ok (.integer k r, after) ∧
      ((op.divides = true → k = .uint64 → k.denote v < 2 ^ 63 ∧ k.denote w < 2 ^ 63) →
        k.denote r ≡ op.onWhole (k.denote v) (k.denote w) [ZMOD 2 ^ k.width]) ∧
      k.denote r ≡ op.onWhole ((k.denote v).bmod (2 ^ 64)) ((k.denote w).bmod (2 ^ 64))
        [ZMOD 2 ^ k.width]) := by
  have heval := eval_onInts hop hpower htype hleft hright
  have hreading (x : BitVec k.width) :
      (Int64.ofInt (k.denote x)).toInt = (k.denote x).bmod (2 ^ 64) := Int64.toInt_ofInt
  by_cases hzero : op.divides = true ∧ k.denote w = 0
  · obtain ⟨hdivides, hw⟩ := hzero
    rw [IntegerKind.ofInt_denote_eq_zero.mpr hw, BinaryOp.onInts_zero hdivides] at heval
    exact ⟨⟨fun _ => ⟨hdivides, hw⟩, fun _ => heval⟩, fun hne => absurd ⟨hdivides, hw⟩ hne⟩
  have hb (hdivides : op.divides = true) : Int64.ofInt (k.denote w) ≠ 0 := fun hw =>
    hzero ⟨hdivides, IntegerKind.ofInt_denote_eq_zero.mp hw⟩
  obtain ⟨r, hr, hvalue⟩ := BinaryOp.onInts_eq hop hpower hb
  rw [hr] at heval
  rw [hreading, hreading] at hvalue
  -- the word of 64 bits, and then what is left of it in the type
  have hmod : k.denote (k.wrap r.toInt) ≡
      op.onWhole ((k.denote v).bmod (2 ^ 64)) ((k.denote w).bmod (2 ^ 64)) [ZMOD 2 ^ k.width] := by
    refine (k.denote_wrap_modEq r.toInt).trans ?_
    rw [hvalue]
    exact k.bmod_word_modEq _
  refine ⟨⟨fun herror => ?_, fun hdivides => absurd hdivides hzero⟩, fun _ =>
    ⟨k.wrap r.toInt, heval, fun hsmall => hmod.trans ?_, hmod⟩⟩
  · rw [heval] at herror
    cases herror
  · exact BinaryOp.onWhole_bmod_modEq hop hpower hsmall

end

/-- The least word of 64 bits divided by minus one is itself. -/
theorem Term.eval_integer_least :
    let k : IntegerKind := .int64
    let node : Term := .binary .divide (.const (.int64 (-2 ^ 63)) .int64)
      (.const (.int64 (-1)) .int64) .int64
    ∃ r, node.eval [] .empty = .ok (.integer k r, .empty) ∧ k.denote r ≡ 2 ^ 63 [ZMOD 2 ^ 64] := by
  intro k node
  have hnode := @Term.eval_integer .divide .int64 k [] (.const (.int64 (-2 ^ 63)) .int64)
    (.const (.int64 (-1)) .int64) .empty .empty .empty (k.wrap (-2 ^ 63)) (k.wrap (-1))
    rfl nofun rfl rfl rfl
  have hexact : BinaryOp.divide.onWhole (k.denote (k.wrap (-2 ^ 63))) (k.denote (k.wrap (-1))) =
      2 ^ 63 := by decide
  obtain ⟨r, hr, hmod, -⟩ := hnode.2 (by decide)
  rw [hexact] at hmod
  exact ⟨r, hr, hmod nofun⟩

/-- In the widest unsigned type the greatest integer is divided as minus one. -/
theorem Term.eval_greatest :
    let k : IntegerKind := .uint64
    let type : HostType := .integer k
    let v := k.wrap k.greatest
    let w := k.wrap 2
    ∃ r, (Term.binary .divide (.const (.integer k v) type) (.const (.integer k w) type) type).eval
        [] .empty = .ok (.integer k r, .empty) ∧
      ¬ k.denote r ≡ BinaryOp.divide.onWhole (k.denote v) (k.denote w) [ZMOD 2 ^ k.width] := by
  intro k type v w
  have heval := @eval_onInts .divide type k [] (.const (.integer k v) type)
    (.const (.integer k w) type) .empty .empty .empty v w rfl nofun rfl rfl rfl
  have hquotient : Int64.ofInt (k.denote v) / Int64.ofInt (k.denote w) = 0 := by decide
  refine ⟨k.wrap 0, heval.trans ?_, by decide⟩
  rw [BinaryOp.onInts, if_neg (by decide), hquotient]
  rfl

end FatArrow
