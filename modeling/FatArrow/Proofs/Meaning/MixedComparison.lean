import FatArrow.Proofs.Meaning.Comparison

/-!
# Comparisons across integer types

Characters and integers are compared by their words of 64 bits with a sign, whatever their types are,
and two words of the widest unsigned type by what they are.  So the comparison is that of the integers
they denote, except where an integer from the upper half of the widest unsigned type meets a value of
another type: its word has the opposite sign.
-/

namespace FatArrow

/-! ## 1. What a comparison asks -/

namespace BinaryOp

/-- What a comparison asks of two integers. -/
def Asks (op : BinaryOp) (m n : Int) : Prop :=
  match op with
  | .equal => m = n
  | .notEqual => m ≠ n
  | .lessThan => m < n
  | .lessThanOrEqual => m ≤ n
  | .greaterThan => n < m
  | _ => n ≤ m

instance (op : BinaryOp) (m n : Int) : Decidable (op.Asks m n) :=
  match op with
  | .equal => inferInstanceAs (Decidable (m = n))
  | .notEqual => inferInstanceAs (Decidable (m ≠ n))
  | .lessThan => inferInstanceAs (Decidable (m < n))
  | .lessThanOrEqual => inferInstanceAs (Decidable (m ≤ n))
  | .greaterThan => inferInstanceAs (Decidable (n < m))
  | .add | .subtract | .multiply | .divide | .modulo | .greaterThanOrEqual | .andAlso | .orElse
  | .exclusiveOr | .power | .arrayIndex => inferInstanceAs (Decidable (n ≤ m))

variable {op : BinaryOp}

theorem holdsFor_compare (hop : op.isRelational = true) (m n : Int) :
    op.holdsFor (compare m n) = decide (op.Asks m n) := by
  rw [Bool.eq_iff_iff, decide_eq_true_iff]
  cases op with
  | lessThan => exact beq_iff_eq.trans compare_lt_iff_lt
  | greaterThan => exact beq_iff_eq.trans compare_gt_iff_gt
  | lessThanOrEqual => exact bne_iff_ne.trans compare_le_iff_le
  | greaterThanOrEqual => exact bne_iff_ne.trans compare_ge_iff_ge
  | _ => cases hop

end BinaryOp

/-! ## 2. The words that are compared -/

namespace Value

variable {a b : Value} {m n : Int}

/-- A word of the widest unsigned type. -/
def isWidest : Value → Bool
  | .integer .uint64 _ => true
  | _ => false

/-- What stands for an integer in a comparison: itself where both values are of the widest unsigned
type, and otherwise the word of 64 bits with a sign. -/
def readingOf (widest : Bool) (n : Int) : Int := if widest then n else n.bmod (2 ^ 64)

/-- An integer that has a word of 64 bits with a sign is read as it is. -/
theorem bmod_of_whole? (ha : a.whole? = some m) (h : m < 2 ^ 63) : m.bmod (2 ^ 64) = m := by
  cases a <;> cases ha
  case char c => exact Int.bmod_eq_of_le (by omega) (by omega)
  case integer k w => exact IntegerKind.bmod_denote fun _ => h

theorem needInt_of_whole? (ha : a.whole? = some m) : a.needInt = .ok (Int64.ofInt m) := by
  cases a <;> cases ha <;> rfl

theorem isWidest_iff : a.isWidest = true ↔ ∃ v, a = .integer .uint64 v := by
  refine ⟨fun h => ?_, fun ⟨v, h⟩ => h ▸ rfl⟩
  unfold isWidest at h
  split at h
  next v => exact ⟨v, rfl⟩
  next => cases h

/-- Characters and integers of any types are ordered as they are read. -/
theorem order_of_whole? (ha : a.whole? = some m) (hb : b.whole? = some n) :
    a.order b = .ok (compare (readingOf (a.isWidest && b.isWidest) m)
      (readingOf (a.isWidest && b.isWidest) n)) := by
  have hwhole : a.order b = compareWhole a b := by
    cases a <;> cases ha <;> cases b <;> cases hb <;> rfl
  rw [hwhole]
  unfold compareWhole
  split
  next v w =>
    cases ha
    cases hb
    show Except.ok (compare v.toNat w.toNat) = .ok (compare (v.toNat : Int) w.toNat)
    rw [← cmp_eq_compare, ← cmp_eq_compare, Nat.strictMono_cast.cmp_map_eq]
  next hother =>
    have hwidest : (a.isWidest && b.isWidest) = false := by
      rw [Bool.eq_false_iff]
      intro h
      obtain ⟨ha, hb⟩ := Bool.and_eq_true_iff.mp h
      obtain ⟨v, rfl⟩ := isWidest_iff.mp ha
      obtain ⟨w, rfl⟩ := isWidest_iff.mp hb
      exact hother v w rfl rfl
    have hreading (k : Int) : (Int64.ofInt k).toInt = readingOf false k := Int64.toInt_ofInt
    rw [needInt_of_whole? ha, needInt_of_whole? hb, hwidest, ← hreading, ← hreading]
    rfl

theorem isNull_of_whole? (ha : a.whole? = some m) (hb : b.whole? = some n) :
    (a.isNull || b.isNull) = false := by
  cases a <;> cases ha <;> cases b <;> cases hb <;> rfl

/-- Equality of characters and integers is that of what they are read as. -/
theorem equals_of_whole? (ha : a.whole? = some m) (hb : b.whole? = some n) :
    a.equals b = decide (readingOf (a.isWidest && b.isWidest) m =
      readingOf (a.isWidest && b.isWidest) n) := by
  have hnumbers : (a.isNumber && b.isNumber) = true := by
    cases a <;> cases ha <;> cases b <;> cases hb <;> rfl
  rw [equals, isNull_of_whole? ha hb, if_neg Bool.false_ne_true, hnumbers, if_pos rfl, order_of_whole? ha hb,
    Bool.eq_iff_iff, decide_eq_true_iff]
  exact beq_iff_eq.trans compare_eq_iff_eq

end Value

/-! ## 3. Comparisons of what is read -/

section

variable {op : BinaryOp} {a b : Value} {m n : Int}

/-- A comparison evaluates to what it asks of the integers that are read. -/
theorem BinaryOp.yields_readings (hop : op.isRelational = true ∨ op.isEquality = true)
    (ha : a.whole? = some m) (hb : b.whole? = some n) :
    op.Yields a b (decide (op.Asks (Value.readingOf (a.isWidest && b.isWidest) m)
      (Value.readingOf (a.isWidest && b.isWidest) n))) := by
  refine (yields_iff hop (fun type => ?_) _).mpr rfl
  have hrelational (hop : op.isRelational = true) : op.apply type a b =
      (a.order b).map fun o => .bool (op.holdsFor o) := by
    cases op with
    | lessThan | lessThanOrEqual | greaterThan | greaterThanOrEqual =>
      rw [apply, Value.isNull_of_whole? ha hb, if_neg Bool.false_ne_true]
    | _ => cases hop
  rcases hop with hop | hop
  · rw [hrelational hop, Value.order_of_whole? ha hb, ← holdsFor_compare hop]
    rfl
  · cases op with
    | equal => rw [apply, Value.equals_of_whole? ha hb]; rfl
    | notEqual => rw [apply, Value.equals_of_whole? ha hb, ← decide_not]; rfl
    | _ => cases hop

/-- A comparison of characters and integers of any types evaluates to what it asks of the integers they
denote, if both are of the widest unsigned type or both integers have a word of 64 bits with a sign.
Values that are not both of the widest unsigned type are compared as their words, in any case. -/
theorem BinaryOp.yields_whole (hop : op.isRelational = true ∨ op.isEquality = true)
    (ha : a.whole? = some m) (hb : b.whole? = some n) :
    ((a.isWidest = true ∧ b.isWidest = true ∨ m < 2 ^ 63 ∧ n < 2 ^ 63) →
      op.Yields a b (decide (op.Asks m n))) ∧
    (¬(a.isWidest = true ∧ b.isWidest = true) →
      op.Yields a b (decide (op.Asks (m.bmod (2 ^ 64)) (n.bmod (2 ^ 64))))) := by
  have hyields := yields_readings hop ha hb
  have hwords (h : ¬(a.isWidest = true ∧ b.isWidest = true)) :
      op.Yields a b (decide (op.Asks (m.bmod (2 ^ 64)) (n.bmod (2 ^ 64)))) := by
    rwa [Bool.eq_false_iff.mpr fun hand => h (Bool.and_eq_true_iff.mp hand)] at hyields
  refine ⟨fun h => ?_, hwords⟩
  by_cases hwidest : a.isWidest = true ∧ b.isWidest = true
  · rwa [Bool.and_eq_true_iff.mpr hwidest] at hyields
  · obtain ⟨hm, hn⟩ := h.resolve_left hwidest
    have hwords := hwords hwidest
    rwa [Value.bmod_of_whole? ha hm, Value.bmod_of_whole? hb hn] at hwords

/-- The least word with a sign comes before the greatest one, written without a sign. -/
theorem BinaryOp.yields_whole_extremes :
    BinaryOp.lessThan.Yields (.int64 (-2 ^ 63))
      (.integer .uint64 (IntegerKind.wrap .uint64 (2 ^ 63 - 1))) true :=
  (yields_whole (m := -2 ^ 63) (n := 2 ^ 63 - 1) (.inl rfl) rfl rfl).1 (.inr (by decide))

/-- The greatest integer of the widest unsigned type is equal to minus one of another type. -/
theorem BinaryOp.yields_greatest :
    let a : Value := .integer .uint64 (IntegerKind.wrap .uint64 IntegerKind.uint64.greatest)
    let b : Value := .int32 (-1)
    a.whole? = some IntegerKind.uint64.greatest ∧ b.whole? = some (-1) ∧
      ¬BinaryOp.equal.Asks IntegerKind.uint64.greatest (-1) ∧ BinaryOp.equal.Yields a b true :=
  ⟨by decide, by decide, by decide, (yields_iff (.inr rfl) (fun _ => rfl) _).mpr (by decide)⟩

end

end FatArrow
