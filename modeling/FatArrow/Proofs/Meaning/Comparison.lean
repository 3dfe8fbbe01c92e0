import FatArrow.Proofs.Meaning.Arithmetic
import Mathlib.Data.String.Basic
import Mathlib.Data.Sum.Order
import Mathlib.Order.Compare

/-!
# Comparisons

Values of one kind stand on a scale: integers and characters by their numbers, texts by their
characters, times by their ticks.  The order of two values is that of their places, and they are
equal if their places are.  A point of local time is the exception: it is ordered by its universal
time, but equal only to what has its offset, too.
-/

namespace FatArrow

/-! ## 1. Places on a scale -/

/-- The kinds of values that have an order. -/
inductive Scale where
  | integer (kind : IntegerKind) | char | string | dateTime | dateTimeOffset | timeSpan

/-- A number or a text.  They never meet on one scale. -/
abbrev Place := Int ⊕ₗ String

namespace Value

/-- The scale of a value, if its kind has an order. -/
def scale? : Value → Option Scale
  | .integer k _ => some (.integer k)
  | .char _ => some .char
  | .string _ => some .string
  | .dateTime _ => some .dateTime
  | .dateTimeOffset _ => some .dateTimeOffset
  | .timeSpan _ => some .timeSpan
  | _ => none

/-- The place of a value on its scale. -/
def place : Value → Place
  | .integer k w => toLex (.inl (k.denote w))
  | .char c => toLex (.inl c.toNat)
  | .string s => toLex (.inr s)
  | .dateTime t => toLex (.inl t.ticks)
  | .dateTimeOffset t => toLex (.inl t.utc.ticks)
  | .timeSpan t => toLex (.inl t.ticks)
  | _ => toLex (.inl 0)

/-- Two points of local time that are one point of universal time, at different offsets. -/
inductive Shifted : Value → Value → Prop where
  | mk {s t : DateTimeOffset} (utc : s.utc = t.utc) (unlike : s ≠ t) :
      Shifted (.dateTimeOffset s) (.dateTimeOffset t)

variable {s : Scale} {a b c : Value}

theorem compare_inl (m n : Int) : compare m n = cmp (toLex (Sum.inl m) : Place) (toLex (.inl n)) :=
  (cmp_eq_compare m n).symm.trans (Sum.Lex.inl_strictMono.cmp_map_eq m n).symm

theorem compare_inr (s t : String) :
    compare s t = cmp (toLex (Sum.inr s) : Place) (toLex (.inr t)) :=
  (cmp_eq_compare s t).symm.trans (Sum.Lex.inr_strictMono.cmp_map_eq s t).symm

theorem toInt_ofInt_char (c : Char) : (Int64.ofInt c.toNat).toInt = c.toNat := by
  have hlt : c.toNat < 2 ^ 32 := c.val.toNat_lt
  exact Int64.toInt_ofInt_of_le (by omega) (by omega)

/-- Integers of one kind are ordered as what they denote. -/
theorem compareWhole_integer (k : IntegerKind) (v w : BitVec k.width) :
    compareWhole (.integer k v) (.integer k w) = .ok (compare (k.denote v) (k.denote w)) := by
  by_cases hk : k = .uint64
  · subst hk
    show Except.ok (compare v.toNat w.toNat) = .ok (compare (v.toNat : Int) w.toNat)
    rw [← cmp_eq_compare, ← cmp_eq_compare, Nat.strictMono_cast.cmp_map_eq]
  · have hreading (x : BitVec k.width) : (Int64.ofInt (k.denote x)).toInt = k.denote x :=
      Int64.toInt_ofInt.trans (IntegerKind.bmod_denote fun h => absurd h hk)
    have hwhole : compareWhole (.integer k v) (.integer k w) =
        .ok (compare (Int64.ofInt (k.denote v)).toInt (Int64.ofInt (k.denote w)).toInt) := by
      cases k <;> first | rfl | exact absurd rfl hk
    rw [hwhole, hreading, hreading]

/-- The order of two values of one kind is that of their places. -/
theorem order_place (ha : a.scale? = some s) (hb : b.scale? = some s) :
    a.order b = .ok (cmp a.place b.place) := by
  cases a <;> cases ha <;> cases b <;> cases hb
  case integer k v w => exact (compareWhole_integer k v w).trans (congrArg _ (compare_inl _ _))
  case char c d =>
    show Except.ok (compare (Int64.ofInt c.toNat).toInt (Int64.ofInt d.toNat).toInt) = _
    rw [toInt_ofInt_char, toInt_ofInt_char, compare_inl]
    rfl
  case string s t => exact congrArg _ (compare_inr s t)
  all_goals exact congrArg _ (compare_inl _ _)

/-- Two values of one kind that have one place are one value, but for shifted times. -/
theorem eq_or_shifted (ha : a.scale? = some s) (hb : b.scale? = some s)
    (h : a.place = b.place) : a = b ∨ a.Shifted b := by
  cases a <;> cases ha <;> cases b <;> cases hb <;>
    simp only [place, EmbeddingLike.apply_eq_iff_eq, Sum.inl.injEq, Sum.inr.injEq] at h
  case integer k v w =>
    have hwords : v = w := by rw [← k.wrap_denote v, h, k.wrap_denote]
    exact .inl (congrArg _ hwords)
  case char c d => exact .inl (congrArg _ (Char.toNat_inj.mp (Int.ofNat_inj.mp h)))
  case string s t => exact .inl (congrArg _ h)
  case dateTime s t => exact .inl (congrArg (fun n => dateTime ⟨n⟩) h)
  case timeSpan s t => exact .inl (congrArg (fun n => timeSpan ⟨n⟩) h)
  case dateTimeOffset s t =>
    by_cases hst : s = t
    · exact .inl (congrArg _ hst)
    · exact .inr ⟨congrArg DateTime.mk h, hst⟩

/-- Equality of two values of one kind is that of the values. -/
theorem equals_iff (ha : a.scale? = some s) (hb : b.scale? = some s) :
    a.equals b = true ↔ a = b := by
  -- numbers are equal by their order, and everything else by itself
  have hnumber (hn : (a.isNumber && b.isNumber) = true) (hnull : (a.isNull || b.isNull) = false)
      (hplain : ¬a.Shifted b) : a.equals b = true ↔ a = b := by
    rw [equals, hnull, if_neg (by simp), if_pos hn, order_place ha hb]
    simp only [beq_iff_eq, cmp_eq_eq_iff]
    exact ⟨fun h => (eq_or_shifted ha hb h).resolve_right hplain, fun h => congrArg place h⟩
  cases a <;> cases ha <;> cases b <;> cases hb
  case integer | char => exact hnumber rfl rfl nofun
  case string s t => exact (beq_iff_eq (a := s)).trans (string.injEq s t).to_iff.symm
  case dateTime s t => exact (beq_iff_eq (a := s)).trans (dateTime.injEq s t).to_iff.symm
  case timeSpan s t => exact (beq_iff_eq (a := s)).trans (timeSpan.injEq s t).to_iff.symm
  case dateTimeOffset s t =>
    exact (beq_iff_eq (a := s)).trans (dateTimeOffset.injEq s t).to_iff.symm

theorem not_isNull (ha : a.scale? = some s) : a.isNull = false := by
  cases a <;> cases ha <;> rfl

end Value

/-! ## 2. Truth values -/

namespace BinaryOp

/-- A node on operands with these values has this truth value, wherever it is evaluated. -/
def Yields (op : BinaryOp) (a b : Value) (x : Bool) : Prop :=
  ∀ (env : Bindings) (store between after : Store) (left right : Term) (type : HostType),
    left.eval env store = .ok (a, between) → right.eval env between = .ok (b, after) →
    (Term.binary op left right type).eval env store = .ok (.bool x, after)

/-- The relation of places that an operator asks for. -/
def Ranks (op : BinaryOp) (p q : Place) : Prop :=
  match op with
  | .lessThan => p < q
  | .lessThanOrEqual => p ≤ q
  | .greaterThan => q < p
  | _ => q ≤ p

variable {op : BinaryOp} {a b : Value} {s : Scale} {x : Bool}

/-- The truth value of an operator is that of every node on the values. -/
theorem yields_iff (hop : op.isRelational = true ∨ op.isEquality = true)
    (h : ∀ type, op.apply type a b = .ok (.bool x)) (y : Bool) : op.Yields a b y ↔ x = y := by
  have hand : op ≠ .andAlso := by
    rintro rfl
    simp [isRelational, isEquality] at hop
  have hor : op ≠ .orElse := by
    rintro rfl
    simp [isRelational, isEquality] at hop
  have heval : op.Yields a b x := by
    intro env store between after left right type hleft hright
    rw [Term.eval_binary_of_ok hand hor hleft hright, h type]
    rfl
  constructor
  · intro hy
    have hx := heval [] .empty .empty .empty (.const a .object) (.const b .object) .boolean rfl rfl
    have hy := hy [] .empty .empty .empty (.const a .object) (.const b .object) .boolean rfl rfl
    cases hx.symm.trans hy
    rfl
  · rintro rfl
    exact heval

theorem holdsFor_cmp (hop : op.isRelational = true) (p q : Place) :
    op.holdsFor (cmp p q) = true ↔ op.Ranks p q := by
  cases op with
  | lessThan => exact beq_iff_eq.trans (cmp_eq_lt_iff p q)
  | greaterThan => exact beq_iff_eq.trans (cmp_eq_gt_iff p q)
  | lessThanOrEqual =>
    exact bne_iff_ne.trans ((not_congr (cmp_eq_gt_iff p q)).trans not_lt)
  | greaterThanOrEqual =>
    exact bne_iff_ne.trans ((not_congr (cmp_eq_lt_iff p q)).trans not_lt)
  | _ => cases hop

/-- An ordering operator asks for a relation of the places. -/
theorem yields_relational (hop : op.isRelational = true) (ha : a.scale? = some s)
    (hb : b.scale? = some s) : op.Yields a b x ↔ (x = true ↔ op.Ranks a.place b.place) := by
  have happly (type : HostType) :
      op.apply type a b = .ok (.bool (op.holdsFor (cmp a.place b.place))) := by
    cases op with
    | lessThan | lessThanOrEqual | greaterThan | greaterThanOrEqual =>
      rw [apply, Value.not_isNull ha, Value.not_isNull hb, if_neg (by simp),
        Value.order_place ha hb]
      rfl
    | _ => cases hop
  rw [yields_iff (.inl hop) happly, Bool.eq_iff_iff, holdsFor_cmp hop]
  exact Iff.comm

theorem yields_equal (ha : a.scale? = some s) (hb : b.scale? = some s) :
    BinaryOp.equal.Yields a b x ↔ (x = true ↔ a = b) := by
  rw [yields_iff (.inr rfl) fun _ => rfl, Bool.eq_iff_iff, Value.equals_iff ha hb]
  exact Iff.comm

theorem yields_notEqual (ha : a.scale? = some s) (hb : b.scale? = some s) :
    BinaryOp.notEqual.Yields a b x ↔ (x = true ↔ a ≠ b) := by
  rw [yields_iff (.inr rfl) fun _ => rfl, Bool.eq_iff_iff, Bool.not_eq_true', ← Bool.not_eq_true,
    Value.equals_iff ha hb]
  exact Iff.comm

/-- A comparison is true of two values. -/
def Holds (op : BinaryOp) (a b : Value) : Prop := op.Yields a b true

/-- A comparison is false of two values where it is not true. -/
theorem yields_false_iff (hop : op.isRelational = true ∨ op.isEquality = true)
    (ha : a.scale? = some s) (hb : b.scale? = some s) :
    op.Yields a b false ↔ ¬op.Holds a b := by
  have hdecided {P : Prop} (h : ∀ {x}, op.Yields a b x ↔ (x = true ↔ P)) :
      op.Yields a b false ↔ ¬op.Holds a b := by
    rw [Holds, h, h]
    simp
  rcases hop with hop | hop
  · exact hdecided (yields_relational hop ha hb)
  · cases op with
    | equal => exact hdecided (yields_equal ha hb)
    | notEqual => exact hdecided (yields_notEqual ha hb)
    | _ => cases hop

theorem holds_relational (hop : op.isRelational = true) (ha : a.scale? = some s)
    (hb : b.scale? = some s) : op.Holds a b ↔ op.Ranks a.place b.place := by
  rw [Holds, yields_relational hop ha hb, eq_self, true_iff]

theorem holds_equal (ha : a.scale? = some s) (hb : b.scale? = some s) :
    BinaryOp.equal.Holds a b ↔ a = b := by
  rw [Holds, yields_equal ha hb, eq_self, true_iff]

theorem holds_notEqual (ha : a.scale? = some s) (hb : b.scale? = some s) :
    BinaryOp.notEqual.Holds a b ↔ a ≠ b := by
  rw [Holds, yields_notEqual ha hb, eq_self, true_iff]

end BinaryOp

/-! ## 3. One order -/

/-- The comparisons of values are those of one order, but that of shifted times none comes before the
other although they are not equal. -/
structure Value.Compares (a b c : Value) : Prop where
  /-- A comparison is true or false. -/
  decided (op : BinaryOp) (hop : op.isRelational = true ∨ op.isEquality = true) :
    op.Yields a b false ↔ ¬op.Holds a b
  /-- One of two values comes before the other, or they are equal. -/
  one (unshifted : ¬a.Shifted b) :
    BinaryOp.lessThan.Holds a b ∧ ¬BinaryOp.equal.Holds a b ∧ ¬BinaryOp.greaterThan.Holds a b ∨
    ¬BinaryOp.lessThan.Holds a b ∧ BinaryOp.equal.Holds a b ∧ ¬BinaryOp.greaterThan.Holds a b ∨
    ¬BinaryOp.lessThan.Holds a b ∧ ¬BinaryOp.equal.Holds a b ∧ BinaryOp.greaterThan.Holds a b
  /-- Of shifted times none of the three holds. -/
  shifted (h : a.Shifted b) :
    ¬BinaryOp.lessThan.Holds a b ∧ ¬BinaryOp.equal.Holds a b ∧ ¬BinaryOp.greaterThan.Holds a b
  lessThanOrEqual : BinaryOp.lessThanOrEqual.Holds a b ↔ ¬BinaryOp.greaterThan.Holds a b
  greaterThanOrEqual : BinaryOp.greaterThanOrEqual.Holds a b ↔ ¬BinaryOp.lessThan.Holds a b
  notEqual : BinaryOp.notEqual.Holds a b ↔ ¬BinaryOp.equal.Holds a b
  /-- Equality and each of the orders pass from one pair to the next. -/
  trans (op : BinaryOp) (hop : op.isRelational = true ∨ op = .equal) (first : op.Holds a b)
    (second : op.Holds b c) : op.Holds a c

theorem BinaryOp.Ranks.trans {op : BinaryOp} {p q r : Place} (h : op.Ranks p q)
    (h' : op.Ranks q r) : op.Ranks p r := by
  cases op with
  | lessThan => exact lt_trans (a := p) h h'
  | lessThanOrEqual => exact le_trans (a := p) h h'
  | greaterThan => exact lt_trans (a := r) h' h
  | _ => exact le_trans (a := r) h' h

/-- Of shifted times none comes before the other, and they are not equal. -/
theorem Value.Shifted.unordered {a b : Value} (h : a.Shifted b) :
    ¬BinaryOp.lessThan.Holds a b ∧ ¬BinaryOp.equal.Holds a b ∧ ¬BinaryOp.greaterThan.Holds a b := by
  obtain ⟨hutc, hne⟩ := h
  rename_i s t
  have hplace : (Value.dateTimeOffset s).place = (Value.dateTimeOffset t).place :=
    congrArg (fun t : DateTime => (toLex (.inl t.ticks) : Place)) hutc
  rw [BinaryOp.holds_relational rfl rfl rfl, BinaryOp.holds_equal rfl rfl,
    BinaryOp.holds_relational rfl rfl rfl]
  exact ⟨hplace.not_lt, by simpa using hne, hplace.not_gt⟩

/-- Integers of one kind, characters, texts and times are compared in one order, but for points of
local time that are one point of universal time. -/
theorem Value.compares {s : Scale} {a b c : Value} (ha : a.scale? = some s)
    (hb : b.scale? = some s) (hc : c.scale? = some s) : a.Compares b c := by
  have hlt : BinaryOp.lessThan.Holds a b ↔ a.place < b.place := BinaryOp.holds_relational rfl ha hb
  have hle : BinaryOp.lessThanOrEqual.Holds a b ↔ a.place ≤ b.place :=
    BinaryOp.holds_relational rfl ha hb
  have hgt : BinaryOp.greaterThan.Holds a b ↔ b.place < a.place :=
    BinaryOp.holds_relational rfl ha hb
  have hge : BinaryOp.greaterThanOrEqual.Holds a b ↔ b.place ≤ a.place :=
    BinaryOp.holds_relational rfl ha hb
  have heq : BinaryOp.equal.Holds a b ↔ a = b := BinaryOp.holds_equal ha hb
  refine ⟨fun op hop => BinaryOp.yields_false_iff hop ha hb, fun hplain => ?one,
    Value.Shifted.unordered, ?_, ?_, ?_, fun op hop first second => ?trans⟩
  case one =>
    rw [hlt, hgt, heq]
    rcases lt_trichotomy a.place b.place with h | h | h
    · exact .inl ⟨h, fun heq => h.ne (congrArg Value.place heq), h.not_gt⟩
    · exact .inr (.inl ⟨h.not_lt, (eq_or_shifted ha hb h).resolve_right hplain, h.not_gt⟩)
    · exact .inr (.inr ⟨h.not_gt, fun heq => h.ne' (congrArg Value.place heq), h⟩)
  · rw [hle, hgt, not_lt]
  · rw [hge, hlt, not_lt]
  · rw [BinaryOp.holds_notEqual ha hb, heq]
  case trans =>
    rcases hop with hop | rfl
    · rw [BinaryOp.holds_relational hop ha hb] at first
      rw [BinaryOp.holds_relational hop hb hc] at second
      exact (BinaryOp.holds_relational hop ha hc).mpr (first.trans second)
    · exact (BinaryOp.holds_equal ha hc).mpr
        ((heq.mp first).trans ((BinaryOp.holds_equal hb hc).mp second))

/-- The greatest integer of the widest unsigned type comes after the others. -/
theorem Value.compares_greatest :
    let value (n : Int) : Value := .integer .uint64 (IntegerKind.wrap .uint64 n)
    (value 0).Compares (value 1) (value IntegerKind.uint64.greatest) :=
  Value.compares (s := .integer .uint64) rfl rfl rfl

/-- One o'clock at an offset of one hour is midnight at no offset, but the two are neither ordered nor
equal. -/
theorem Value.unordered_hour :
    let hour : Int := 3600 * ticksPerSecond
    let a : Value := .dateTimeOffset ⟨hour, ⟨hour⟩⟩
    let b : Value := .dateTimeOffset ⟨0, ⟨0⟩⟩
    ¬BinaryOp.lessThan.Holds a b ∧ ¬BinaryOp.equal.Holds a b ∧ ¬BinaryOp.greaterThan.Holds a b :=
  Value.Shifted.unordered ⟨by decide, by decide⟩

end FatArrow
