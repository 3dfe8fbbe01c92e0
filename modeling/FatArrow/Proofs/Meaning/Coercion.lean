import FatArrow.Proofs.Meaning.Arithmetic
import FatArrow.Proofs.Registry.Sound
import FatArrow.Proofs.Typing.Reconversion

/-!
# Operands keep their integer

An operand is converted to the type of the other one where that type can stand for its own.  Among the
integer types this is so where the other has every value of its own, and then the conversion, which
wraps, keeps the integer.  A host can declare that one integer type derives from another, which has no
such reason: then the operand is converted all the same.
-/

namespace FatArrow

/-! ## 1. Values -/

/-- An integer type or the type of characters, whose values denote integers. -/
def Primitive.isWhole (p : Primitive) : Bool := p.isInteger || p == .char

namespace Value

variable {v : Value} {p : Primitive} {k : IntegerKind} {n : Int}

theorem toNat_char_lt (c : Char) : c.toNat < 0x110000 := by
  have hvalid := c.valid
  simp only [UInt32.isValidChar, Nat.isValidChar] at hvalid
  show c.val.toNat < _
  omega

theorem exists_whole? (hv : v.primitive? = some p) (hp : p.isWhole = true) :
    ∃ n, v.whole? = some n := by
  cases v <;> cases hv <;> first | exact ⟨_, rfl⟩ | cases hp

theorem not_isNull_of_whole? (hn : v.whole? = some n) : v.isNull = false := by
  cases v <;> first | rfl | cases hn

theorem convert?_integer (hn : v.whole? = some n) :
    v.convert? (.integer k) = some (.integer k (k.wrap n)) := by
  by_cases hown : v.primitive? = some (.integer k)
  · -- the word that it has is that of what it denotes
    rw [convert?_self hown]
    cases v <;> cases hown
    cases hn
    rw [k.wrap_denote]
  · unfold convert?
    rw [if_neg hown]
    cases v <;> cases hn <;> rfl

/-- A type to which that of a value widens has the integer of the value.  But the short unsigned type
has the characters of 16 bits only. -/
theorem fits_of_widensTo (hv : v.primitive? = some p) (hn : v.whole? = some n)
    (hchar : ∀ c, v = .char c → k = .uint16 → c.toNat < 2 ^ 16)
    (hw : p.widensTo (.integer k) = true) : k.Fits n := by
  cases v <;> cases hv
  case integer kind w =>
    cases hn
    apply IntegerKind.Fits.widen (IntegerKind.fits_denote w)
    exact hw
  case char c =>
    cases hn
    have hlt := toNat_char_lt c
    have hshort := hchar c rfl
    unfold IntegerKind.Fits
    cases k <;> first | (cases hw; done) | skip
    all_goals
      simp only [IntegerKind.least, IntegerKind.greatest, IntegerKind.signed, IntegerKind.width,
        ↓reduceIte, Bool.false_eq_true, forall_const] at hshort ⊢
      norm_num at *
      omega
  all_goals cases hn

end Value

/-! ## 2. Which types an operand is brought to -/

theorem HostType.isValueType_of_integer {t : HostType} {k : IntegerKind}
    (ht : t.primitive? = some (.integer k)) : t.isValueType = true := by
  rw [isValueType, primitive?_eq ht]
  rfl

/-- What stands for an integer type is that type, one that widens to it, or one that is declared to
derive from it. -/
theorem Registry.assignable_integer {r : Registry} {source target : HostType} {p : Primitive}
    {k : IntegerKind} (hs : source.primitive? = some p) (ht : target.primitive? = some (.integer k))
    (hn : source.nullable = false) (h : r.order.assignable target source = true) :
    p = .integer k ∨ p.widensTo (.integer k) = true ∨
      r.derivesFrom source target.underlying = true := by
  have hplain {t : HostType} (ht : t.primitive? = some (.integer k))
      (hfits : r.order.fitsPlain t source = true) :
      p = .integer k ∨ p.widensTo (.integer k) = true := by
    rcases TypeOrder.fitsPlain_valueType (HostType.isValueType_of_integer ht) hfits with
      rfl | ⟨wide, narrow, hwide, hnarrow, -, hw⟩
    · exact .inl (Option.some.inj (hs.symm.trans ht))
    · cases (HostType.primitive?_of_shape hwide).symm.trans ht
      cases (HostType.primitive?_of_shape hnarrow).symm.trans hs
      exact .inr hw
  have hderives {t : HostType} (h : r.order.derives t source = true) :
      t.nullable = false ∧ r.derivesFrom source t = true := by
    simp only [order, Bool.and_eq_true, Bool.not_eq_true'] at h
    exact ⟨h.1.2, h.2⟩
  rw [TypeOrder.assignable, Bool.or_eq_true] at h
  rcases h with h | h
  · unfold TypeOrder.fits at h
    split at h
    next hsame =>
      rw [hsame] at ht
      exact .inl (Option.some.inj (hs.symm.trans ht))
    next =>
      split at h
      next =>
        rw [HostType.underlying_eq_self hn, Bool.or_eq_true] at h
        rcases h with h | h
        · exact or_assoc.mp (.inl (hplain (t := target.underlying) ht h))
        · exact .inr (.inr (hderives h).2)
      next => exact or_assoc.mp (.inl (hplain ht h))
  · obtain ⟨hplain, hderives⟩ := hderives h
    rw [HostType.underlying_eq_self hplain]
    exact .inr (.inr hderives)

/-! ## 3. Operands -/

namespace Term

variable {r : Registry} {operand : Term} {source target : HostType} {p : Primitive}
  {k : IntegerKind} {env : Bindings} {s after : Store} {v : Value} {n : Int}

/-- Converted in place or by a cast, an integer becomes its word. -/
theorem eval_convert_integer (ht : operand.type? = some source) (hne : source ≠ target)
    (hk : target.primitive? = some (.integer k)) (he : operand.eval env s = .ok (v, after))
    (hn : v.whole? = some n) :
    (operand.convert target).eval env s = .ok (.integer k (k.wrap n), after) := by
  have hconvert := Value.convert?_integer (k := k) hn
  have hcast : (operand.cast target).eval env s = .ok (.integer k (k.wrap n), after) := by
    rw [eval, Eval.bind_eq_ok]
    refine ⟨v, after, he, ?_⟩
    simp only [Value.castTo, Value.not_isNull_of_whole? hn, hk, Value.needConvert, hconvert,
      Primitive.isNumeric, Primitive.isInteger, Bool.true_or, Bool.false_eq_true, ↓reduceIte]
    rfl
  unfold convert
  rw [ht]
  simp only [hne, ↓reduceIte]
  split
  next value type =>
    cases he
    cases hretyped : retyped? v type target with
    | none => exact hcast
    | some t =>
      unfold retyped? at hretyped
      rw [Value.not_isNull_of_whole? hn, hk] at hretyped
      obtain ⟨_, -, hretyped⟩ := Option.bind_eq_some_iff.mp hretyped
      simp only [Option.bind_some, Option.bind_eq_bind] at hretyped
      split at hretyped
      next =>
        rw [hconvert] at hretyped
        cases hretyped
        rfl
      next => cases hretyped
  next => exact hcast

/-- An operand whose values are integers, brought to an integer type, keeps null and keeps the
integer.  Only where the type of the operand is declared to derive from the other one, an integer that
the other one does not have becomes its word there. -/
theorem coerce_keeps_integer (ht : operand.type? = some source) (hs : source.primitive? = some p)
    (hp : p.isWhole = true) (hk : target.primitive? = some (.integer k))
    (hv : v.HasType r.order source) (hchar : ∀ c, v = .char c → k = .uint16 → c.toNat < 2 ^ 16)
    (he : operand.eval env s = .ok (v, after)) :
    ∃ w, (operand.coerce r.order target).eval env s = .ok (w, after) ∧
      (v = .null ∧ w = .null ∨ ∃ n, v.whole? = some n ∧
        (w.whole? = some n ∨ r.derivesFrom source target.underlying = true ∧ ¬ k.Fits n ∧
          w = .integer k (k.wrap n))) := by
  have hobject : p ≠ .object := by
    rintro rfl
    cases hp
  have hwhole : v = .null ∨ ∃ n, v.whole? = some n := by
    rcases hv.of_primitive hs hobject with ⟨hnull, -⟩ | hown
    · exact .inl hnull
    · exact .inr (Value.exists_whole? hown hp)
  rcases coerce_cases (o := r.order) (c := target) ht with
    hkept | ⟨⟨hne, -⟩, ⟨hnull, hconst⟩ | ⟨-, hplain, hfits, hconvert⟩⟩
  · rw [hkept]
    refine ⟨v, he, ?_⟩
    rcases hwhole with rfl | ⟨n, hn⟩
    · exact .inl ⟨rfl, rfl⟩
    · exact .inr ⟨n, hn, .inl hn⟩
  · -- a null of another type
    obtain ⟨type, rfl⟩ := eq_null_of_isNullConstant hnull
    cases he
    rw [hconst]
    exact ⟨.null, rfl, .inl ⟨rfl, rfl⟩⟩
  · rw [hconvert]
    rcases hv.of_primitive hs hobject with ⟨-, hadmits⟩ | hown
    · -- a type without null has none
      rw [HostType.admitsNull, hplain, HostType.isValueType, HostType.primitive?_eq hs] at hadmits
      cases p <;> first | (cases hadmits; done) | cases hp
    obtain ⟨n, hn⟩ := Value.exists_whole? hown hp
    refine ⟨_, eval_convert_integer ht hne hk he hn, .inr ⟨n, hn, ?_⟩⟩
    by_cases hin : k.Fits n
    · exact .inl (congrArg some (IntegerKind.denote_wrap_eq_iff.mpr hin))
    · rcases Registry.assignable_integer hs hk hplain hfits with rfl | hw | hderives
      · cases v <;> cases hown
        cases hn
        exact absurd (IntegerKind.fits_denote _) hin
      · exact absurd (Value.fits_of_widensTo hown hn hchar hw) hin
      · exact .inr ⟨hderives, hin, rfl⟩

/-- A character next to a short number that admits null. -/
theorem coerce_keeps_integer_char :
    let operand : Term := .param ⟨"c", .char⟩
    let target : HostType := .orNull (.integer .uint16)
    ∃ w, (operand.coerce Registry.empty.order target).eval [("c", .char 'é')] .empty =
      .ok (w, .empty) ∧ w.whole? = some 233 := by
  intro operand target
  have ht : operand.type? = some .char := rfl
  have hk : target.primitive? = some (.integer .uint16) := rfl
  have hv : (Value.char 'é').HasType Registry.empty.order .char := .primitive rfl rfl
  have he : operand.eval [("c", .char 'é')] .empty = .ok (.char 'é', .empty) := rfl
  obtain ⟨w, heval, ⟨hnull, -⟩ | ⟨n, hn, hw⟩⟩ :=
    coerce_keeps_integer ht rfl rfl hk hv (by rintro _ ⟨⟩ -; decide) he
  · cases hnull
  · cases hn
    refine ⟨w, heval, ?_⟩
    rcases hw with hw | ⟨-, hout, -⟩
    · exact hw
    · exact absurd (by decide) hout

/-- A character of more than 16 bits does not keep its integer next to a short number, nor does a long
number next to a short one from which its type is declared to derive. -/
theorem coerce_loses_integer :
    (((param ⟨"c", .char⟩).coerce Registry.empty.order (.integer .uint16)).eval
      [("c", .char '😀')] .empty = .ok (.integer .uint16 0xF600, .empty) ∧
        (Value.char '😀').whole? = some 0x1F600) ∧
    let long := { TypeDecl.ofPrimitive (.integer .int64) with bases := [.int32] }
    let declared : HostModule := .ofNamespace "System" [.ofPrimitive (.integer .int32), long]
    let r := Registry.installed [declared]
    ((param ⟨"n", .int64⟩).coerce r.order .int32).eval [("n", .int64 (2 ^ 32))] .empty =
        .ok (.int32 0, .empty) ∧ (Value.int64 (2 ^ 32)).whole? = some (2 ^ 32) := by
  refine ⟨⟨rfl, rfl⟩, ?_⟩
  intro long declared r
  have hcast (o : TypeOrder) (hfits : o.assignable .int32 .int64 = true) :
      (param ⟨"n", .int64⟩).coerce o .int32 = .cast (.param ⟨"n", .int64⟩) .int32 := by
    show (if !o.assignable .int32 .int64 then _ else _) = _
    rw [hfits]
    rfl
  rw [hcast r.order (by decide +kernel)]
  exact ⟨rfl, rfl⟩

end Term

end FatArrow
