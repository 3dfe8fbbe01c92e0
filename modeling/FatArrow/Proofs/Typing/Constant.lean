import FatArrow.Proofs.Printing.Mirror
import FatArrow.Proofs.Syntax.Numerals
import FatArrow.Proofs.Types.Words
import FatArrow.Proofs.Typing.Reconversion
import FatArrow.Typing.Name

/-!
# Constants that are read again

The constants of a term are what literals denote, or numbers that these were widened to.  None of them
has a sign, so each of them is read where it is printed, with the type of its literal: an integer
always, and a float where it is finite and the shortest of its decimals is read as the float.
-/

namespace FatArrow

open Binary

/-! ## 1. Values of constants -/

namespace Value

/-- What literals denote, and numbers that these are widened to: no integer that needs a cast, and
nothing with a sign. -/
def IsSpelled : Value → Prop
  | .null | .bool _ | .string _ | .char _ => True
  | .integer kind w => kind.suffix?.isSome = true ∧ 0 ≤ kind.denote w
  | .single x => (datumOf32 x).isUnsigned = true
  | .double x => (datumOf x).isUnsigned = true
  | _ => False

/-- A float that is finite and is read where its shortest decimal is written; for 32 bits, the decimal
is read with 64 bits and narrowed. -/
def ReadsBack : Value → Prop
  | .single x => ∃ negative m q, datumOf32 x = .finite negative m q ∧
    narrowFloat (Decimal.shortest .single m q).nearest = x
  | .double x => ∃ negative m q, datumOf x = .finite negative m q
  | _ => True

instance : DecidablePred ReadsBack
  | .single x =>
    match h : datumOf32 x with
    | .finite negative m q =>
      decidable_of_iff (narrowFloat (Decimal.shortest .single m q).nearest = x)
        ⟨fun hnarrow => ⟨negative, m, q, h, hnarrow⟩, fun ⟨_, _, _, hx, hnarrow⟩ => by
          cases h.symm.trans hx
          exact hnarrow⟩
    | .nan | .infinite _ => .isFalse fun ⟨_, _, _, hx, _⟩ => nomatch h.symm.trans hx
  | .double x =>
    match h : datumOf x with
    | .finite negative m q => .isTrue ⟨negative, m, q, h⟩
    | .nan | .infinite _ => .isFalse fun ⟨_, _, _, hx⟩ => nomatch h.symm.trans hx
  | .null | .bool _ | .char _ | .integer _ _ | .string _ | .dateTime _ | .dateTimeOffset _
  | .timeSpan _ | .guid _ | .array _ | .object _ _ => .isTrue trivial

variable {v w : Value} {narrow wide : Primitive}

theorem IsSpelled.legible (h : v.IsSpelled) (hr : v.ReadsBack) : v.Legible := by
  cases v with
  | integer kind w => exact h.2
  | single x =>
    obtain ⟨negative, m, q, hx, -⟩ := hr
    have hunsigned : (datumOf32 x).isUnsigned = true := h
    rw [hx] at hunsigned
    exact ⟨m, q, hx.trans (by rw [(Bool.not_eq_true' negative).mp hunsigned])⟩
  | double x =>
    obtain ⟨negative, m, q, hx⟩ := hr
    have hunsigned : (datumOf x).isUnsigned = true := h
    rw [hx] at hunsigned
    exact ⟨m, q, hx.trans (by rw [(Bool.not_eq_true' negative).mp hunsigned])⟩
  | _ => exact h

theorem IsSpelled.narrow? (h : v.IsSpelled) : v.narrow? = none := by
  cases v with
  | integer kind w =>
    obtain ⟨suffix, hsuffix⟩ := Option.isSome_iff_exists.mp h.1
    rw [Value.narrow?, hsuffix]
    rfl
  | _ => rfl

/-- A number that is widened stays without a sign. -/
theorem IsSpelled.widened (h : v.IsSpelled) (hv : v.primitive? = some narrow)
    (hnumeric : narrow.isNumeric = true) (hw : narrow.widensTo wide = true)
    (hconvert : v.convert? wide = some w) : w.IsSpelled := by
  have hne : v.primitive? ≠ some wide := fun he => by
    rw [hv] at he
    cases he
    cases (Primitive.widensTo_asymm hw).symm.trans hw
  unfold convert? at hconvert
  rw [if_neg hne] at hconvert
  cases v with
  | single x =>
    cases hv
    cases wide <;> cases hw
    cases hconvert
    exact isUnsigned_floatOf h
  | double x =>
    cases hv
    cases wide <;> cases hw
  | integer kind word =>
    cases hv
    obtain ⟨n, hn, hconvert⟩ := Option.bind_eq_some_iff.mp hconvert
    cases hn
    cases wide with
    | integer k =>
      cases hconvert
      have hle := IntegerKind.greatest_le_of_widensTo hw
      refine ⟨?_, ?_⟩
      · -- what a number with a suffix of its own is widened to has one, too
        have hsuffix := h.1
        revert hw hsuffix
        clear hne hle
        cases kind <;> cases k <;> decide
      · rw [IntegerKind.denote_wrap h.2 ((kind.denote_le_greatest word).trans hle)]
        exact h.2
    | single =>
      cases hconvert
      exact isUnsigned_float32Of (isUnsigned_datumOfInt h.2)
    | double =>
      cases hconvert
      exact isUnsigned_floatOf (isUnsigned_datumOfInt h.2)
    | _ => cases hw
  | char | bool | string =>
    cases hv
    cases hnumeric
  | _ => cases hv

end Value

/-! ## 2. Terms -/

namespace Term

/-- If the term is a constant, its value is one that can be spelled. -/
def Spelled (t : Term) : Prop := ∀ value type, t = .const value type → value.IsSpelled

variable {o : TypeOrder} {B : HostType → Prop} {t : Term} {source target : HostType}

theorem spelled_null (type : HostType) : (null type).Spelled := by
  rintro _ _ ⟨⟩
  trivial

theorem literalTerm_spelled {l : Syntax.Literal} {span : Span} (hl : l.IsRead)
    (h : literalTerm l span = .ok t) : ∃ v : Value, t = .const v v.literalType ∧ v.IsSpelled := by
  unfold literalTerm at h
  split at h <;> cases h
  case h_1 n suffix =>
    refine ⟨_, rfl, ?_⟩
    have hlt : n < UInt64.size := hl
    have hsize : UInt64.size = 2 ^ 64 := rfl
    have hle : (n : Int) ≤ (intKind n suffix).greatest := by
      have hgreatest : IntegerKind.uint64.greatest = 2 ^ 64 - 1 := rfl
      cases suffix <;> simp only [intKind] <;> repeat' split
      all_goals omega
    refine ⟨?_, ?_⟩
    · cases suffix <;> simp only [intKind] <;> repeat' split
      all_goals rfl
    · rw [IntegerKind.denote_wrap (Int.natCast_nonneg n) hle]
      exact Int.natCast_nonneg n
  case h_4 => exact ⟨_, rfl, isUnsigned_float32Of hl⟩
  case h_9 => exact ⟨.null, rfl, trivial⟩
  all_goals exact ⟨_, rfl, hl⟩

theorem Spelled.convert (h : t.Spelled) (hs : o.Shaped B) (ht : IsOperand B t source)
    (hc : B target) (hnull : t.isNullConstant = false)
    (hfits : o.assignable target source = true) : (t.convert target).Spelled := by
  rcases convert_cases ht.read ht.typed hnull (c := target) with ⟨he, -⟩ | he |
    ⟨v, w, from_, kind, rfl, hv, hfrom, he, hshape, hnumeric, hw⟩
  · rwa [he]
  · rw [he]
    exact nofun
  · rw [he]
    rintro _ _ ⟨⟩
    obtain ⟨⟨⟩, -, hb⟩ := ht
    -- a number is converted only to one that it widens to
    have hwidens : kind = from_ ∨ from_.widensTo kind = true := by
      rw [hs.assignable_iff hc hb, TypeOrder.fitsUnder] at hfits
      have hplain : o.fitsPlain target (.primitive from_) = true ∨
          o.fitsPlain target.underlying (.primitive from_) = true := by
        split at hfits
        · exact .inr hfits
        · exact .inl hfits
      have hcases (u : HostType) (hu : u.shape = .primitive kind)
          (hf : o.fitsPlain u (.primitive from_) = true) :
          kind = from_ ∨ from_.widensTo kind = true := by
        rcases TypeOrder.fitsPlain_cases hf with rfl | hobject | ⟨wide, narrow, hwide, hnarrow, -, hw⟩ |
          ⟨hnamed, -⟩ | ⟨i, hparam⟩
        · cases hu
          exact .inl rfl
        · cases hu.symm.trans (HostType.shape_of_isPrimitive hobject)
          cases hnumeric
        · cases hu.symm.trans hwide
          cases hnarrow
          exact .inr hw
        · simp [HostType.isNamed, HostType.name?, hu] at hnamed
        · cases hu.symm.trans hparam
      exact hplain.elim (hcases target hshape) (hcases target.underlying hshape)
    have hspelled : v.IsSpelled := h v _ rfl
    rcases hwidens with rfl | hwidens
    · rw [Value.convert?_self hv] at hw
      cases hw
      exact hspelled
    · exact hspelled.widened hv hfrom hwidens hw

theorem Spelled.coerce (h : t.Spelled) (hs : o.Shaped B) (ht : IsOperand B t source)
    (hc : B target) : (t.coerce o target).Spelled := by
  rcases coerce_cases (o := o) (c := target) ht.typed with he | ⟨-, ⟨-, he⟩ | ⟨hnull, -, hfits, he⟩⟩
  · rwa [he]
  · rw [he]
    exact spelled_null target
  · rw [he]
    exact h.convert hs ht hc hnull hfits

theorem Spelled.asArgument (h : t.Spelled) (hs : o.Shaped B) (ht : IsOperand B t source)
    (hc : B target) (hfits : o.assignable target source = true) :
    (t.asArgument target).Spelled := by
  unfold Term.asArgument
  rw [ht.typed]
  dsimp only
  split
  next => exact h
  next =>
    split
    next =>
      split
      next => exact spelled_null target
      next => exact h
    next hnull =>
      split
      next => exact h.convert hs ht hc (Bool.not_eq_true _ ▸ hnull) hfits
      next => exact h

end Term

/-! ## 3. Literals -/

/-- A literal that denotes a spelled value is read as the value, if it reads back. -/
theorem Value.IsSpelled.literalTerm_eq {v : Value} {l : Syntax.Literal} (h : v.IsSpelled)
    (hr : v.ReadsBack) (hl : v.IsLiteral l) (span : Span) :
    literalTerm l span = .ok (.const v v.literalType) := by
  cases v with
  | null => cases l <;> first | rfl | cases hl
  | bool | string | char =>
    cases l <;> first | (cases hl; rfl) | cases hl
  | integer kind w =>
    cases l with
    | int n suffix =>
      obtain ⟨hdenote, rfl⟩ := hl
      have hle := kind.denote_le_greatest w
      have hwrap := kind.wrap_denote w
      rw [hdenote] at hle hwrap
      have hkind : intKind n kind.intSuffix = kind := by
        have hsuffix := h.1
        clear hdenote hwrap h
        cases kind <;> simp only [IntegerKind.intSuffix, intKind] <;>
          first
          | (cases hsuffix; done)
          | rw [if_pos hle]
      let spelled (k : IntegerKind) : Term := .const (.integer k (k.wrap n)) (.integer k)
      show Except.ok (spelled (intKind n kind.intSuffix)) = _
      rw [hkind]
      show Except.ok (Term.const (.integer kind (kind.wrap n)) (.integer kind)) = _
      rw [hwrap]
      rfl
    | _ => cases hl
  | single x =>
    cases l with
    | real y suffix =>
      cases suffix with
      | float =>
        obtain ⟨m, q, hx, rfl⟩ := hl
        obtain ⟨negative, m', q', hx', hnarrow⟩ := hr
        cases hx.symm.trans hx'
        show Except.ok (Term.const (.single (narrowFloat _)) .single) = _
        rw [hnarrow]
        rfl
      | _ => cases hl
    | _ => cases hl
  | double x =>
    cases l with
    | real y suffix =>
      cases suffix with
      | none =>
        cases hl
        rfl
      | _ => cases hl
    | _ => cases hl
  | _ => cases h

end FatArrow
