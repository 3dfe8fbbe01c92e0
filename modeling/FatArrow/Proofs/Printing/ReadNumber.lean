import FatArrow.Proofs.Binary.Unsigned
import FatArrow.Proofs.Printing.ReadTerm

/-!
# Printed numbers are read

Numbers of every sign, and the floats that are printed by name, are scanned and read where they are
printed.  A minus sign is read as an operator before the rest of the number.
-/

namespace FatArrow

open Binary Syntax Syntax.Reader

variable {ns : Namespaces} {m : Nat} {q : Int}

/-! ## 1. Floats without their sign -/

namespace Binary

/-- Without its sign bit, a word of a finite datum is the word of its magnitude. -/
theorem Format.decode_magnitude {f : Format} {bits : Nat} {negative : Bool}
    (h : f.decode bits = .finite negative m q) :
    f.decode (bits % f.signBit) = .finite false m q := by
  have hpos : 0 < f.signBit := Nat.pow_pos (by decide)
  have hsign : ¬ bits % f.signBit ≥ f.signBit := Nat.not_le.mpr (Nat.mod_lt _ hpos)
  unfold Format.decode at h ⊢
  dsimp only at h ⊢
  rw [Nat.mod_mod, decide_eq_false hsign]
  split at h
  · cases h
  next hnan =>
    split at h
    · cases h
    next hinfinite =>
      rw [if_neg hnan, if_neg hinfinite]
      split at h
      next hstored =>
        rw [if_pos hstored]
        cases h
        rfl
      next hstored =>
        rw [if_neg hstored]
        cases h
        rfl

theorem exists_magnitude {x : Float} {negative : Bool} (h : datumOf x = .finite negative m q) :
    ∃ y, datumOf y = .finite false m q := by
  have hlt := (Format.decode_eq_finite h).2.2.1
  have hsize : Format.double.infinity < UInt64.size := by decide
  let w := UInt64.ofNat (x.toBits.toNat % Format.double.signBit)
  have hw : w.toNat = x.toBits.toNat % Format.double.signBit :=
    UInt64.toNat_ofNat_of_lt' (hlt.trans hsize)
  refine ⟨Float.ofBits w, ?_⟩
  rw [datumOf, toBits_ofBits_of_le (by omega), hw]
  exact Format.decode_magnitude h

theorem exists_magnitude32 {x : Float32} {negative : Bool}
    (h : datumOf32 x = .finite negative m q) : ∃ y, datumOf32 y = .finite false m q := by
  have hlt := (Format.decode_eq_finite h).2.2.1
  have hsize : Format.single.infinity < UInt32.size := by decide
  let w := UInt32.ofNat (x.toBits.toNat % Format.single.signBit)
  have hw : w.toNat = x.toBits.toNat % Format.single.signBit :=
    UInt32.toNat_ofNat_of_lt' (hlt.trans hsize)
  refine ⟨Float32.ofBits w, ?_⟩
  rw [datumOf32, toBits_ofBits32_of_le (by omega), hw]
  exact Format.decode_magnitude h

end Binary

/-! ## 2. Constants -/

namespace Value

/-- A float that is printed: by name or, where it is finite, by digits. -/
def HasFloatText (name? : Option String) (d : Datum) : Prop :=
  name?.isSome = true ∨ ∃ negative m q, d = .finite negative m q

/-- A constant whose text is an expression. -/
def HasText : Value → Prop
  | .null | .bool _ | .string _ | .char _ | .integer _ _ => True
  | .single x => HasFloatText (floatName? (widenFloat x)) (datumOf32 x)
  | .double x => HasFloatText (floatName? x) (datumOf x)
  | _ => False

/-- What is known of an expression that is read for a constant: for an integer its parts. -/
def IsReadAs (ns : Namespaces) : Value → Node → Prop
  | .integer kind w, node => kind.MirrorsWord ns w node
  | _, _ => True

theorem IsReadAs.paren (v : Value) (node : Node) (span : Span) (h : v.IsReadAs ns node) :
    v.IsReadAs ns (.paren node span) := by
  cases v with
  | integer kind w =>
    have h : kind.MirrorsWord ns w node := h
    show kind.MirrorsWord ns w (.paren node span)
    unfold IntegerKind.MirrorsWord at h ⊢
    split at h
    next hsuffix => rw [if_pos hsuffix]; exact h.paren span
    next hsuffix => rw [if_neg hsuffix]; exact h
  | _ => trivial

theorem Legible.spells_isRead {v : Value} (h : v.Legible) :
    Spells v.literalText v.signs ∧ v.IsRead fun _ => True :=
  have hread : v.IsRead (v.Mirrors []) := h.isRead
  ⟨v.spells_literalText h, hread.starts, hread.reads.mono fun _ _ => trivial⟩

/-- A float that is printed by name is a member of its type. -/
theorem named_float (owner : String) {v : Value} {x : Float} {name : String}
    (howner : isName owner = true) (hname : floatName? x = some name)
    (htext : v.literalText = owner ++ "." ++ name)
    (hsigns : v.signs = [Sign.name owner, Sign.dot, Sign.name name]) :
    Spells v.literalText v.signs ∧ v.IsRead fun _ => True := by
  have hletters : isName name = true := by
    unfold floatName? at hname
    split at hname
    · cases hname
      decide
    · split at hname
      · split at hname <;> cases hname <;> decide
      · cases hname
  rw [htext, hsigns]
  refine ⟨Term.spells_member (.name howner) hletters, ⟨_, _, hsigns, List.mem_cons_self ..⟩, ?_⟩
  have hends : EndsTypes [] (Before .dot) [] := Before.endsTypes (.inl rfl) nofun
  have hmember := Term.readsAs_member (ReadsUpTo.name hends owner) name
  rw [hsigns]
  exact .of_readsAs (hmember.mono fun _ _ => trivial)

/-- A float that is printed with a minus sign is one without it behind the sign. -/
theorem negated_float {v u : Value} (hu : u.Legible) (hn : ∀ kind w, u ≠ .integer kind w)
    (htext : v.literalText = "-" ++ u.literalText)
    (hsigns : v.signs = numberSigns .realLiteral v.literalText)
    (hreal : u.signs = [(.realLiteral, u.literalText)])
    (hdigit : startsWith Text.isDigit u.literalText.toList = true) :
    Spells v.literalText v.signs ∧ v.IsRead fun _ => True := by
  obtain ⟨kind, l, hliteral, -, -, hread⟩ := literal_of_legible hu hn
  rw [hreal] at hliteral
  cases hliteral
  have hspells := u.spells_literalText hu
  rw [hreal] at hspells
  have hsigned : v.isSigned = true := by
    rw [isSigned, htext, String.toList_append]
    rfl
  rw [htext] at hsigns ⊢
  refine ⟨?_, ⟨Sign.minus, [(.realLiteral, u.literalText)], ?_, by decide⟩, ?_⟩
  · rw [hsigns]
    exact hspells.minus hdigit
  · rw [hsigns, numberSigns_minus]
  · rw [hsigns, hsigned]
    exact (ReadsAs.number rfl hdigit hread).2.mono fun _ _ => trivial

theorem HasText.single {x : Float32} (h : HasText (.single x)) :
    Spells (literalText (.single x)) (signs (.single x)) ∧ IsRead (fun _ => True) (.single x) := by
  cases hname : floatName? (widenFloat x) with
  | some name =>
    refine named_float "Single" (by decide) hname ?_ ?_
    · simp only [literalText, hname]
      rfl
    · simp only [signs, hname]
  | none =>
    obtain ⟨negative, m, q, hx⟩ := h.resolve_left (by rw [hname]; exact Bool.false_ne_true)
    cases negative with
    | false => exact Legible.spells_isRead ⟨m, q, hx⟩
    | true =>
      -- what stands behind the minus sign is the text of the magnitude
      obtain ⟨y, hy⟩ := exists_magnitude32 hx
      have hother (kind : IntegerKind) (w : BitVec kind.width) : Value.single y ≠ .integer kind w :=
        fun he => by cases he
      have hlegible : (Value.single y).Legible := ⟨m, q, hy⟩
      refine negated_float hlegible hother ?_ ?_ (signs_single hy) (spells_single hy).2
      · rw [Decimal.literalText_single hy, ← String.append_assoc]
        simp only [literalText, hname, Decimal.Layout.float32Text, Decimal.Layout.datumText, hx, hy]
        rfl
      · simp only [signs, hname]

theorem HasText.double {x : Float} (h : HasText (.double x)) :
    Spells (literalText (.double x)) (signs (.double x)) ∧ IsRead (fun _ => True) (.double x) := by
  cases hname : floatName? x with
  | some name =>
    refine named_float "Double" (by decide) hname ?_ ?_
    · simp only [literalText, hname]
      rfl
    · simp only [signs, hname]
  | none =>
    obtain ⟨negative, m, q, hx⟩ := h.resolve_left (by rw [hname]; exact Bool.false_ne_true)
    cases negative with
    | false => exact Legible.spells_isRead ⟨m, q, hx⟩
    | true =>
      obtain ⟨y, hy⟩ := exists_magnitude hx
      have hother (kind : IntegerKind) (w : BitVec kind.width) : Value.double y ≠ .integer kind w :=
        fun he => by cases he
      have hlegible : (Value.double y).Legible := ⟨m, q, hy⟩
      refine negated_float hlegible hother ?_ ?_ (signs_double hy) (spells_double hy).2
      · rw [Decimal.literalText_double hy]
        simp only [literalText, hname, Decimal.Layout.floatText, Decimal.Layout.datumText, hx, hy]
        rfl
      · simp only [signs, hname]

/-- A constant that has a text is scanned to its signs and read. -/
theorem HasText.isRead (ns : Namespaces) {v : Value} (h : v.HasText) :
    Spells v.literalText v.signs ∧ v.IsRead (v.IsReadAs ns) := by
  cases v with
  | integer kind w => exact ⟨spells_integerText kind w, isRead_integer kind w⟩
  | single x => exact h.single
  | double x => exact h.double
  | null | bool | string | char =>
    refine Legible.spells_isRead ?_
    exact h
  | _ => exact h.elim

end Value

end FatArrow
