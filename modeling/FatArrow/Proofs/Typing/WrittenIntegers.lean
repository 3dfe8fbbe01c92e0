import FatArrow.Proofs.Meaning.Arithmetic
import FatArrow.Proofs.Printing.ReadLambda
import FatArrow.Proofs.Printing.ReadNumber
import FatArrow.Proofs.Standard.Types
import FatArrow.Proofs.Typing.Rereading

/-!
# Printed integers keep their value

Wherever an integer is printed, what is read and built there is a number of its kind with its value.
A minus sign is an operator that is applied to the number behind it, so the type of the number is
chosen without the sign: the least words of the two kinds that are printed without a cast are read
as numbers without a sign.
-/

namespace FatArrow

open Syntax

/-! ## 1. Words -/

namespace IntegerKind

variable {k : IntegerKind}

/-- Integers that differ by a multiple of the range of a type have the same word. -/
theorem wrap_eq_of_modEq {m n : Int} (h : m ≡ n [ZMOD 2 ^ k.width]) : k.wrap m = k.wrap n := by
  have hcast : ((2 ^ k.width : Nat) : Int) = 2 ^ k.width := by norm_cast
  apply BitVec.eq_of_toNat_eq
  rw [wrap, wrap, BitVec.toNat_ofInt, BitVec.toNat_ofInt, hcast, h.eq]

/-- The kind without a sign that has as many bits. -/
def unsigned : IntegerKind → IntegerKind
  | .sbyte => .byte
  | .int16 => .uint16
  | .int32 => .uint32
  | .int64 => .uint64
  | kind => kind

/-- The least words of the kinds that are printed with a sign and without a cast. There is no
literal of the kind for what stands behind their sign. -/
def IsLeastBare (kind : IntegerKind) (w : BitVec kind.width) : Prop :=
  (kind = .int32 ∨ kind = .int64) ∧ kind.denote w = kind.least

instance (kind : IntegerKind) (w : BitVec kind.width) : Decidable (kind.IsLeastBare w) :=
  inferInstanceAs (Decidable (_ ∧ _))

/-- The kind that is chosen for the digits of a printed word. -/
theorem intKind_natAbs {kind : IntegerKind} (hsuffix : kind.suffix?.isSome = true)
    (w : BitVec kind.width) :
    intKind (kind.denote w).natAbs kind.intSuffix =
      if kind.IsLeastBare w then kind.unsigned else kind := by
  have hlt := w.isLt
  have hlower := w.le_toInt
  have hupper := w.toInt_lt
  obtain ⟨n, hn⟩ : ∃ n, (kind.denote w).natAbs = n := ⟨_, rfl⟩
  rw [hn]
  have habs : kind.denote w = n ∨ kind.denote w = -n := by omega
  unfold IsLeastBare
  -- kind by kind, the digits against the limits at which the type of a literal changes
  cases kind <;> cases hsuffix <;>
    simp only [intKind, intSuffix, denote, greatest, least, unsigned, signed, width, ↓reduceIte,
      Bool.false_eq_true, reduceCtorEq, or_self, or_true, true_or, true_and, false_and] at * <;>
    norm_num at * <;> repeat' split
  all_goals first | rfl | omega

/-- The kinds that are printed under a cast have fewer than 32 bits. -/
theorem narrow_of_suffix? {kind : IntegerKind} (hsuffix : kind.suffix? = none) :
    int32 ≠ kind ∧ kind.width ≤ int32.width := by
  cases kind <;> cases hsuffix <;> decide

/-- For the digits under a cast the kind of 32 bits with a sign is chosen. -/
theorem intKind_natAbs_narrow {kind : IntegerKind} (hsuffix : kind.suffix? = none)
    (w : BitVec kind.width) : intKind (kind.denote w).natAbs .none = .int32 := by
  have hlt := w.isLt
  have hlower := w.le_toInt
  have hupper := w.toInt_lt
  obtain ⟨n, hn⟩ : ∃ n, (kind.denote w).natAbs = n := ⟨_, rfl⟩
  rw [hn]
  have habs : kind.denote w = n ∨ kind.denote w = -n := by omega
  refine if_pos ?_
  cases kind <;> cases hsuffix <;>
    simp only [denote, greatest, signed, width, ↓reduceIte, Bool.false_eq_true] at * <;>
    norm_num at * <;> omega

end IntegerKind

/-! ## 2. Terms that are numbers -/

/-- The negative of a number is its negative up to a multiple of the range of its kind. -/
theorem UnaryOp.negative_integer {type : HostType} {k : IntegerKind}
    (htype : type.primitive? = some (.integer k)) (n : Int) :
    UnaryOp.negative type (.integer k (k.wrap n)) = .ok (.integer k (k.wrap (-n))) := by
  have hneed : (Value.integer k (k.wrap n)).needInt = .ok (Int64.ofInt (k.denote (k.wrap n))) := rfl
  simp only [negative, Value.isNull, numberType_eq htype rfl, Primitive.isFloating, hneed, bind,
    Except.bind, Bool.false_eq_true, ↓reduceIte, Value.needConvert_int64]
  rw [Int64.toInt_neg, Int64.toInt_ofInt]
  -- neither of the two reductions to 64 bits shows in the word, whatever the kind is
  have hword : (-(k.denote (k.wrap n)).bmod Int64.size).bmod (2 ^ 64) ≡ -n [ZMOD 2 ^ k.width] :=
    (k.bmod_word_modEq _).trans ((k.bmod_word_modEq _).trans (k.denote_wrap_modEq n)).neg
  rw [IntegerKind.wrap_eq_of_modEq hword]

/-- A term is a number of a kind wherever it is evaluated. -/
structure Term.IsNumber (t : Term) (kind : IntegerKind) (w : BitVec kind.width) : Prop where
  typed : t.type? = some (.integer kind)
  means : ∀ env, t.eval env = return .integer kind w

/-- A type does not ask for numbers of another kind. -/
def HostType.Keeps (target : HostType) (kind : IntegerKind) : Prop :=
  target.isScalar = true → target.primitive? = some (.integer kind)

/-- A cast to a type that does not ask for another kind changes nothing. -/
theorem HostType.Keeps.castTo {target : HostType} {kind : IntegerKind} (h : target.Keeps kind)
    (w : BitVec kind.width) : (Value.integer kind w).castTo target = .ok (.integer kind w) := by
  unfold Value.castTo
  simp only [Value.isNull, Bool.false_eq_true, ↓reduceIte]
  split
  next p hp =>
    split
    next hs =>
      have hscalar : target.isScalar = true := by
        rw [HostType.isScalar, hp]
        exact hs
      cases hp.symm.trans (h hscalar)
      rw [Value.needConvert, Value.convert?_self rfl]
    next => rfl
  next => rfl

namespace Term

variable {t : Term} {kind narrow : IntegerKind} {w : BitVec kind.width} {target : HostType}

theorem isNumber_const (kind : IntegerKind) (w : BitVec kind.width) :
    (Term.const (.integer kind w) (.integer kind)).IsNumber kind w :=
  ⟨rfl, fun _ => rfl⟩

theorem IsNumber.negate {n : Int} (h : t.IsNumber kind (kind.wrap n)) :
    (applied .negate t).IsNumber kind (kind.wrap (-n)) := by
  have htype : t.type?.getD .object = .integer kind := by
    rw [h.typed]
    rfl
  have hprimitive : (HostType.integer kind).primitive? = some (.integer kind) := rfl
  refine ⟨congrArg some htype, fun env => ?_⟩
  simp only [applied, eval, h.means env, pure_bind, htype, UnaryOp.apply,
    UnaryOp.negative_integer hprimitive]
  rfl

/-- A number that is cast to a narrower kind has its word there. -/
theorem IsNumber.cast_narrow {n : Int} (h : t.IsNumber kind (kind.wrap n))
    (hne : kind ≠ narrow) (hw : narrow.width ≤ kind.width) :
    (Term.cast t (.integer narrow)).IsNumber narrow (narrow.wrap n) := by
  refine ⟨rfl, fun env => ?_⟩
  have hdvd : (2 : Int) ^ narrow.width ∣ 2 ^ kind.width := pow_dvd_pow 2 hw
  have hword : narrow.wrap (kind.denote (kind.wrap n)) = narrow.wrap n :=
    IntegerKind.wrap_eq_of_modEq ((kind.denote_wrap_modEq n).of_dvd hdvd)
  have hkinds : (Value.integer kind (kind.wrap n)).primitive? ≠ some (.integer narrow) :=
    fun he => hne (Primitive.integer.inj (Option.some.inj he))
  have hconvert : (Value.integer kind (kind.wrap n)).convert? (.integer narrow) =
      some (.integer narrow (narrow.wrap n)) := by
    unfold Value.convert?
    rw [if_neg hkinds, ← hword]
    rfl
  have hcast : (Value.integer kind (kind.wrap n)).castTo (.integer narrow) =
      .ok (.integer narrow (narrow.wrap n)) := by
    show (Value.integer kind (kind.wrap n)).needConvert (.integer narrow) = _
    simp only [Value.needConvert, hconvert]
  simp only [eval, h.means env, pure_bind, hcast]
  rfl

/-- A number stays what it is where a type is asked for that has no other numbers. -/
theorem IsNumber.convert (h : t.IsNumber kind w) (htarget : target.Keeps kind) (env : Bindings) :
    (t.convert target).eval env = return .integer kind w := by
  have hcast : (Term.cast t target).eval env = return .integer kind w := by
    simp only [eval, h.means env, pure_bind, HostType.Keeps.castTo htarget]
    rfl
  unfold Term.convert
  rw [h.typed]
  dsimp only
  split
  next => exact h.means env
  next =>
    -- a constant is retyped on the spot where it can be, everything else is cast
    split
    next value type =>
      obtain rfl : value = .integer kind w :=
        congrArg Prod.fst (Except.ok.inj (congrFun (h.means []) .empty))
      cases hretyped : retyped? (.integer kind w) type target with
      | none => exact hcast
      | some u =>
        -- only a type of numbers retypes a number, and that is one of the same kind
        unfold retyped? at hretyped
        simp only [Value.isNull, Bool.false_eq_true, ↓reduceIte, Option.bind_eq_bind,
          Option.bind_eq_some_iff] at hretyped
        obtain ⟨source, -, p, hp, hu⟩ := hretyped
        split at hu
        next hnumeric =>
          have hscalar : target.isScalar = true := by
            rw [HostType.isScalar, hp, Option.any_some, (Bool.and_eq_true_iff.mp hnumeric).2]
            rfl
          cases hp.symm.trans (htarget hscalar)
          rw [Value.convert?_self rfl] at hu
          cases hu
          rfl
        next => cases hu
    next => exact hcast

end Term

/-! ## 3. What is built -/

namespace Surface

/-- What is built for an expression, whatever the parameters around it are, is a number of a kind,
and stays the number where a type is asked for that has no other numbers. -/
def Builds (s : Surface) (node : Node) (kind : IntegerKind) (w : BitVec kind.width) : Prop :=
  ∀ scope, ∃ t, s.resolve scope none node = .ok (.value t) ∧ t.IsNumber kind w ∧
    ∀ target : HostType, target.Keeps kind →
      ∀ env, (t.convert target).eval env = return .integer kind w

variable {s : Surface} {scope : List Param} {node : Node} {n : Int} {suffix : IntSuffix}

theorem builds_of_resolve {kind : IntegerKind} {w : BitVec kind.width}
    (h : ∀ scope, ∃ t, s.resolve scope none node = .ok (.value t) ∧ t.IsNumber kind w) :
    s.Builds node kind w := fun scope =>
  let ⟨t, ht, hnumber⟩ := h scope
  ⟨t, ht, hnumber, fun _ htarget env => hnumber.convert htarget env⟩

/-- An integer is built as one of the kind that is chosen for its digits. -/
theorem resolve_integer (s : Surface) (scope : List Param) (h : node.IsInteger n suffix) :
    ∃ t, s.resolve scope none node = .ok (.value t) ∧
      t.IsNumber (intKind n.natAbs suffix) ((intKind n.natAbs suffix).wrap n) := by
  have hliteral (m : Nat) (span : Span) :
      s.resolve scope none (.literal (.int m suffix) span) =
        .ok (.value (.const (.integer _ ((intKind m suffix).wrap m))
          (.integer (intKind m suffix)))) := by
    rw [resolve]
    rfl
  cases n with
  | ofNat m =>
    obtain ⟨span, hbare⟩ := h
    refine ⟨_, ?_, Term.isNumber_const _ _⟩
    rw [resolve_bare, hbare]
    exact hliteral m span
  | negSucc m =>
    obtain ⟨inner, span, span', hbare, hinner⟩ := h
    -- the digits are typed before the minus sign is applied, which keeps their kind
    have hnumber := Term.isNumber_const (intKind (m + 1) suffix)
      ((intKind (m + 1) suffix).wrap (m + 1 : Nat))
    refine ⟨_, ?_, hnumber.negate⟩
    rw [resolve_bare, hbare, resolve, resolve_bare, hinner, hliteral (m + 1) span']
    rfl

/-- What is built for a printed word is the number it is. For the least words without a cast it is
the number with the same bits and no sign. -/
def BuildsWord (s : Surface) (node : Node) (kind : IntegerKind) (w : BitVec kind.width) : Prop :=
  if kind.IsLeastBare w then s.Builds node kind.unsigned (kind.unsigned.wrap (kind.denote w))
  else s.Builds node kind w

variable {kind : IntegerKind} {w : BitVec kind.width}

/-- A word without a cast: the type is chosen for the digits behind the sign. -/
theorem buildsWord_bare (hsuffix : kind.suffix?.isSome = true)
    (h : node.IsInteger (kind.denote w) kind.intSuffix) : s.BuildsWord node kind w := by
  have hbuilt (scope : List Param) := resolve_integer s scope h
  rw [IntegerKind.intKind_natAbs hsuffix w] at hbuilt
  unfold BuildsWord
  split
  next hleast =>
    rw [if_pos hleast] at hbuilt
    exact builds_of_resolve hbuilt
  next hleast =>
    rw [if_neg hleast, kind.wrap_denote] at hbuilt
    exact builds_of_resolve hbuilt

/-- A word under a cast: what is cast is a number of 32 bits, so that none is out of range. -/
theorem buildsWord_cast (hs : s.ReadsType (.integer kind)) (hsuffix : kind.suffix? = none)
    {written : TypeNode} {inner : Node} {span : Span} (hbare : node.bare = .cast written inner span)
    (hm : (HostType.integer kind).Mirrors s.namespaces written)
    (h : inner.IsInteger (kind.denote w) .none) : s.BuildsWord node kind w := by
  have hleast : ¬ kind.IsLeastBare w := by
    rintro ⟨rfl | rfl, -⟩ <;> cases hsuffix
  have hnarrow := IntegerKind.narrow_of_suffix? hsuffix
  have hcastable : s.host.castable (.integer .int32) (.integer kind) = true :=
    Bool.or_eq_true_iff.mpr (.inr rfl)
  rw [BuildsWord, if_neg hleast]
  refine builds_of_resolve fun scope => ?_
  -- a number of 32 bits with the sign, cut to the kind by the cast
  obtain ⟨t, ht, hnumber⟩ := resolve_integer s scope h
  rw [IntegerKind.intKind_natAbs_narrow hsuffix w] at hnumber
  have hcast := hnumber.cast_narrow hnarrow.1 hnarrow.2
  rw [kind.wrap_denote] at hcast
  refine ⟨_, ?_, hcast⟩
  rw [resolve_bare, hbare, resolve]
  simp only [hs.again written hm, ht, bind, Except.bind, needOperand_value hnumber.typed, hcastable]
  rfl

theorem buildsWord (hs : ∀ kind, s.ReadsType (.integer kind))
    (h : kind.MirrorsWord s.namespaces w node) : s.BuildsWord node kind w := by
  unfold IntegerKind.MirrorsWord at h
  split at h
  next hsuffix => exact buildsWord_bare hsuffix h
  next hsuffix =>
    obtain ⟨written, inner, span, hbare, hm, hinteger⟩ := h
    exact buildsWord_cast (hs kind) (Option.not_isSome_iff_eq_none.mp hsuffix) hbare hm hinteger

/-- Only numbers of one kind are built for an expression. -/
theorem Builds.kind_eq {other : IntegerKind} {v : BitVec other.width} (h : s.Builds node kind w)
    (h' : s.Builds node other v) : kind = other := by
  obtain ⟨t, ht, hnumber, -⟩ := h []
  obtain ⟨u, hu, hnumber', -⟩ := h' []
  cases ht.symm.trans hu
  have htypes := hnumber.typed.symm.trans hnumber'.typed
  injection Option.some.inj htypes with hshape
  cases hshape
  rfl

end Surface

/-! ## 4. Constants of printed lambdas -/

/-- An expression in the place of a constant that is an integer is built as what is printed. -/
def Value.StandsAt (s : Surface) : Value → Node → Prop
  | .integer kind w, node => s.BuildsWord node kind w
  | _, _ => True

/-- Whether an expression is one behind a minus sign. -/
def Syntax.Node.isNegation : Node → Bool
  | .unary .negate _ _ => true
  | _ => false

namespace Surface

variable {s : Surface}

theorem standsAt_paren (v : Value) (node : Node) (span : Span) (h : v.StandsAt s node) :
    v.StandsAt s (.paren node span) := by
  cases v <;> exact h

theorem isRead_standsAt (hs : ∀ kind, s.ReadsType (.integer kind)) {v : Value} (h : v.HasText) :
    v.IsRead (v.StandsAt s) := by
  obtain ⟨-, hstarts, hreads⟩ := h.isRead s.namespaces
  refine ⟨hstarts, hreads.mono fun node hnode => ?_⟩
  cases v with
  | integer kind w => exact buildsWord hs hnode
  | _ => trivial

/-- The text of a lambda is read as a lambda with its parts, and what is built in the places of its
integers are these integers, but for the least words without a cast. No number with a minus sign is
what a member, a call or an element is asked of. -/
theorem parseLambda_standsAt (hs : ∀ kind, s.ReadsType (.integer kind)) {f : Function}
    (h : f.term.CurriedBy Value.HasText s.namespaces) :
    ∃ written, parseLambda (f.text s.namespaces) = .ok written ∧
      List.Forall₂ Param.Mirrors f.params written.params ∧
      f.body.MirrorsBy (Value.StandsAt s) s.namespaces written.body :=
  f.parseLambda_text (fun _ hv => (hv.isRead s.namespaces).1)
    (fun _ hv => isRead_standsAt hs hv) standsAt_paren h

/-- `x => (((SByte)(-128)) == x ? -5L : 5L)` in the standard context. -/
theorem parseLambda_standsAt_negative : ∃ c, Context.standard .still = .ok c ∧
    let s : Surface := ⟨c.registry.host, c.namespaces, .none⟩
    let x : Param := ⟨"x", .integer .sbyte⟩
    let number (kind : IntegerKind) (n : Int) : Term :=
      .const (.integer kind (kind.wrap n)) (.integer kind)
    let f : Function := ⟨[x], .cond (.binary .equal (number .sbyte (-128)) (.param x) .boolean)
      (number .int64 (-5)) (number .int64 5)⟩
    f.text s.namespaces = "x => ((((SByte)(-128)) == x) ? -5L : 5L)" ∧
      (∀ kind, s.ReadsType (.integer kind)) ∧ f.term.CurriedBy Value.HasText s.namespaces ∧
      ∃ written, parseLambda (f.text s.namespaces) = .ok written ∧
        List.Forall₂ Param.Mirrors f.params written.params ∧
        f.body.MirrorsBy (Value.StandsAt s) s.namespaces written.body := by
  obtain ⟨c, hc⟩ := Context.exists_standard
  refine ⟨c, hc, ?_⟩
  intro s x number f
  have hfills := Context.fills_of_standard hc
  have hs (kind : IntegerKind) : s.ReadsType (.integer kind) :=
    hfills.readsType_of_makes (.primitive nofun)
  have hname : isName "x" = true := by decide +kernel
  have hlegible : f.term.CurriedBy Value.HasText s.namespaces := by
    simp [f, x, number, Function.term, Term.CurriedBy, Term.LegibleBy, Value.HasText, hname]
  have htext : f.text s.namespaces = "x => ((((SByte)(-128)) == x) ? -5L : 5L)" := by
    rw [show s.namespaces = .system from hfills.namespaces]
    decide +kernel
  exact ⟨htext, hs, hlegible, parseLambda_standsAt hs hlegible⟩

/-- The least words without a cast are not built as what they are. The member of a number with a
minus sign is not read as one: the sign applies to the member. -/
theorem not_standsAt :
    (∀ kind ∈ [IntegerKind.int32, .int64], ∀ s : Surface,
      let w := kind.wrap kind.least
      ∃ written, parseLambda
          ((⟨[], .const (.integer kind w) (.integer kind)⟩ : Function).text s.namespaces) =
            .ok written ∧
        s.Builds written.body kind.unsigned (kind.unsigned.wrap kind.least) ∧
        ¬ s.Builds written.body kind w) ∧
    ∀ member : Member, member.name = "Foo" →
      let f : Function := ⟨[], .member (.const (.int32 (-5)) .int32) member⟩
      ∃ written, parseLambda (f.text .system) = .ok written ∧
        ∀ L, ¬ f.body.MirrorsBy L .system written.body := by
  refine ⟨fun kind hkind s => ?_, fun member hname => ?_⟩
  · intro w
    have hfacts : kind.suffix?.isSome = true ∧ kind.IsLeastBare w ∧ kind.unsigned ≠ kind := by
      simp only [List.mem_cons, List.not_mem_nil, or_false] at hkind
      rcases hkind with rfl | rfl <;> decide
    obtain ⟨hsuffix, hleast, hne⟩ := hfacts
    have hlegible : (⟨[], .const (.integer kind w) (.integer kind)⟩ : Function).term.CurriedBy
        Value.HasText s.namespaces := ⟨nofun, trivial⟩
    obtain ⟨written, hread, -, hm⟩ := Function.parseLambda_text
      (fun _ hv => (Value.HasText.isRead s.namespaces hv).1)
      (fun _ hv => (Value.HasText.isRead s.namespaces hv).2) Value.IsReadAs.paren hlegible
    have hword : kind.MirrorsWord s.namespaces w written.body := hm
    rw [IntegerKind.MirrorsWord, if_pos hsuffix] at hword
    have hbuilt : s.BuildsWord written.body kind w := buildsWord_bare hsuffix hword
    rw [BuildsWord, if_pos hleast, hleast.2] at hbuilt
    exact ⟨written, hread, hbuilt, fun hown => hne (hbuilt.kind_eq hown)⟩
  · intro f
    have htext : f.text .system = "() => -5.Foo" := by
      simp only [f, Function.text, Function.term, Term.text, hname]
      decide +kernel
    have hread : (parseLambda "() => -5.Foo").toOption.any (·.body.bare.isNegation) = true := by
      decide +kernel
    rw [htext]
    cases hparse : parseLambda "() => -5.Foo" with
    | error e =>
      rw [hparse] at hread
      cases hread
    | ok written =>
      refine ⟨written, rfl, fun L hm => ?_⟩
      obtain ⟨object, name, span, hbare, -⟩ := hm
      rw [hparse, Except.toOption, Option.any_some, hbare] at hread
      cases hread

end Surface

end FatArrow
