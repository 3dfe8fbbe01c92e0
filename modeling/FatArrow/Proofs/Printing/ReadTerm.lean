import FatArrow.Proofs.Printing.ReadAs
import FatArrow.Proofs.Printing.Scanned
import FatArrow.Proofs.Types.Words

/-!
# Printed terms are read back

Where a legible term is printed, an expression is read that has its parts.
-/

namespace FatArrow

open Syntax Syntax.Reader

variable {ns : Namespaces} {c d : Cursor} {s : Sign} {is ss ts : List Sign} {fuel power : Nat}
  {P P' : Node → Prop}

/-! ## 1. Constants -/

namespace Term

/-- The kinds of the first signs of terms. -/
def starters : List TokenKind :=
  [.identifier, .nullWord, .trueWord, .falseWord, .intLiteral, .realLiteral, .stringLiteral,
    .charLiteral, .leftParen, .newWord, .minus]

theorem mem_starters_of_isLiteral {kind : TokenKind} (h : kind.isLiteral = true) :
    kind ∈ starters := by
  revert h
  cases kind <;> decide

end Term

namespace Value

/-- The literal of digits with a suffix. -/
theorem literalOf_digits {n : Nat} (h : n < UInt64.size) {text : String} {suffix : IntSuffix}
    (hs : (text.toList, suffix) ∈ printedSuffixes) {token : Token} (hk : token.kind = .intLiteral)
    (ht : token.lexeme = Nat.repr n ++ text) : literalOf token = .ok (.int n suffix) := by
  have hliteral : intLiteral (Nat.repr n ++ text) = .ok (.int n suffix) := by
    refine intLiteral_toDigits h hs ?_
    rw [String.toList_append, Nat.toList_repr]
  unfold literalOf
  rw [hk, ht]
  simp only [hliteral]

/-- An integer with a suffix is read, behind its minus sign if it has one. -/
theorem readsBy_number {n : Int} (h : n.natAbs < UInt64.size) {text : String} {suffix : IntSuffix}
    (hs : (text.toList, suffix) ∈ printedSuffixes) :
    ReadsBy (decide (n < 0)) (numberSigns .intLiteral (toString n ++ text))
      (Node.IsInteger n suffix) := by
  have hread (token : Token) (hk : token.kind = .intLiteral)
      (ht : token.lexeme = Nat.repr n.natAbs ++ text) : literalOf token = .ok (.int n.natAbs suffix) :=
    literalOf_digits h hs hk ht
  obtain ⟨hplain, hminus⟩ := ReadsAs.number rfl (startsWith_repr n.natAbs text) hread
  cases n with
  | ofNat n =>
    have hsign : ¬ Int.ofNat n < 0 := Int.not_lt.mpr (Int.natCast_nonneg n)
    rw [decide_eq_false hsign]
    refine hplain.mono ?_
    rintro _ ⟨span, rfl⟩
    exact ⟨span, rfl⟩
  | negSucc n =>
    rw [decide_eq_true (Int.negSucc_lt_zero n)]
    rw [toString_negSucc]
    refine hminus.mono ?_
    rintro _ ⟨inner, span, rfl, span', rfl⟩
    exact ⟨_, span, span', rfl, rfl⟩

theorem head?_of_digit {text : String} (h : startsWith Text.isDigit text.toList = true) :
    (text.toList.head? == some '-') = false := by
  generalize text.toList = ds at h ⊢
  cases ds with
  | nil => rfl
  | cons d ds =>
    have hd : Text.isDigit d = true := h
    exact beq_false_of_ne fun hminus => by
      cases hminus
      cases hd

theorem isSigned_integer {kind : IntegerKind} {w : BitVec kind.width} :
    isSigned (.integer kind w) = (kind.suffix?.isSome && decide (kind.denote w < 0)) := by
  have hdigits (n : Int) (text : String) :
      ((toString n ++ text).toList.head? == some '-') = decide (n < 0) := by
    cases n with
    | ofNat n => exact head?_of_digit (startsWith_repr n text)
    | negSucc n =>
      rw [decide_eq_true (Int.negSucc_lt_zero n), toString_negSucc, String.toList_append]
      rfl
  unfold isSigned
  cases kind with
  | int32 =>
    have := hdigits (IntegerKind.denote .int32 w) ""
    rw [String.append_empty] at this
    exact this
  | int64 => exact hdigits _ "L"
  | uint32 => exact hdigits _ "U"
  | uint64 => exact hdigits _ "UL"
  | _ => simp [literalText, IntegerKind.suffix?]

/-- An integer is read, behind its minus sign if it has one. -/
theorem readsBy_integer (kind : IntegerKind) (w : BitVec kind.width) :
    ReadsBy (isSigned (.integer kind w)) (signs (.integer kind w)) (kind.MirrorsWord ns w) := by
  rw [isSigned_integer]
  unfold IntegerKind.MirrorsWord
  cases hsuffix : kind.suffix? with
  | some suffix =>
    have hs : (suffix.toList, kind.intSuffix) ∈ printedSuffixes := by
      cases kind <;> cases hsuffix <;> decide
    simp only [signs, hsuffix]
    exact readsBy_number (kind.natAbs_denote_lt w) hs
  | none =>
    have hs : ("".toList, IntSuffix.none) ∈ printedSuffixes := List.mem_cons_self ..
    have hnumber := readsBy_number (kind.natAbs_denote_lt w) hs
    rw [String.append_empty] at hnumber
    have hlegible : (HostType.integer kind).Legible ns := rfl
    simp only [signs, hsuffix]
    refine (ReadsAs.cast hlegible (quiet_upright_number rfl _) hnumber.apart).mono ?_
    rintro _ ⟨written, inner, span, span', _, rfl, hm, hinteger⟩
    exact ⟨written, _, span', rfl, hm, hinteger.paren span⟩

/-- No minus sign is printed first of a legible constant. -/
theorem Legible.isSigned {v : Value} (h : v.Legible) : v.isSigned = false := by
  cases v with
  | bool b => cases b <;> rfl
  | string s | char c =>
    simp only [Value.isSigned, literalText, toList_quotedText]
    rfl
  | single x =>
    obtain ⟨m, q, hx⟩ := h
    exact head?_of_digit (spells_single hx).2
  | double x =>
    obtain ⟨m, q, hx⟩ := h
    exact head?_of_digit (spells_double hx).2
  | integer kind w =>
    have hsign : ¬ kind.denote w < 0 := Int.not_lt.mpr h
    rw [isSigned_integer, decide_eq_false hsign, Bool.and_false]
  | null => rfl
  | _ => exact h.elim

/-- The literal of a constant that is no integer. -/
theorem literal_of_legible {v : Value} (h : v.Legible) (hn : ∀ kind w, v ≠ .integer kind w) :
    ∃ kind l, v.signs = [(kind, v.literalText)] ∧ kind.isLiteral = true ∧ v.IsLiteral l ∧
      ∀ token : Token, token.kind = kind → token.lexeme = v.literalText →
        literalOf token = .ok l := by
  cases v with
  | null =>
    refine ⟨.nullWord, .null, rfl, rfl, trivial, fun token hk _ => ?_⟩
    unfold literalOf
    rw [hk]
  | bool b =>
    cases b
    · refine ⟨.falseWord, .bool false, rfl, rfl, rfl, fun token hk _ => ?_⟩
      unfold literalOf
      rw [hk]
    · refine ⟨.trueWord, .bool true, rfl, rfl, rfl, fun token hk _ => ?_⟩
      unfold literalOf
      rw [hk]
  | string s =>
    refine ⟨.stringLiteral, .string s, rfl, rfl, rfl, fun token hk hl => ?_⟩
    unfold literalOf
    rw [hk, hl]
    simp only [literalText, stringLiteral_quotedText]
  | char c =>
    refine ⟨.charLiteral, .char c, rfl, rfl, rfl, fun token hk hl => ?_⟩
    unfold literalOf
    rw [hk, hl]
    simp only [literalText, charLiteral_quotedText]
  | single x =>
    obtain ⟨m, q, hx⟩ := h
    refine ⟨.realLiteral, .real (Decimal.shortest .single m q).nearest .float, signs_single hx, rfl,
      ⟨m, q, hx, rfl⟩, fun token hk hl => ?_⟩
    unfold literalOf
    rw [hk, hl]
    simp only [Decimal.literalText_single hx, Decimal.realLiteral_float32Text hx]
  | double x =>
    obtain ⟨m, q, hx⟩ := h
    refine ⟨.realLiteral, .real x .none, signs_double hx, rfl, rfl, fun token hk hl => ?_⟩
    unfold literalOf
    rw [hk, hl]
    simp only [Decimal.literalText_double hx, Decimal.realLiteral_floatText hx]
  | integer kind w => exact absurd rfl (hn kind w)
  | _ => exact h.elim

/-- A constant that is read where it is printed, as an expression that has a property. -/
structure IsRead (P : Node → Prop) (v : Value) : Prop where
  starts : ∃ s ss, v.signs = s :: ss ∧ s.1 ∈ Term.starters
  reads : ReadsBy v.isSigned v.signs P

theorem isRead_integer (kind : IntegerKind) (w : BitVec kind.width) :
    IsRead (kind.MirrorsWord ns w) (.integer kind w) := by
  refine ⟨?_, readsBy_integer kind w⟩
  have hnumber (text : String) :
      ∃ s ss, numberSigns .intLiteral text = s :: ss ∧ s.1 ∈ Term.starters := by
    unfold numberSigns
    split
    · exact ⟨Sign.minus, _, rfl, by decide⟩
    · exact ⟨_, _, rfl, Term.mem_starters_of_isLiteral rfl⟩
  cases hsuffix : kind.suffix? with
  | some suffix =>
    simp only [signs, hsuffix]
    exact hnumber _
  | none =>
    simp only [signs, hsuffix]
    exact ⟨Sign.leftParen, _, rfl, by decide⟩

/-- The parts of an integer without a minus sign are those of a constant. -/
theorem mirrors_of_word {kind : IntegerKind} {w : BitVec kind.width} {node : Node}
    (hw : 0 ≤ kind.denote w) (h : kind.MirrorsWord ns w node) :
    Mirrors ns (.integer kind w) node := by
  obtain ⟨n, hn⟩ := Int.eq_ofNat_of_zero_le hw
  unfold IntegerKind.MirrorsWord at h
  unfold Mirrors
  rw [hn] at h
  cases hsuffix : kind.suffix? with
  | some suffix =>
    rw [hsuffix] at h
    rw [narrow?, hsuffix]
    obtain ⟨span, hbare⟩ := h
    exact ⟨_, span, hbare, hn, rfl⟩
  | none =>
    rw [hsuffix] at h
    rw [narrow?, hsuffix]
    obtain ⟨written, inner, span, hbare, hm, span', hinner⟩ := h
    have hnone : kind.intSuffix = .none := by cases kind <;> cases hsuffix <;> rfl
    exact ⟨written, inner, _, span, span', hbare, hm, hinner, hn, hnone.symm⟩

/-- A legible constant is read. -/
theorem Legible.isRead {v : Value} (h : v.Legible) : v.IsRead (v.Mirrors ns) := by
  by_cases hv : ∃ kind w, v = .integer kind w
  · obtain ⟨kind, w, rfl⟩ := hv
    have hread : IsRead (kind.MirrorsWord ns w) (.integer kind w) := isRead_integer kind w
    exact ⟨hread.starts, hread.reads.mono fun _ => mirrors_of_word h⟩
  · have hne : ∀ kind w, v ≠ .integer kind w := fun kind w hv' => hv ⟨kind, w, hv'⟩
    obtain ⟨kind, l, hsigns, hkind, hliteral, hread⟩ := literal_of_legible h hne
    refine ⟨⟨_, _, hsigns, Term.mem_starters_of_isLiteral hkind⟩, .of_readsAs ?_⟩
    rw [hsigns]
    refine (ReadsAs.literal hkind hread).mono ?_
    rintro _ ⟨span, rfl⟩
    have hnarrow : v.narrow? = none := by
      cases v with
      | integer kind w => exact absurd rfl (hne kind w)
      | _ => rfl
    unfold Mirrors
    rw [hnarrow]
    exact ⟨l, span, rfl, hliteral⟩

end Value

/-! ## 2. Arguments -/

/-- A legible type has a name as its first sign. -/
theorem HostType.exists_signs {t : HostType} (h : t.Legible ns) :
    ∃ name ss, t.signs ns = Sign.name name :: ss := by
  induction t with
  | mk shape args nullable ih =>
    cases nullable with
    | true => exact ⟨_, _, rfl⟩
    | false =>
      cases shape with
      | primitive p => exact ⟨_, _, rfl⟩
      | param i => exact h.elim
      | array =>
        obtain ⟨hlength, hargs⟩ := h
        obtain ⟨a, rfl⟩ := List.length_eq_one_iff.mp hlength
        obtain ⟨name, ss, hsigns⟩ := ih a (List.mem_singleton_self a) hargs.1
        exact ⟨name, _, by simp [signs, signsList, hsigns]; rfl⟩
      | named q =>
        obtain ⟨first, rest, hpieces⟩ := List.exists_cons_of_ne_nil (ns.pieces_ne_nil q)
        simp only [signs, hpieces, Bool.false_eq_true, ↓reduceIte]
        cases rest <;> exact ⟨first, _, rfl⟩

namespace Term

variable {C : Value → Prop} {L : Value → Node → Prop}

theorem exists_signs_name (name : String) (ss : List Sign) :
    ∃ t ts, Sign.name name :: ss = t :: ts ∧ t.1 ∈ starters :=
  ⟨_, ss, rfl, List.mem_cons_self ..⟩

/-- Whatever is printed behind a type begins with a name. -/
theorem exists_signs_type {type : HostType} (h : type.Legible ns) {ss : List Sign} :
    ∃ t ts, type.signs ns ++ ss = t :: ts ∧ t.1 ∈ starters := by
  obtain ⟨name, rest, hsigns⟩ := HostType.exists_signs h
  rw [hsigns]
  exact exists_signs_name name _

theorem exists_signs_call {receiver : List Sign} {m : Method} {lists : List (List Sign)}
    (h : ∃ s ss, receiver = s :: ss ∧ s.1 ∈ starters) :
    ∃ s ss, callSigns ns receiver m lists = s :: ss ∧ s.1 ∈ starters := by
  obtain ⟨s, ss, rfl, hs⟩ := h
  exact ⟨s, _, rfl, hs⟩

/-- A legible term has a first sign. -/
theorem exists_signs (hC : ∀ v, C v → v.IsRead (L v)) {t : Term} (h : t.LegibleBy C ns) :
    ∃ s ss, t.signs ns = s :: ss ∧ s.1 ∈ starters := by
  induction t with
  | lambda => exact h.elim
  | staticMember m => exact exists_signs_type h.1.1
  | param p => exact exists_signs_name p.name []
  | const value type => exact (hC value h).starts
  | member target m ih =>
    simp only [LegibleBy] at h
    obtain ⟨s, ss, hsigns, hs⟩ := ih h.1
    rw [signs, hsigns]
    exact ⟨s, _, rfl, hs⟩
  | call target m args ih =>
    simp only [LegibleBy] at h
    exact exists_signs_call (ih h.1)
  | staticCall m args ihs =>
    simp only [LegibleBy, legibleListBy_iff] at h
    rw [signs, signsList_eq_map]
    split
    · next hfirst =>
      obtain ⟨-, first, rest, rfl⟩ := exists_first hfirst
      have hmem : first ∈ first :: rest := List.mem_cons_self ..
      exact exists_signs_call (ihs first hmem (h.2.2.2 first hmem))
    · next hfirst =>
      rw [if_neg hfirst] at h
      unfold staticSigns
      cases hd : m.declaring with
      | some type => exact exists_signs_type (h.1 type hd).1
      | none => exact exists_signs_name m.name _
  | binary op left right type ih =>
    simp only [LegibleBy] at h
    rw [signs]
    split
    · obtain ⟨s, ss, hsigns, hs⟩ := ih h.1
      rw [hsigns]
      exact ⟨s, _, rfl, hs⟩
    · exact ⟨Sign.leftParen, _, rfl, by decide⟩
  | unary | cond | cast => exact ⟨Sign.leftParen, _, rfl, by decide⟩
  | new | array => exact ⟨Sign.new, _, rfl, by decide⟩
  | index target m args ih =>
    simp only [LegibleBy] at h
    obtain ⟨s, ss, hsigns, hs⟩ := ih h.2.1
    rw [signs, hsigns]
    exact ⟨s, _, rfl, hs⟩

/-- A term that has a first sign and is read where it is printed, but not as an object. -/
structure Reads (L : Value → Node → Prop) (ns : Namespaces) (t : Term) : Prop where
  starts : ∃ s ss, t.signs ns = s :: ss ∧ s.1 ∈ starters
  reads : ReadsApart (t.signs ns) (t.MirrorsBy L ns)

variable {args : List Term} {close : TokenKind}

/-- Terms with their commas are read up to the sign that closes them. -/
theorem items_reads (trailing : Bool) (h : ∀ t ∈ args, t.Reads L ns) (hs : s.1 = close)
    (hclose : close ∈ [TokenKind.rightParen, .rightBracket, .rightBrace])
    (hquiet : quiet ss = true) (hc : c.Sees (commas (args.map (signs ns)) ++ s :: ss))
    (hf : 2 * ((commas (args.map (signs ns))).length + ss.length) + 6 ≤ fuel) :
    ∃ nodes d, items (node fuel 0) close trailing fuel c = .ok nodes d ∧ d.Sees (s :: ss) ∧
      List.Forall₂ (MirrorsBy L ns) args nodes := by
  have hfacts : ∀ kind ∈ [TokenKind.rightParen, .rightBracket, .rightBrace],
      kind ≠ .comma ∧ kind ≠ .greater ∧ kind ∉ starters ∧ kind ∈ closers := by decide
  obtain ⟨hcomma, hangle, hstart, hcloser⟩ := hfacts close hclose
  -- what is left fits the depth that is left, and has no arrow
  let Q (ts : List Sign) : Prop := 2 * ts.length + 4 ≤ fuel ∧ quiet ts = true
  have hQ (us ts : List Sign) (h : Q (us ++ ts)) : Q ts := by
    obtain ⟨hlen, hquiet⟩ := h
    rw [quiet_append, Bool.and_eq_true] at hquiet
    rw [List.length_append] at hlen
    exact ⟨by omega, hquiet.2⟩
  have hitem (t : Term) (ht : t ∈ args) :
      ReadsItem (MirrorsBy L ns) (node fuel 0) close Q t (signs ns t) := by
    intro d s ts hs hd hl
    have hmem : s.1 ∈ closers := by
      rcases hs with hs | hs
      · rw [hs]
        decide
      · rwa [hs]
    obtain ⟨hlen, hquiet⟩ := hl
    rw [quiet_append, quiet_cons, Bool.and_eq_true, Bool.and_eq_true] at hquiet
    rw [List.length_append, List.length_cons] at hlen
    have hlen' : 2 * ((signs ns t).length + ts.length) + 6 ≤ fuel := by omega
    exact (h t ht).reads.node_eq (Nat.zero_le _) hmem hquiet.2.2 hd hlen'
  have hends (t : Term) (ht : t ∈ args) (d : Cursor) (ts : List Sign)
      (hd : d.Sees (signs ns t ++ ts)) : d.kind ≠ close := by
    obtain ⟨s, ss, hsigns, hs⟩ := (h t ht).starts
    rw [hsigns] at hd
    have hgreater : s.1 ≠ .greater := by
      intro hk
      rw [hk] at hs
      revert hs
      decide
    intro hk
    rw [hd.kind hgreater] at hk
    exact hstart (hk ▸ hs)
  have hq : Q (commas (args.map (signs ns)) ++ s :: ss) := by
    constructor
    · rw [List.length_append, List.length_cons]
      omega
    · have hargs := quiet_commas (List.forall_mem_map.mpr fun t (_ : t ∈ args) =>
        (t.quiet_upright ns).1)
      rw [quiet_append, hargs, (Follows.of_closer (hs ▸ hcloser) hquiet).quiet]
      rfl
  have hlen : (commas (args.map (signs ns))).length < fuel := by omega
  exact Reader.items_reads trailing hcomma hangle hs hitem hQ hends hc hq hlen

/-- Arguments between an opening and a closing sign. -/
theorem arguments_reads {opening : Sign} (h : ∀ t ∈ args, t.Reads L ns) (hs : s.1 = close)
    (hclose : close ∈ [TokenKind.rightParen, .rightBracket])
    (hopen : opening.1 ∈ [TokenKind.leftParen, .leftBracket])
    (hquiet : quiet ss = true)
    (hc : c.Sees (opening :: (commas (args.map (signs ns)) ++ s :: ss)))
    (hf : 2 * ((commas (args.map (signs ns))).length + ss.length) + 7 ≤ fuel) :
    ∃ nodes d, arguments fuel opening.1 close c = .ok nodes d ∧ d.Sees ss ∧
      List.Forall₂ (MirrorsBy L ns) args nodes := by
  have hopens : ∀ kind ∈ [TokenKind.leftParen, .leftBracket], kind ≠ .greater ∧ kind ≠ .eof := by
    decide
  have hcloses : ∀ kind ∈ [TokenKind.rightParen, .rightBracket], kind ≠ .greater ∧ kind ≠ .eof ∧
      kind ∈ [TokenKind.rightParen, .rightBracket, .rightBrace] := by decide
  obtain ⟨hgreater, hend⟩ := hopens opening.1 hopen
  obtain ⟨hgreater', hend', hmem⟩ := hcloses close hclose
  cases fuel with
  | zero => omega
  | succ fuel =>
    have hskip := hc.skip hgreater hend
    have hlen : 2 * ((commas (args.map (signs ns))).length + ss.length) + 6 ≤ fuel := by omega
    obtain ⟨nodes, d, hitems, hd, hall⟩ := items_reads false h hs hmem hquiet hskip hlen
    rw [← hs] at hgreater' hend'
    have hkind : d.kind = close := by rw [hd.kind hgreater', hs]
    refine ⟨nodes, d.skip, ?_, hd.skip hgreater' hend', hall⟩
    rw [arguments, bind_of_ok (expect_of_eq (hc.kind hgreater)), bind_of_ok hitems,
      bind_of_ok (expect_of_eq hkind)]
    rfl

theorem quiet_args (args : List Term) : quiet (commas (args.map (signs ns))) = true :=
  quiet_commas (List.forall_mem_map.mpr fun t _ => (t.quiet_upright ns).1)

/-- A callee with arguments in parentheses. -/
theorem readsAs_args {callee : List Sign} (h : ReadsUpTo (Before .leftParen) callee P)
    (ha : ∀ t ∈ args, t.Reads L ns) :
    ReadsAs (callee ++ argsSigns (args.map (signs ns))) fun n => ∃ called nodes span,
      n = .call called nodes span ∧ P called ∧ List.Forall₂ (MirrorsBy L ns) args nodes := by
  intro c s ss fuel power hs hpower hc hf
  simp only [argsSigns, List.append_assoc, List.cons_append, List.nil_append,
    List.length_append, List.length_cons, List.length_nil] at hc hf
  have hopen : Before .leftParen Sign.leftParen
      (commas (args.map (signs ns)) ++ Sign.rightParen :: s :: ss) := by
    refine ⟨rfl, ?_⟩
    rw [quiet_cons, quiet_append, quiet_args, quiet_cons, hs.quiet]
    rfl
  have hlen : 2 * (callee.length +
      (commas (args.map (signs ns)) ++ Sign.rightParen :: s :: ss).length) + 6 ≤ fuel := by
    simp only [List.length_append, List.length_cons]
    omega
  obtain ⟨n, d, g, hn, hd, hprop, hg⟩ := h c _ _ fuel power hopen hpower hc hlen
  simp only [List.length_append, List.length_cons] at hg
  cases g with
  | zero => omega
  | succ g =>
    have hlen : 2 * ((commas (args.map (signs ns))).length + (s :: ss).length) + 7 ≤ g := by
      rw [List.length_cons]
      omega
    obtain ⟨nodes, e, hnodes, he, hall⟩ :=
      arguments_reads ha (rfl : Sign.rightParen.1 = .rightParen) (by decide) (by decide) hs.quiet
        hd hlen
    obtain ⟨span, hcall⟩ := continued_call n (hd.kind (by decide)) hpower hnodes
    exact ⟨_, e, g, by rw [hn, hcall], he, ⟨n, nodes, span, rfl, hprop, hall⟩, by omega⟩

/-- A call of a method is read when its receiver and its arguments are. -/
theorem readsAs_call {receiver : List Sign} (h : ReadsUpTo (Before .dot) receiver P) (m : Method)
    (hm : ∀ t ∈ m.typeArgs, t.Legible ns) (ha : ∀ t ∈ args, t.Reads L ns) :
    ReadsAs (callSigns ns receiver m (args.map (signs ns))) fun n =>
      ∃ object callee nodes span, n = .call callee nodes span ∧ m.IsMemberOf ns object callee ∧
        P object ∧ List.Forall₂ (MirrorsBy L ns) args nodes := by
  have hends : EndsTypes ns (Before .leftParen) m.typeArgs := Before.endsTypes (.inr rfl) hm
  have hcall := readsAs_args (ReadsUpTo.member hends h m.name) ha
  rw [List.append_assoc, List.cons_append, List.cons_append] at hcall
  refine hcall.mono ?_
  rintro _ ⟨_, nodes, span, rfl, ⟨object, id, written, span', rfl, hid, htypes, hprop⟩, hall⟩
  exact ⟨object, _, nodes, span, rfl, ⟨id, written, span', rfl, hid, htypes⟩, hprop, hall⟩

/-- A call of a static method behind its type, if it has one, is read when its arguments are. -/
theorem readsAs_staticCall {m : Method} (hd : ∀ type ∈ m.declaring, type.LegibleOwner ns)
    (hm : ∀ t ∈ m.typeArgs, t.Legible ns) (ha : ∀ t ∈ args, t.Reads L ns) :
    ReadsAs (staticSigns ns m (args.map (signs ns))) fun n => ∃ callee nodes span,
      n = .call callee nodes span ∧ m.IsStaticName ns callee ∧
        List.Forall₂ (MirrorsBy L ns) args nodes := by
  unfold staticSigns Method.IsStaticName
  cases htype : m.declaring with
  | some type =>
    refine (readsAs_call (HostType.readsUpTo (hd type htype)) m hm ha).mono ?_
    rintro _ ⟨object, callee, nodes, span, rfl, hcallee, hname, hall⟩
    exact ⟨callee, nodes, span, rfl, ⟨object, hcallee, hname⟩, hall⟩
  | none =>
    have hends : EndsTypes ns (Before .leftParen) m.typeArgs := Before.endsTypes (.inr rfl) hm
    have hcall := readsAs_args (ReadsUpTo.name hends m.name) ha
    rw [List.cons_append] at hcall
    refine hcall.mono ?_
    rintro _ ⟨_, nodes, span, rfl, ⟨id, written, span', rfl, hid, htypes⟩, hall⟩
    exact ⟨_, nodes, span, rfl, ⟨id, written, span', rfl, hid, htypes⟩, hall⟩

/-- A member behind an object. -/
theorem readsAs_member {object : List Sign} (h : ReadsUpTo (Before .dot) object P) (name : String) :
    ReadsAs (object ++ [Sign.dot, Sign.name name]) fun n => ∃ inner id span,
      n = .member inner id [] span ∧ id.text = name ∧ P inner := by
  have hends : EndsTypes [] Follows [] := Follows.endsTypes
  refine (ReadsUpTo.member hends h name).mono ?_
  rintro _ ⟨inner, id, written, span, rfl, hid, hall, hprop⟩
  rw [List.forall₂_nil_left_iff.mp hall]
  exact ⟨inner, id, span, rfl, hid, hprop⟩

/-- Arguments in brackets are read, at least one. -/
theorem readsAs_index {object : List Sign} (h : ReadsAs object P) (ha : ∀ t ∈ args, t.Reads L ns)
    (hne : args ≠ []) :
    ReadsAs (object ++ Sign.leftBracket :: (commas (args.map (signs ns)) ++ [Sign.rightBracket]))
      fun n => ∃ object nodes span, n = .index object nodes span ∧ P object ∧
        List.Forall₂ (MirrorsBy L ns) args nodes := by
  intro c s ss fuel power hs hpower hc hf
  simp only [List.append_assoc, List.cons_append, List.nil_append, List.length_append,
    List.length_cons, List.length_nil] at hc hf
  have hbracket : Follows Sign.leftBracket (commas (args.map (signs ns)) ++
      Sign.rightBracket :: s :: ss) := by
    refine ⟨by decide, rfl, (fun hk => by cases hk), ?_⟩
    rw [quiet_cons, quiet_append, quiet_args, quiet_cons, hs.quiet]
    rfl
  have hlen : 2 * (object.length + (commas (args.map (signs ns)) ++
      Sign.rightBracket :: s :: ss).length) + 6 ≤ fuel := by
    simp only [List.length_append, List.length_cons]
    omega
  obtain ⟨n, d, g, hn, hd, hprop, hg⟩ := h c _ _ fuel power hbracket hpower hc hlen
  simp only [List.length_append, List.length_cons] at hg
  cases g with
  | zero => omega
  | succ g =>
    have hlen : 2 * ((commas (args.map (signs ns))).length + (s :: ss).length) + 7 ≤ g := by
      rw [List.length_cons]
      omega
    obtain ⟨nodes, e, hnodes, he, hall⟩ :=
      arguments_reads ha (rfl : Sign.rightBracket.1 = .rightBracket) (by decide) (by decide)
        hs.quiet hd hlen
    cases hall with
    | nil => exact absurd rfl hne
    | cons hfirst hrest =>
      obtain ⟨span, hindex⟩ := continued_index n (hd.kind (by decide)) hpower hnodes
      exact ⟨_, e, g, by rw [hn, hindex], he, ⟨n, _, span, rfl, hprop, .cons hfirst hrest⟩,
        by omega⟩

end Term

namespace Term

variable {args : List Term}

/-- The creation of an object. -/
theorem readsAs_new {t : HostType} (h : t.Legible ns) (ha : ∀ t ∈ args, t.Reads L ns) :
    ReadsAs (Sign.new :: (t.signs ns ++ argsSigns (args.map (signs ns)))) fun n =>
      ∃ written nodes span, n = .new written nodes span ∧ t.Mirrors ns written ∧
        List.Forall₂ (MirrorsBy L ns) args nodes := by
  refine ReadsUpTo.of_operand (fun c s ss fuel hs hc hf => ?_) (Nat.succ_pos _)
  simp only [argsSigns, List.append_assoc, List.cons_append, List.nil_append,
    List.length_append, List.length_cons, List.length_nil] at hc hf
  cases fuel with
  | zero => omega
  | succ fuel =>
    cases fuel with
    | zero => omega
    | succ fuel =>
      have hskip := hc.skip (by decide) (by decide)
      have hlen : 2 * ((t.signs ns).length +
          (commas (args.map (signs ns)) ++ Sign.rightParen :: s :: ss).length) + 5 ≤ fuel := by
        simp only [List.length_append, List.length_cons]
        omega
      obtain ⟨written, d, htype, hd, hm⟩ := (t.reads h).type_eq (by decide) hskip hlen
      have hlen : 2 * ((commas (args.map (signs ns))).length + (s :: ss).length) + 7 ≤ fuel := by
        rw [List.length_cons]
        omega
      obtain ⟨nodes, e, hnodes, he, hall⟩ :=
        arguments_reads ha (rfl : Sign.rightParen.1 = .rightParen) (by decide) (by decide) hs.quiet
          hd hlen
      have hbracket : c.skip.kind ≠ .leftBracket := by
        obtain ⟨name, rest, hsigns⟩ := HostType.exists_signs h
        rw [hsigns] at hskip
        rw [hskip.kind (fun hk => by cases hk)]
        exact fun hk => by cases hk
      obtain ⟨span, hnew⟩ := operand_new (hc.kind (by decide)) hbracket htype (hd.kind (by decide))
        hnodes
      exact ⟨_, e, hnew, he, written, nodes, span, rfl, hm, hall⟩

/-- The creation of an array. -/
theorem readsAs_array {item : HostType} (h : item.Legible ns) (ha : ∀ t ∈ args, t.Reads L ns) :
    ReadsAs (Sign.new :: ((HostType.arrayOf item).signs ns ++ Sign.leftBrace ::
        (commas (args.map (signs ns)) ++ [Sign.rightBrace]))) fun n =>
      ∃ written nodes span, n = .newArray (some written) nodes span ∧ item.Mirrors ns written ∧
        List.Forall₂ (MirrorsBy L ns) args nodes := by
  have harray : (HostType.arrayOf item).Legible ns := ⟨rfl, h, trivial⟩
  refine ReadsUpTo.of_operand (fun c s ss fuel hs hc hf => ?_) (Nat.succ_pos _)
  simp only [List.append_assoc, List.cons_append, List.nil_append, List.length_append,
    List.length_cons, List.length_nil] at hc hf
  cases fuel with
  | zero => omega
  | succ fuel =>
    cases fuel with
    | zero => omega
    | succ fuel =>
      have hskip := hc.skip (by decide) (by decide)
      have hlen : 2 * (((HostType.arrayOf item).signs ns).length +
          (commas (args.map (signs ns)) ++ Sign.rightBrace :: s :: ss).length) + 5 ≤ fuel := by
        simp only [List.length_append, List.length_cons]
        omega
      obtain ⟨written, d, htype, hd, hm⟩ := (HostType.reads _ harray).type_eq (by decide) hskip hlen
      obtain ⟨element, span, rfl, hitem⟩ : ∃ element span, written = .array element span ∧
          item.Mirrors ns element := by
        obtain ⟨element, span, hwritten, first, rest, hlist, hm, -⟩ := hm
        exact ⟨element, span, hwritten, (List.cons.inj hlist).1 ▸ hm⟩
      have hbracket : c.skip.kind ≠ .leftBracket := by
        obtain ⟨name, rest, hsigns⟩ := HostType.exists_signs harray
        rw [hsigns] at hskip
        rw [hskip.kind (fun hk => by cases hk)]
        exact fun hk => by cases hk
      have hopen : d.kind = .leftBrace := hd.kind (by decide)
      cases fuel with
      | zero => omega
      | succ fuel =>
        have hnext := hd.skip (by decide) (by decide)
        have hlen : 2 * ((commas (args.map (signs ns))).length + (s :: ss).length) + 6 ≤ fuel := by
          rw [List.length_cons]
          omega
        have hbrace : Sign.rightBrace.1 = TokenKind.rightBrace := rfl
        obtain ⟨nodes, e, hnodes, he, hall⟩ :=
          items_reads true ha hbrace (by decide) hs.quiet hnext hlen
        have hinit : initializer (fuel + 1) d = .ok nodes e.skip := by
          have hclose : e.kind = .rightBrace := he.kind (by decide)
          rw [initializer, bind_of_ok (expect_of_eq hopen), bind_of_ok hnodes,
            bind_of_ok (expect_of_eq hclose)]
          rfl
        obtain ⟨span', hnew⟩ := operand_newArray (hc.kind (by decide)) hbracket htype
          (by rw [hopen]; decide) hinit
        exact ⟨_, e.skip, hnew, he.skip (by decide) (by decide), element, nodes, span', rfl, hitem,
          hall⟩

/-! ## 3. Terms -/

/-- A legible term is legible with whatever its constants are. -/
theorem Legible.legibleBy {t : Term} (h : t.Legible ns) : t.LegibleBy Value.Legible ns := by
  have hobject {t : Term} (h : t.Legible ns) : t.isSigned = false := by
    cases t with
    | const value type => exact Value.Legible.isSigned h
    | _ => rfl
  induction t with
  | lambda | staticMember | param | const => exact h
  | member target m ih =>
    simp only [Legible, LegibleBy] at h ⊢
    exact ⟨ih h.1, hobject h.1, h.2⟩
  | call target m args ih ihs =>
    simp only [Legible, LegibleBy, legibleList_iff, legibleListBy_iff] at h ⊢
    exact ⟨ih h.1, hobject h.1, h.2.1, h.2.2.1, fun a ha => ihs a ha (h.2.2.2 a ha)⟩
  | staticCall m args ihs =>
    simp only [Legible, LegibleBy, legibleList_iff, legibleListBy_iff] at h ⊢
    refine ⟨?_, h.2.1, h.2.2.1, fun a ha => ihs a ha (h.2.2.2 a ha)⟩
    split
    · exact fun first hfirst => hobject (h.2.2.2 first (List.mem_of_mem_head? hfirst))
    next hfirst => exact h.1 (Bool.eq_false_iff.mpr hfirst)
  | binary op left right type ih ih' =>
    simp only [Legible, LegibleBy] at h ⊢
    exact ⟨ih h.1, ih' h.2, fun _ => hobject h.1⟩
  | unary op operand type ih =>
    simp only [Legible, LegibleBy] at h ⊢
    exact ⟨h.1, h.2.1, ih h.2.2⟩
  | cond test ifTrue ifFalse ih ih' ih'' =>
    simp only [Legible, LegibleBy] at h ⊢
    exact ⟨ih h.1, ih' h.2.1, ih'' h.2.2⟩
  | new c args ihs | array element args type ihs =>
    simp only [Legible, LegibleBy, legibleList_iff, legibleListBy_iff] at h ⊢
    exact ⟨h.1, fun a ha => ihs a ha (h.2 a ha)⟩
  | cast operand type ih =>
    simp only [Legible, LegibleBy] at h ⊢
    exact ⟨h.1, ih h.2⟩
  | index target m args ih ihs =>
    simp only [Legible, LegibleBy, legibleList_iff, legibleListBy_iff] at h ⊢
    exact ⟨h.1, ih h.2.1, hobject h.2.1, fun a ha => ihs a ha (h.2.2 a ha)⟩

theorem LegibleBy.curriedBy {t : Term} (h : t.LegibleBy C ns) : t.CurriedBy C ns := by
  cases t with
  | lambda => exact h.elim
  | _ => exact h

theorem Reads.starts_ne_close {t : Term} (h : t.Reads L ns) :
    ∃ s ss, t.signs ns = s :: ss ∧ s ≠ Sign.close := by
  obtain ⟨s, ss, hsigns, hs⟩ := h.starts
  refine ⟨s, ss, hsigns, ?_⟩
  rintro rfl
  revert hs
  decide

/-- An expression in parentheses has the parts that it has without them. -/
theorem MirrorsBy.paren (hL : ∀ v n span, L v n → L v (.paren n span)) {t : Term} {node : Node}
    (h : t.MirrorsBy L ns node) (span : Span) : t.MirrorsBy L ns (.paren node span) := by
  cases t with
  | const value type => exact hL value node span h
  | _ => exact h

/-- A term that is printed in parentheses is read when what is inside them is. -/
theorem readsAs_paren (hL : ∀ v n span, L v n → L v (.paren n span)) {t : Term} (is : List Sign)
    (ht : t.signs ns = Sign.leftParen :: (is ++ [Sign.rightParen])) (hg : Guarded is)
    (h : ReadsInside 0 is (t.MirrorsBy L ns)) : ReadsAs (t.signs ns) (t.MirrorsBy L ns) := by
  have hquiet := (t.quiet_upright ns).1
  rw [ht, quiet_cons, quiet_append, Bool.and_eq_true, Bool.and_eq_true] at hquiet
  rw [ht]
  refine (ReadsAs.paren hg hquiet.2.1 h).mono ?_
  rintro _ ⟨inner, span, rfl, hm⟩
  exact hm.paren hL span

/-- A legible term is read where it is printed, if its constants are: as an object, too, unless a
minus sign is printed first. -/
theorem readsBy (hC : ∀ v, C v → v.IsRead (L v)) (hL : ∀ v n span, L v n → L v (.paren n span))
    {t : Term} (h : t.LegibleBy C ns) : ReadsBy t.isSigned (t.signs ns) (t.MirrorsBy L ns) := by
  have hpower : UnaryOperator.power ≤ postfixPower := by decide
  have hlist {args : List Term}
      (ihs : ∀ a ∈ args, a.LegibleBy C ns → ReadsBy a.isSigned (a.signs ns) (a.MirrorsBy L ns))
      (h : ∀ a ∈ args, a.LegibleBy C ns) (a : Term) (ha : a ∈ args) : a.Reads L ns :=
    ⟨exists_signs hC (h a ha), (ihs a ha (h a ha)).apart⟩
  induction t with
  | lambda => exact h.elim
  | param p =>
    have hends : EndsTypes ns Follows [] := Follows.endsTypes
    refine (ReadsUpTo.name hends p.name).mono ?_
    rintro _ ⟨id, written, span, rfl, hid, hall⟩
    rw [List.forall₂_nil_left_iff.mp hall]
    exact ⟨id, span, rfl, hid⟩
  | const value type => exact (hC value h).reads
  | member target m ih =>
    simp only [LegibleBy] at h
    refine (readsAs_member ((ih h.1).object h.2.1).before m.name).mono ?_
    rintro _ ⟨object, id, span, rfl, hid, hm⟩
    exact ⟨object, id, span, rfl, hid, hm⟩
  | staticMember m =>
    refine (readsAs_member (HostType.readsUpTo h.1) m.name).mono ?_
    rintro _ ⟨object, id, span, rfl, hid, hm⟩
    exact ⟨object, id, span, rfl, hid, hm⟩
  | call target m args ih ihs =>
    simp only [LegibleBy, legibleListBy_iff] at h
    obtain ⟨htarget, hobject, -, htypes, hargs⟩ := h
    rw [signs, signsList_eq_map]
    refine (readsAs_call ((ih htarget).object hobject).before m htypes (hlist ihs hargs)).mono ?_
    rintro _ ⟨object, callee, nodes, span, rfl, hcallee, hm, hms⟩
    exact ⟨object, callee, nodes, span, rfl, hcallee, hm, mirrorsListBy_iff.mpr hms⟩
  | staticCall m args ihs =>
    simp only [LegibleBy, legibleListBy_iff] at h
    obtain ⟨howner, -, htypes, hargs⟩ := h
    rw [signs, signsList_eq_map]
    cases hfirst : onFirst m args with
    | true =>
      rw [hfirst, if_pos rfl] at howner
      obtain ⟨-, first, rest, rfl⟩ := exists_first hfirst
      have hreceiver := ihs first (List.mem_cons_self ..) (hargs first (List.mem_cons_self ..))
      have hrest := (List.forall_mem_cons.mp (hlist ihs hargs)).2
      refine (readsAs_call (hreceiver.object (howner first rfl)).before m htypes hrest).mono ?_
      rintro _ ⟨object, callee, nodes, span, rfl, hcallee, hm, hms⟩
      refine ⟨callee, nodes, span, rfl, ?_⟩
      rw [if_pos hfirst]
      exact ⟨object, hcallee, mirrorsListBy_iff.mpr (.cons hm hms)⟩
    | false =>
      rw [hfirst, if_neg Bool.false_ne_true] at howner
      refine (readsAs_staticCall howner htypes (hlist ihs hargs)).mono ?_
      rintro _ ⟨callee, nodes, span, rfl, hcallee, hms⟩
      refine ⟨callee, nodes, span, rfl, ?_⟩
      rw [if_neg (Bool.eq_false_iff.mp hfirst)]
      exact ⟨hcallee, mirrorsListBy_iff.mpr hms⟩
  | binary op left right type ih ih' =>
    simp only [LegibleBy] at h
    obtain ⟨hleft, hright, hobject⟩ := h
    have hreads : right.Reads L ns := ⟨exists_signs hC hright, (ih' hright).apart⟩
    by_cases hop : op = .arrayIndex
    · have hargs : ∀ t ∈ [right], t.Reads L ns := List.forall_mem_singleton.mpr hreads
      rw [signs, if_pos hop]
      refine (readsAs_index ((ih hleft).object (hobject hop)) hargs (List.cons_ne_nil _ _)).mono ?_
      rintro _ ⟨object, nodes, span, rfl, hm, hms⟩
      cases hms with
      | cons hindex hrest =>
        cases hrest
        unfold MirrorsBy
        rw [if_pos hop]
        exact ⟨object, _, span, rfl, hm, hindex⟩
    · obtain ⟨hquiet, hup⟩ := right.quiet_upright ns
      have hinside := ReadsInside.binary hop (ih hleft).apart hreads.reads hup.angles hquiet
        hreads.starts_ne_close
      have hsign : op.sign.1 ≠ .rightParen := by cases op <;> decide
      refine readsAs_paren hL (left.signs ns ++ op.sign :: right.signs ns) ?_
        ((left.quiet_upright ns).2.closes.append (.cons hsign hup.closes)) (hinside.mono ?_)
      · rw [signs, if_neg hop, List.append_assoc, List.cons_append]
      · rintro _ ⟨first, second, span, rfl, hm, hm'⟩
        unfold MirrorsBy
        rw [if_neg hop]
        exact ⟨first, second, span, rfl, hm, hm'⟩
  | unary op operand type ih =>
    simp only [LegibleBy] at h
    obtain ⟨hinc, hdec, hoperand⟩ := h
    obtain ⟨hquiet, hup⟩ := operand.quiet_upright ns
    have hgroup := ReadsAs.paren hup.closes hquiet ((ih hoperand).apart.inside (Nat.zero_le _))
    by_cases hlength : op = .arrayLength
    · subst hlength
      refine readsAs_paren hL (Sign.leftParen :: (operand.signs ns ++ [Sign.rightParen]) ++
        [Sign.dot, Sign.name "Length"]) ?_ ?_ ?_
      · simp only [signs, List.append_assoc, List.cons_append, List.nil_append]
        rfl
      · exact (Upright.cons_of_not_inType rfl (by decide)).closes
      · refine ((readsAs_member hgroup.before "Length").apart.inside (Nat.zero_le _)).mono ?_
        rintro _ ⟨_, id, span, rfl, hid, object, span', rfl, hm⟩
        exact .inr ⟨_, id, span, rfl, rfl, hid, hm.paren hL span'⟩
    · obtain ⟨s, operator, hsigns, hafter, hoperator, hwritten, hs⟩ : ∃ s operator,
          op.signsBefore = [s] ∧ op.signsAfter = [] ∧ UnaryOperator.ofToken? s.1 = some operator ∧
          op.written? = some operator ∧ s.inType = false ∧ s.1 ≠ .rightParen := by
        cases op with
        | negate | unaryPlus | not => exact ⟨_, _, rfl, rfl, rfl, rfl, rfl, by decide⟩
        | arrayLength => exact absurd rfl hlength
        | postIncrement => exact absurd rfl hinc
        | postDecrement => exact absurd rfl hdec
      refine readsAs_paren hL (s :: Sign.leftParen :: (operand.signs ns ++ [Sign.rightParen])) ?_
        (Upright.cons_of_not_inType hs.1 hs.2).closes ?_
      · simp only [signs, hsigns, hafter, List.append_assoc, List.cons_append, List.nil_append]
      · refine (ReadsInside.unary hoperator (hgroup.apart.inside hpower)).mono ?_
        rintro _ ⟨_, span, rfl, inner, span', rfl, hm⟩
        exact .inl ⟨operator, _, span, hwritten, rfl, hm.paren hL span'⟩
  | cond test ifTrue ifFalse ih ih' ih'' =>
    simp only [LegibleBy] at h
    obtain ⟨hquiet, hup⟩ := ifTrue.quiet_upright ns
    obtain ⟨hquiet', hup'⟩ := ifFalse.quiet_upright ns
    refine readsAs_paren hL (test.signs ns ++ Sign.question :: (ifTrue.signs ns ++
      Sign.colon :: ifFalse.signs ns)) ?_ ?_ ?_
    · simp only [signs, List.append_assoc, List.cons_append]
    · exact (test.quiet_upright ns).2.closes.append (.cons (by decide) (hup.closes.append
        (.cons (by decide) hup'.closes)))
    · refine (ReadsInside.conditional (ih h.1).apart (ih' h.2.1).apart (ih'' h.2.2).apart hquiet
        hquiet').mono ?_
      rintro _ ⟨condition, first, second, span, rfl, hm⟩
      exact ⟨condition, first, second, span, rfl, hm⟩
  | new c args ihs =>
    simp only [LegibleBy, legibleListBy_iff] at h
    rw [signs, signsList_eq_map]
    refine (readsAs_new h.1 (hlist ihs h.2)).mono ?_
    rintro _ ⟨written, nodes, span, rfl, hm, hms⟩
    exact ⟨written, nodes, span, rfl, hm, mirrorsListBy_iff.mpr hms⟩
  | array element items type ihs =>
    simp only [LegibleBy, legibleListBy_iff] at h
    obtain ⟨⟨item, rfl, hitem⟩, hitems⟩ := h
    rw [signs, signsList_eq_map]
    refine (readsAs_array hitem (hlist ihs hitems)).mono ?_
    rintro _ ⟨written, nodes, span, rfl, hm, hms⟩
    exact ⟨written, nodes, span, rfl, .cons hm .nil, mirrorsListBy_iff.mpr hms⟩
  | cast operand type ih =>
    simp only [LegibleBy] at h
    refine (ReadsAs.cast h.1 (operand.quiet_upright ns) (ih h.2).apart).mono ?_
    rintro _ ⟨written, inner, span, span', _, rfl, ht, hm⟩
    exact ⟨written, _, span', rfl, ht, hm.paren hL span⟩
  | index target m args ih ihs =>
    simp only [LegibleBy, legibleListBy_iff] at h
    obtain ⟨hne, htarget, hobject, hargs⟩ := h
    rw [signs, signsList_eq_map]
    refine (readsAs_index ((ih htarget).object hobject) (hlist ihs hargs) hne).mono ?_
    rintro _ ⟨object, nodes, span, rfl, hm, hms⟩
    exact ⟨object, nodes, span, rfl, hm, mirrorsListBy_iff.mpr hms⟩

end Term

end FatArrow
