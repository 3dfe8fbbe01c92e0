import FatArrow.Proofs.Printing.ReadPart
import Mathlib.Data.List.Induction

/-!
# Signs that are read as an expression

How the reading of a whole expression is put together from the reading of its parts.  The bound on
the depth is twice the number of signs that are left.
-/

namespace FatArrow

open Syntax Syntax.Reader

variable {ns : Namespaces} {c d : Cursor} {s : Sign} {is ss ts : List Sign} {fuel power : Nat}
  {P P' : Node → Prop} {F G : Sign → List Sign → Prop} {types : List HostType}

/-! ## 1. What is read up to what follows -/

namespace Syntax

/-- In front of what follows, the signs are read as an expression that has a property; what continues
it is read next. -/
def ReadsUpTo (F : Sign → List Sign → Prop) (is : List Sign) (P : Node → Prop) : Prop :=
  ∀ (c : Cursor) (s : Sign) (ss : List Sign) (fuel power : Nat), F s ss →
    power ≤ postfixPower → c.Sees (is ++ s :: ss) → 2 * (is.length + ss.length) + 6 ≤ fuel →
    ∃ n d g, node fuel power c = continued g power n d ∧ d.Sees (s :: ss) ∧ P n ∧
      2 * ss.length + 6 ≤ g

/-- The signs are read as an expression in front of whatever can follow a printed term. -/
abbrev ReadsAs (is : List Sign) (P : Node → Prop) : Prop := ReadsUpTo Follows is P

/-- The signs are read as an expression in front of whatever can follow a printed term and does not
take it for an object. -/
abbrev ReadsApart (is : List Sign) (P : Node → Prop) : Prop := ReadsUpTo Apart is P

/-- The signs are read as an expression in front of whatever can follow a printed term, but where a
minus sign is printed first only if that does not take it for an object. -/
abbrev ReadsBy (signed : Bool) (is : List Sign) (P : Node → Prop) : Prop :=
  ReadsUpTo (cond signed Apart Follows) is P

/-- In front of a `)`, the signs are read as an expression that has a property. -/
def ReadsInside (power : Nat) (is : List Sign) (P : Node → Prop) : Prop :=
  ∀ (c : Cursor) (ss : List Sign) (fuel : Nat), quiet ss = true →
    c.Sees (is ++ Sign.rightParen :: ss) → 2 * (is.length + ss.length) + 6 ≤ fuel →
    ∃ n d, node fuel power c = .ok n d ∧ d.Sees (Sign.rightParen :: ss) ∧ P n

/-- A sign of a kind and what is behind it. -/
def Before (kind : TokenKind) (s : Sign) (ss : List Sign) : Prop :=
  s.1 = kind ∧ quiet (s :: ss) = true

/-- In front of what follows, which is no lambda, type arguments are read where they are printed, and
none where there are none. -/
structure EndsTypes (ns : Namespaces) (F : Sign → List Sign → Prop) (types : List HostType) :
    Prop where
  quiet : ∀ s ss, F s ss → quiet (s :: ss) = true
  reads : ∀ (c : Cursor) (s : Sign) (ss : List Sign) (fuel : Nat), F s ss →
    c.Sees (angled (types.map (HostType.signs ns)) ++ s :: ss) →
    2 * ((angled (types.map (HostType.signs ns))).length + ss.length) + 4 ≤ fuel →
    ∃ found d, attemptTypeArgs fuel c = .ok found d ∧ d.Sees (s :: ss) ∧
      List.Forall₂ (HostType.Mirrors ns) types (found.getD [])

theorem Follows.endsTypes : EndsTypes ns Follows [] where
  quiet := fun _ _ hs => hs.quiet
  reads := fun c _ _ _ hs hc hf =>
    ⟨none, c, attemptTypeArgs_of_follows hs hc (by simpa [angled] using hf), hc, .nil⟩

theorem Before.endsTypes {kind : TokenKind} (hk : kind = .dot ∨ kind = .leftParen)
    (h : ∀ t ∈ types, t.Legible ns) : EndsTypes ns (Before kind) types where
  quiet := fun _ _ hs => hs.2
  reads := fun _ _ _ _ hs hc hf => attemptTypeArgs_of_angled h (by rw [hs.1]; exact hk) hc hf

theorem Before.follows (h : Before .dot s ss) : Follows s ss := by
  refine ⟨?_, ?_, fun hk => ?_, h.2⟩
  · rw [h.1]
    decide
  · rw [h.1]
    rfl
  · rw [h.1] at hk
    cases hk

namespace ReadsUpTo

theorem mono (h : ReadsUpTo F is P) (hp : ∀ n, P n → P' n) : ReadsUpTo F is P' := by
  intro c s ss fuel power hs hpower hc hf
  obtain ⟨n, d, g, hn, hd, hprop, hg⟩ := h c s ss fuel power hs hpower hc hf
  exact ⟨n, d, g, hn, hd, hp n hprop, hg⟩

theorem weaken (h : ReadsUpTo F is P) (hg : ∀ s ss, G s ss → F s ss) : ReadsUpTo G is P :=
  fun c s ss fuel power hs => h c s ss fuel power (hg s ss hs)

theorem before (h : ReadsAs is P) : ReadsUpTo (Before .dot) is P :=
  h.weaken fun _ _ => Before.follows

theorem apart (h : ReadsAs is P) : ReadsApart is P := h.weaken fun _ _ => Apart.toFollows

/-- An operand is an expression. -/
theorem of_operand (h : ∀ (c : Cursor) (s : Sign) (ss : List Sign) (fuel : Nat), F s ss →
      c.Sees (is ++ s :: ss) → 2 * (is.length + ss.length) + 5 ≤ fuel →
      ∃ n d, operand fuel c = .ok n d ∧ d.Sees (s :: ss) ∧ P n) (hpos : 0 < is.length) :
    ReadsUpTo F is P := by
  intro c s ss fuel power hs hpower hc hf
  cases fuel with
  | zero => omega
  | succ fuel =>
    have hf' : 2 * (is.length + ss.length) + 5 ≤ fuel := by omega
    obtain ⟨n, d, hn, hd, hprop⟩ := h c s ss fuel hs hc hf'
    refine ⟨n, d, fuel, ?_, hd, hprop, by omega⟩
    rw [node, bind_of_ok hn]

/-- A name with its type arguments. -/
theorem name (hF : EndsTypes ns F types) (name : String) :
    ReadsUpTo F (Sign.name name :: angled (types.map (HostType.signs ns))) fun n =>
      ∃ id written span, n = .name id written span ∧ id.text = name ∧
        List.Forall₂ (HostType.Mirrors ns) types written := by
  refine of_operand (fun c s ss fuel hs hc hf => ?_) (Nat.succ_pos _)
  rw [List.length_cons] at hf
  cases fuel with
  | zero => omega
  | succ fuel =>
    have hskip := Cursor.Sees.skip hc (fun hk => by cases hk) (fun hk => by cases hk)
    have hf' : 2 * ((angled (types.map (HostType.signs ns))).length + ss.length) + 4 ≤ fuel := by
      omega
    obtain ⟨found, d, hfound, hd, hall⟩ := hF.reads c.skip s ss fuel hs hskip hf'
    have hq : quiet (angled (types.map (HostType.signs ns)) ++ s :: ss) = true := by
      rw [quiet_append, HostType.quiet_angled, hF.quiet s ss hs]
      rfl
    obtain ⟨span, span', hn⟩ := operand_name hq hc hfound
    exact ⟨_, d, hn, hd, _, _, span', rfl, rfl, hall⟩

/-- A member of an expression, with its type arguments. -/
theorem member (hF : EndsTypes ns F types) (h : ReadsUpTo (Before .dot) is P) (name : String) :
    ReadsUpTo F (is ++ Sign.dot :: Sign.name name :: angled (types.map (HostType.signs ns))) fun n =>
      ∃ object id written span, n = .member object id written span ∧ id.text = name ∧
        List.Forall₂ (HostType.Mirrors ns) types written ∧ P object := by
  intro c s ss fuel power hs hpower hc hf
  simp only [List.append_assoc, List.cons_append] at hc
  simp only [List.length_cons, List.length_append] at hf
  have hdot : Before .dot Sign.dot (Sign.name name ::
      (angled (types.map (HostType.signs ns)) ++ s :: ss)) := by
    refine ⟨rfl, ?_⟩
    rw [quiet_cons, quiet_cons, quiet_append, HostType.quiet_angled, hF.quiet s ss hs]
    rfl
  have hlen : 2 * (is.length + (Sign.name name ::
      (angled (types.map (HostType.signs ns)) ++ s :: ss)).length) + 6 ≤ fuel := by
    simp only [List.length_cons, List.length_append]
    omega
  obtain ⟨n, d, g, hn, hd, hprop, hg⟩ := h c _ _ fuel power hdot hpower hc hlen
  simp only [List.length_cons, List.length_append] at hg
  cases g with
  | zero => omega
  | succ g =>
    have hname := hd.skip (by decide) (by decide)
    have hnext := hname.skip (fun hk => by cases hk) (fun hk => by cases hk)
    have hlen : 2 * ((angled (types.map (HostType.signs ns))).length + ss.length) + 4 ≤ g := by
      omega
    obtain ⟨found, e, hfound, he, hall⟩ := hF.reads _ s ss g hs hnext hlen
    obtain ⟨span, span', hmember⟩ := continued_member n hpower hd hfound
    exact ⟨_, e, g, by rw [hn, hmember], he, ⟨n, _, _, span', rfl, rfl, hall, hprop⟩, by omega⟩

/-- Before a sign that ends an expression nothing is left to continue it. -/
theorem node_eq (h : ReadsApart is P) (hp : power ≤ postfixPower) (hs : s.1 ∈ closers)
    (hq : quiet ss = true) (hc : c.Sees (is ++ s :: ss))
    (hf : 2 * (is.length + ss.length) + 6 ≤ fuel) :
    ∃ n d, node fuel power c = .ok n d ∧ d.Sees (s :: ss) ∧ P n := by
  obtain ⟨n, d, g, hn, hd, hprop, hg⟩ := h c s ss fuel power (.of_closer hs hq) hp hc hf
  have hpos : 0 < g := by omega
  exact ⟨n, d, by rw [hn, continued_of_closer (hd.kind_closer hs) hpos], hd, hprop⟩

theorem inside (h : ReadsApart is P) (hp : power ≤ postfixPower) : ReadsInside power is P :=
  fun _ _ _ hq hc hf => h.node_eq hp (by decide) hq hc hf

/-- An operand behind a minus sign: what follows does not take it for an object by itself. -/
theorem negated (h : ReadsApart is P) :
    ReadsApart (Sign.minus :: is) fun n => ∃ inner span, n = .unary .negate inner span ∧ P inner := by
  refine of_operand (fun c s ss fuel hs hc hf => ?_) (Nat.succ_pos _)
  rw [List.length_cons] at hf
  cases fuel with
  | zero => omega
  | succ fuel =>
    have hskip := Cursor.Sees.skip hc (by decide) (by decide)
    have hpower : UnaryOperator.power ≤ postfixPower := by decide
    have hlen : 2 * (is.length + ss.length) + 6 ≤ fuel := by omega
    obtain ⟨n, d, g, hn, hd, hprop, hg⟩ := h c.skip s ss fuel _ hs hpower hskip hlen
    rw [continued_of_apart hs hd (by omega)] at hn
    have hminus : UnaryOperator.ofToken? c.kind = some .negate := by
      rw [Cursor.Sees.kind hc (by decide)]
      rfl
    obtain ⟨span, hunary⟩ := operand_unary hminus hn
    exact ⟨_, d, hunary, hd, n, span, rfl, hprop⟩

end ReadsUpTo

namespace ReadsBy

variable {signed : Bool}

theorem apart (h : ReadsBy signed is P) : ReadsApart is P := by
  cases signed with
  | false => exact ReadsUpTo.apart h
  | true => exact h

theorem of_readsAs (h : ReadsAs is P) : ReadsBy signed is P := by
  cases signed with
  | false => exact h
  | true => exact ReadsUpTo.apart h

theorem object (h : ReadsBy signed is P) (hs : signed = false) : ReadsAs is P := by
  subst hs
  exact h

end ReadsBy

namespace ReadsAs

/-- A literal token. -/
theorem literal {kind : TokenKind} {text : String} {l : Literal} (hk : kind.isLiteral = true)
    (hl : ∀ token : Token, token.kind = kind → token.lexeme = text → literalOf token = .ok l) :
    ReadsAs [(kind, text)] fun n => ∃ span, n = .literal l span := by
  refine .of_operand (fun c s ss fuel hs hc hf => ?_) Nat.one_pos
  have hne : kind ≠ .greater ∧ kind ≠ .eof := by
    constructor <;> (rintro rfl; cases hk)
  obtain ⟨hkind, hlexeme⟩ := hc.peek hne.1
  have hliteral : c.kind.isLiteral = true := by
    rw [hc.kind hne.1]
    exact hk
  have hpos : 0 < fuel := by omega
  exact ⟨_, _, operand_literal hliteral (hl _ hkind hlexeme) hpos, hc.skip hne.1 hne.2, _, rfl⟩

/-- The token of a number, and behind a minus sign. -/
theorem number {kind : TokenKind} {text : String} {l : Literal} (hk : kind.isLiteral = true)
    (hd : startsWith Text.isDigit text.toList = true)
    (hl : ∀ token : Token, token.kind = kind → token.lexeme = text → literalOf token = .ok l) :
    ReadsAs (numberSigns kind text) (fun n => ∃ span, n = .literal l span) ∧
      ReadsApart (numberSigns kind ("-" ++ text)) fun n => ∃ inner span, n = .unary .negate inner span ∧
        ∃ span, inner = .literal l span := by
  rw [numberSigns_of_digit kind hd, numberSigns_minus]
  exact ⟨literal hk hl, ReadsUpTo.negated (literal hk hl).apart⟩

/-- An expression in parentheses. -/
theorem paren (hg : Guarded is) (hq : quiet is = true) (h : ReadsInside 0 is P) :
    ReadsAs (Sign.leftParen :: (is ++ [Sign.rightParen])) fun n => ∃ inner span,
      n = .paren inner span ∧ P inner := by
  refine .of_operand (fun c s ss fuel hs hc hf => ?_) (Nat.succ_pos _)
  simp only [List.cons_append, List.append_assoc, List.nil_append] at hc
  simp only [List.length_cons, List.length_append, List.length_nil] at hf
  cases fuel with
  | zero => omega
  | succ fuel =>
    have hskip := hc.skip (by decide) (by decide)
    have hlen : 2 * (is.length + (s :: ss).length) + 6 ≤ fuel := by
      rw [List.length_cons]
      omega
    obtain ⟨n, d, hn, hd, hprop⟩ :=
      h c.skip (s :: ss) fuel hs.quiet hskip hlen
    have hf' : 2 * (is.length + ss.length) + 7 ≤ fuel := by omega
    obtain ⟨span, hparen⟩ :=
      operand_paren hg hq hs.operand hs.literal hs.quiet hc hf' hn hd
    exact ⟨_, _, hparen, hd.skip (by decide) (by decide), _, _, rfl, hprop⟩

end ReadsAs

/-! ## 2. What is read inside parentheses -/

/-- Two operands with an operator between them. -/
theorem ReadsInside.binary {left right : List Sign} {op : BinaryOp} (ho : op ≠ .arrayIndex)
    (hl : ReadsApart left P) (hr : ReadsApart right P') (hb : Balanced right) (hq : quiet right = true)
    (hfirst : ∃ t ts, right = t :: ts ∧ t ≠ Sign.close) :
    ReadsInside 0 (left ++ op.sign :: right) fun n => ∃ first second span,
      n = .binary op.written first second span ∧ P first ∧ P' second := by
  intro c ss fuel hquiet hc hf
  have hop : op.sign.1 ∉ [TokenKind.identifier, .typeKeyword, .leftParen, .newWord, .bang] ∧
      op.sign.1.isLiteral = false ∧ op.sign.isQuiet = true ∧ op.sign.1 ≠ .eof ∧
      op.sign.1 ≠ .greaterGreater ∧ BinaryOperator.ofToken? op.sign.1 = some op.written := by
    cases op <;> first | exact absurd rfl ho | decide
  obtain ⟨hoperand, hliteral, hopquiet, hend, hdouble, hwritten⟩ := hop
  have hapart : Apart op.sign (right ++ Sign.rightParen :: ss) := by
    refine ⟨⟨hoperand, hliteral, fun _ => hb.append_cons rfl ss, ?_⟩, .inr (.inr ⟨?_, ?_⟩)⟩
    · rw [quiet_cons, quiet_append, quiet_cons, hq, hquiet, hopquiet]
      rfl
    · rw [hwritten]
      rfl
    · obtain ⟨t, ts, rfl, ht⟩ := hfirst
      exact ⟨t, _, rfl, ht⟩
  simp only [List.append_assoc, List.cons_append] at hc
  simp only [List.length_cons, List.length_append] at hf
  have hlen : 2 * (left.length + (right ++ Sign.rightParen :: ss).length) + 6 ≤ fuel := by
    simp only [List.length_append, List.length_cons]
    omega
  obtain ⟨n, d, g, hn, hd, hprop, hg⟩ := hl c _ _ fuel 0 hapart (Nat.zero_le _) hc hlen
  have hkind : d.kind = op.sign.1 := by
    obtain ⟨t, ts, rfl, ht⟩ := hfirst
    exact hd.kind_of_ne ht
  have hskip := hd.skip_of_kind (by rwa [hkind]) (by rwa [hkind])
  simp only [List.length_append, List.length_cons] at hg
  cases g with
  | zero => omega
  | succ g =>
    have hpower : op.written.power.2 ≤ postfixPower := by cases op <;> decide
    have hlen' : 2 * (right.length + ss.length) + 6 ≤ g := by omega
    have hpos : 0 < g := by omega
    obtain ⟨n', e, hn', he, hprop'⟩ := hr.node_eq hpower (by decide) hquiet hskip hlen'
    obtain ⟨span, hop⟩ := continued_operator n (by rw [hkind]; exact hwritten)
      (Nat.zero_le _) hn'
    refine ⟨_, _, ?_, he, _, _, span, rfl, hprop, hprop'⟩
    rw [hn, hop, continued_of_closer (he.kind_closer (by decide)) hpos]

namespace ReadsInside

theorem mono (h : ReadsInside power is P) (hp : ∀ n, P n → P' n) : ReadsInside power is P' := by
  intro c ss fuel hq hc hf
  obtain ⟨n, d, hn, hd, hprop⟩ := h c ss fuel hq hc hf
  exact ⟨n, d, hn, hd, hp n hprop⟩

/-- A condition and two branches. -/
theorem conditional {test ifTrue ifFalse : List Sign} {Q Q' Q'' : Node → Prop}
    (ht : ReadsApart test Q) (hi : ReadsApart ifTrue Q') (he : ReadsApart ifFalse Q'')
    (hq : quiet ifTrue = true) (hq' : quiet ifFalse = true) :
    ReadsInside 0 (test ++ Sign.question :: (ifTrue ++ Sign.colon :: ifFalse)) fun n =>
      ∃ condition first second span, n = .conditional condition first second span ∧ Q condition ∧
        Q' first ∧ Q'' second := by
  intro c ss fuel hquiet hc hf
  have hrest : quiet (ifFalse ++ Sign.rightParen :: ss) = true := by
    rw [quiet_append, quiet_cons, hq', hquiet]
    rfl
  have hapart : Apart Sign.question (ifTrue ++ Sign.colon :: (ifFalse ++ Sign.rightParen :: ss)) := by
    refine ⟨⟨by decide, rfl, (fun hk => by cases hk), ?_⟩, .inr (.inl rfl)⟩
    rw [quiet_cons, quiet_append, quiet_cons, hq, hrest]
    rfl
  simp only [List.append_assoc, List.cons_append] at hc
  simp only [List.length_cons, List.length_append] at hf
  have hlen : 2 * (test.length + (ifTrue ++ Sign.colon ::
      (ifFalse ++ Sign.rightParen :: ss)).length) + 6 ≤ fuel := by
    simp only [List.length_append, List.length_cons]
    omega
  obtain ⟨n, d, g, hn, hd, hprop, hg⟩ := ht c _ _ fuel 0 hapart (Nat.zero_le _) hc hlen
  simp only [List.length_append, List.length_cons] at hg
  cases g with
  | zero => omega
  | succ g =>
    have hskip := hd.skip (by decide) (by decide)
    have hlen : 2 * (ifTrue.length + (ifFalse ++ Sign.rightParen :: ss).length) + 6 ≤ g := by
      simp only [List.length_append, List.length_cons]
      omega
    obtain ⟨first, e, hfirst, hcolon, hprop'⟩ :=
      hi.node_eq (Nat.zero_le _) (by decide) hrest hskip hlen
    have hskip' := hcolon.skip (by decide) (by decide)
    have hlen' : 2 * (ifFalse.length + ss.length) + 6 ≤ g := by omega
    have hpower : conditionalPower ≤ postfixPower := by decide
    obtain ⟨second, e', hsecond, he', hprop''⟩ :=
      he.node_eq hpower (by decide) hquiet hskip' hlen'
    have hpos : 0 < g := by omega
    obtain ⟨span, hcond⟩ := continued_conditional n (hd.kind (by decide)) (Nat.zero_le _) hfirst
      (hcolon.kind (by decide)) hsecond
    refine ⟨_, _, ?_, he', _, _, _, span, rfl, hprop, hprop', hprop''⟩
    rw [hn, hcond, continued_of_closer (he'.kind_closer (by decide)) hpos]

/-- An operator before an operand. -/
theorem unary {op : UnaryOperator} (hk : UnaryOperator.ofToken? s.1 = some op)
    (h : ReadsInside UnaryOperator.power is P) :
    ReadsInside 0 (s :: is) fun n => ∃ inner span, n = .unary op inner span ∧ P inner := by
  intro c ss fuel hquiet hc hf
  have hs : s.1 ≠ .greater ∧ s.1 ≠ .eof := by
    constructor <;> (intro hs; rw [hs] at hk; cases hk)
  rw [List.length_cons] at hf
  cases fuel with
  | zero => omega
  | succ fuel =>
    cases fuel with
    | zero => omega
    | succ fuel =>
      have hskip := hc.skip hs.1 hs.2
      have hlen : 2 * (is.length + ss.length) + 6 ≤ fuel := by omega
      obtain ⟨n, d, hn, hd, hprop⟩ := h c.skip ss fuel hquiet hskip hlen
      obtain ⟨span, hunary⟩ := operand_unary (by rw [hc.kind hs.1]; exact hk) hn
      refine ⟨_, _, ?_, hd, _, span, rfl, hprop⟩
      rw [node, bind_of_ok hunary, continued_of_closer (hd.kind_closer (by decide))
        (Nat.succ_pos _)]

/-- A type in parentheses before an operand in parentheses. -/
theorem cast {t : HostType} (ht : t.Legible ns) (h : ReadsInside UnaryOperator.power is P)
    (hq : quiet is = true) (hfirst : ∃ ts, is = Sign.leftParen :: ts) :
    ReadsInside 0 (Sign.leftParen :: (t.signs ns ++ Sign.rightParen :: is)) fun n =>
      ∃ written inner span, n = .cast written inner span ∧ t.Mirrors ns written ∧ P inner := by
  intro c ss fuel hquiet hc hf
  obtain ⟨ts, rfl⟩ := hfirst
  simp only [List.cons_append, List.append_assoc] at hc
  simp only [List.length_cons, List.length_append] at hf
  have hrest : quiet (ts ++ Sign.rightParen :: ss) = true := by
    rw [quiet_cons, Bool.and_eq_true] at hq
    rw [quiet_append, quiet_cons, hq.2, hquiet]
    rfl
  cases fuel with
  | zero => omega
  | succ fuel =>
    cases fuel with
    | zero => omega
    | succ fuel =>
      have hlen : 2 * ((t.signs ns).length + (ts ++ Sign.rightParen :: ss).length) + 7 ≤ fuel := by
        simp only [List.length_append, List.length_cons]
        omega
      have hinner : ∀ e : Cursor, e.Sees (Sign.leftParen :: (ts ++ Sign.rightParen :: ss)) →
          ∃ n d, node fuel UnaryOperator.power e = .ok n d ∧ d.Sees (Sign.rightParen :: ss) ∧
            P n := by
        intro e he
        refine h e ss fuel hquiet he ?_
        rw [List.length_cons]
        omega
      obtain ⟨written, n, span, d, hcast, hd, hm, hprop⟩ := operand_cast ht hrest hc hlen hinner
      refine ⟨_, _, ?_, hd, written, n, span, rfl, hm, hprop⟩
      rw [node, bind_of_ok hcast, continued_of_closer (hd.kind_closer (by decide))
        (Nat.succ_pos _)]

end ReadsInside

/-- A cast in parentheses of what is read in parentheses. -/
theorem ReadsAs.cast {t : HostType} (ht : t.Legible ns) (hu : quiet is = true ∧ Upright is)
    (h : ReadsApart is P) :
    ReadsAs (Sign.leftParen :: Sign.leftParen :: (t.signs ns ++ Sign.rightParen ::
      Sign.leftParen :: (is ++ [Sign.rightParen, Sign.rightParen]))) fun n =>
        ∃ written inner span span' span'', n = .paren (.cast written (.paren inner span) span') span'' ∧
          t.Mirrors ns written ∧ P inner := by
  have hpower : UnaryOperator.power ≤ postfixPower := by decide
  have hgroup := ReadsAs.paren hu.2.closes hu.1 (h.inside (Nat.zero_le _))
  have hinner : quiet (Sign.leftParen :: (is ++ [Sign.rightParen])) = true := by
    rw [quiet_cons, quiet_append, hu.1]
    rfl
  have hcast := ReadsInside.cast ht (hgroup.apart.inside hpower) hinner ⟨_, rfl⟩
  have hup : Upright (Sign.leftParen :: (t.signs ns ++ Sign.rightParen :: Sign.leftParen ::
      (is ++ [Sign.rightParen]))) := .cons_of_not_inType rfl (by decide)
  have hquiet : quiet (Sign.leftParen :: (t.signs ns ++ Sign.rightParen :: Sign.leftParen ::
      (is ++ [Sign.rightParen]))) = true := by
    rw [quiet_cons, quiet_append, HostType.quiet_signs, quiet_cons, hinner]
    rfl
  have hread := ReadsAs.paren hup.closes hquiet hcast
  simp only [List.append_assoc, List.cons_append, List.nil_append] at hread
  refine hread.mono ?_
  rintro _ ⟨_, span, rfl, written, _, span', rfl, hm, inner, span'', rfl, hprop⟩
  exact ⟨written, inner, span'', span', span, rfl, hm, hprop⟩

end Syntax


/-! ## 3. Types in front of a point -/

namespace Syntax

theorem dots_concat (name : String) (names : List String) (last : String) :
    dots (name :: (names ++ [last])) = dots (name :: names) ++ [Sign.dot, Sign.name last] := by
  induction names generalizing name with
  | nil => rfl
  | cons next names ih => rw [List.cons_append, dots, ih, dots, List.cons_append, List.cons_append]

/-- Names with points between them are read as members of members. -/
theorem ReadsUpTo.dots (name : String) (names : List String) :
    ReadsUpTo (Before .dot) (Syntax.dots (name :: names)) fun n => ∃ segments,
      n.segments? = some segments ∧ segments.map (·.name.text) = name :: names ∧
        ∀ s ∈ segments, s.args = [] := by
  have hends : EndsTypes [] (Before .dot) [] := Before.endsTypes (.inl rfl) nofun
  induction names using List.reverseRecOn with
  | nil =>
    refine (ReadsUpTo.name hends name).mono ?_
    rintro _ ⟨id, written, span, rfl, hid, hall⟩
    rw [List.forall₂_nil_left_iff.mp hall]
    exact ⟨[.mk id []], rfl, by rw [← hid]; rfl, List.forall_mem_singleton.mpr rfl⟩
  | append_singleton names last ih =>
    rw [dots_concat]
    refine (ReadsUpTo.member hends ih last).mono ?_
    rintro _ ⟨object, id, written, span, rfl, hid, hall, segments, hsegments, hnames, hargs⟩
    rw [List.forall₂_nil_left_iff.mp hall]
    refine ⟨segments ++ [.mk id []], by rw [Node.segments?, hsegments]; rfl, ?_, ?_⟩
    · rw [List.map_append, hnames, ← hid]
      rfl
    · exact List.forall_mem_append.mpr ⟨hargs, List.forall_mem_singleton.mpr rfl⟩

end Syntax

namespace HostType

/-- A type that is printed by its name is read as an expression in front of a point. -/
theorem NamedBy.readsUpTo {t : HostType} {name : String} {names : List String}
    {args : List HostType} (ht : NamedBy ns t name names args) (h : ∀ b ∈ args, b.Legible ns) :
    ReadsUpTo (Before .dot) (t.signs ns) (t.MirrorsName ns) := by
  have hends : EndsTypes ns (Before .dot) args := Before.endsTypes (.inl rfl) h
  rw [ht.signs_eq]
  rcases List.eq_nil_or_concat' names with rfl | ⟨front, last, rfl⟩
  · refine (ReadsUpTo.name hends name).mono ?_
    rintro _ ⟨id, written, span, rfl, hid, hall⟩
    exact ⟨_, span, rfl, ht.mirrors _ span (by rw [← hid]; rfl) nofun hall⟩
  · rw [dots_concat, List.append_assoc]
    refine (ReadsUpTo.member hends (.dots name front) last).mono ?_
    rintro _ ⟨object, id, written, span, rfl, hid, hall, segments, hsegments, hnames, hargs⟩
    refine ⟨segments ++ [.mk id written], span, by rw [Node.segments?, hsegments]; rfl,
      ht.mirrors _ span ?_ ?_ ?_⟩
    · rw [List.map_append, hnames, ← hid]
      rfl
    · rwa [List.dropLast_concat]
    · rwa [TypeNode.lastArgs, List.getLast?_concat]

/-- A type whose members can be read is read as an expression in front of a point. -/
theorem readsUpTo {t : HostType} (h : t.LegibleOwner ns) :
    ReadsUpTo (Before .dot) (t.signs ns) (t.MirrorsName ns) := by
  obtain ⟨shape, args, nullable⟩ := t
  obtain ⟨hlegible, harray⟩ := h
  cases nullable with
  | true =>
    exact (namedBy_nullable shape args).readsUpTo
      (List.forall_mem_singleton.mpr (legible_plain hlegible))
  | false =>
    obtain ⟨name, names, hnamed⟩ := exists_namedBy hlegible fun hs => by cases harray hs
    exact hnamed.readsUpTo fun b hb => legible_arg hlegible hb

end HostType

end FatArrow
