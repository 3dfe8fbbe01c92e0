import FatArrow.Proofs.Printing.ReadType

/-!
# The parts of printed terms are read

One step of reading for every form of an operand and for everything that can continue one.  What
follows must not be taken for a part of what is read: no operand that would make parentheses a cast,
and no `<` that could open type arguments.
-/

namespace FatArrow

open Syntax Syntax.Reader

variable {ns : Namespaces} {c d : Cursor} {s : Sign} {ss ts : List Sign} {fuel power : Nat}
  {P : Node → Prop}

/-! ## 1. What follows an expression -/

namespace Syntax

/-- Signs that can follow a printed term. -/
structure Follows (s : Sign) (ss : List Sign) : Prop where
  operand : s.1 ∉ [TokenKind.identifier, .typeKeyword, .leftParen, .newWord, .bang]
  literal : s.1.isLiteral = false
  balanced : s.1 = .less → Balanced ss
  quiet : quiet (s :: ss) = true

/-- The kinds of tokens that end an expression. -/
def closers : List TokenKind := [.rightParen, .rightBracket, .rightBrace, .comma, .colon, .eof]

theorem Follows.of_closer (hs : s.1 ∈ closers) (hq : Syntax.quiet ss = true) : Follows s ss := by
  have hfacts : ∀ kind ∈ closers,
      kind ∉ [TokenKind.identifier, .typeKeyword, .leftParen, .newWord, .bang] ∧
      kind.isLiteral = false ∧ kind ≠ .less ∧ kind ≠ .arrow ∧ kind ≠ .typeKeyword := by decide
  obtain ⟨hoperand, hliteral, hless, harrow, hkeyword⟩ := hfacts s.1 hs
  refine ⟨hoperand, hliteral, fun hk => absurd hk hless, ?_⟩
  rw [quiet_cons, hq, Sign.isQuiet, bne_iff_ne.mpr harrow, bne_iff_ne.mpr hkeyword]
  rfl

/-- Signs that can follow a printed term that is not taken for an object by them: the end of an
expression, a question, or an operator with an operand. -/
structure Apart (s : Sign) (ss : List Sign) : Prop extends Follows s ss where
  ends : s.1 ∈ closers ∨ s.1 = .question ∨
    ((BinaryOperator.ofToken? s.1).isSome = true ∧ ∃ t ts, ss = t :: ts ∧ t ≠ Sign.close)

theorem Apart.of_closer (hs : s.1 ∈ closers) (hq : Syntax.quiet ss = true) : Apart s ss :=
  ⟨.of_closer hs hq, .inl hs⟩

theorem Cursor.Sees.kind_closer (h : c.Sees (s :: ss)) (hs : s.1 ∈ closers) : c.kind ∈ closers := by
  rw [h.kind (by rintro hk; rw [hk] at hs; revert hs; decide)]
  exact hs

end Syntax

namespace Syntax.Reader

theorem continued_of_closer {left : Node} (h : c.kind ∈ closers) (hf : 0 < fuel) :
    continued fuel power left c = .ok left c := by
  cases fuel with
  | zero => exact absurd hf (Nat.lt_irrefl _)
  | succ fuel =>
    have hk : c.peek.kind ∈ closers := h
    simp only [closers, List.mem_cons, List.not_mem_nil, or_false] at hk
    rw [continued, get_bind]
    rcases hk with hk | hk | hk | hk | hk | hk
    all_goals
      simp only [hk]
      rfl

/-- An operator that binds less tightly does not go on with an expression. -/
theorem continued_of_loose (left : Node) {op : BinaryOperator}
    (hk : BinaryOperator.ofToken? c.kind = some op) (hp : op.power.1 < power) (hf : 0 < fuel) :
    continued fuel power left c = .ok left c := by
  cases fuel with
  | zero => exact absurd hf (Nat.lt_irrefl _)
  | succ fuel =>
    have hkind : BinaryOperator.ofToken? c.peek.kind = some op := hk
    rw [continued, get_bind]
    generalize c.peek.kind = kind at hkind ⊢
    cases kind <;> first | (cases hkind; exact run_if_pos hp) | cases hkind

/-- What is printed behind a term that is no object ends the operand of an operator before it. -/
theorem continued_of_apart {left : Node} (h : Apart s ss) (hc : c.Sees (s :: ss)) (hf : 0 < fuel) :
    continued fuel UnaryOperator.power left c = .ok left c := by
  rcases h.ends with hs | hs | ⟨hs, t, ts, rfl, ht⟩
  · exact continued_of_closer (hc.kind_closer hs) hf
  · cases fuel with
    | zero => exact absurd hf (Nat.lt_irrefl _)
    | succ fuel =>
      have hk : c.peek.kind = .question := (hc.kind (by rw [hs]; decide)).trans hs
      have hp : conditionalPower < UnaryOperator.power := by decide
      rw [continued, get_bind]
      simp only [hk]
      exact run_if_pos hp
  · obtain ⟨op, hop⟩ := Option.isSome_iff_exists.mp hs
    have hk : BinaryOperator.ofToken? c.kind = some op := by rwa [hc.kind_of_ne ht]
    have hp : op.power.1 < UnaryOperator.power := by cases op <;> decide
    exact continued_of_loose left hk hp hf

/-- Where nothing opens type arguments, none are read. -/
theorem attemptTypeArgs_of_follows (h : Follows s ss) (hc : c.Sees (s :: ss))
    (hf : 2 * ss.length + 4 ≤ fuel) : attemptTypeArgs fuel c = .ok none c := by
  by_cases hs : s.1 = .less
  · obtain ⟨kind, lexeme⟩ := s
    cases hs
    exact attemptTypeArgs_of_less hc (h.balanced rfl) (by omega)
  · refine attemptTypeArgs_of_ne ?_
    rcases hc.kind_or with hk | ⟨hk, -⟩
    · rwa [hk]
    · rw [hk]
      decide

/-- Printed type arguments are read before a point or a parenthesis, if there are any. -/
theorem attemptTypeArgs_of_angled {types : List HostType} (h : ∀ t ∈ types, t.Legible ns)
    (hs : s.1 = .dot ∨ s.1 = .leftParen)
    (hc : c.Sees (angled (types.map (HostType.signs ns)) ++ s :: ss))
    (hf : 2 * ((angled (types.map (HostType.signs ns))).length + ss.length) + 4 ≤ fuel) :
    ∃ found d, attemptTypeArgs fuel c = .ok found d ∧ d.Sees (s :: ss) ∧
      List.Forall₂ (HostType.Mirrors ns) types (found.getD []) := by
  have hne : s.1 ≠ .greater ∧ s.1 ≠ .less ∧ followsTypeArgs s.1 = true := by
    rcases hs with hs | hs <;> rw [hs] <;> decide
  cases types with
  | nil =>
    refine ⟨none, _, attemptTypeArgs_of_ne ?_, hc, .nil⟩
    rw [Cursor.Sees.kind hc hne.1]
    exact hne.2.1
  | cons a types =>
    have hless : c.kind = .less := hc.kind (by decide)
    have hlen : 2 * ((angled ((a :: types).map (HostType.signs ns))).length + (s :: ss).length) + 2
        ≤ fuel := by
      rw [List.length_cons]
      omega
    obtain ⟨written, d, hread, hd, hall⟩ :=
      HostType.typeArgs_reads (fun t ht => t.reads (h t ht)) hc hlen
    refine ⟨some written, d, ?_, hd, hall⟩
    unfold attemptTypeArgs
    rw [bind_of_ok (check_of_eq hless), run_if_pos rfl]
    exact attempt_of_ok hread (by rw [hd.kind hne.1]; exact hne.2.2)

/-! ## 2. Operands -/

/-- A name that is no parameter of a lambda, with its type arguments. -/
theorem operand_name {name : String} {found : Option (List TypeNode)} (hq : quiet ss = true)
    (hc : c.Sees (Sign.name name :: ss)) (hargs : attemptTypeArgs fuel c.skip = .ok found d) :
    ∃ span span', operand (fuel + 1) c = .ok (.name ⟨name, span⟩ (found.getD []) span') d := by
  have hk : c.peek.kind = .identifier := hc.kind (fun hk => by cases hk)
  have hlexeme : c.peek.lexeme = name := (hc.peek (fun hk => by cases hk)).2
  have harrow : (c.peekAt 1).kind ≠ .arrow := by
    refine hc.peekAt_ne (fun t ht => ?_) (by decide) 1
    rcases List.mem_cons.mp ht with rfl | ht
    · exact fun hk => by cases hk
    · exact (quiet_iff.mp hq t ht).1
  refine ⟨c.peek.span, c.peek.span.merge d.previousSpan, ?_⟩
  rw [operand, get_bind]
  simp only [hk]
  rw [bind_of_ok advance_eq, run_if_neg harrow, bind_of_ok hargs, hlexeme]
  rfl

/-- A literal token is taken, and what it denotes is looked at behind it. -/
theorem operand_of_isLiteral (hk : c.kind.isLiteral = true) :
    operand (fuel + 1) c = literalNode c.peek c.skip := by
  have hrun : (advance >>= fun _ => literalNode c.peek) c = literalNode c.peek c.skip :=
    bind_of_ok advance_eq
  have hkind : c.peek.kind.isLiteral = true := hk
  rw [operand, get_bind]
  generalize hkk : c.peek.kind = kind at hkind ⊢
  cases kind <;> first | exact hrun | cases hkind

/-- A literal. -/
theorem operand_literal {l : Literal} (hk : c.kind.isLiteral = true)
    (hl : literalOf c.peek = .ok l) (hf : 0 < fuel) :
    operand fuel c = .ok (.literal l c.peek.span) c.skip := by
  cases fuel with
  | zero => exact absurd hf (Nat.lt_irrefl _)
  | succ fuel =>
    rw [operand_of_isLiteral hk, literalNode, hl]
    rfl

theorem opensLambda_of_quiet (hc : c.Sees ss) (hq : quiet ss = true) :
    opensLambda c (c.buffer.size + 1) 0 0 = false := by
  refine opensLambda_eq_false (fun n => hc.peekAt_ne (fun t ht => ?_) (by decide) n) _ _ _
  exact (quiet_iff.mp hq t ht).1

/-- A parenthesis that opens neither a lambda nor a cast. -/
theorem operand_paren {is : List Sign} {n : Node} (hg : Guarded is) (hq : quiet is = true)
    (hs : s.1 ∉ [TokenKind.identifier, .typeKeyword, .leftParen, .newWord, .bang])
    (hl : s.1.isLiteral = false) (hquiet : quiet (s :: ss) = true)
    (hc : c.Sees (Sign.leftParen :: (is ++ Sign.rightParen :: s :: ss)))
    (hf : 2 * (is.length + ss.length) + 7 ≤ fuel)
    (hn : node fuel 0 c.skip = .ok n d) (hd : d.Sees (Sign.rightParen :: s :: ss)) :
    ∃ span, operand (fuel + 1) c = .ok (.paren n span) d.skip := by
  have hk : c.peek.kind = .leftParen := hc.kind (by decide)
  have hlambda := opensLambda_of_quiet hc (by
    rw [quiet_cons, quiet_append, hq, quiet_cons, hquiet]
    decide)
  have hclose : d.kind = .rightParen := hd.kind (by decide)
  have hcast : attemptCast fuel c = .ok none c :=
    attemptCast_eq_none hc hg (fun t ht => (quiet_iff.mp hq t ht).2) hs hl hf
  refine ⟨c.peek.span.merge d.peek.span, ?_⟩
  rw [operand, get_bind]
  simp only [hk]
  rw [hlambda, run_if_neg Bool.false_ne_true, bind_of_ok hcast]
  dsimp only
  rw [bind_of_ok advance_eq, bind_of_ok hn, bind_of_ok (expect_of_eq hclose)]
  rfl

/-- A type in parentheses before a parenthesis is a cast. -/
theorem operand_cast {t : HostType} (ht : t.Legible ns) (hq : quiet ss = true)
    (hc : c.Sees (Sign.leftParen :: (t.signs ns ++ Sign.rightParen :: Sign.leftParen :: ss)))
    (hf : 2 * ((t.signs ns).length + ss.length) + 7 ≤ fuel)
    (hn : ∀ e : Cursor, e.Sees (Sign.leftParen :: ss) →
      ∃ n d, node fuel UnaryOperator.power e = .ok n d ∧ d.Sees (s :: ts) ∧ P n) :
    ∃ written n span d, operand (fuel + 1) c = .ok (.cast written n span) d ∧ d.Sees (s :: ts) ∧
      t.Mirrors ns written ∧ P n := by
  have hk : c.peek.kind = .leftParen := hc.kind (by decide)
  have hlambda := opensLambda_of_quiet hc (by
    rw [quiet_cons, quiet_append, t.quiet_signs, quiet_cons, quiet_cons, hq]
    decide)
  have hskip := hc.skip (by decide) (by decide)
  have hlen : 2 * ((t.signs ns).length + (Sign.leftParen :: ss).length) + 5 ≤ fuel := by
    rw [List.length_cons]
    omega
  obtain ⟨written, d, htype, hd, hm⟩ := (t.reads ht).type_eq (by decide) hskip hlen
  have hclose : d.kind = .rightParen := hd.kind (by decide)
  have hnext := hd.skip (by decide) (by decide)
  have hopen : d.skip.kind = .leftParen := hnext.kind (by decide)
  have hcast : attemptCast fuel c = .ok (some written) d.skip := by
    refine attempt_of_ok (a := written) ?_ (by rw [hopen]; rfl)
    unfold castTarget
    rw [bind_of_ok advance_eq, bind_of_ok htype, bind_of_ok (expect_of_eq hclose)]
    rfl
  obtain ⟨n, e, hn, he, hp⟩ := hn d.skip hnext
  refine ⟨written, n, c.peek.span.merge n.span, e, ?_, he, hm, hp⟩
  rw [operand, get_bind]
  simp only [hk]
  rw [hlambda, run_if_neg Bool.false_ne_true, bind_of_ok hcast]
  dsimp only
  rw [bind_of_ok hn]
  rfl

/-- An operator before an operand. -/
theorem operand_unary_eq {op : UnaryOperator} {n : Node}
    (hk : UnaryOperator.ofToken? c.kind = some op)
    (hn : node fuel UnaryOperator.power c.skip = .ok n d) :
    operand (fuel + 1) c = .ok (.unary op n (c.peek.span.merge n.span)) d := by
  have hkind : UnaryOperator.ofToken? c.peek.kind = some op := hk
  rw [operand, get_bind]
  cases hc : c.peek.kind with
  | minus | plus | bang =>
    rw [hc] at hkind
    cases hkind
    show (advance >>= fun _ => node fuel UnaryOperator.power >>= fun inner => _) c = _
    rw [bind_of_ok advance_eq, bind_of_ok hn]
    rfl
  | _ =>
    rw [hc] at hkind
    cases hkind

theorem operand_unary {op : UnaryOperator} {n : Node} (hk : UnaryOperator.ofToken? c.kind = some op)
    (hn : node fuel UnaryOperator.power c.skip = .ok n d) :
    ∃ span, operand (fuel + 1) c = .ok (.unary op n span) d :=
  ⟨_, operand_unary_eq hk hn⟩

/-- The creation of an object. -/
theorem operand_new {created : TypeNode} {nodes : List Node} {e : Cursor} (hk : c.kind = .newWord)
    (hb : c.skip.kind ≠ .leftBracket) (ht : type fuel c.skip = .ok created d)
    (hopen : d.kind = .leftParen)
    (hargs : arguments fuel .leftParen .rightParen d = .ok nodes e) :
    ∃ span, operand (fuel + 2) c = .ok (.new created nodes span) e := by
  have hkind : c.peek.kind = .newWord := hk
  refine ⟨c.peek.span.merge e.previousSpan, ?_⟩
  rw [operand, get_bind]
  simp only [hkind]
  rw [creation, bind_of_ok (expect_of_eq hk), bind_of_ok (eat_of_ne hb),
    run_if_neg Bool.false_ne_true, bind_of_ok ht, bind_of_ok (check_of_eq hopen), run_if_pos rfl,
    bind_of_ok hargs]
  rfl

/-- The creation of an array with its items. -/
theorem operand_newArray {element : TypeNode} {span : Span} {nodes : List Node} {e : Cursor}
    (hk : c.kind = .newWord) (hb : c.skip.kind ≠ .leftBracket)
    (ht : type fuel c.skip = .ok (.array element span) d) (hopen : d.kind ≠ .leftParen)
    (hitems : initializer fuel d = .ok nodes e) :
    ∃ span, operand (fuel + 2) c = .ok (.newArray (some element) nodes span) e := by
  have hkind : c.peek.kind = .newWord := hk
  refine ⟨c.peek.span.merge e.previousSpan, ?_⟩
  rw [operand, get_bind]
  simp only [hkind]
  rw [creation, bind_of_ok (expect_of_eq hk), bind_of_ok (eat_of_ne hb),
    run_if_neg Bool.false_ne_true, bind_of_ok ht, bind_of_ok (check_of_ne hopen),
    run_if_neg Bool.false_ne_true]
  dsimp only
  rw [bind_of_ok hitems]
  rfl

/-! ## 3. What continues an expression -/

/-- A member with its type arguments. -/
theorem continued_member (left : Node) {name : String} {found : Option (List TypeNode)}
    (hp : power ≤ postfixPower) (hc : c.Sees (Sign.dot :: Sign.name name :: ss))
    (hargs : attemptTypeArgs fuel c.skip.skip = .ok found d) :
    ∃ span span', continued (fuel + 1) power left c =
      continued fuel power (.member left ⟨name, span⟩ (found.getD []) span') d := by
  have hk : c.peek.kind = .dot := hc.kind (by decide)
  have hname := hc.skip (by decide) (by decide)
  have hkind : c.skip.kind = .identifier := hname.kind (fun hk => by cases hk)
  have hlexeme : c.skip.peek.lexeme = name := (hname.peek (fun hk => by cases hk)).2
  refine ⟨c.skip.peek.span, left.span.merge d.previousSpan, ?_⟩
  rw [continued, get_bind]
  simp only [hk]
  rw [run_if_neg (Nat.not_lt.mpr hp), bind_of_ok advance_eq, bind_of_ok (expect_of_eq hkind),
    bind_of_ok hargs, hlexeme]
  rfl

/-- Arguments in parentheses. -/
theorem continued_call (left : Node) {nodes : List Node} (hk : c.kind = .leftParen)
    (hp : power ≤ postfixPower)
    (hargs : arguments fuel .leftParen .rightParen c = .ok nodes d) :
    ∃ span, continued (fuel + 1) power left c = continued fuel power (.call left nodes span) d := by
  have hkind : c.peek.kind = .leftParen := hk
  refine ⟨left.span.merge d.previousSpan, ?_⟩
  rw [continued, get_bind]
  simp only [hkind]
  rw [run_if_neg (Nat.not_lt.mpr hp), bind_of_ok hargs]
  rfl

/-- Arguments in brackets, at least one. -/
theorem continued_index (left : Node) {first : Node} {rest : List Node} (hk : c.kind = .leftBracket)
    (hp : power ≤ postfixPower)
    (hargs : arguments fuel .leftBracket .rightBracket c = .ok (first :: rest) d) :
    ∃ span, continued (fuel + 1) power left c =
      continued fuel power (.index left (first :: rest) span) d := by
  have hkind : c.peek.kind = .leftBracket := hk
  refine ⟨left.span.merge d.previousSpan, ?_⟩
  rw [continued, get_bind]
  simp only [hkind]
  rw [run_if_neg (Nat.not_lt.mpr hp), bind_of_ok hargs]
  rfl

/-- Where a token is an operator that binds tightly enough, its right operand is read. -/
theorem operator_eq (left : Node) {op : BinaryOperator} {right : Node}
    (hk : BinaryOperator.ofToken? c.peek.kind = some op) (hp : power ≤ op.power.1)
    (hr : node fuel op.power.2 c.skip = .ok right d) :
    (if c.peek.kind.isUnsupportedOperator then
        refuse (.unsupportedOperator c.peek.lexeme) c.peek.span
      else
        match BinaryOperator.ofToken? c.peek.kind with
        | none => return left
        | some op =>
          if op.power.1 < power then return left
          else do
            let _ ← advance
            let right ← node fuel op.power.2
            continued fuel power (.binary op left right (left.span.merge right.span))) c =
      continued fuel power (.binary op left right (left.span.merge right.span)) d := by
  have hsupported : c.peek.kind.isUnsupportedOperator = false := by
    generalize c.peek.kind = kind at hk ⊢
    cases kind <;> first | rfl | cases hk
  rw [run_if_neg (by rw [hsupported]; exact Bool.false_ne_true)]
  simp only [hk]
  rw [run_if_neg (Nat.not_lt.mpr hp), bind_of_ok advance_eq, bind_of_ok hr]

/-- An operator between two operands. -/
theorem continued_operator_eq (left : Node) {op : BinaryOperator} {right : Node}
    (hk : BinaryOperator.ofToken? c.kind = some op) (hp : power ≤ op.power.1)
    (hr : node fuel op.power.2 c.skip = .ok right d) :
    continued (fuel + 1) power left c =
      continued fuel power (.binary op left right (left.span.merge right.span)) d := by
  have hkind : BinaryOperator.ofToken? c.peek.kind = some op := hk
  have hrun := operator_eq left hkind hp hr
  rw [continued, get_bind]
  generalize hkk : c.peek.kind = kind at hkind hrun ⊢
  cases kind <;> first | exact hrun | cases hkind

theorem continued_operator (left : Node) {op : BinaryOperator} {right : Node}
    (hk : BinaryOperator.ofToken? c.kind = some op) (hp : power ≤ op.power.1)
    (hr : node fuel op.power.2 c.skip = .ok right d) :
    ∃ span, continued (fuel + 1) power left c =
      continued fuel power (.binary op left right span) d :=
  ⟨_, continued_operator_eq left hk hp hr⟩

/-- A conditional. -/
theorem continued_conditional (left : Node) {ifTrue ifFalse : Node} {e : Cursor}
    (hk : c.kind = .question) (hp : power ≤ conditionalPower)
    (ht : node fuel 0 c.skip = .ok ifTrue d) (hd : d.kind = .colon)
    (hr : node fuel conditionalPower d.skip = .ok ifFalse e) :
    ∃ span, continued (fuel + 1) power left c =
      continued fuel power (.conditional left ifTrue ifFalse span) e := by
  have hkind : c.peek.kind = .question := hk
  refine ⟨left.span.merge ifFalse.span, ?_⟩
  rw [continued, get_bind]
  simp only [hkind]
  rw [run_if_neg (Nat.not_lt.mpr hp), bind_of_ok advance_eq, bind_of_ok ht,
    bind_of_ok (expect_of_eq hd), bind_of_ok hr]

end Syntax.Reader

end FatArrow
