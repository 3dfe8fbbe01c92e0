import FatArrow.Proofs.Printing.ReadPart
import FatArrow.Proofs.Syntax.Grouping

/-!
# Operators are read by precedence

Names with operators before and between them are read as the one grouping of them by precedence.
Where a `<` follows a name, type arguments are tried first.  They are never found, because every `>`
of a chain stands before an operand, and type arguments do not.
-/

namespace FatArrow.Syntax

open Reader

variable {c d : Cursor} {t : Token} {front back rest : List Token} {ss ts : List Sign}

/-! ## 1. A cursor between tokens -/

namespace Cursor

/-- The cursor between the front and the back of a list of tokens, of which none was split. -/
def between (front back : List Token) : Cursor := ⟨(front ++ back).toArray, front.length, []⟩

theorem left_between : (between front back).left = back := List.drop_left

theorem peek_between : (between front (t :: back)).peek = t := by
  have hlt : front.length < (front ++ t :: back).toArray.size := by
    rw [List.size_toArray, List.length_append, List.length_cons]
    omega
  rw [peek_eq_getElem hlt]
  show (front ++ t :: back)[front.length] = t
  rw [List.getElem_append_right (Nat.le_refl _)]
  simp only [Nat.sub_self, List.getElem_cons_zero]

theorem kind_between : (between front (t :: back)).kind = t.kind :=
  congrArg Token.kind peek_between

theorem skip_between (h : t.kind ≠ .eof) :
    (between front (t :: back)).skip = between (front ++ [t]) back := by
  rw [Cursor.skip, if_neg (by rwa [kind_between]), between, between, List.append_assoc,
    List.length_append]
  rfl

theorem previousSpan_between : (between (front ++ [t]) back).previousSpan = t.span := by
  have hlength : (front ++ [t]).length = front.length + 1 := List.length_append
  have hget : (front ++ [t] ++ back).toArray[front.length]? = some t := by
    rw [List.getElem?_toArray, List.append_assoc, List.getElem?_append_right (Nat.le_refl _),
      Nat.sub_self]
    rfl
  show (if (front ++ [t]).length = 0 then _ else _) = _
  rw [hlength, if_neg (Nat.succ_ne_zero _)]
  show ((front ++ [t] ++ back).toArray[(front ++ [t]).length - 1]?.map (·.span)).getD _ = _
  rw [hlength, Nat.add_sub_cancel, hget]
  rfl

end Cursor

/-! ## 2. What is left of a chain -/

/-- The kinds of tokens that an operand starts with. -/
def operandStarts : List TokenKind := [.identifier, .minus, .plus, .bang]

/-- Every `>` stands before an operand. -/
def Followed : List Sign → Prop
  | [] => True
  | s :: ss => (s.1 = .greater → ∃ t ∈ ss.head?, t.1 ∈ operandStarts) ∧ Followed ss

theorem Followed.of_append (h : Followed (ss ++ ts)) : Followed ts := by
  induction ss with
  | nil => exact h
  | cons s ss ih => exact ih h.2

/-- What can follow an operand of a chain: operators and further operands by turns, and the end. -/
inductive Tail : List Token → Prop
  | ends {last : Token} : last.kind = .eof → Tail [last]
  | binary (t : BinaryToken) (g : Grouping) {rest : List Token} : Tail rest →
      Tail (t.token :: (g.tokens ++ rest))

theorem Tail.ended (h : Tail rest) : ∃ init last, rest = init ++ [last] ∧ last.kind = .eof := by
  induction h with
  | @ends last hlast => exact ⟨[], last, rfl, hlast⟩
  | binary t g _ ih =>
    obtain ⟨init, last, rfl, hlast⟩ := ih
    exact ⟨t.token :: (g.tokens ++ init), last, by simp only [List.cons_append, List.append_assoc],
      hlast⟩

theorem UnaryToken.kind_mem (t : UnaryToken) : t.token.kind ∈ operandStarts := by
  have hstands := t.stands
  generalize t.token.kind = kind at hstands ⊢
  cases kind <;> first | decide | cases hstands

theorem BinaryToken.kind_notMem (t : BinaryToken) :
    t.token.kind ∉ [TokenKind.greaterGreater, .arrow, .eof] := by
  have hstands := t.stands
  generalize t.token.kind = kind at hstands ⊢
  cases kind <;> first | decide | cases hstands

/-- A token that an operand starts with is one sign, and no `>`. -/
theorem signs_of_starts (h : t.kind ∈ operandStarts) :
    t.signs = [(t.kind, t.lexeme)] ∧ t.kind ≠ .greater ∧ t.kind ≠ .eof := by
  have hfacts : ∀ kind ∈ operandStarts,
      kind ≠ TokenKind.greaterGreater ∧ kind ≠ .greater ∧ kind ≠ .eof := by decide
  obtain ⟨hdouble, hgreater, hend⟩ := hfacts t.kind h
  exact ⟨Token.signs_of_ne hdouble, hgreater, hend⟩

theorem NameToken.kind_mem (t : NameToken) : t.token.kind ∈ operandStarts := by
  rw [t.named]
  decide

namespace Grouping

/-- A grouping starts with an operand. -/
theorem exists_start (g : Grouping) : ∃ t ts, g.tokens = t :: ts ∧ t.kind ∈ operandStarts := by
  induction g with
  | name t => exact ⟨t.token, [], rfl, t.kind_mem⟩
  | unary t inner _ => exact ⟨t.token, inner.tokens, rfl, t.kind_mem⟩
  | binary left u right ih _ =>
    obtain ⟨t, ts, hts, ht⟩ := ih
    exact ⟨t, ts ++ u.token :: right.tokens, by rw [tokens, hts, List.cons_append], ht⟩

/-- An operator stands before the operand that a grouping starts with. -/
theorem followed_cons (g : Grouping) (u : BinaryToken)
    (h : Followed ((g.tokens ++ rest).flatMap Token.signs)) :
    Followed ((u.token :: (g.tokens ++ rest)).flatMap Token.signs) := by
  have hdouble : u.token.kind ≠ .greaterGreater := fun hk => u.kind_notMem (by rw [hk]; decide)
  rw [List.flatMap_cons, Token.signs_of_ne hdouble]
  refine ⟨fun _ => ?_, h⟩
  obtain ⟨t, ts, hts, ht⟩ := g.exists_start
  rw [hts, List.cons_append, List.flatMap_cons, (signs_of_starts ht).1]
  exact ⟨_, rfl, ht⟩

theorem followed (g : Grouping) (h : Followed (rest.flatMap Token.signs)) :
    Followed ((g.tokens ++ rest).flatMap Token.signs) := by
  have hstart {t : Token} {rest : List Token} (ht : t.kind ∈ operandStarts)
      (h : Followed (rest.flatMap Token.signs)) :
      Followed ((t :: rest).flatMap Token.signs) := by
    obtain ⟨hsigns, hgreater, -⟩ := signs_of_starts ht
    rw [List.flatMap_cons, hsigns]
    exact ⟨fun hk => absurd hk hgreater, h⟩
  induction g generalizing rest with
  | name t => exact hstart t.kind_mem h
  | unary t inner ih => exact hstart t.kind_mem (ih h)
  | binary left u right ihl ihr =>
    rw [tokens, List.append_assoc]
    exact ihl (right.followed_cons u (ihr h))

end Grouping

theorem Tail.followed (h : Tail rest) : Followed (rest.flatMap Token.signs) := by
  induction h with
  | ends hlast =>
    rw [List.flatMap_singleton, Token.signs_of_ne (by rw [hlast]; decide)]
    refine ⟨fun hk => ?_, trivial⟩
    rw [hlast] at hk
    cases hk
  | binary t g _ ih => exact g.followed_cons t (g.followed ih)

/-- A cursor before the rest of a chain is within its buffer. -/
theorem Tail.sound (h : Tail rest) : (Cursor.between front (back ++ rest)).Sound := by
  obtain ⟨init, last, rfl, hlast⟩ := h.ended
  refine ⟨front ++ (back ++ init), last, ?_, hlast, ?_⟩
  · simp only [Cursor.between, List.append_assoc]
  · rw [List.length_append]
    exact Nat.le_add_right ..

/-! ## 3. Type arguments are not found -/

namespace Reader

/-- Type arguments end in a `>`. -/
theorem exists_close_of_typeArgs {fuel : Nat} {args : List TypeNode} (hc : c.Sound)
    (hf : 2 * c.signs.length + 2 ≤ fuel) (h : typeArgs fuel c = .ok args d) :
    ∃ ss e t, c.Reaches ss e ∧ expectClosingAngle e = .ok t d := by
  cases fuel with
  | zero => omega
  | succ fuel =>
    rw [typeArgs] at h
    obtain ⟨_, e, hopen, h⟩ := exists_of_bind h
    obtain ⟨first, e', hfirst, h⟩ := exists_of_bind h
    obtain ⟨others, e'', hothers, h⟩ := exists_of_bind h
    obtain ⟨t, d', hclose, h⟩ := exists_of_bind h
    cases h
    obtain ⟨hk, rfl⟩ := expect_eq_ok hopen
    have hend : c.kind ≠ .eof := by rw [hk]; decide
    have hlt := hc.length_skip hend
    obtain ⟨ss, hss, -⟩ := (type_steady fuel hc.skip (by omega)).taken _ _ hfirst
    have hle := hss.length_le
    have hitem (e : Cursor) (he : e.Sound) (hl : e.signs.length < c.skip.signs.length) :
        Steady (type fuel) e 0 :=
      type_steady fuel he (by omega)
    have hrest := itemsAfter_steady hitem fuel hss.sound hle (by omega)
    obtain ⟨ts, hts, -⟩ := hrest.taken _ _ hothers
    exact ⟨_, e'', t, ((hc.reaches_skip hend).trans hss).trans hts, hclose⟩

/-- Where every `>` stands before an operand, no type arguments are found. -/
theorem attemptTypeArgs_of_followed {fuel : Nat} (hc : c.Sound) (h : Followed c.signs)
    (hf : 2 * c.signs.length + 2 ≤ fuel) : attemptTypeArgs fuel c = .ok none c := by
  by_cases hless : c.kind = .less
  · have hsteady := typeArgs_steady fuel hc hf
    unfold attemptTypeArgs
    rw [bind_of_ok (check_of_eq hless), run_if_pos rfl]
    refine attempt_of_none (fun args d hr => ?_) hsteady.refused hsteady.bounded
    obtain ⟨taken, hreach, -⟩ := hsteady.taken args d hr
    refine ⟨hreach.undoes, ?_⟩
    obtain ⟨ss, e, t, he, hclose⟩ := exists_close_of_typeArgs hc hf hr
    rw [he.signs] at h
    have hfollowed := h.of_append
    have hdouble : e.kind ≠ .greaterGreater := by
      intro hk
      rw [Cursor.signs, he.sound.left_eq, List.flatMap_cons, Token.signs_double hk] at hfollowed
      obtain ⟨u, hu, hstart⟩ := hfollowed.1 rfl
      cases hu
      revert hstart
      decide
    have hexpect : expectClosingAngle e = expect .greater e := run_if_neg hdouble
    obtain ⟨hk, rfl⟩ := expect_eq_ok (hexpect ▸ hclose)
    -- an operand follows the `>`, and type arguments are not followed by one
    rw [he.sound.signs_eq (by rw [hk]; decide), Token.signs_of_ne hdouble] at hfollowed
    obtain ⟨u, hu, hstart⟩ := hfollowed.1 hk
    obtain ⟨us, hus⟩ := List.head?_eq_some_iff.mp hu
    have hsees : e.skip.Sees (u :: us) := ⟨hreach.sound, hus⟩
    have hfacts : ∀ kind ∈ operandStarts, kind ≠ .greater ∧ followsTypeArgs kind = false := by
      decide
    rw [hsees.kind (hfacts _ hstart).1]
    exact (hfacts _ hstart).2
  · exact attemptTypeArgs_of_ne hless

end Reader

/-! ## 4. Operands and operators -/

/-- Before the rest of a chain an expression ends whose operators bind at least so tightly. -/
def Stops (power : Nat) (rest : List Token) : Prop :=
  ∀ t ∈ rest.head?, ∀ op, BinaryOperator.ofToken? t.kind = some op → op.power.1 < power

namespace Reader

variable {fuel power : Nat}

theorem continued_of_stops (left : Node) (hrest : Tail rest) (hstops : Stops power rest)
    (hf : 0 < fuel) :
    continued fuel power left (.between front rest) = .ok left (.between front rest) := by
  cases hrest with
  | ends hlast =>
    refine continued_of_closer ?_ hf
    rw [Cursor.kind_between, hlast]
    decide
  | binary t g =>
    refine continued_of_loose left ?_ (hstops _ rfl _ t.stands) hf
    rw [Cursor.kind_between]
    exact t.stands

/-- A name in a chain is read without type arguments. -/
theorem operand_of_name (t : NameToken) (hrest : Tail rest) (hf : 4 * rest.length + 2 ≤ fuel) :
    operand (fuel + 1) (.between front (t.token :: rest)) =
      .ok (Grouping.name t).node (.between (front ++ [t.token]) rest) := by
  have hpeek := @Cursor.peek_between t.token front rest
  have hkind : (Cursor.between front (t.token :: rest)).kind = .identifier := by
    rw [Cursor.kind_between, t.named]
  have hskip := @Cursor.skip_between t.token front rest (by rw [t.named]; decide)
  have hsound : (Cursor.between (front ++ [t.token]) rest).Sound :=
    @Tail.sound _ [] rest hrest
  have hargs : attemptTypeArgs fuel (.between (front ++ [t.token]) rest) =
      .ok none (.between (front ++ [t.token]) rest) := by
    have hsigns : (Cursor.between (front ++ [t.token]) rest).signs = rest.flatMap Token.signs := by
      rw [Cursor.signs, Cursor.left_between]
    have hlength := length_flatMap_signs rest
    refine attemptTypeArgs_of_followed hsound (by rw [hsigns]; exact hrest.followed) ?_
    rw [hsigns]
    omega
  have harrow : ((Cursor.between front (t.token :: rest)).peekAt 1).kind ≠ .arrow := by
    have hfirst : (Cursor.between front (t.token :: rest)).Sound :=
      @Tail.sound front [t.token] rest hrest
    rw [hfirst.peekAt_succ (by rw [hkind]; decide), hskip]
    show (Cursor.between (front ++ [t.token]) rest).kind ≠ _
    cases hrest with
    | ends hlast =>
      rw [Cursor.kind_between, hlast]
      decide
    | binary u g =>
      rw [Cursor.kind_between]
      exact fun hk => u.kind_notMem (by rw [hk]; decide)
  rw [operand, get_bind]
  simp only [show (Cursor.between front (t.token :: rest)).peek.kind = _ from hkind]
  rw [bind_of_ok advance_eq, run_if_neg harrow, hskip, bind_of_ok hargs, hpeek, get_bind,
    Cursor.previousSpan_between, Span.merge_self]
  rfl

end Reader

/-! ## 5. Groupings -/

/-- An operator binds its right operand by one more than its left one, and both more loosely than an
operator before an operand. -/
theorem BinaryToken.power_lt (t : BinaryToken) :
    t.op.power.2 = t.power + 1 ∧ t.op.power.2 ≤ UnaryOperator.power := by
  have hpower (op : BinaryOperator) :
      op.power.2 = op.power.1 + 1 ∧ op.power.2 ≤ UnaryOperator.power := by
    cases op <;> decide
  exact hpower t.op

theorem Stops.mono {power power' : Nat} (h : Stops power rest) (hle : power ≤ power') :
    Stops power' rest :=
  fun t ht op hop => Nat.lt_of_lt_of_le (h t ht op hop) hle

/-- How tightly an operator has to bind to take the end of a grouping for its left operand. -/
def Grouping.power : Grouping → Nat
  | binary _ t _ => t.op.power.2
  | _ => UnaryOperator.power

theorem Grouping.power_of_root {g : Grouping} (h : g.root? = none) :
    g.power = UnaryOperator.power := by
  cases g with
  | name | unary => rfl
  | binary => cases h

/-- A looser operator ends what binds at least as tightly. -/
theorem Grouping.lt_power {g : Grouping} {t : BinaryToken} (h : ∀ u ∈ g.root?, t.power ≤ u.power) :
    t.power < g.power := by
  have hunary := t.power_lt
  cases g with
  | name | unary =>
    show t.power < UnaryOperator.power
    omega
  | binary left u right =>
    have hle := h u rfl
    have hbinary := u.power_lt
    show t.power < u.op.power.2
    omega

/-- A tighter operator is read on the right of another one. -/
theorem Grouping.le_power {g : Grouping} {t : BinaryToken} (h : ∀ u ∈ g.root?, t.power < u.power) :
    t.op.power.2 ≤ g.power := by
  have hunary := t.power_lt
  cases g with
  | name | unary => exact hunary.2
  | binary left u right =>
    have hlt := h u rfl
    have hbinary := u.power_lt
    show t.op.power.2 ≤ u.op.power.2
    omega

/-- A graded grouping is read as it is, and what goes on with it is read next. -/
theorem Grouping.Graded.node_eq {g : Grouping} (hg : g.Graded) {fuel power : Nat}
    (hpower : ∀ t ∈ g.root?, power ≤ t.power) (hrest : Tail rest) (hstops : Stops g.power rest)
    (hf : 4 * (g.tokens.length + rest.length) + 4 ≤ fuel) :
    ∃ fuel', 4 * rest.length + 3 ≤ fuel' ∧
      Reader.node fuel power (.between front (g.tokens ++ rest)) =
        continued fuel' power g.node (.between (front ++ g.tokens) rest) := by
  induction hg generalizing front rest fuel power with
  | name t =>
    obtain ⟨fuel, rfl⟩ := Nat.exists_eq_add_of_le' (show 2 ≤ fuel by omega)
    have hlen : (Grouping.name t).tokens.length = 1 := rfl
    have hoperand := @operand_of_name front rest fuel t hrest (by omega)
    refine ⟨fuel + 1, by omega, ?_⟩
    rw [Reader.node]
    exact bind_of_ok hoperand
  | @unary t inner hroot hgraded ih =>
    obtain ⟨fuel, rfl⟩ := Nat.exists_eq_add_of_le' (show 2 ≤ fuel by omega)
    have hlen : (Grouping.unary t inner).tokens.length = inner.tokens.length + 1 := rfl
    have hend : t.token.kind ≠ .eof := (signs_of_starts t.kind_mem).2.2
    have hunary : Stops UnaryOperator.power rest := hstops
    have hinner : Stops inner.power rest := by rwa [Grouping.power_of_root hroot]
    have hpower : ∀ u ∈ inner.root?, UnaryOperator.power ≤ u.power := by simp [hroot]
    obtain ⟨fuel', hf', hnode⟩ := @ih (front ++ [t.token]) rest fuel UnaryOperator.power hpower
      hrest hinner (by omega)
    rw [continued_of_stops _ hrest hunary (by omega), List.append_assoc] at hnode
    have hoperand := @operand_unary_eq (.between front (t.token :: (inner.tokens ++ rest))) _ fuel
      t.op inner.node (by rw [Cursor.kind_between]; exact t.stands)
      (by rw [Cursor.skip_between hend]; exact hnode)
    rw [Cursor.peek_between] at hoperand
    refine ⟨fuel + 1, by omega, ?_⟩
    rw [Reader.node]
    exact bind_of_ok hoperand
  | @binary left right t hleft hright hl hr ihl ihr =>
    have hlen : (Grouping.binary left t right).tokens.length =
        left.tokens.length + (right.tokens.length + 1) := by
      rw [Grouping.tokens, List.length_append, List.length_cons]
    have hmore : (t.token :: (right.tokens ++ rest)).length =
        right.tokens.length + rest.length + 1 := by
      rw [List.length_cons, List.length_append]
    have hle : power ≤ t.power := hpower t rfl
    have hend : t.token.kind ≠ .eof := fun hk => t.kind_notMem (by rw [hk]; decide)
    -- the left operand ends before the operator, which does not bind more tightly than it does
    have hstopsl : Stops left.power (t.token :: (right.tokens ++ rest)) := by
      intro u hu op hop
      cases hu
      cases t.stands.symm.trans hop
      exact Grouping.lt_power hleft
    obtain ⟨fuel', hf', hnode⟩ := @ihl front (t.token :: (right.tokens ++ rest)) fuel power
      (fun u hu => Nat.le_trans hle (hleft u hu)) (.binary t right hrest) hstopsl (by omega)
    obtain ⟨fuel', rfl⟩ := Nat.exists_eq_add_of_le' (show 1 ≤ fuel' by omega)
    -- the right operand ends where the whole grouping does
    have hstopsr : Stops t.op.power.2 rest := hstops
    obtain ⟨fuel'', hf'', hnode'⟩ := @ihr (front ++ left.tokens ++ [t.token]) rest fuel'
      t.op.power.2 (fun u hu => by rw [t.power_lt.1]; exact hright u hu) hrest
      (hstopsr.mono (Grouping.le_power hright)) (by omega)
    rw [continued_of_stops _ hrest hstopsr (by omega), ← Cursor.skip_between hend] at hnode'
    have hkind : BinaryOperator.ofToken? (Cursor.between (front ++ left.tokens)
        (t.token :: (right.tokens ++ rest))).kind = some t.op := by
      rw [Cursor.kind_between]
      exact t.stands
    refine ⟨fuel', by omega, ?_⟩
    rw [Grouping.tokens, List.append_assoc, List.cons_append, hnode,
      continued_operator_eq left.node hkind hle hnode', List.append_assoc, List.append_assoc]
    rfl

/-- A graded grouping in front of the end of the text is read as it is, and whole. -/
theorem Grouping.Graded.node_ofTokens {g : Grouping} (hg : g.Graded) {last : Token}
    (hlast : last.kind = .eof) :
    Reader.node (readingDepth (g.tokens ++ [last])) 0 (.ofTokens (g.tokens ++ [last])) =
      .ok g.node (.between g.tokens [last]) := by
  have hstops (power : Nat) : Stops power [last] := by
    intro t ht op hop
    cases ht
    rw [hlast] at hop
    cases hop
  have hdepth : 4 * (g.tokens.length + [last].length) + 4 ≤ readingDepth (g.tokens ++ [last]) := by
    rw [readingDepth, List.length_append]
    omega
  obtain ⟨fuel, hfuel, hnode⟩ :=
    @hg.node_eq [] [last] _ _ 0 (fun t _ => Nat.zero_le _) (.ends hlast) (hstops _) hdepth
  rw [continued_of_stops _ (.ends hlast) (hstops 0) (by omega)] at hnode
  exact hnode

/-- Every chain is read, to its end, as the one grouping of it by precedence. -/
theorem Chain.read_by_precedence (c : Chain) {last : Token} (hlast : last.kind = .eof) :
    ∃ g : Grouping,
      Reader.node (readingDepth (c.tokens ++ [last])) 0 (.ofTokens (c.tokens ++ [last])) =
        .ok g.node ⟨(c.tokens ++ [last]).toArray, c.tokens.length, []⟩ ∧
      g.tokens = c.tokens ∧ g.Graded ∧
      ∀ g' : Grouping, g'.tokens = c.tokens → g'.Graded → g' = g := by
  obtain ⟨htokens, hgraded⟩ := c.grouping_spec
  have hrun := hgraded.node_ofTokens hlast
  refine ⟨c.grouping, by rw [← htokens]; exact hrun, htokens, hgraded, fun g' htokens' hgraded' => ?_⟩
  -- both groupings are what is read from the same tokens
  have hrun' := hgraded'.node_ofTokens hlast
  rw [htokens', ← htokens, hrun] at hrun'
  injection hrun' with hnode
  exact Grouping.eq_of_node hnode.symm (htokens'.trans htokens.symm)

/-- The tokens of `a<b>-c*d`, in which the `<b>` could be taken for type arguments. -/
def angledChain : Chain where
  first := ⟨[], ⟨⟨.identifier, "a", ⟨1, 1, 0, 1⟩⟩, rfl⟩⟩
  links := [
    (⟨⟨.less, "<", ⟨1, 2, 1, 1⟩⟩, .less, rfl⟩, ⟨[], ⟨⟨.identifier, "b", ⟨1, 3, 2, 1⟩⟩, rfl⟩⟩),
    (⟨⟨.greater, ">", ⟨1, 4, 3, 1⟩⟩, .greater, rfl⟩,
      ⟨[⟨⟨.minus, "-", ⟨1, 5, 4, 1⟩⟩, .negate, rfl⟩], ⟨⟨.identifier, "c", ⟨1, 6, 5, 1⟩⟩, rfl⟩⟩),
    (⟨⟨.star, "*", ⟨1, 7, 6, 1⟩⟩, .multiply, rfl⟩, ⟨[], ⟨⟨.identifier, "d", ⟨1, 8, 7, 1⟩⟩, rfl⟩⟩)]

/-- Two comparisons are grouped from the left, and the product goes below them. -/
theorem Chain.read_by_precedence_angled :
    let last : Token := ⟨.eof, "", ⟨1, 9, 8, 0⟩⟩
    let tokens := angledChain.tokens ++ [last]
    last.kind = .eof ∧ ∃ g : Grouping,
      (Reader.node (readingDepth tokens) 0 (.ofTokens tokens) =
          .ok g.node ⟨tokens.toArray, angledChain.tokens.length, []⟩ ∧
        g.tokens = angledChain.tokens ∧ g.Graded ∧
        ∀ g' : Grouping, g'.tokens = angledChain.tokens → g'.Graded → g' = g) ∧
      ∃ a less b greater minus c star d, g = .binary (.binary (.name a) less (.name b)) greater
        (.binary (.unary minus (.name c)) star (.name d)) := by
  intro last tokens
  obtain ⟨g, hread⟩ := @Chain.read_by_precedence angledChain last rfl
  obtain ⟨htokens, hgraded⟩ := angledChain.grouping_spec
  refine ⟨rfl, g, hread, ?_⟩
  rw [← hread.2.2.2 _ htokens hgraded]
  exact ⟨_, _, _, _, _, _, _, _, rfl⟩

end FatArrow.Syntax
