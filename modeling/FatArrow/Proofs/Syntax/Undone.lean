import FatArrow.Proofs.Syntax.Reader

/-!
# What is tried leaves no trace

Every split of a `>>` is kept in the log of the cursor.  Whatever is read, from whatever cursor, and
however it ends: undoing the splits that were made since restores the buffer and the log.  So a trial
that comes to nothing leaves the cursor exactly where it was.
-/

namespace FatArrow.Syntax.Reader

variable {α β : Type} {r : Reader α} {f : α → Reader β}

/-! ## 1. Steps that can be undone -/

/-- Where a run leads, be it that it ends or that it fails. -/
def leadsTo : EStateM.Result Failure Cursor α → Cursor
  | .ok _ d => d
  | .error _ d => d

/-- From every cursor, the splits that a step makes can be undone. -/
def Undoable (r : Reader α) : Prop := ∀ c : Cursor, c.Undoes (leadsTo (r c))

namespace Undoable

theorem ok (h : Undoable r) {a : α} {c d : Cursor} (hr : r c = .ok a d) : c.Undoes d := by
  have hc := h c
  rwa [hr] at hc

theorem error (h : Undoable r) {e : Failure} {c d : Cursor} (hr : r c = .error e d) :
    c.Undoes d := by
  have hc := h c
  rwa [hr] at hc

theorem pure (a : α) : Undoable (Pure.pure a) := fun c => .refl c

theorem throw (e : Failure) : Undoable (MonadExcept.throw e : Reader α) := fun c => .refl c

theorem refuse (cause : Cause) (span : Span) : Undoable (Reader.refuse cause span : Reader α) :=
  throw _

theorem get : Undoable (MonadState.get : Reader Cursor) := fun c => .refl c

/-- Of two steps the later one is undone first. -/
theorem bind (h : Undoable r) (hf : ∀ a, Undoable (f a)) : Undoable (r >>= f) := by
  intro c
  cases hr : r c with
  | ok a d =>
    rw [bind_of_ok hr]
    exact (h.ok hr).trans (hf a d)
  | error e d =>
    rw [bind_of_error hr]
    exact h.error hr

theorem map (h : Undoable r) (g : α → β) : Undoable (g <$> r) :=
  h.bind fun a => pure (g a)

theorem ite {p : Prop} [Decidable p] {r' : Reader α} (h : Undoable r) (h' : Undoable r') :
    Undoable (if p then r else r') := by
  split
  · exact h
  · exact h'

theorem advance : Undoable Reader.advance := Cursor.undoes_skip

theorem check (kind : TokenKind) : Undoable (Reader.check kind) :=
  get.bind fun _ => pure _

theorem eat (kind : TokenKind) : Undoable (Reader.eat kind) :=
  (check kind).bind fun _ => ite (advance.bind fun _ => pure _) (pure _)

theorem expect (kind : TokenKind) : Undoable (Reader.expect kind) :=
  get.bind fun _ => ite advance (refuse _ _)

/-- The one step that makes a split enters it in the log. -/
theorem expectClosingAngle : Undoable Reader.expectClosingAngle := by
  intro c
  by_cases hk : c.kind = .greaterGreater
  · have hrun : Reader.expectClosingAngle c = .ok (Cursor.halves c.peek).1 c.split := run_if_pos hk
    rw [hrun]
    exact c.undoes_split
  · have hrun : Reader.expectClosingAngle c = Reader.expect .greater c := run_if_neg hk
    rw [hrun]
    exact expect .greater c

/-- A trial of a step that can be undone ends behind what the step took, or where it began. -/
theorem attempt_cases (h : Undoable r) (accepts : α → Cursor → Bool) (c : Cursor) :
    (∃ a d, r c = .ok a d ∧ Reader.attempt r accepts c = .ok (some a) d) ∨
    Reader.attempt r accepts c = .ok none c ∨
    (∃ d, r c = .error .exhausted d ∧ Reader.attempt r accepts c = .error .exhausted d) := by
  cases hr : r c with
  | ok a d =>
    cases haccepts : accepts a d with
    | true => exact .inl ⟨a, d, rfl, attempt_of_ok hr haccepts⟩
    | false => exact .inr (.inl (attempt_of_rejected hr (h.ok hr) haccepts))
  | error e d =>
    cases e with
    | refused x => exact .inr (.inl (attempt_of_refused accepts hr (h.error hr)))
    | exhausted =>
      have hobserve : observe r c = .ok (.error .exhausted) d := by
        unfold observe
        rw [hr]
      refine .inr (.inr ⟨d, rfl, ?_⟩)
      unfold Reader.attempt
      rw [get_bind, bind_of_ok hobserve]
      rfl

theorem attempt (h : Undoable r) (accepts : α → Cursor → Bool) :
    Undoable (Reader.attempt r accepts) := by
  intro c
  rcases h.attempt_cases accepts c with ⟨a, d, hr, hrun⟩ | hrun | ⟨d, hr, hrun⟩
  · rw [hrun]
    exact h.ok hr
  · rw [hrun]
    exact .refl c
  · rw [hrun]
    exact h.error hr

/-- A trial that comes to nothing leaves the cursor as it was. -/
theorem eq_of_none (h : Undoable r) {accepts : α → Cursor → Bool} {c d : Cursor}
    (hr : Reader.attempt r accepts c = .ok none d) : d = c := by
  rcases h.attempt_cases accepts c with ⟨a, e, -, hrun⟩ | hrun | ⟨e, -, hrun⟩
  all_goals
    rw [hr] at hrun
    cases hrun
  rfl

theorem itemsAfter {item : Reader α} (h : Undoable item) (ends : TokenKind → Bool) (fuel : Nat) :
    Undoable (Reader.itemsAfter item ends fuel) := by
  induction fuel with
  | zero => exact throw _
  | succ fuel ih =>
    exact (eat .comma).bind fun _ => ite (get.bind fun _ => ite (pure _)
      (h.bind fun _ => ih.bind fun _ => pure _)) (pure _)

theorem items {item : Reader α} (h : Undoable item) (close : TokenKind) (trailing : Bool)
    (fuel : Nat) : Undoable (Reader.items item close trailing fuel) :=
  (check close).bind fun _ => ite (pure _)
    (h.bind fun _ => (h.itemsAfter _ fuel).bind fun _ => pure _)

end Undoable

/-! ## 2. Types -/

theorem typeEndings_undoable (fuel : Nat) (type : TypeNode) : Undoable (typeEndings fuel type) := by
  induction fuel generalizing type with
  | zero => exact .throw _
  | succ fuel ih =>
    unfold typeEndings
    refine Undoable.get.bind fun c => .ite ?_ (.ite ?_ (.pure _))
    · exact Undoable.advance.bind fun last => ih _
    · exact Undoable.advance.bind fun _ => Undoable.advance.bind fun last => ih _

mutual

theorem type_undoable (fuel : Nat) : Undoable (type fuel) := by
  cases fuel with
  | zero => exact .throw _
  | succ fuel =>
    rw [type]
    exact (typeBase_undoable fuel).bind fun base => typeEndings_undoable fuel base

theorem typeBase_undoable (fuel : Nat) : Undoable (typeBase fuel) := by
  cases fuel with
  | zero => exact .throw _
  | succ fuel =>
    rw [typeBase]
    refine Undoable.get.bind fun c => ?_
    dsimp only
    split
    · exact Undoable.advance.bind fun _ => .pure _
    · refine (segment_undoable fuel).bind fun first => (segments_undoable fuel).bind fun rest => ?_
      exact Undoable.get.bind fun _ => .pure _
    · exact .refuse _ _

theorem segments_undoable (fuel : Nat) : Undoable (segments fuel) := by
  cases fuel with
  | zero => exact .throw _
  | succ fuel =>
    rw [segments]
    refine Undoable.get.bind fun c => .ite (Undoable.advance.bind fun _ => ?_) (.pure _)
    exact (segment_undoable fuel).bind fun _ => (segments_undoable fuel).bind fun _ => .pure _

theorem segment_undoable (fuel : Nat) : Undoable (segment fuel) := by
  cases fuel with
  | zero => exact .throw _
  | succ fuel =>
    rw [segment]
    refine (Undoable.expect .identifier).bind fun token => (Undoable.check .less).bind fun _ => ?_
    refine .ite ((typeArgs_undoable fuel).bind fun _ => .pure _) ?_
    exact (Undoable.pure _).bind fun _ => .pure _

theorem typeArgs_undoable (fuel : Nat) : Undoable (typeArgs fuel) := by
  cases fuel with
  | zero => exact .throw _
  | succ fuel =>
    rw [typeArgs]
    refine (Undoable.expect .less).bind fun _ => (type_undoable fuel).bind fun first => ?_
    refine ((type_undoable fuel).itemsAfter _ fuel).bind fun rest => ?_
    exact Undoable.expectClosingAngle.bind fun _ => .pure _

end

theorem castTarget_undoable (fuel : Nat) : Undoable (castTarget fuel) :=
  Undoable.advance.bind fun _ => (type_undoable fuel).bind fun _ =>
    (Undoable.expect .rightParen).bind fun _ => .pure _

theorem attemptTypeArgs_undoable (fuel : Nat) : Undoable (attemptTypeArgs fuel) :=
  (Undoable.check .less).bind fun _ => .ite ((typeArgs_undoable fuel).attempt _) (.pure _)

/-! ## 3. Trials -/

/-- Neither a cast nor type arguments that are tried and not found leave a trace: the buffer, the
position and the log are what they were, from whatever cursor and whatever was split on the way. -/
theorem eq_of_attempt_none (fuel : Nat) (c d : Cursor) :
    (attemptCast fuel c = .ok none d → d = c) ∧ (attemptTypeArgs fuel c = .ok none d → d = c) := by
  refine ⟨(castTarget_undoable fuel).eq_of_none, fun h => ?_⟩
  by_cases hk : c.kind = .less
  · have hrun : attemptTypeArgs fuel c =
        attempt (typeArgs fuel) (fun _ c => followsTypeArgs c.kind) c := by
      unfold attemptTypeArgs
      rw [bind_of_ok (check_of_eq hk), run_if_pos rfl]
    exact (typeArgs_undoable fuel).eq_of_none (hrun ▸ h)
  · have hrun : attemptTypeArgs fuel c = .ok none c := by
      unfold attemptTypeArgs
      rw [bind_of_ok (check_of_ne hk), run_if_neg Bool.false_ne_true]
      rfl
    rw [hrun] at h
    cases h
    rfl

/-- The tokens of `(A<B<C>> + d)`. -/
def nestedSum : Array Token :=
  #[⟨.leftParen, "(", ⟨1, 1, 0, 1⟩⟩, ⟨.identifier, "A", ⟨1, 2, 1, 1⟩⟩, ⟨.less, "<", ⟨1, 3, 2, 1⟩⟩,
    ⟨.identifier, "B", ⟨1, 4, 3, 1⟩⟩, ⟨.less, "<", ⟨1, 5, 4, 1⟩⟩, ⟨.identifier, "C", ⟨1, 6, 5, 1⟩⟩,
    ⟨.greaterGreater, ">>", ⟨1, 7, 6, 2⟩⟩, ⟨.plus, "+", ⟨1, 10, 9, 1⟩⟩,
    ⟨.identifier, "d", ⟨1, 12, 11, 1⟩⟩, ⟨.rightParen, ")", ⟨1, 13, 12, 1⟩⟩,
    ⟨.eof, "", ⟨1, 14, 13, 0⟩⟩]

/-- Both trials split the `>>` and come to nothing at the sum; the split is gone after either. -/
theorem eq_of_attempt_none_nested :
    (leadsTo (castTarget 20 ⟨nestedSum, 0, []⟩)).splits = [(6, nestedSum[6])] ∧
    (∃ d, attemptCast 20 ⟨nestedSum, 0, []⟩ = .ok none d ∧ d = ⟨nestedSum, 0, []⟩) ∧
    (leadsTo (typeArgs 20 ⟨nestedSum, 2, []⟩)).splits = [(6, nestedSum[6])] ∧
    (∃ d, attemptTypeArgs 20 ⟨nestedSum, 2, []⟩ = .ok none d ∧ d = ⟨nestedSum, 2, []⟩) :=
  ⟨by decide +kernel, ⟨_, rfl, (eq_of_attempt_none 20 _ _).1 rfl⟩, by decide +kernel,
    ⟨_, rfl, (eq_of_attempt_none 20 _ _).2 rfl⟩⟩

/-! ## 4. Expressions -/

theorem parameter_undoable (fuel : Nat) : Undoable (parameter fuel) := by
  have hnamed (c : Cursor) (written : Option TypeNode) : Undoable (do
      let name ← expect .identifier
      return (⟨written, ⟨name.lexeme, name.span⟩, c.peek.span.merge name.span⟩ : Parameter)) :=
    (Undoable.expect .identifier).bind fun name => .pure _
  refine Undoable.get.bind fun c => .ite ?_ ?_
  · exact (Undoable.pure _).bind (hnamed c)
  · exact ((type_undoable fuel).map _).bind (hnamed c)

theorem literalNode_undoable (token : Token) : Undoable (literalNode token) := by
  unfold literalNode
  split
  · exact .pure _
  · exact .throw _

mutual

theorem node_undoable (fuel power : Nat) : Undoable (node fuel power) := by
  cases fuel with
  | zero => exact .throw _
  | succ fuel =>
    rw [node]
    exact (operand_undoable fuel).bind fun first => continued_undoable fuel power first

theorem continued_undoable (fuel power : Nat) (left : Node) :
    Undoable (continued fuel power left) := by
  cases fuel with
  | zero => exact .throw _
  | succ fuel =>
    rw [continued]
    refine Undoable.get.bind fun c => ?_
    dsimp only
    split
    · refine .ite (.pure _) (Undoable.advance.bind fun _ => ?_)
      refine (Undoable.expect .identifier).bind fun name => ?_
      exact (attemptTypeArgs_undoable fuel).bind fun args => Undoable.get.bind fun d =>
        continued_undoable fuel power _
    · refine .ite (.pure _) ((arguments_undoable fuel _ _).bind fun args => ?_)
      exact Undoable.get.bind fun d => continued_undoable fuel power _
    · refine .ite (.pure _) ((arguments_undoable fuel _ _).bind fun args => .ite ?_ ?_)
      · exact Undoable.get.bind fun d => (Undoable.refuse _ _).bind fun _ =>
          Undoable.get.bind fun d => continued_undoable fuel power _
      · exact Undoable.get.bind fun d => continued_undoable fuel power _
    · refine .ite (.pure _) (Undoable.advance.bind fun _ => ?_)
      refine (node_undoable fuel 0).bind fun ifTrue => (Undoable.expect .colon).bind fun _ => ?_
      exact (node_undoable fuel conditionalPower).bind fun ifFalse => continued_undoable fuel power _
    · refine .ite (.refuse _ _) ?_
      split
      · exact .pure _
      · refine .ite (.pure _) (Undoable.advance.bind fun _ => ?_)
        exact (node_undoable fuel _).bind fun right => continued_undoable fuel power _

theorem operand_undoable (fuel : Nat) : Undoable (operand fuel) := by
  cases fuel with
  | zero => exact .throw _
  | succ fuel =>
    rw [operand]
    refine Undoable.get.bind fun c => ?_
    dsimp only
    split
    · refine Undoable.advance.bind fun _ => .ite ?_ ?_
      · exact (Undoable.expect .arrow).bind fun _ => (node_undoable fuel 0).bind fun body => .pure _
      · exact (attemptTypeArgs_undoable fuel).bind fun args => Undoable.get.bind fun d => .pure _
    · exact Undoable.advance.bind fun _ => .pure _
    · refine .ite (parenthesizedLambda_undoable fuel) ?_
      refine ((castTarget_undoable fuel).attempt _).bind fun found => ?_
      split
      · exact (node_undoable fuel _).bind fun inner => .pure _
      · refine Undoable.advance.bind fun _ => (node_undoable fuel 0).bind fun inner => ?_
        exact (Undoable.expect .rightParen).bind fun close => .pure _
    · exact creation_undoable fuel
    · refine .ite (Undoable.advance.bind fun _ => literalNode_undoable _) ?_
      split
      · exact Undoable.advance.bind fun _ => (node_undoable fuel _).bind fun inner => .pure _
      · exact .ite (.refuse _ _) (.refuse _ _)

theorem parenthesizedLambda_undoable (fuel : Nat) : Undoable (parenthesizedLambda fuel) := by
  cases fuel with
  | zero => exact .throw _
  | succ fuel =>
    rw [parenthesizedLambda]
    refine (Undoable.expect .leftParen).bind fun start => ?_
    refine ((parameter_undoable fuel).items .rightParen false fuel).bind fun params => ?_
    refine (Undoable.expect .rightParen).bind fun _ => (Undoable.expect .arrow).bind fun _ => ?_
    exact (node_undoable fuel 0).bind fun body => .pure _

theorem creation_undoable (fuel : Nat) : Undoable (creation fuel) := by
  cases fuel with
  | zero => exact .throw _
  | succ fuel =>
    rw [creation]
    refine (Undoable.expect .newWord).bind fun start => (Undoable.eat .leftBracket).bind fun _ => ?_
    refine .ite ?_ ((type_undoable fuel).bind fun created => ?_)
    · refine (Undoable.expect .rightBracket).bind fun _ => ?_
      exact (initializer_undoable fuel).bind fun members => Undoable.get.bind fun d => .pure _
    · refine (Undoable.check .leftParen).bind fun _ => .ite ?_ ?_
      · exact (arguments_undoable fuel _ _).bind fun args => Undoable.get.bind fun d => .pure _
      · split
        · exact (initializer_undoable fuel).bind fun members => Undoable.get.bind fun d => .pure _
        · exact Undoable.get.bind fun d => .ite (.refuse _ _) (.refuse _ _)

theorem initializer_undoable (fuel : Nat) : Undoable (initializer fuel) := by
  cases fuel with
  | zero => exact .throw _
  | succ fuel =>
    rw [initializer]
    refine (Undoable.expect .leftBrace).bind fun _ => ?_
    refine ((node_undoable fuel 0).items .rightBrace true fuel).bind fun members => ?_
    exact (Undoable.expect .rightBrace).bind fun _ => .pure _

theorem arguments_undoable (fuel : Nat) (opening closing : TokenKind) :
    Undoable (arguments fuel opening closing) := by
  cases fuel with
  | zero => exact .throw _
  | succ fuel =>
    rw [arguments]
    refine (Undoable.expect opening).bind fun _ => ?_
    refine ((node_undoable fuel 0).items closing false fuel).bind fun args => ?_
    exact (Undoable.expect closing).bind fun _ => .pure _

end

/-- Undoing every split that reading an expression made restores the tokens that were scanned. -/
theorem undo_of_node (fuel power : Nat) (tokens : List Token) :
    let d := leadsTo (node fuel power (Cursor.ofTokens tokens))
    Cursor.undo d.buffer d.splits.length d.splits = (tokens.toArray, []) := by
  intro d
  obtain ⟨n, hn, hundo⟩ := node_undoable fuel power (Cursor.ofTokens tokens)
  have hall : d.splits.length = n := hn.trans (Nat.zero_add n)
  rw [hall]
  exact hundo

end FatArrow.Syntax.Reader
