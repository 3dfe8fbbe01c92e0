import FatArrow.Proofs.Syntax.Cursor

/-!
# Steps that read tokens

How the small steps of reading run, and what a trial leaves behind: where it is refused the cursor
goes back to where it was, if every split made on the way can be undone.
-/

namespace FatArrow.Syntax.Reader

variable {α β : Type} {r : Reader α} {f : α → Reader β} {c d : Cursor} {a : α} {e : Failure}
  {kind : TokenKind}

/-! ## 1. One step after the other -/

section Steps

/-! These hold of steps that fail in any way. -/

variable {ε : Type} {r r' : EStateM ε Cursor α} {f : α → EStateM ε Cursor β} {e : ε}

theorem bind_of_ok (h : r c = .ok a d) : (r >>= f) c = f a d := by
  show EStateM.bind r f c = _
  unfold EStateM.bind
  rw [h]

theorem bind_of_error (h : r c = .error e d) : (r >>= f) c = .error e d := by
  show EStateM.bind r f c = _
  unfold EStateM.bind
  rw [h]

/-- Two steps succeed one after the other. -/
theorem exists_of_bind {b : β} (h : (r >>= f) c = .ok b d) :
    ∃ a e, r c = .ok a e ∧ f a e = .ok b d := by
  cases hr : r c with
  | ok a e =>
    rw [bind_of_ok hr] at h
    exact ⟨a, e, rfl, h⟩
  | error e e' =>
    rw [bind_of_error hr] at h
    cases h

theorem run_if_pos {p : Prop} [Decidable p] (h : p) : (if p then r else r') c = r c := by
  rw [if_pos h]

theorem run_if_neg {p : Prop} [Decidable p] (h : ¬ p) : (if p then r else r') c = r' c := by
  rw [if_neg h]

theorem get_bind (f : Cursor → EStateM ε Cursor β) : (get >>= f) c = f c c := rfl

end Steps

theorem pure_eq (a : α) (c : Cursor) : (pure a : Reader α) c = .ok a c := rfl

theorem advance_eq : advance c = .ok c.peek c.skip := rfl

theorem check_eq : check kind c = .ok (c.kind == kind) c := rfl

theorem check_of_eq (h : c.kind = kind) : check kind c = .ok true c := by
  rw [check_eq, h, beq_self_eq_true]

theorem check_of_ne (h : c.kind ≠ kind) : check kind c = .ok false c := by
  rw [check_eq, beq_false_of_ne h]

theorem eat_of_eq (h : c.kind = kind) : eat kind c = .ok true c.skip := by
  unfold eat
  rw [bind_of_ok (check_of_eq h)]
  rfl

theorem eat_of_ne (h : c.kind ≠ kind) : eat kind c = .ok false c := by
  unfold eat
  rw [bind_of_ok (check_of_ne h)]
  rfl

theorem expect_of_eq (h : c.kind = kind) : expect kind c = .ok c.peek c.skip := by
  unfold expect
  rw [get_bind]
  exact run_if_pos h

theorem expect_of_ne (h : c.kind ≠ kind) :
    expect kind c = .error (.refused ⟨.expectedToken kind c.kind, c.peek.span⟩) c := by
  unfold expect
  rw [get_bind]
  exact run_if_neg h

/-! ## 2. Trials -/

theorem attempt_of_ok {accepts : α → Cursor → Bool} (h : r c = .ok a d)
    (ha : accepts a d = true) : attempt r accepts c = .ok (some a) d := by
  have hobserve : observe r c = .ok (.ok a) d := by
    unfold observe
    rw [h]
  unfold attempt
  rw [get_bind, bind_of_ok hobserve]
  dsimp only
  rw [get_bind, run_if_pos ha]
  rfl

/-- Where the result of a step is not accepted, the trial leaves no trace. -/
theorem attempt_of_rejected {accepts : α → Cursor → Bool} (h : r c = .ok a d)
    (hu : c.Undoes d) (ha : accepts a d = false) : attempt r accepts c = .ok none c := by
  have hobserve : observe r c = .ok (.ok a) d := by
    unfold observe
    rw [h]
  unfold attempt
  rw [get_bind, bind_of_ok hobserve]
  dsimp only
  rw [get_bind, ha, run_if_neg Bool.false_ne_true]
  show EStateM.Result.ok none (d.rewind c.position c.splits.length) = _
  rw [hu.rewind]

/-- Where a step is refused, the trial leaves no trace. -/
theorem attempt_of_refused (accepts : α → Cursor → Bool) {x : SyntaxError}
    (h : r c = .error (.refused x) d) (hu : c.Undoes d) : attempt r accepts c = .ok none c := by
  have hobserve : observe r c = .ok (.error (.refused x)) d := by
    unfold observe
    rw [h]
  unfold attempt
  rw [get_bind, bind_of_ok hobserve]
  show EStateM.Result.ok none (d.rewind c.position c.splits.length) = _
  rw [hu.rewind]

/-- Where a step that ends is refused, or its result is not accepted, the trial leaves no trace. -/
theorem attempt_of_none {accepts : α → Cursor → Bool}
    (hok : ∀ a d, r c = .ok a d → c.Undoes d ∧ accepts a d = false)
    (hrefused : ∀ e d, r c = .error (.refused e) d → c.Undoes d)
    (hbounded : ∀ d, r c ≠ .error .exhausted d) : attempt r accepts c = .ok none c := by
  cases h : r c with
  | ok a d => exact attempt_of_rejected h (hok a d h).1 (hok a d h).2
  | error e d =>
    cases e with
    | refused e => exact attempt_of_refused _ h (hrefused e d h)
    | exhausted => exact absurd h (hbounded d)

/-! ## 3. Results -/

/-- Whatever a step yields, and wherever it leads, has a property. -/
def Yields (P : α → Cursor → Prop) (r : Reader α) (c : Cursor) : Prop :=
  ∀ a d, r c = .ok a d → P a d

namespace Yields

variable {P : α → Cursor → Prop} {Q : β → Cursor → Prop}

theorem congr {r' : Reader α} (h : Yields P r c) (he : r' c = r c) : Yields P r' c :=
  fun a d hr => h a d (he ▸ hr)

theorem bind (h : Yields P r c) (hf : ∀ a d, P a d → Yields Q (f a) d) : Yields Q (r >>= f) c := by
  intro b d hb
  obtain ⟨a, e, hr, hb⟩ := exists_of_bind hb
  exact hf a e (h a e hr) b d hb

theorem pure (h : P a c) : Yields P (Pure.pure a) c := by
  intro b d hb
  cases hb
  exact h

theorem refuse (cause : Cause) (span : Span) : Yields P (Reader.refuse cause span) c := by
  intro b d hb
  cases hb

theorem exhausted : Yields P (throw .exhausted) c := by
  intro b d hb
  cases hb

theorem ite {p : Prop} [Decidable p] {r' : Reader α} (h : p → Yields P r c)
    (h' : ¬ p → Yields P r' c) : Yields P (if p then r else r') c := by
  by_cases hp : p
  · rw [if_pos hp]
    exact h hp
  · rw [if_neg hp]
    exact h' hp

end Yields

end FatArrow.Syntax.Reader
