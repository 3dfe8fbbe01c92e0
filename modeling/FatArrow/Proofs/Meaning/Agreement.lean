import FatArrow.Meaning.Evaluate
import FatArrow.Proofs.Outcome
import FatArrow.Proofs.Tree.Nodes

/-!
# Computations that agree on a store

Two computations agree on a store when they have the same outcome there and leave the store as it
is.  Agreement is kept by sequencing, so that terms whose parts agree agree themselves.
-/

namespace FatArrow

/-! ## 1. Computations -/

/-- A native function that leaves the store as it is. -/
def Native.ReadOnly (n : Native) : Prop :=
  ∀ call store value after, n call store = .ok (value, after) → after = store

/-- Two computations have the same outcome on a store, which they leave as it is. -/
structure Eval.Agrees {α : Type} (store : Store) (x y : Eval α) : Prop where
  same : x store = y store
  still : ∀ a after, y store = .ok (a, after) → after = store

namespace Eval

variable {α β : Type} {store : Store} {x y : Eval α}

theorem lift_ok (a : α) : (liftM (.ok a : Except EvalError α) : Eval α) = Pure.pure a := rfl

/-- A computation and what follows it succeed together, on the stores that they pass on. -/
theorem bind_eq_ok {f : α → Eval β} {r : β × Store} :
    (x >>= f) store = .ok r ↔ ∃ a between, x store = .ok (a, between) ∧ f a between = .ok r :=
  FatArrow.bind_eq_ok.trans Prod.exists

theorem Agrees.pure (a : α) : Agrees store (Pure.pure a : Eval α) (Pure.pure a) where
  same := rfl
  still _ _ h := by
    cases h
    rfl

theorem Agrees.throw (e : EvalError) :
    Agrees store (MonadExcept.throw e : Eval α) (MonadExcept.throw e) where
  same := rfl
  still _ _ h := by cases h

theorem Agrees.lift (e : Except EvalError α) : Agrees store (liftM e : Eval α) (liftM e) where
  same := rfl
  still _ _ h := by
    cases e with
    | error e => cases h
    | ok a =>
      cases h
      rfl

theorem Agrees.bind {f g : α → Eval β} (hx : Agrees store x y)
    (h : ∀ a, Agrees store (f a) (g a)) : Agrees store (x >>= f) (y >>= g) := by
  have hrun : ∀ (z : Eval α) (k : α → Eval β),
      (z >>= k) store = z store >>= fun r => k r.1 r.2 := fun _ _ => rfl
  constructor
  · rw [hrun, hrun, hx.same]
    cases hy : y store with
    | error e => rfl
    | ok r =>
      obtain ⟨a, after⟩ := r
      obtain rfl := hx.still a after hy
      exact (h a).same
  · intro b after hb
    rw [hrun] at hb
    cases hy : y store with
    | error e =>
      rw [hy] at hb
      cases hb
    | ok r =>
      obtain ⟨a, between⟩ := r
      obtain rfl := hx.still a between hy
      rw [hy] at hb
      exact (h a).still b after hb

end Eval

theorem Native.ReadOnly.agrees {n : Native} (hn : n.ReadOnly) {store : Store} (call : Call) :
    Eval.Agrees store (n call) (n call) :=
  ⟨rfl, hn call store⟩

/-! ## 2. Terms -/

/-- The native function that a term calls by itself. -/
def Term.native? : Term → Option Native
  | .member _ m | .staticMember m => m.getter
  | .call _ m _ | .staticCall m _ | .index _ m _ => m.invoker
  | .new c _ => c.invoker
  | _ => none

/-- No lambda is in the term, and its native functions leave the store as it is. -/
def Term.Still (t : Term) : Prop :=
  t.Throughout fun u => u.isLambda = false ∧ ∀ n, u.native? = some n → n.ReadOnly

theorem Term.Still.native {t : Term} (h : t.Still) : ∀ n, t.native? = some n → n.ReadOnly :=
  (throughout_iff.mp h).1.2

theorem Term.Still.inside {t : Term} (h : t.Still) : ∀ u ∈ t.children, u.Still :=
  (throughout_iff.mp h).2

section

variable {store : Store}

theorem Member.get_agrees {m : Member} (h : ∀ n, m.getter = some n → n.ReadOnly)
    (receiver : Option Value) : Eval.Agrees store (m.get receiver) (m.get receiver) := by
  unfold Member.get
  split
  · exact .throw _
  · rename_i n hn
    split
    · exact .throw _
    · exact (h n hn).agrees _

theorem Method.invoke_agrees {m : Method} (h : ∀ n, m.invoker = some n → n.ReadOnly)
    (receiver : Option Value) (args : List Value) :
    Eval.Agrees store (m.invoke receiver args) (m.invoke receiver args) := by
  unfold Method.invoke
  split
  · exact .throw _
  · rename_i n hn
    exact (h n hn).agrees _

theorem Constructor.invoke_agrees {c : Constructor} (h : ∀ n, c.invoker = some n → n.ReadOnly)
    (args : List Value) : Eval.Agrees store (c.invoke args) (c.invoke args) := by
  unfold Constructor.invoke
  split
  · exact .throw _
  · rename_i n hn
    exact (h n hn).agrees _

end

namespace Term

variable {env env' : Bindings} {store : Store}

/-- The operators but the two that may leave out their right operand evaluate both. -/
theorem eval_binary {op : BinaryOp} (hand : op ≠ .andAlso) (hor : op ≠ .orElse) (left right : Term)
    (type : HostType) : eval env (.binary op left right type) = (do
      let a ← eval env left
      let b ← eval env right
      op.apply type a b) := by
  cases op <;> first | rfl | contradiction

theorem evalAll_agrees {args : List Term} {f : Term → Term}
    (h : ∀ a ∈ args, Eval.Agrees store (eval env' (f a)) (eval env a)) :
    Eval.Agrees store (evalAll env' (args.map f)) (evalAll env args) := by
  induction args with
  | nil => exact .pure []
  | cons a args ih =>
    obtain ⟨first, rest⟩ := List.forall_mem_cons.mp h
    exact first.bind fun v => (ih rest).bind fun vs => .pure (v :: vs)

end Term

end FatArrow
