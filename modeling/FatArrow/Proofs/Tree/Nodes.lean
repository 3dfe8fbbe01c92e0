import FatArrow.Tree.Replace

/-!
# Facts about every node of a tree

Induction over terms, where the hypothesis for a list of terms is that it holds of each of them, and
what it means for a property to hold of a term and of all terms inside it.
-/

namespace FatArrow

namespace Term

/-! ## 1. Induction -/

/-- Induction over terms. -/
@[induction_eliminator]
theorem induction {motive : Term → Prop}
    (lambda : ∀ params body, motive body → motive (.lambda params body))
    (param : ∀ p, motive (.param p))
    (const : ∀ value type, motive (.const value type))
    (member : ∀ target m, motive target → motive (.member target m))
    (staticMember : ∀ m, motive (.staticMember m))
    (call : ∀ target m args, motive target → (∀ a ∈ args, motive a) →
      motive (.call target m args))
    (staticCall : ∀ m args, (∀ a ∈ args, motive a) → motive (.staticCall m args))
    (binary : ∀ op left right type, motive left → motive right →
      motive (.binary op left right type))
    (unary : ∀ op operand type, motive operand → motive (.unary op operand type))
    (cond : ∀ test ifTrue ifFalse, motive test → motive ifTrue → motive ifFalse →
      motive (.cond test ifTrue ifFalse))
    (new : ∀ c args, (∀ a ∈ args, motive a) → motive (.new c args))
    (array : ∀ element items type, (∀ i ∈ items, motive i) → motive (.array element items type))
    (cast : ∀ operand type, motive operand → motive (.cast operand type))
    (index : ∀ target m args, motive target → (∀ a ∈ args, motive a) →
      motive (.index target m args))
    (t : Term) : motive t :=
  @Term.rec motive (fun ts => ∀ t ∈ ts, motive t)
    lambda param const member staticMember call staticCall binary unary cond new array cast index
    nofun (fun _ _ first rest => List.forall_mem_cons.mpr ⟨first, rest⟩) t

/-! ## 2. Lists of terms -/

@[simp] theorem nodesList_eq_flatMap (ts : List Term) : nodesList ts = ts.flatMap nodes := by
  induction ts with
  | nil => rfl
  | cons t ts ih => simp [nodesList, ih]

@[simp] theorem replaceList_eq_map (skip : List Param → Bool) (f : Param → Term) (ts : List Term) :
    replaceList skip f ts = ts.map (replace skip f) := by
  induction ts with
  | nil => rfl
  | cons t ts ih => simp [replaceList, ih]

/-! ## 3. Properties of all nodes -/

/-- The terms directly inside a term. -/
def children : Term → List Term
  | .lambda _ body => [body]
  | .param _ | .const _ _ | .staticMember _ => []
  | .member target _ => [target]
  | .call target _ args | .index target _ args => target :: args
  | .staticCall _ args | .new _ args => args
  | .binary _ left right _ => [left, right]
  | .unary _ operand _ | .cast operand _ => [operand]
  | .cond test ifTrue ifFalse => [test, ifTrue, ifFalse]
  | .array _ items _ => items

/-- Induction over terms, where all kinds of terms are treated alike. -/
theorem induction_children {motive : Term → Prop}
    (h : ∀ t : Term, (∀ u ∈ t.children, motive u) → motive t) (t : Term) : motive t := by
  induction t with
  | param | const | staticMember => exact h _ nofun
  | lambda _ _ ih | member _ _ ih | cast _ _ ih => exact h _ (List.forall_mem_singleton.mpr ih)
  | unary _ _ _ ih => exact h _ (List.forall_mem_singleton.mpr ih)
  | staticCall _ _ ihs | new _ _ ihs => exact h _ ihs
  | array _ _ _ ihs => exact h _ ihs
  | call _ _ _ ih ihs | index _ _ _ ih ihs => exact h _ (List.forall_mem_cons.mpr ⟨ih, ihs⟩)
  | binary _ _ _ _ ih ih' =>
    exact h _ (List.forall_mem_cons.mpr ⟨ih, List.forall_mem_singleton.mpr ih'⟩)
  | cond _ _ _ ih ih' ih'' =>
    exact h _ (List.forall_mem_cons.mpr
      ⟨ih, List.forall_mem_cons.mpr ⟨ih', List.forall_mem_singleton.mpr ih''⟩⟩)

theorem nodes_eq (t : Term) : t.nodes = t :: t.children.flatMap nodes := by
  cases t <;> simp [nodes, children]

/-- A property that holds of a term and of all terms inside it. -/
def Throughout (P : Term → Prop) (t : Term) : Prop := ∀ u ∈ t.nodes, P u

instance {P : Term → Prop} [DecidablePred P] : DecidablePred (Throughout P) :=
  fun t => inferInstanceAs (Decidable (∀ u ∈ t.nodes, P u))

theorem throughout_iff {P : Term → Prop} {t : Term} :
    t.Throughout P ↔ P t ∧ ∀ u ∈ t.children, u.Throughout P := by
  unfold Throughout
  rw [nodes_eq, List.forall_mem_cons, List.forall_mem_flatMap]

end Term

end FatArrow
