import FatArrow.Meaning.Evaluate
import FatArrow.Proofs.Tree.Nodes

/-!
# Values that do not matter

Evaluation reads the bindings at references only, so that a term has one meaning under all bindings
that give the same values to the parameters that it refers to.  Natives are called with their
receiver and their arguments, and do not see bindings.
-/

namespace FatArrow

namespace Term

variable {env env' : Bindings} {t u : Term} {ts : List Term} {name : String}

/-! ## 1. Terms -/

theorem references_of_mem_children (hu : u ∈ t.children) (h : u.references name = true) :
    t.references name = true := by
  obtain ⟨v, hv, hname⟩ := List.any_eq_true.mp h
  refine List.any_eq_true.mpr ⟨v, ?_, hname⟩
  rw [nodes_eq]
  exact List.mem_cons_of_mem _ (List.mem_flatMap_of_mem hu hv)

theorem evalAll_congr (h : ∀ t ∈ ts, eval env t = eval env' t) :
    evalAll env ts = evalAll env' ts := by
  induction ts with
  | nil => rfl
  | cons t ts ih =>
    obtain ⟨first, rest⟩ := List.forall_mem_cons.mp h
    simp only [evalAll, first, ih rest]

/-- The value of a term follows from those of the terms directly inside it and, if it is a reference,
from the binding of the name. -/
theorem eval_congr_children (hparam : ∀ p, t = .param p → env.lookup p.name = env'.lookup p.name)
    (h : ∀ u ∈ t.children, eval env u = eval env' u) : eval env t = eval env' t := by
  cases t with
  | lambda | const | staticMember => rfl
  | param p => simp only [eval, hparam p rfl]
  | member | unary | cast => simp only [eval, h _ List.mem_cons_self]
  | call | index =>
    obtain ⟨htarget, hargs⟩ := List.forall_mem_cons.mp h
    simp only [eval, htarget, evalAll_congr hargs]
  | staticCall _ args | new _ args | array _ args =>
    have hargs : evalAll env args = evalAll env' args := evalAll_congr h
    simp only [eval, hargs]
  | binary op left right =>
    obtain ⟨hleft, hrest⟩ := List.forall_mem_cons.mp h
    have hright := List.forall_mem_singleton.mp hrest
    cases op <;> simp only [eval, hleft, hright]
  | cond test ifTrue ifFalse =>
    obtain ⟨htest, hrest⟩ := List.forall_mem_cons.mp h
    obtain ⟨htrue, hrest⟩ := List.forall_mem_cons.mp hrest
    simp only [eval, htest, htrue, List.forall_mem_singleton.mp hrest]

theorem references_param (p : Param) : (Term.param p).references p.name = true := by
  simp [references, nodes, isReferenceTo]

/-- A term has the same meaning under bindings that agree on what it refers to. -/
theorem eval_congr (h : ∀ name, t.references name = true → env.lookup name = env'.lookup name) :
    eval env t = eval env' t := by
  induction t using induction_children with
  | h t ih =>
    refine eval_congr_children ?_ fun u hu => ih u hu fun name hname =>
      h name (references_of_mem_children hu hname)
    rintro p rfl
    exact h p.name (references_param p)

end Term

/-! ## 2. Arguments -/

/-- A name is bound to the same value by two lists that have the same values wherever it stands. -/
theorem Bindings.lookup_congr {name : String} {names : List String} {vs ws : List Value}
    (hlength : vs.length = ws.length) (h : ∀ i : Nat, names[i]? = some name → vs[i]? = ws[i]?) :
    (names.zip vs).reverse.lookup name = (names.zip ws).reverse.lookup name := by
  induction names generalizing vs ws with
  | nil => rfl
  | cons n names ih =>
    match vs, ws, hlength with
    | [], [], _ => rfl
    | v :: vs, w :: ws, hlength =>
      have hrest := ih (Nat.succ.inj hlength) fun i hi => h (i + 1) hi
      have hfirst : List.lookup name [(n, v)] = List.lookup name [(n, w)] := by
        by_cases hn : n = name
        · obtain rfl : v = w := Option.some.inj (h 0 (congrArg some hn))
          rfl
        · simp [List.lookup_cons, beq_false_of_ne (Ne.symm hn)]
      simp only [List.zip_cons_cons, List.reverse_cons, List.lookup_append, hrest, hfirst]

namespace Function

variable {f : Function} {args args' : List Value}

/-- Only the values of those parameters matter that the body refers to. -/
theorem apply_congr (hlength : args.length = args'.length)
    (h : ∀ (i : Nat) (p : Param), f.params[i]? = some p → f.body.references p.name = true →
      args[i]? = args'[i]?) : f.apply args = f.apply args' := by
  have hbody : f.body.eval (f.bindings args) = f.body.eval (f.bindings args') := by
    refine Term.eval_congr fun name hname => Bindings.lookup_congr hlength fun i hi => ?_
    rw [List.getElem?_map, Option.map_eq_some_iff] at hi
    obtain ⟨p, hp, rfl⟩ := hi
    exact h i p hp hname
  rw [apply, apply, hlength, hbody]

/-- The value of a parameter that the body does not refer to makes no difference, neither to the
outcome, which may be an error, nor to what natives leave in the store. -/
theorem apply_unreferenced {place : Nat} {p : Param} (hp : f.params[place]? = some p)
    (hreferences : f.body.references p.name = false) (hlength : args.length = args'.length)
    (hargs : ∀ i : Nat, i ≠ place → args[i]? = args'[i]?) : f.apply args = f.apply args' := by
  refine apply_congr hlength fun i q hq hreferred => hargs i ?_
  rintro rfl
  obtain rfl : p = q := Option.some.inj (hp.symm.trans hq)
  rw [hreferences] at hreferred
  cases hreferred

/-- A quotient by the first of two parameters fails whatever the second one is. -/
theorem apply_unreferenced_quotient :
    let x : Param := ⟨"x", .int32⟩
    let y : Param := ⟨"y", .string⟩
    let f : Function := ⟨[x, y], .binary .divide (.const (.int32 10) .int32) (.param x) .int32⟩
    let args : List Value := [.int32 0, .string "a"]
    let args' : List Value := [.int32 0, .null]
    f.params[1]? = some y ∧ f.body.references y.name = false ∧ args.length = args'.length ∧
      (∀ i : Nat, i ≠ 1 → args[i]? = args'[i]?) ∧ f.apply args = f.apply args' ∧
        f.apply args .empty = .error .divideByZero := by
  intro x y f args args'
  have hargs : ∀ i : Nat, i ≠ 1 → args[i]? = args'[i]?
    | 0, _ => rfl
    | _ + 2, _ => rfl
  have hy : f.params[1]? = some y := rfl
  exact ⟨hy, rfl, rfl, hargs, apply_unreferenced hy rfl rfl hargs, rfl⟩

end Function

end FatArrow
