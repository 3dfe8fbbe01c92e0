import FatArrow.Proofs.Meaning.Agreement
import FatArrow.Proofs.Typing.Judgement
import FatArrow.Tree.Inline

/-!
# Replaced references

A term keeps its type and its meaning when every reference in it gives way to a term of the same
type and meaning.  No lambda is in the term, since there a name could mean something else.
-/

namespace FatArrow

namespace Term

/-! ## 1. Types -/

variable {Fits : List Term → List HostType → Prop} {scope : List Param} {t : Term}
  {skip : List Param → Bool} {f : Param → Term}

theorem type?_replace (ht : WellTyped Fits scope t) (hstill : t.Still)
    (hf : ∀ p ∈ scope, (f p).type? = some p.type) : (t.replace skip f).type? = t.type? := by
  induction ht with
  | param declared => exact hf _ declared
  | cond _ _ _ _ _ _ ih _ =>
    exact ih (hstill.inside _ (by simp [children])) hf
  | _ => rfl

/-- References that are replaced by themselves change nothing. -/
theorem replace_self (ht : WellTyped Fits scope t) : t.replace skip .param = t := by
  have hmap : ∀ {ts : List Term}, (∀ u ∈ ts, u.replace skip .param = u) →
      ts.map (replace skip .param) = ts :=
    fun h => (List.map_congr_left h).trans (List.map_id _)
  induction ht <;> simp_all [replace, newArray]

/-! ## 2. Meaning -/

variable {env env' : Bindings} {store : Store}

theorem receiver_congr {target target' : Term} (h : target'.type? = target.type?) (m : Method)
    (v : Value) : receiver target' m v = receiver target m v := by
  unfold receiver
  rw [h]

/-- The substitution lemma: where the terms that stand for references mean what the references
mean, so do the terms around them. -/
theorem eval_replace (ht : WellTyped Fits scope t) (hstill : t.Still)
    (htype : ∀ p ∈ scope, (f p).type? = some p.type)
    (hf : ∀ p ∈ scope, Eval.Agrees store (eval env' (f p)) (eval env (.param p))) :
    Eval.Agrees store (eval env' (t.replace skip f)) (eval env t) := by
  induction ht with
  | lambda => cases (throughout_iff.mp hstill).1.1
  | param declared => exact hf _ declared
  | const => exact .pure _
  | member _ ih =>
    have hn := hstill.native
    have hin := hstill.inside
    exact (ih (hin _ (by simp [children])) htype hf).bind fun v => Member.get_agrees hn (some v)
  | staticMember =>
    have hn := hstill.native
    exact Member.get_agrees hn none
  | call hw _ _ ih ihs =>
    have hn := hstill.native
    have hin := hstill.inside
    have htarget := hin _ (.head _)
    simp only [replace, eval, replaceList_eq_map]
    refine (ih htarget htype hf).bind fun v => ?_
    rw [receiver_congr (type?_replace hw htarget htype)]
    refine (Eval.Agrees.lift _).bind fun w => ?_
    refine (evalAll_agrees fun a ha => ihs a ha (hin a (.tail _ ha)) htype hf).bind fun vs => ?_
    exact Method.invoke_agrees hn (some w) vs
  | staticCall _ _ ihs =>
    have hn := hstill.native
    have hin := hstill.inside
    simp only [replace, eval, replaceList_eq_map]
    exact (evalAll_agrees fun a ha => ihs a ha (hin a ha) htype hf).bind fun vs =>
      Method.invoke_agrees hn none vs
  | @binary _ op left right _ _ type _ _ _ _ _ ih ih' =>
    have hin := hstill.inside
    have first := ih (hin _ (by simp [children])) htype hf
    have second := ih' (hin _ (by simp [children])) htype hf
    -- the right operand counts only after the left one, and for two operators not always
    by_cases hand : op = .andAlso
    · subst hand
      simp only [replace, eval]
      refine first.bind fun v => (Eval.Agrees.lift _).bind fun b => ?_
      cases b with
      | true => exact second.bind fun w => (Eval.Agrees.lift _).bind fun _ => .pure _
      | false => exact .pure _
    by_cases hor : op = .orElse
    · subst hor
      simp only [replace, eval]
      refine first.bind fun v => (Eval.Agrees.lift _).bind fun b => ?_
      cases b with
      | true => exact .pure _
      | false => exact second.bind fun w => (Eval.Agrees.lift _).bind fun _ => .pure _
    simp only [replace]
    rw [eval_binary hand hor, eval_binary hand hor]
    exact first.bind fun v => second.bind fun w => .lift _
  | unary _ _ _ ih =>
    have hin := hstill.inside
    exact (ih (hin _ (by simp [children])) htype hf).bind fun v => .lift _
  | cond _ _ _ _ _ ih ih' ih'' =>
    have hin := hstill.inside
    simp only [replace, eval]
    refine (ih (hin _ (by simp [children])) htype hf).bind fun v => ?_
    refine (Eval.Agrees.lift _).bind fun b => ?_
    cases b with
    | true => exact ih' (hin _ (by simp [children])) htype hf
    | false => exact ih'' (hin _ (by simp [children])) htype hf
  | new _ _ ihs =>
    have hn := hstill.native
    have hin := hstill.inside
    simp only [replace, eval, replaceList_eq_map]
    exact (evalAll_agrees fun a ha => ihs a ha (hin a ha) htype hf).bind fun vs =>
      Constructor.invoke_agrees hn vs
  | array _ _ ihs =>
    have hin := hstill.inside
    simp only [replace, newArray, eval, replaceList_eq_map]
    exact (evalAll_agrees fun a ha => ihs a ha (hin a ha) htype hf).bind fun vs => .pure _
  | cast _ ih =>
    have hin := hstill.inside
    exact (ih (hin _ (by simp [children])) htype hf).bind fun v => .lift _
  | index _ _ _ ih ihs =>
    have hn := hstill.native
    have hin := hstill.inside
    simp only [replace, eval, replaceList_eq_map]
    refine (ih (hin _ (.head _)) htype hf).bind fun v => ?_
    have hargs := evalAll_agrees fun a ha => ihs a ha (hin a (.tail _ ha)) htype hf
    by_cases hnull : v.isNull
    · simp only [hnull, ↓reduceIte]
      exact (Eval.Agrees.throw _).bind fun _ =>
        hargs.bind fun vs => Method.invoke_agrees hn (some v) vs
    · simp only [hnull, Bool.false_eq_true, ↓reduceIte]
      exact hargs.bind fun vs => Method.invoke_agrees hn (some v) vs

end Term

end FatArrow
