import FatArrow.Typing.Overload
import Mathlib.Data.List.Nodup

/-!
# Candidates in any order

A call means the candidate that has exactly the types of its arguments, or else the only one that
accepts them.  No two candidates with different parameters have exactly the same types, and being the
only one is no matter of order.  So the order in which the candidates come does not decide what a call
means, and neither does a candidate that it cannot mean.
-/

namespace FatArrow

variable {stands : HostType → HostType → Bool} {args : List HostType} {ms others : List Method}
  {m : Method}

/-! ## 1. Candidates with their parameters bound -/

/-- Whether arguments can stand for parameters, by any relation between the types of the two. -/
def standIn (stands : HostType → HostType → Bool) (params args : List HostType) : Bool :=
  (params.zip args).all fun (p, a) => stands p a

/-- The only one of some methods. -/
def single? : List Method → Option Method
  | [m] => some m
  | _ => none

/-- The candidate with exactly the types of the arguments, or else the only one for which they can
stand in. -/
def chosen? (stands : HostType → HostType → Bool) (args : List HostType) (ms : List Method) :
    Option Method :=
  match ms.find? (·.params == args) with
  | some m => some m
  | none => single? (ms.filter fun m => standIn stands m.params args)

/-- Parameters tell candidates apart, so that one at most is found by them, whatever comes first. -/
theorem find?_params_perm (hperm : ms.Perm others) (hapart : (ms.map (·.params)).Nodup) :
    ms.find? (·.params == args) = others.find? (·.params == args) := by
  cases hfound : ms.find? (·.params == args) with
  | none =>
    rw [List.find?_eq_none] at hfound
    apply Eq.symm
    rw [List.find?_eq_none]
    exact fun m hm => hfound m (hperm.mem_iff.mpr hm)
  | some m =>
    have hm : m ∈ ms := List.mem_of_find?_eq_some hfound
    have hargs : (m.params == args) = true :=
      List.find?_some (p := fun m : Method => m.params == args) hfound
    cases hother : others.find? (·.params == args) with
    | none => exact absurd hargs (List.find?_eq_none.mp hother m (hperm.mem_iff.mp hm))
    | some n =>
      have hn : n ∈ ms := hperm.mem_iff.mpr (List.mem_of_find?_eq_some hother)
      have hsame : (n.params == args) = true :=
        List.find?_some (p := fun m : Method => m.params == args) hother
      -- both have the parameters that were asked for
      have hparams : m.params = n.params := (eq_of_beq hargs).trans (eq_of_beq hsame).symm
      rw [List.inj_on_of_nodup_map hapart hm hn hparams]

/-- The only one of some methods is the only one of them in any order. -/
theorem single?_perm (hperm : ms.Perm others) : single? ms = single? others := by
  match ms, others, hperm.length_eq with
  | [], [], _ => rfl
  | [m], [n], _ => rw [List.singleton_perm_singleton.mp hperm]
  | _ :: _ :: _, _ :: _ :: _, _ => rfl

theorem chosen?_perm (hperm : ms.Perm others) (hapart : (ms.map (·.params)).Nodup) :
    chosen? stands args ms = chosen? stands args others := by
  unfold chosen?
  rw [find?_params_perm hperm hapart]
  split
  next => rfl
  next => exact single?_perm (hperm.filter _)

/-- A candidate between others that neither has the types of the arguments nor lets them stand in is
passed over. -/
theorem chosen?_skip {front back : List Method} (hexact : m.params ≠ args)
    (hstands : standIn stands m.params args = false) :
    chosen? stands args (front ++ m :: back) = chosen? stands args (front ++ back) := by
  have hfind : (front ++ m :: back).find? (·.params == args) =
      (front ++ back).find? (·.params == args) := by
    rw [List.find?_append, List.find?_append, List.find?_cons_of_neg]
    rw [beq_iff_eq]
    exact hexact
  have hfilter : (front ++ m :: back).filter (fun m => standIn stands m.params args) =
      (front ++ back).filter fun m => standIn stands m.params args := by
    rw [List.filter_append, List.filter_append, List.filter_cons_of_neg]
    rw [hstands]
    exact Bool.false_ne_true
  unfold chosen?
  rw [hfind, hfilter]

/-! ## 2. Calls -/

namespace CallSite

variable {site : CallSite} {candidates : List Method}

/-- The candidates with the written type arguments bound that have as many parameters as the call has
arguments. -/
def bound (site : CallSite) (candidates : List Method) : List Method :=
  (candidates.filterMap (bind? site.typeArgs)).filter (·.params.length == site.args.length)

/-- What a call means where any relation says which types stand for which. -/
def selectBy? (stands : HostType → HostType → Bool) (candidates : List Method) (site : CallSite) :
    Option Method :=
  chosen? stands site.args (site.bound candidates)

/-- The order of the types of a host is one such relation. -/
theorem select?_eq_selectBy? (o : TypeOrder) :
    select? o candidates site = selectBy? o.assignable candidates site := rfl

/-- A candidate that a call can mean: it takes the written type arguments, has a parameter for each
argument, and that has the type of the argument, or one for which it can stand. -/
def Applies (site : CallSite) (stands : HostType → HostType → Bool) (m : Method) : Prop :=
  ∃ n, bind? site.typeArgs m = some n ∧ n.params.length = site.args.length ∧
    ∀ pair ∈ n.params.zip site.args, pair.1 = pair.2 ∨ stands pair.1 pair.2 = true

theorem bound_perm (hperm : candidates.Perm others) :
    (site.bound candidates).Perm (site.bound others) :=
  (hperm.filterMap _).filter _

theorem bound_append (front back : List Method) :
    site.bound (front ++ back) = site.bound front ++ site.bound back := by
  rw [bound, List.filterMap_append, List.filter_append, bound, bound]

theorem bound_nodup (hapart : ((candidates.filterMap (bind? site.typeArgs)).map (·.params)).Nodup) :
    ((site.bound candidates).map (·.params)).Nodup :=
  hapart.sublist (List.filter_sublist.map _)

/-- A candidate that a call cannot mean is none with its parameters bound, or one that is passed
over. -/
theorem bound_of_not_applies (hm : ¬ site.Applies stands m) : site.bound [m] = [] ∨
    ∃ n, site.bound [m] = [n] ∧ n.params ≠ site.args ∧ standIn stands n.params site.args = false := by
  unfold bound
  cases hbind : bind? site.typeArgs m with
  | none => simp [hbind]
  | some n =>
    by_cases hlength : n.params.length = site.args.length
    · refine .inr ⟨n, by simp [hbind, hlength], ?_, ?_⟩
      · intro hsame
        refine hm ⟨n, hbind, hlength, fun pair hpair => .inl ?_⟩
        rw [hsame] at hpair
        exact (List.forall₂_iff_zip.mp (List.forall₂_refl site.args)).2 hpair
      · rw [Bool.eq_false_iff]
        intro hall
        exact hm ⟨n, hbind, hlength, fun pair hpair => .inr (List.all_eq_true.mp hall pair hpair)⟩
    · simp [hbind, hlength]

/-- Whatever says which types stand for which, a call means the same of candidates in any order, as
long as no two of them have the same parameters once the written type arguments are bound, and a
further candidate that it cannot mean changes nothing, wherever it comes.  A host says it by its
order of types. -/
theorem select?_unordered (stands : HostType → HostType → Bool) (site : CallSite)
    (candidates : List Method)
    (hapart : ((candidates.filterMap (bind? site.typeArgs)).map (·.params)).Nodup) :
    (∀ others, others.Perm candidates →
      selectBy? stands others site = selectBy? stands candidates site) ∧
    (∀ front back m, front ++ back = candidates → ¬ site.Applies stands m →
      selectBy? stands (front ++ m :: back) site = selectBy? stands candidates site) ∧
    ∀ o : TypeOrder, (∀ target source, o.assignable target source = stands target source) →
      ∀ any, select? o any site = selectBy? stands any site := by
  refine ⟨fun others hperm => ?_, ?_, fun o ho any => ?_⟩
  · exact (chosen?_perm (bound_perm hperm.symm) (bound_nodup hapart)).symm
  · rintro front back m rfl hm
    rw [selectBy?, selectBy?, List.append_cons, bound_append, bound_append, bound_append]
    rcases bound_of_not_applies hm with hnone | ⟨n, hone, hexact, hstands⟩
    · rw [hnone, List.append_nil]
    · rw [hone, ← List.append_cons]
      exact chosen?_skip hexact hstands
  · have hsame : o.assignable = stands := funext fun target => funext (ho target)
    rw [select?_eq_selectBy?, hsame]

/-- Two generic definitions with one written type argument: what they bind to differs, one of the two
is chosen by widening, and a third with exactly the types of the arguments takes no type argument. -/
theorem select?_unordered_pick :
    let left := { Method.onReceiver "Pick" [.param 0, .integer .int64] .boolean with arity := 1 }
    let right := { Method.onReceiver "Pick" [.integer .int64, .param 0] .boolean with arity := 1 }
    let plain := Method.onReceiver "Pick" [.string, .integer .int32] .boolean
    let site : CallSite := ⟨[.string, .integer .int32], [.string]⟩
    select? TypeOrder.bare [right, plain, left] site = select? TypeOrder.bare [left, right] site ∧
      select? TypeOrder.bare [left, right] site = some (left.instantiate [.string]) := by
  intro left right plain site
  have hplain : ¬ site.Applies TypeOrder.bare.assignable plain := by
    rintro ⟨n, hn, -⟩
    cases hn
  obtain ⟨hperm, -, hhost⟩ := select?_unordered TypeOrder.bare.assignable site [left, right]
    (by decide)
  obtain ⟨-, hskip, -⟩ := select?_unordered TypeOrder.bare.assignable site [right, left] (by decide)
  have hselect := hhost TypeOrder.bare fun _ _ => rfl
  refine ⟨?_, rfl⟩
  rw [hselect, hselect]
  calc selectBy? TypeOrder.bare.assignable [right, plain, left] site
      = selectBy? TypeOrder.bare.assignable [right, left] site :=
        hskip [right] [left] plain rfl hplain
    _ = selectBy? TypeOrder.bare.assignable [left, right] site := hperm _ (.swap left right [])

end CallSite

end FatArrow
