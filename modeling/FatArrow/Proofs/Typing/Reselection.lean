import FatArrow.Proofs.Typing.Reconversion
import Mathlib.Data.List.Nodup

/-!
# Methods that are selected again

The arguments of a call are printed as they are passed.  What is read of them has types for which the
same method is selected: they are those of the parameters or those that the arguments had before, and
no other candidate accepts them that did not accept the arguments.
-/

namespace FatArrow

/-- Rereading for argument after argument. -/
inductive TypeOrder.RereadsAll (o : TypeOrder) : (params sources types : List HostType) → Prop
  | nil : RereadsAll o [] [] []
  | cons {param source type : HostType} {params sources types : List HostType} :
      o.Rereads param source type → RereadsAll o params sources types →
        RereadsAll o (param :: params) (source :: sources) (type :: types)

namespace TypeOrder.RereadsAll

variable {o : TypeOrder} {params sources types : List HostType}

theorem length_eq (h : o.RereadsAll params sources types) : types.length = sources.length := by
  induction h with
  | nil => rfl
  | cons _ _ ih => simp only [List.length_cons, ih]

theorem eq_of_eq (h : o.RereadsAll params sources types) (he : params = sources) :
    types = sources := by
  induction h with
  | nil => rfl
  | cons hfirst _ ih =>
    obtain ⟨rfl, rfl⟩ := List.cons.inj he
    rw [hfirst.same rfl, ih rfl]

theorem accepts (h : o.RereadsAll params sources types) :
    CallSite.accepts o params types = true := by
  induction h with
  | nil => rfl
  | cons hfirst _ ih => exact Bool.and_eq_true_iff.mpr ⟨hfirst.fits, ih⟩

/-- Who accepts what is read accepts the arguments. -/
theorem accepts_wider (h : o.RereadsAll params sources types) {others : List HostType}
    (ha : CallSite.accepts o others types = true) : CallSite.accepts o others sources = true := by
  induction h generalizing others with
  | nil => exact ha
  | cons hfirst _ ih =>
    cases others with
    | nil => rfl
    | cons other others =>
      obtain ⟨hother, hrest⟩ := Bool.and_eq_true_iff.mp ha
      exact Bool.and_eq_true_iff.mpr ⟨hfirst.wider hother, ih hrest⟩

end TypeOrder.RereadsAll

theorem CallSite.accepts_self (o : TypeOrder) (types : List HostType) :
    accepts o types types = true := by
  induction types with
  | nil => rfl
  | cons type types ih => exact Bool.and_eq_true_iff.mpr ⟨o.assignable_refl type, ih⟩

/-- Among the same candidates the same method is selected for what is read of the arguments. -/
theorem CallSite.select?_again {o : TypeOrder} {candidates : List Method}
    {typeArgs sources types : List HostType} {m : Method} (hr : o.RereadsAll m.params sources types)
    (h : select? o candidates ⟨sources, typeArgs⟩ = some m) :
    select? o candidates ⟨types, typeArgs⟩ = some m := by
  unfold select? at h ⊢
  simp only [hr.length_eq] at h ⊢
  generalize (candidates.filterMap (bind? typeArgs)).filter (·.params.length == sources.length) =
    bound at h ⊢
  split at h
  next n hfind =>
    -- the arguments have exactly the types of the parameters, and keep them
    cases h
    have hsame := List.find?_some hfind
    rw [hr.eq_of_eq (eq_of_beq hsame), hfind]
  next =>
    split at h
    next n hfilter =>
      cases h
      have hall (c : Method) (hc : c ∈ bound) (ha : accepts o c.params types = true) : c = m := by
        have hin : c ∈ bound.filter fun n => accepts o n.params sources :=
          List.mem_filter.mpr ⟨hc, hr.accepts_wider ha⟩
        rw [hfilter] at hin
        exact List.mem_singleton.mp hin
      split
      next c hfind =>
        have hsame := List.find?_some hfind
        refine congrArg some (hall c (List.mem_of_find?_eq_some hfind) ?_)
        rw [eq_of_beq hsame]
        exact accepts_self o types
      next =>
        have hagain : bound.filter (fun n => accepts o n.params types) = [m] := by
          have hboth : (fun n : Method => accepts o n.params types) = fun n =>
              accepts o n.params types && accepts o n.params sources := by
            funext n
            cases ha : accepts o n.params types with
            | false => rfl
            | true => rw [hr.accepts_wider ha]; rfl
          rw [hboth, ← List.filter_filter, hfilter]
          simp [hr.accepts]
        rw [hagain]
    next => cases h

/-- So is the same sequence operation on the same receiver. -/
theorem CallSite.selectSequenceOp?_again {h : Host} {name : String} {receiver item : HostType}
    {typeArgs types others : List HostType} {m : Method}
    (hr : h.toTypeOrder.RereadsAll m.params (receiver :: types) (receiver :: others))
    (hm : selectSequenceOp? h name receiver item ⟨types, typeArgs⟩ = some m) :
    selectSequenceOp? h name receiver item ⟨others, typeArgs⟩ = some m := by
  obtain ⟨holder, hholder, hm⟩ := Option.bind_eq_some_iff.mp hm
  refine Option.bind_eq_some_iff.mpr ⟨holder, hholder, ?_⟩
  exact select?_again hr hm

/-- Where the constructors of a type differ in the number of their parameters, the same one is found
for what is read of the arguments. -/
theorem Registry.constructor?_again {r : Registry} {t : HostType} {types others : List HostType}
    {c : Constructor}
    (hn : ∀ e, r.entry? t = some e → (e.constructors.map (·.params.length)).Nodup)
    (hr : r.order.RereadsAll c.params types others) (hc : r.constructor? t types = some c) :
    r.constructor? t others = some c := by
  unfold constructor? at hc ⊢
  obtain ⟨e, he, hc⟩ := Option.bind_eq_some_iff.mp hc
  rw [he, Option.bind_some]
  simp only [hr.length_eq] at hc ⊢
  -- there is no other candidate
  have honly : ∀ d ∈ (e.constructors.filter (·.params.length == types.length)).map fun d =>
      { d with declaring := t, params := d.params.map (e.bind t.actuals) }, d = c := by
    have hmem := (Option.or_eq_some_iff.mp hc).elim List.mem_of_find?_eq_some
      fun h => List.mem_of_find?_eq_some h.2
    obtain ⟨own, hown, rfl⟩ := List.mem_map.mp hmem
    obtain ⟨hown, hlength⟩ := List.mem_filter.mp hown
    refine List.forall_mem_map.mpr fun d hd => ?_
    obtain ⟨hd, hsame⟩ := List.mem_filter.mp hd
    rw [List.inj_on_of_nodup_map (hn e he) hd hown ((eq_of_beq hsame).trans (eq_of_beq hlength).symm)]
  have hmem := (Option.or_eq_some_iff.mp hc).elim List.mem_of_find?_eq_some
    fun h => List.mem_of_find?_eq_some h.2
  generalize (e.constructors.filter (·.params.length == types.length)).map _ = candidates at *
  have hfind {p : Constructor → Bool} (hp : p c = true) : candidates.find? p = some c := by
    cases hfound : candidates.find? p with
    | none => exact absurd hp (List.find?_eq_none.mp hfound c hmem)
    | some d => rw [honly d (List.mem_of_find?_eq_some hfound)]
  rw [Option.or_eq_some_iff]
  cases hexact : candidates.find? (·.params == others) with
  | none => exact .inr ⟨rfl, hfind hr.accepts⟩
  | some d => exact .inl (by rw [honly d (List.mem_of_find?_eq_some hexact)])

/-! ## Arguments -/

namespace Term

variable {o : TypeOrder} {B : HostType → Prop}

/-- What is read of arguments that were brought to the types of their parameters is brought to the same
again. -/
theorem asArguments_again (hs : o.Shaped B) {terms : List (Term × HostType)} {params : List HostType}
    (ht : ∀ a ∈ terms, IsOperand B a.1 a.2) (hp : ∀ p ∈ params, B p)
    (hfits : o.Takes params (terms.map (·.2))) : ∃ again : List (Term × HostType),
      again.map (·.1) = (asArguments (terms.map (·.1)) params).map asRead ∧
        (∀ a ∈ again, a.1.type? = some a.2) ∧ o.RereadsAll params (terms.map (·.2)) (again.map (·.2)) ∧
          asArguments (again.map (·.1)) params = asArguments (terms.map (·.1)) params := by
  induction terms generalizing params with
  | nil =>
    cases hfits
    exact ⟨[], rfl, List.forall_mem_nil _, .nil, rfl⟩
  | cons a terms ih =>
    obtain ⟨hfirst, hrest⟩ := List.forall_mem_cons.mp ht
    cases hfits with
    | @cons param _ params _ hfit hfits =>
      obtain ⟨hparam, hparams⟩ := List.forall_mem_cons.mp hp
      obtain ⟨again, hterms, htyped, hreads, hsame⟩ := ih hrest hparams hfits
      obtain ⟨type, htype, hread, hagain⟩ :=
        asArgument_asRead hs hfirst.built hparam hfirst.read hfirst.typed hfit
      refine ⟨((a.1.asArgument param).asRead, type) :: again, ?_, ?_, .cons hread hreads, ?_⟩
      · simp only [List.map_cons, asArguments, List.zip_cons_cons, List.cons.injEq]
        exact ⟨trivial, hterms⟩
      · exact List.forall_mem_cons.mpr ⟨htype, htyped⟩
      · simp only [List.map_cons, asArguments, List.zip_cons_cons, List.cons.injEq]
        exact ⟨hagain, hsame⟩

end Term

end FatArrow
