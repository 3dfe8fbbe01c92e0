import FatArrow.Proofs.Tree.Capture

/-!
# Parameters that are kept

Inlining looks up every reference in the scopes around it, gives every parameter a name and makes
every term anew.  Where no parameter is replaced, each lambda gets back its own parameters, and each
reference the parameter by which it is bound, so that nothing has changed in the end.
-/

namespace FatArrow

/-! ## 1. Scopes -/

/-- The parameters of a lambda that stay as they are: they have names of their own, and none of them
is replaced. -/
structure InlineResolver.Keeps (resolver : InlineResolver) (params : List Param) : Prop where
  names : (params.map (·.name)).Nodup
  kept : ∀ p ∈ params, resolver p = none

section

variable {resolver : InlineResolver} {taken : List String} {params : List Param}

theorem freshName_of_not_mem {name : String} (h : name ∉ taken) : freshName name taken = name := by
  rw [freshName, if_neg (by simpa using h)]

/-- Parameters that are kept stand for themselves. -/
theorem spliced_kept (hn : (taken ++ params.map (·.name)).Nodup)
    (hk : ∀ p ∈ params, resolver p = none) : spliced resolver taken params =
      (params, (params.map fun p => (p.name, .param p)).reverse) := by
  induction params generalizing taken with
  | nil => rfl
  | cons p params ih =>
    obtain ⟨hp, hrest⟩ := List.forall_mem_cons.mp hk
    have hfree : p.name ∉ taken := fun hm =>
      (List.nodup_append.mp hn).2.2 p.name hm p.name List.mem_cons_self rfl
    have hsplice : splice resolver taken p = ([p], .param p) := by
      rw [splice, hp, freshName_of_not_mem hfree]
    have hnames : (taken ++ [p.name] ++ params.map (·.name)).Nodup := by
      simpa using hn
    rw [spliced_cons, hsplice]
    simp only [List.map_cons, List.map_nil, ih hnames hrest, List.cons_append, List.nil_append,
      List.reverse_cons]

theorem InlineResolver.Keeps.spliced (h : resolver.Keeps params) : spliced resolver [] params =
    (params, (params.map fun p => (p.name, .param p)).reverse) :=
  spliced_kept h.names h.kept

/-- Under lambdas that keep their parameters, a reference that is as declared stands for itself. -/
theorem Substitution.term_under {scopes : List (List Param)} {p : Param}
    (hscopes : ∀ params ∈ scopes, resolver.Keeps params)
    (hp : ∀ level place, binder? p.name scopes = some (level, place) →
      scopes[level]?.bind (·[place]?) = some p) :
    (Substitution.under resolver [] scopes).term p = .param p := by
  unfold term
  cases hbinder : binder? p.name scopes with
  | none =>
    rw [lookup_under_of_none hbinder]
    rfl
  | some at_ =>
    obtain ⟨level, place⟩ := at_
    obtain ⟨params, hparams, hplace⟩ := Option.bind_eq_some_iff.mp (hp level place hbinder)
    have hkeeps := hscopes params (List.mem_of_getElem? hparams)
    have hown : (p.name, Term.param p) ∈ (spliced resolver [] params).2 := by
      rw [hkeeps.spliced, List.mem_reverse]
      exact List.mem_map_of_mem (List.mem_of_getElem? hplace)
    have hkeys : ((spliced resolver [] params).2.map (·.1)).Nodup := by
      rw [spliced_names, List.nodup_reverse]
      exact hkeeps.names
    rw [lookup_under hbinder hparams (lookup_of_mem hkeys hown), Option.getD_some]

end

/-! ## 2. References as declared -/

namespace Term

variable {outer : List (List Param)} {t u : Term} {p : Param}

/-- Every reference inside the term is the parameter by which it is bound, where the parameters of the
lambdas around the term are given, the outermost first. -/
def AsDeclared (outer : List (List Param)) (t : Term) : Prop :=
  ∀ way p level place, t.reference? way = some p →
    binder? p.name (outer ++ t.scopes way) = some (level, place) →
      (outer ++ t.scopes way)[level]?.bind (·[place]?) = some p

theorem reference?_cons {i : Nat} {way : List Nat} (h : t.children[i]? = some u) :
    t.reference? (i :: way) = u.reference? way := by
  rw [reference?, at?, h]
  rfl

theorem asDeclared_param_iff : (Term.param p).AsDeclared outer ↔
    ∀ level place, binder? p.name outer = some (level, place) →
      outer[level]?.bind (·[place]?) = some p := by
  constructor
  · intro h level place hbinder
    have hself := h [] p level place rfl
    rw [scopes, List.append_nil] at hself
    exact hself hbinder
  · intro h way q level place hq
    cases way with
    | nil =>
      cases hq
      rw [scopes, List.append_nil]
      exact h level place
    | cons i way => cases hq

theorem asDeclared_param {level place : Nat} (hbinder : binder? p.name outer = some (level, place))
    (hp : outer[level]?.bind (·[place]?) = some p) : (Term.param p).AsDeclared outer := by
  refine asDeclared_param_iff.mpr fun level' place' h => ?_
  cases hbinder.symm.trans h
  exact hp

/-- What is said of a term that is no reference is said of the terms directly inside it. -/
theorem asDeclared_iff (hp : ∀ p, t ≠ .param p) :
    t.AsDeclared outer ↔ ∀ u ∈ t.children, u.AsDeclared (outer ++ t.opened) := by
  constructor
  · intro h u hu way q level place hq
    obtain ⟨i, hi⟩ := List.mem_iff_getElem?.mp hu
    rw [List.append_assoc, ← scopes_cons hi]
    exact h (i :: way) q level place (reference?_cons hi ▸ hq)
  · intro h way q level place hq
    cases way with
    | nil => exact absurd (Option.some.inj (reference?_eq_some_iff.mp hq)) (hp q)
    | cons i way =>
      obtain ⟨u, hi, hu, -⟩ := at?_cons (reference?_eq_some_iff.mp hq)
      rw [reference?_cons hi] at hq
      rw [scopes_cons hi, ← List.append_assoc]
      exact h u hu way q level place hq

/-! ## 3. Terms -/

/-- A term is made anew as it was where the terms inside it are, and the parameters it declares. -/
theorem inline_eq_self {resolver : InlineResolver} {s : Substitution} (hp : ∀ p, t ≠ .param p)
    (hopened : ∀ params ∈ t.opened, (spliced resolver [] params).1 = params)
    (harray : ∀ element items type, t = .array element items type → type = .arrayOf element)
    (h : ∀ u ∈ t.children, u.inline resolver (s.under resolver t.opened) = u) :
    t.inline resolver s = t := by
  have hmap : ∀ ts : List Term, (∀ u ∈ ts, u.inline resolver s = u) →
      inlineList resolver s ts = ts := fun ts h => by
    rw [inlineList_eq_map]
    exact (List.map_congr_left h).trans (List.map_id _)
  cases t with
  | param p => exact absurd rfl (hp p)
  | const | staticMember => rfl
  | lambda params body =>
    have hbody := h body List.mem_cons_self
    have hparams := hopened params List.mem_cons_self
    simp only [inline, hparams]
    exact congrArg _ hbody
  | staticCall m args => exact congrArg (Term.staticCall m) (hmap args h)
  | new c args => exact congrArg (Term.new c) (hmap args h)
  | array element items type =>
    rw [inline, hmap items h, newArray, harray element items type rfl]
  | call target _ args | index target _ args =>
    obtain ⟨htarget, hargs⟩ := List.forall_mem_cons.mp h
    have htarget : target.inline resolver s = target := htarget
    rw [inline, htarget, hmap args hargs]
  | _ =>
    -- each operand by itself
    simp_all [inline, children, opened, Substitution.under]

/-- Under lambdas that keep their parameters, a term that does so, too, is left as it is. -/
theorem inline_eq_self_of_keeps {resolver : InlineResolver}
    (houter : ∀ params ∈ outer, resolver.Keeps params)
    (ht : t.Throughout fun u => ∀ params ∈ u.opened, resolver.Keeps params)
    (harrays : t.MakesArrays) (hdeclared : t.AsDeclared outer) :
    t.inline resolver (Substitution.under resolver [] outer) = t := by
  -- the scopes grow by those that a term opens
  induction t using induction_children generalizing outer with
  | h t ih =>
    by_cases hparam : ∃ p, t = .param p
    · obtain ⟨p, rfl⟩ := hparam
      exact Substitution.term_under houter (asDeclared_param_iff.mp hdeclared)
    have hp : ∀ p, t ≠ .param p := fun p he => hparam ⟨p, he⟩
    obtain ⟨hopened, hkeep⟩ := throughout_iff.mp ht
    obtain ⟨harray, hmake⟩ := throughout_iff.mp harrays
    refine inline_eq_self hp (fun params hm => congrArg Prod.fst (hopened params hm).spliced) harray
      fun u hu => ?_
    rw [← Substitution.under_append]
    exact ih u hu (List.forall_mem_append.mpr ⟨houter, hopened⟩) (hkeep u hu) (hmake u hu)
      ((asDeclared_iff hp).mp hdeclared u hu)

end Term

/-! ## 4. Lambdas -/

/-- A lambda in which parameters that are declared together have names of their own, every reference
is the parameter by which it is bound, with its type, and arrays have the type of their items. -/
structure Function.Orderly (f : Function) : Prop where
  names : f.term.Throughout fun u => ∀ params ∈ u.opened, (params.map (·.name)).Nodup
  references : f.term.AsDeclared []
  arrays : f.term.MakesArrays

/-- So is every lambda that elaboration yields. -/
theorem Function.Elaborated.orderly {f : Function} (h : f.Elaborated) : f.Orderly := by
  obtain ⟨hn, hscoped⟩ := h.scoped
  have hwell : Scoped [] f.term := .lambda hn hscoped
  refine ⟨hwell.throughout List.nodup_nil fun scope t hnames _ params hm => ?_, ?_,
    hwell.throughout List.nodup_nil fun scope t _ ht => ?_⟩
  · rw [List.map_append] at hnames
    exact ((List.sublist_flatten_of_mem hm).map _).nodup (List.nodup_append.mp hnames).2.1
  · intro way p level place hp hbinder
    obtain ⟨hnames, hdeclared⟩ := hwell.reach List.nodup_nil (Term.reference?_eq_some_iff.mp hp)
    obtain ⟨params, q, hparams, hq, hname⟩ := exists_of_binder? hbinder
    -- the names on the way are all different, so no other parameter is meant
    have hmem : q ∈ (f.term.scopes way).flatten :=
      List.mem_flatten.mpr ⟨params, List.mem_of_getElem? hparams, List.mem_of_getElem? hq⟩
    cases hdeclared with
    | param declared =>
      obtain rfl : q = p := List.inj_on_of_nodup_map hnames hmem declared hname
      rw [hparams]
      exact hq
  · rintro element items type rfl
    cases ht with
    | array => rfl

theorem Function.term_injective : Function.Injective Function.term := by
  rintro ⟨params, body⟩ ⟨params', body'⟩ h
  cases h
  rfl

/-- Inlining leaves a lambda as it is when no parameter of it and of the lambdas inside it is
replaced. -/
theorem Function.inline_kept {f : Function} {resolver : InlineResolver} (hf : f.Orderly)
    (hr : f.term.Throughout fun u => ∀ params ∈ u.opened, ∀ p ∈ params, resolver p = none) :
    f.inline resolver = f := by
  have hkeeps : f.term.Throughout fun u => ∀ params ∈ u.opened, resolver.Keeps params :=
    fun u hu params hm => ⟨hf.names u hu params hm, hr u hu params hm⟩
  apply term_injective
  rw [term_inline]
  exact Term.inline_eq_self_of_keeps (List.forall_mem_nil _) hkeeps hf.arrays hf.references

/-- A lambda inside another declares one of its names again, for a text in place of an integer. -/
theorem Function.inline_kept_shadowed :
    let x : Param := ⟨"x", .int32⟩
    let text : Param := ⟨"x", .string⟩
    let pick : Method := .onReceiver "Pick" [.object] .int32
    let f : Function :=
      ⟨[x], .array .int32 [.call (.param x) pick [.lambda [text] (.param text)]] (.arrayOf .int32)⟩
    f.Orderly ∧ f.inline (fun _ => none) = f := by
  intro x text pick f
  have houter : (Term.param x).AsDeclared [[x]] := Term.asDeclared_param rfl rfl
  have hinner : (Term.param text).AsDeclared [[x], [text]] := Term.asDeclared_param rfl rfl
  have hf : f.Orderly := by
    refine ⟨?_, ?_, ?_⟩
    · simp [Term.Throughout, Function.term, f, Term.nodes, Term.opened]
    · -- the array, the call and the lambda, each with its terms
      refine (Term.asDeclared_iff fun _ h => by cases h).mpr (List.forall_mem_singleton.mpr ?_)
      refine (Term.asDeclared_iff fun _ h => by cases h).mpr (List.forall_mem_singleton.mpr ?_)
      refine (Term.asDeclared_iff fun _ h => by cases h).mpr (List.forall_mem_cons.mpr ⟨houter, ?_⟩)
      refine List.forall_mem_singleton.mpr ((Term.asDeclared_iff fun _ h => by cases h).mpr ?_)
      exact List.forall_mem_singleton.mpr hinner
    · simp [Term.MakesArrays, Term.Throughout, Function.term, f, Term.nodes]
  exact ⟨hf, inline_kept hf fun _ _ _ _ _ _ => rfl⟩

end FatArrow
