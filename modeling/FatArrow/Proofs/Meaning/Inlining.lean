import FatArrow.Proofs.Meaning.Replacement
import FatArrow.Proofs.Tree.FreshName
import FatArrow.Proofs.Typing.Soundness

/-!
# Inlining preserves meaning

Arguments of an inlined lambda fall into slices, one for each parameter of the original.  A slice
gives a value to its parameter: what the replacement makes of it, or its one item for a parameter
that is kept.  The inlined lambda means for the arguments what the original means for these values.
-/

namespace FatArrow

/-! ## 1. Lambdas that were elaborated -/

/-- A lambda that elaboration yields for some host, some caller and some syntax. -/
def Function.Elaborated (f : Function) : Prop :=
  ∃ (s : Surface) (shape : Option LambdaShape) (written : Syntax.Lambda),
    s.elaborate shape written = .ok f

/-- Well typed, where any arguments fit any parameters. -/
abbrev Scoped : List Param → Term → Prop := WellTyped fun _ _ => True

theorem Surface.honors_anything (s : Surface) : s.Honors fun _ _ => True :=
  ⟨fun _ _ => trivial, fun _ _ _ _ => trivial, fun _ _ => trivial⟩

/-- The parameters of an elaborated lambda have names of their own, and its body refers to nothing
else. -/
theorem Function.Elaborated.scoped {f : Function} (h : f.Elaborated) :
    (f.params.map (·.name)).Nodup ∧ Scoped f.params f.body := by
  obtain ⟨s, shape, written, h⟩ := h
  cases (Surface.elaborate_sound s.honors_anything h).1 with
  | lambda names inside => exact ⟨names, inside⟩

/-! ## 2. Slices of arguments -/

namespace InlineResolver

/-- How many parameters take the place of a parameter. -/
def width (resolver : InlineResolver) (p : Param) : Nat :=
  match resolver p with
  | some f => f.arity
  | none => 1

/-- What a slice of arguments gives to a parameter. -/
def value (resolver : InlineResolver) (p : Param) (slice : List Value) : Eval Value :=
  match resolver p with
  | some f => f.apply slice
  | none =>
    match slice with
    | [v] => return v
    | _ => throw (.argumentCount 1 slice.length)

/-- What arguments give to parameters, slice by slice. -/
def values (resolver : InlineResolver) : List Param → List Value → Eval (List Value)
  | [], _ => return []
  | p :: ps, args => do
    let v ← resolver.value p (args.take (resolver.width p))
    return v :: (← values resolver ps (args.drop (resolver.width p)))

/-- A replacement that may take the place of a parameter: it was elaborated, calls nothing that
changes the store, has no lambda inside it, and returns what the parameter is. -/
structure Replaces (f : Function) (p : Param) : Prop where
  elaborated : f.Elaborated
  still : f.body.Still
  returns : f.returns? = some p.type

end InlineResolver

/-! ## 3. Bindings -/

/-- A parameter is bound to the argument at its place. -/
theorem Function.lookup_bindings (f : Function) {args : List Value} {p : Param} {v : Value}
    (hn : (f.params.map (·.name)).Nodup) (hl : f.arity = args.length)
    (h : (p, v) ∈ f.params.zip args) : (f.bindings args).lookup p.name = some v := by
  refine lookup_of_mem ?_ ?_
  · rw [bindings, List.map_reverse, List.nodup_reverse, List.map_fst_zip (by simp [← hl, arity])]
    exact hn
  · rw [bindings, List.mem_reverse, List.zip_map_left, List.mem_map]
    exact ⟨(p, v), h, rfl⟩

theorem Function.eval_param (f : Function) {args : List Value} {p : Param} {v : Value}
    (hn : (f.params.map (·.name)).Nodup) (hl : f.arity = args.length)
    (h : (p, v) ∈ f.params.zip args) :
    Term.eval (f.bindings args) (.param p) = return v := by
  rw [Term.eval, f.lookup_bindings hn hl h]

/-! ## 4. Splicing -/

/-- The parameters that take the place of one, and what stands for references to it. -/
def splice (resolver : InlineResolver) (taken : List String) (p : Param) : List Param × Term :=
  match resolver p with
  | some f =>
    let (fresh, changes) := renamed taken f.params
    (fresh, if changes.isEmpty then f.body else changes.apply f.body)
  | none =>
    let kept : Param := { p with name := freshName p.name taken }
    ([kept], .param kept)

theorem spliced_cons (resolver : InlineResolver) (taken : List String) (p : Param)
    (ps : List Param) :
    spliced resolver taken (p :: ps) =
      ((splice resolver taken p).1 ++
          (spliced resolver (taken ++ (splice resolver taken p).1.map (·.name)) ps).1,
        (spliced resolver (taken ++ (splice resolver taken p).1.map (·.name)) ps).2 ++
          [(p.name, (splice resolver taken p).2)]) :=
  rfl

theorem length_splice (resolver : InlineResolver) (taken : List String) (p : Param) :
    (splice resolver taken p).1.length = resolver.width p := by
  unfold splice InlineResolver.width
  cases resolver p with
  | some f => exact length_renamed taken f.params
  | none => rfl

theorem splice_nodup (resolver : InlineResolver) (taken : List String) (p : Param) :
    ((splice resolver taken p).1.map (·.name)).Nodup ∧
      ∀ n ∈ (splice resolver taken p).1.map (·.name), n ∉ taken := by
  unfold splice
  cases resolver p with
  | some f => exact renamed_nodup taken f.params
  | none => simpa using freshName_not_mem p.name taken

/-- The parameters of an inlined lambda have names of their own. -/
theorem spliced_nodup (resolver : InlineResolver) (taken : List String) (ps : List Param) :
    ((spliced resolver taken ps).1.map (·.name)).Nodup ∧
      ∀ n ∈ (spliced resolver taken ps).1.map (·.name), n ∉ taken := by
  induction ps generalizing taken with
  | nil => exact ⟨List.nodup_nil, nofun⟩
  | cons p ps ih =>
    obtain ⟨hn, hd⟩ := splice_nodup resolver taken p
    obtain ⟨ihn, ihd⟩ := ih (taken ++ (splice resolver taken p).1.map (·.name))
    rw [spliced_cons]
    simp only [List.map_append]
    refine ⟨List.nodup_append'.mpr ⟨hn, ihn, ?_⟩, ?_⟩
    · exact fun n hm hm' => ihd n hm' (List.mem_append_right _ hm)
    · intro n hm
      rcases List.mem_append.mp hm with hm | hm
      · exact hd n hm
      · exact fun ht => ihd n hm (List.mem_append_left _ ht)

theorem spliced_names (resolver : InlineResolver) (taken : List String) (ps : List Param) :
    (spliced resolver taken ps).2.map (·.1) = (ps.map (·.name)).reverse := by
  induction ps generalizing taken with
  | nil => rfl
  | cons p ps ih =>
    rw [spliced_cons]
    simp [ih]

/-! ## 5. What stands for references -/

theorem exists_mem_zip {α β γ : Type} {R : α → β → Prop} {as : List α} {bs : List β} {cs : List γ}
    {a : α} (h : List.Forall₂ R as bs) (hl : cs.length = as.length) (ha : a ∈ as) :
    ∃ b c, R a b ∧ (a, c) ∈ as.zip cs ∧ (b, c) ∈ bs.zip cs := by
  induction h generalizing cs with
  | nil => cases ha
  | @cons a' b as bs hab _ ih =>
    cases cs with
    | nil => cases hl
    | cons c cs =>
      rcases List.mem_cons.mp ha with rfl | ha
      · exact ⟨b, c, hab, .head _, .head _⟩
      · obtain ⟨b', c', hr, hm, hm'⟩ := ih (Nat.succ.inj hl) ha
        exact ⟨b', c', hr, .tail _ hm, .tail _ hm'⟩

theorem Substitution.apply_of_isEmpty {changes : Substitution} {scope : List Param} {t : Term}
    (ht : Scoped scope t) :
    (if changes.isEmpty then t else changes.apply t) = changes.apply t := by
  split
  next he =>
    rw [List.isEmpty_iff.mp he]
    exact (Term.replace_self ht).symm
  next => rfl

section

variable {resolver : InlineResolver} {taken : List String} {env : Bindings} {store after : Store}

/-- What stands for the references to a parameter has its type and, where the parameters that took
its place are bound to a slice, the value that the slice gives to it. -/
theorem splice_sound {p : Param} {slice : List Value} {v : Value}
    (hr : ∀ f, resolver p = some f → InlineResolver.Replaces f p)
    (hv : resolver.value p slice store = .ok (v, after))
    (henv : ∀ q w, (q, w) ∈ (splice resolver taken p).1.zip slice → env.lookup q.name = some w) :
    after = store ∧ (splice resolver taken p).2.type? = some p.type ∧
      Eval.Agrees store (Term.eval env (splice resolver taken p).2) (return v) := by
  cases hp : resolver p with
  | none =>
    simp only [splice, hp] at henv ⊢
    simp only [InlineResolver.value, hp] at hv
    split at hv
    · cases hv
      have hlookup := henv _ v (.head _)
      refine ⟨rfl, rfl, ?_⟩
      rw [Term.eval, hlookup]
      exact .pure v
    · cases hv
  | some f =>
    obtain ⟨helaborated, hstill, hreturns⟩ := hr f hp
    obtain ⟨hn, hscoped⟩ := helaborated.scoped
    simp only [splice, hp] at henv ⊢
    simp only [InlineResolver.value, hp, Function.apply] at hv
    rw [Substitution.apply_of_isEmpty hscoped]
    split at hv
    next hl =>
      have hrenamed := renamed_term hn taken
      have htype : ∀ q ∈ f.params, ((renamed taken f.params).2.term q).type? = some q.type := by
        intro q hq
        obtain ⟨q', _, ⟨hterm, htype⟩, _, _⟩ := exists_mem_zip hrenamed hl.symm hq
        rw [hterm, ← htype]
        rfl
      have hmeans : Eval.Agrees store (Term.eval env ((renamed taken f.params).2.apply f.body))
          (Term.eval (f.bindings slice) f.body) := by
        refine Term.eval_replace hscoped hstill htype fun q hq => ?_
        obtain ⟨q', w, ⟨hterm, _⟩, hm, hm'⟩ := exists_mem_zip hrenamed hl.symm hq
        rw [hterm, f.eval_param hn hl hm, Term.eval, henv q' w hm']
        exact .pure w
      obtain rfl := hmeans.still v after hv
      refine ⟨rfl, ?_, hmeans.same.trans hv, fun _ _ h => ?_⟩
      · rw [Substitution.apply, Term.type?_replace hscoped hstill htype]
        exact hreturns
      · cases h
        rfl
    next => cases hv

/-- So it is for all parameters of a lambda, whose arguments fall into slices. -/
theorem spliced_sound {ps : List Param} {args vs : List Value}
    (hr : ∀ p ∈ ps, ∀ f, resolver p = some f → InlineResolver.Replaces f p)
    (hl : (spliced resolver taken ps).1.length = args.length)
    (hv : resolver.values ps args store = .ok (vs, after))
    (henv : ∀ q w, (q, w) ∈ (spliced resolver taken ps).1.zip args → env.lookup q.name = some w) :
    ps.length = vs.length ∧ ∀ p v, (p, v) ∈ ps.zip vs →
      ∃ t, (p.name, t) ∈ (spliced resolver taken ps).2 ∧ t.type? = some p.type ∧
        Eval.Agrees store (Term.eval env t) (return v) := by
  induction ps generalizing taken args vs after with
  | nil =>
    cases hv
    exact ⟨rfl, nofun⟩
  | cons p ps ih =>
    rw [spliced_cons] at hl henv ⊢
    simp only [List.length_append, length_splice] at hl
    obtain ⟨v, between, hfirst, hv⟩ := Eval.bind_eq_ok.mp hv
    obtain ⟨rest, _, hrest, hv⟩ := Eval.bind_eq_ok.mp hv
    cases hv
    have htake : (splice resolver taken p).1.length = (args.take (resolver.width p)).length := by
      rw [length_splice, List.length_take]
      omega
    rw [← List.take_append_drop (resolver.width p) args, List.zip_append htake] at henv
    obtain ⟨rfl, htype, hmeans⟩ := splice_sound
      (hr p List.mem_cons_self) hfirst fun q w hm => henv q w (List.mem_append_left _ hm)
    obtain ⟨hlength, hothers⟩ := ih (fun q hq => hr q (List.mem_cons_of_mem _ hq))
      (by rw [List.length_drop]; omega) hrest fun q w hm => henv q w (List.mem_append_right _ hm)
    refine ⟨congrArg (· + 1) hlength, fun q w hm => ?_⟩
    rcases List.mem_cons.mp hm with he | hm
    · cases he
      exact ⟨_, List.mem_append_right _ (.head _), htype, hmeans⟩
    · obtain ⟨t, ht, h⟩ := hothers q w hm
      exact ⟨t, List.mem_append_left _ ht, h⟩

end

/-! ## 6. Inlined lambdas -/

theorem Term.inlineList_eq_map (resolver : InlineResolver) (s : Substitution) (ts : List Term) :
    inlineList resolver s ts = ts.map (inline resolver s) := by
  induction ts with
  | nil => rfl
  | cons t ts ih => simp [inlineList, ih]

/-- Without lambdas inside, inlining is the replacement of references. -/
theorem Term.inline_eq_replace_of_flat {t : Term} (ht : t.Throughout fun u => u.isLambda = false)
    (resolver : InlineResolver) (s : Substitution) (skip : List Param → Bool) :
    t.inline resolver s = t.replace skip s.term := by
  induction t with
  | lambda => cases (throughout_iff.mp ht).1
  | param | const | staticMember => rfl
  | _ =>
    have hin := (throughout_iff.mp ht).2
    simp_all [children, inline, replace, newArray, inlineList_eq_map]

theorem Term.inline_eq_replace {t : Term} (ht : t.Still) (resolver : InlineResolver)
    (s : Substitution) (skip : List Param → Bool) :
    t.inline resolver s = t.replace skip s.term :=
  inline_eq_replace_of_flat (fun u hu => (ht u hu).1) resolver s skip

/-- Inlining preserves meaning.  Where the replacements succeed on their slices of the arguments, the
inlined lambda has the outcome, errors included, that the original has for the values so given. -/
theorem Function.inline_apply {f : Function} {resolver : InlineResolver} (hf : f.Elaborated)
    (hstill : f.body.Still)
    (hr : ∀ p ∈ f.params, ∀ g, resolver p = some g → InlineResolver.Replaces g p)
    (args vs : List Value) (store after : Store) (hl : (f.inline resolver).arity = args.length)
    (hv : resolver.values f.params args store = .ok (vs, after)) :
    (f.inline resolver).apply args store = f.apply vs store := by
  obtain ⟨hn, hscoped⟩ := hf.scoped
  have hfresh := (spliced_nodup resolver [] f.params).1
  have henv : ∀ q w, (q, w) ∈ (spliced resolver [] f.params).1.zip args →
      ((f.inline resolver).bindings args).lookup q.name = some w :=
    fun q w => (f.inline resolver).lookup_bindings hfresh hl
  obtain ⟨hlength, hmeans⟩ := spliced_sound hr hl hv henv
  -- what stands for a reference has the type and the meaning of the reference
  have hterm : ∀ p ∈ f.params, ((spliced resolver [] f.params).2.term p).type? = some p.type ∧
      Eval.Agrees store
        (Term.eval ((f.inline resolver).bindings args) ((spliced resolver [] f.params).2.term p))
        (Term.eval (f.bindings vs) (.param p)) := by
    intro p hp
    obtain ⟨_, v, _, hm, _⟩ :=
      exists_mem_zip (List.forall₂_same.mpr fun p _ => rfl) hlength.symm hp
    obtain ⟨t, ht, htype, hmean⟩ := hmeans p v hm
    have hkeys : ((spliced resolver [] f.params).2.map (·.1)).Nodup := by
      rw [spliced_names, List.nodup_reverse]
      exact hn
    rw [Substitution.term, lookup_of_mem hkeys ht, Option.getD_some, f.eval_param hn hlength hm]
    exact ⟨htype, hmean⟩
  have hbody : Eval.Agrees store
      (Term.eval ((f.inline resolver).bindings args)
        (f.body.replace (fun _ => false) (spliced resolver [] f.params).2.term))
      (Term.eval (f.bindings vs) f.body) :=
    Term.eval_replace hscoped hstill (fun p hp => (hterm p hp).1) (fun p hp => (hterm p hp).2)
  calc (f.inline resolver).apply args store
      = Term.eval ((f.inline resolver).bindings args) (f.inline resolver).body store := by
        simp only [apply, hl, ↓reduceIte]
    _ = Term.eval ((f.inline resolver).bindings args)
          (f.body.replace (fun _ => false) (spliced resolver [] f.params).2.term) store := by
        rw [← Term.inline_eq_replace hstill resolver]
        rfl
    _ = Term.eval (f.bindings vs) f.body store := hbody.same
    _ = f.apply vs store := by
        have harity : f.arity = vs.length := hlength
        simp only [apply, harity, ↓reduceIte]

/-- Whether the term has neither lambdas nor native functions. -/
def Term.quiet (t : Term) : Bool := t.nodes.all fun u => !u.isLambda && u.native?.isNone

theorem Term.still_of_quiet {t : Term} (h : t.quiet = true) : t.Still := by
  intro u hu
  have hq := List.all_eq_true.mp h u hu
  simp only [Bool.and_eq_true, Bool.not_eq_true', Option.isNone_iff_eq_none] at hq
  refine ⟨hq.1, fun n hn => ?_⟩
  rw [hq.2] at hn
  cases hn

/-- A sum of successors, where the parameters of both replacements have the same name. -/
theorem Function.inline_apply_successors : ∃ f g : Function, ∃ vs after,
    (InlineResolver.single g).values f.params [.int32 1, .int32 2] .empty = .ok (vs, after) ∧
      (f.inline (.single g)).apply [.int32 1, .int32 2] .empty = f.apply vs .empty := by
  obtain ⟨c, f, _, hf, hkind⟩ := Context.exists_of_reads [] "(x, y) => x + y"
    (some ⟨[.int32, .int32], none⟩) .none
    (fun f => Context.reads [] "x => x + 1" (some ⟨[.int32], none⟩) .none fun g =>
      f.body.quiet && g.body.quiet && g.returns? == some .int32 &&
        f.params.all (·.type == .int32) && (f.inline (.single g)).arity == 2 &&
        ((InlineResolver.single g).values f.params [.int32 1, .int32 2] .empty).isOk)
    (by decide +kernel)
  obtain ⟨c', g, _, hg, hkind⟩ := Context.exists_of_reads _ _ _ _ _ hkind
  obtain ⟨written, _, hf⟩ := Context.parse_eq_ok.mp hf
  obtain ⟨written', _, hg⟩ := Context.parse_eq_ok.mp hg
  simp only [Bool.and_eq_true, beq_iff_eq, List.all_eq_true] at hkind
  obtain ⟨⟨⟨⟨⟨hfq, hgq⟩, hreturns⟩, htypes⟩, harity⟩, hvalues⟩ := hkind
  cases hv : (InlineResolver.single g).values f.params [.int32 1, .int32 2] .empty with
  | error e =>
    rw [hv] at hvalues
    cases hvalues
  | ok result =>
    obtain ⟨vs, after⟩ := result
    refine ⟨f, g, vs, after, hv, ?_⟩
    refine Function.inline_apply ⟨_, _, written, hf⟩ (Term.still_of_quiet hfq) ?_ _ vs _ after
      harity hv
    intro p hp h hh
    unfold InlineResolver.single at hh
    split at hh
    · cases hh
      refine ⟨⟨_, _, written', hg⟩, Term.still_of_quiet hgq, ?_⟩
      rw [hreturns, htypes p hp]
    · cases hh

end FatArrow
