import FatArrow.Proofs.Tree.Binding
import FatArrow.Proofs.Tree.InlinedParams

/-!
# References that are copied

A reference of a replacement to one of its own parameters is copied to every place where the replaced
parameter was referred to.  The copy names the parameter that was spliced in for it, and it is bound
by that parameter as long as no lambda in between declares the name.  Inlining does not see to that:
the names of a lambda are chosen without a look at the lambdas around it and inside it.
-/

namespace FatArrow

/-! ## 1. Ways into inlined terms -/

namespace Substitution

/-- What stands for references under lambdas with the given parameters, the outermost first. -/
def under (resolver : InlineResolver) (s : Substitution) : List (List Param) → Substitution
  | [] => s
  | params :: inner => under resolver ((spliced resolver [] params).2 ++ s) inner

variable {resolver : InlineResolver} {s : Substitution} {name : String}
  {scopes : List (List Param)} {params : List Param} {level place : Nat}

theorem lookup_spliced_eq_none (h : name ∉ params.map (·.name)) :
    (spliced resolver [] params).2.lookup name = none := by
  rw [List.lookup_eq_none_iff]
  intro e he
  have hmem : e.1 ∈ (params.map (·.name)).reverse :=
    spliced_names resolver [] params ▸ List.mem_map_of_mem he
  rw [bne_iff_ne]
  rintro rfl
  exact h (List.mem_reverse.mp hmem)

theorem lookup_under_of_none (h : binder? name scopes = none) :
    (s.under resolver scopes).lookup name = s.lookup name := by
  induction scopes generalizing s with
  | nil => rfl
  | cons params inner ih =>
    rw [binder?_eq_none_iff, List.forall_mem_cons, ← binder?_eq_none_iff] at h
    rw [under, ih h.2, List.lookup_append, lookup_spliced_eq_none h.1, Option.none_or]

/-- What stands for a bound name is what the lambda that binds it has spliced for it. -/
theorem lookup_under {t : Term} (h : binder? name scopes = some (level, place))
    (hs : scopes[level]? = some params)
    (ht : (spliced resolver [] params).2.lookup name = some t) :
    (s.under resolver scopes).lookup name = some t := by
  induction scopes generalizing s level with
  | nil => cases h
  | cons first inner ih =>
    unfold binder? at h
    split at h
    next hinner =>
      cases h
      exact ih hinner hs
    next hinner =>
      obtain ⟨_, -, h⟩ := Option.map_eq_some_iff.mp h
      cases h
      cases hs
      rw [under, lookup_under_of_none hinner, List.lookup_append, ht, Option.some_or]

theorem under_append (outer inner : List (List Param)) :
    s.under resolver (outer ++ inner) = (s.under resolver outer).under resolver inner := by
  induction outer generalizing s with
  | nil => rfl
  | cons params outer ih => exact ih

end Substitution

namespace Term

section

variable {resolver : InlineResolver} {s : Substitution} {t : Term} {way : List Nat} {p : Param}

/-- Inlining goes on in the terms directly inside a term, under the parameters that it declares. -/
theorem children_inline (hp : ∀ p, t ≠ .param p) :
    (t.inline resolver s).children =
      t.children.map (inline resolver (s.under resolver t.opened)) := by
  cases t with
  | param p => exact absurd rfl (hp p)
  | _ => simp [children, inline, newArray, inlineList_eq_map, opened, Substitution.under]

theorem opened_inline (hp : ∀ p, t ≠ .param p) :
    (t.inline resolver s).opened = t.opened.map fun params => (spliced resolver [] params).1 := by
  cases t with
  | param p => exact absurd rfl (hp p)
  | _ => rfl

/-- A way that ends at a reference goes on into what stands for it. -/
theorem way_inline (resolver : InlineResolver) (s : Substitution) (inner : List Nat)
    (h : t.at? way = some (.param p)) :
    (t.inline resolver s).at? (way ++ inner) =
        ((s.under resolver (t.scopes way)).term p).at? inner ∧
      (t.inline resolver s).scopes (way ++ inner) =
        (t.scopes way).map (fun params => (spliced resolver [] params).1) ++
          ((s.under resolver (t.scopes way)).term p).scopes inner := by
  induction way generalizing t s with
  | nil =>
    cases h
    exact ⟨rfl, rfl⟩
  | cons i way ih =>
    obtain ⟨c, hc, hmem, hend⟩ := at?_cons h
    have hp : ∀ q, t ≠ .param q := by
      rintro q rfl
      cases hmem
    have hchild : (t.inline resolver s).children[i]? =
        some (c.inline resolver (s.under resolver t.opened)) := by
      rw [children_inline hp, List.getElem?_map, hc, Option.map_some]
    obtain ⟨hat, hscopes⟩ := ih (s.under resolver t.opened) hend
    rw [scopes_cons hc, Substitution.under_append]
    constructor
    · rw [List.cons_append, at?, hchild, Option.bind_some, hat]
    · rw [List.cons_append, scopes_cons hchild, hscopes, opened_inline hp, List.map_append,
        List.append_assoc]

end

variable {skip : List Param → Bool} {f : Param → Term} {t : Term} {way : List Nat} {p : Param}

/-- A way that ends at a reference leads to what replaces it, unless a lambda on it is left alone. -/
theorem way_replace (hskip : ∀ params ∈ t.scopes way, skip params = false)
    (h : t.at? way = some (.param p)) :
    (t.replace skip f).at? way = some (f p) ∧ (t.replace skip f).scopes way = t.scopes way := by
  induction way generalizing t with
  | nil =>
    cases h
    exact ⟨rfl, rfl⟩
  | cons i way ih =>
    obtain ⟨c, hc, hmem, hend⟩ := at?_cons h
    rw [scopes_cons hc] at hskip ⊢
    have hp : ∀ q, t ≠ .param q := by
      rintro q rfl
      cases hmem
    have hopened : (t.replace skip f).opened = t.opened := by
      cases t with
      | param q => exact absurd rfl (hp q)
      | _ => rfl
    have hl : ∀ params body, t = .lambda params body → skip params = false := by
      rintro params body rfl
      exact hskip params (.head _)
    have hchild : (t.replace skip f).children[i]? = some (c.replace skip f) := by
      rw [children_replace hl hp, List.getElem?_map, hc, Option.map_some]
    obtain ⟨hat, hscopes⟩ := ih (fun params hm => hskip params (List.mem_append_right _ hm)) hend
    constructor
    · rw [at?, hchild, Option.bind_some, hat]
    · rw [scopes_cons hchild, hscopes, hopened]

end Term

/-- A lambda is inlined as a term that stands under no other. -/
theorem Function.term_inline (f : Function) (resolver : InlineResolver) :
    (f.inline resolver).term = f.term.inline resolver [] := by
  show Term.lambda _ _ = Term.lambda _ (f.body.inline resolver (_ ++ []))
  rw [List.append_nil]
  rfl

/-! ## 2. Replacements -/

section

variable {g : Function} {way : List Nat} {q : Param} {i : Nat}

/-- A reference of an elaborated lambda to a parameter of its own: no lambda on the way to it declares
the name of any of these. -/
theorem Function.Elaborated.own (hg : g.Elaborated) (hq : g.term.RefersTo (0 :: way) q 0 i) :
    g.body.at? way = some (.param q) ∧ g.params[i]? = some q ∧
      ∀ p ∈ g.params, ∀ params ∈ g.body.scopes way, p.name ∉ params.map (·.name) := by
  obtain ⟨hn, hscoped⟩ := hg.scoped
  have hat : g.body.at? way = some (.param q) := Term.reference?_eq_some_iff.mp hq.found
  obtain ⟨hnames, hdeclared⟩ := hscoped.reach hn hat
  obtain ⟨_, p, hparams, hp, hname⟩ := exists_of_binder? hq.bound
  cases (hparams : some g.params = _)
  -- names are declared once, so the parameter at the place is the one that is referred to
  have hsame : p = q := by
    have hmem : p ∈ g.params ++ (g.body.scopes way).flatten :=
      List.mem_append_left _ (List.mem_of_getElem? hp)
    cases hdeclared with
    | param declared => exact List.inj_on_of_nodup_map hnames hmem declared hname
  refine ⟨hat, hsame ▸ hp, fun p hp params hparams hmem => ?_⟩
  rw [List.map_append] at hnames
  obtain ⟨other, hother, he⟩ := List.mem_map.mp hmem
  have hinner := List.mem_map_of_mem (f := (·.name))
    (List.mem_flatten.mpr ⟨params, hparams, hother⟩)
  exact (List.nodup_append.mp hnames).2.2 p.name (List.mem_map_of_mem hp) other.name hinner he.symm

/-- What stands for a replaced parameter: references of the replacement to its own parameter at some
place have become references to the parameter that is spliced in at that place. -/
theorem way_splice {resolver : InlineResolver} (taken : List String) {d : Param}
    (hd : resolver d = some g) (hg : g.Elaborated) (hq : g.term.RefersTo (0 :: way) q 0 i) :
    ∃ q', (splice resolver taken d).1[i]? = some q' ∧ q'.type = q.type ∧
      (splice resolver taken d).2.at? way = some (.param q') ∧
      (splice resolver taken d).2.scopes way = g.body.scopes way := by
  obtain ⟨hn, hscoped⟩ := hg.scoped
  obtain ⟨hat, hplace, hapart⟩ := hg.own hq
  simp only [splice, hd]
  rw [Substitution.apply_of_isEmpty hscoped]
  -- no lambda on the way declares a name that is changed, so none is left alone
  have hskip : ∀ params ∈ g.body.scopes way,
      params.any (fun p => ((renamed taken g.params).2.lookup p.name).isSome) = false := by
    intro params hparams
    rw [List.any_eq_false]
    intro p hp
    have hnone : (renamed taken g.params).2.lookup p.name = none := by
      rw [List.lookup_eq_none_iff]
      intro e he
      obtain ⟨own, hown, hname⟩ := List.mem_map.mp (renamed_names he)
      rw [bne_iff_ne, ← hname]
      exact fun hsame => hapart own hown params hparams (hsame ▸ List.mem_map_of_mem hp)
    simp [hnone]
  obtain ⟨hend, hscopes⟩ := Term.way_replace (f := (renamed taken g.params).2.term) hskip hat
  obtain ⟨hlt, rfl⟩ := List.getElem?_eq_some_iff.mp hplace
  have hlt' : i < (renamed taken g.params).1.length := by rwa [length_renamed]
  obtain ⟨hterm, htype⟩ := (renamed_term hn taken).get hlt hlt'
  rw [List.get_eq_getElem, List.get_eq_getElem] at hterm htype
  refine ⟨_, List.getElem?_eq_getElem hlt', htype, ?_, hscopes⟩
  rw [Substitution.apply, hend, hterm]

end

/-! ## 3. Copies -/

/-- A copied reference names the parameter that was spliced in for it, with its type, at the lambda
where the replacement happened; so some lambda around it declares its name.  It is bound by that
parameter exactly where neither a nested lambda of the original, with its new parameters, nor a
nested lambda of the replacement declares the name again; the latter never happens to a parameter
that kept its name. -/
theorem Function.inline_refersTo {f g : Function} {resolver : InlineResolver} (hf : f.Elaborated)
    {way inner : List Nat} {p q d : Param} {params : List Param} {level place i : Nat}
    (hp : f.term.RefersTo way p level place) (hlevel : (f.term.scopes way)[level]? = some params)
    (hplace : params[place]? = some d) (hd : resolver d = some g) (hg : g.Elaborated)
    (hq : g.term.RefersTo (0 :: inner) q 0 i) :
    let term := (f.inline resolver).term
    let new := fun params => (spliced resolver [] params).1
    let offset := ((params.take place).flatMap resolver.types).length
    ∃ q', term.reference? (way ++ inner) = some q' ∧ q'.type = q.type ∧
      (term.scopes (way ++ inner))[level]? = some (new params) ∧
      (new params)[offset + i]? = some q' ∧ (binder? q'.name (term.scopes (way ++ inner))).isSome ∧
      (term.RefersTo (way ++ inner) q' level (offset + i) ↔
        (∀ params ∈ (f.term.scopes way).drop (level + 1), q'.name ∉ (new params).map (·.name)) ∧
          (q'.name = q.name ∨ ∀ params ∈ g.body.scopes inner, q'.name ∉ params.map (·.name))) := by
  intro term new offset
  obtain ⟨hn, hscoped⟩ := hf.scoped
  have hend := Term.reference?_eq_some_iff.mp hp.found
  have hwell : WellTyped _ [] f.term := .lambda hn hscoped
  obtain ⟨hnames, -⟩ := hwell.reach List.nodup_nil hend
  have hown : (params.map (·.name)).Nodup := by
    -- the lambda is one of those on the way, and their names are all different
    have hsublist := List.sublist_flatten_of_mem (List.mem_of_getElem? hlevel)
    exact (hsublist.map (·.name)).nodup hnames
  obtain ⟨_, d', hlevel', hplace', hname⟩ := exists_of_binder? hp.bound
  obtain rfl := Option.some.inj (hlevel.symm.trans hlevel')
  obtain rfl := Option.some.inj (hplace.symm.trans hplace')
  obtain ⟨taken, hlookup, hspliced⟩ := spliced_at resolver [] hown hplace
  -- the reference has become what is spliced for the parameter
  have hterm : (Substitution.under resolver [] (f.term.scopes way)).term p =
      (splice resolver taken d).2 := by
    rw [hname] at hlookup
    rw [Substitution.term, Substitution.lookup_under hp.bound hlevel hlookup, Option.getD_some]
  have hwhole : term = f.term.inline resolver [] := f.term_inline resolver
  obtain ⟨hat, hscopes⟩ := Term.way_inline resolver [] inner hend
  rw [← hwhole, hterm] at hat hscopes
  obtain ⟨q', hplace', htype, hcopy, hnested⟩ := way_splice taken hd hg hq
  rw [hcopy] at hat
  rw [hnested] at hscopes
  have hnew : (term.scopes (way ++ inner))[level]? = some (new params) := by
    rw [hscopes, List.getElem?_append_left (by
      rw [List.length_map]; exact (List.getElem?_eq_some_iff.mp hlevel).1), List.getElem?_map, hlevel]
    rfl
  have hfresh : (new params)[offset + i]? = some q' := hspliced i q' hplace'
  have hfound := Term.reference?_eq_some_iff.mpr hat
  refine ⟨q', hfound, htype, hnew, hfresh, isSome_binder? hnew (List.mem_of_getElem? hfresh), ?_⟩
  -- of the lambdas inside the binding one, some are those of the original and the rest those of the
  -- replacement
  have hbound := binder?_eq_some_iff hnew (spliced_nodup resolver [] params).1 hfresh
  have hdrop : (term.scopes (way ++ inner)).drop (level + 1) =
      ((f.term.scopes way).drop (level + 1)).map new ++ g.body.scopes inner := by
    rw [hscopes, List.drop_append_of_le_length (by
      rw [List.length_map]; exact (List.getElem?_eq_some_iff.mp hlevel).1), List.map_drop]
  rw [hdrop, List.forall_mem_append, List.forall_mem_map] at hbound
  constructor
  · intro h
    obtain ⟨hbetween, hinside⟩ := hbound.mp h.bound
    exact ⟨hbetween, .inr hinside⟩
  · rintro ⟨hbetween, hkept | hinside⟩
    · -- a replacement does not declare the name of its own parameter again
      obtain ⟨-, hq', hapart⟩ := hg.own hq
      refine ⟨hfound, hbound.mpr ⟨hbetween, fun params hparams => ?_⟩⟩
      rw [hkept]
      exact hapart q (List.mem_of_getElem? hq') params hparams
    · exact ⟨hfound, hbound.mpr ⟨hbetween, hinside⟩⟩

/-- What is read from two texts with integers for parameters was elaborated. -/
theorem Function.exists_elaborated (text text' : String) (kind : Function → Function → Bool)
    (h : Context.reads [] text none (.typing .int32) (fun f =>
      Context.reads [] text' none (.typing .int32) (kind f)) = true) :
    ∃ f g : Function, f.Elaborated ∧ g.Elaborated ∧ kind f g = true := by
  obtain ⟨_, f, _, hf, hkind⟩ := Context.exists_of_reads _ _ _ _ _ h
  obtain ⟨_, g, _, hg, hkind⟩ := Context.exists_of_reads _ _ _ _ _ hkind
  obtain ⟨written, _, hf⟩ := Context.parse_eq_ok.mp hf
  obtain ⟨written', _, hg⟩ := Context.parse_eq_ok.mp hg
  exact ⟨f, g, ⟨_, _, written, hf⟩, ⟨_, _, written', hg⟩, hkind⟩

/-- A name of its own is bound by the parameter that is spliced in, below a nested lambda, too. -/
theorem Function.inline_refersTo_tripled : ∃ f g : Function, ∃ q', f.Elaborated ∧ g.Elaborated ∧
    f.term.RefersTo [0, 0, 0] ⟨"x", .int32⟩ 0 0 ∧ g.term.RefersTo [0, 0] ⟨"a", .int32⟩ 0 0 ∧
    (f.inline (.byName [("x", g)])).term.RefersTo [0, 0, 0, 0] q' 0 0 := by
  obtain ⟨f, g, hf, hg, hkind⟩ := exists_elaborated "x => y => x + y" "a => a * 3"
    (fun f g => decide (f.term.RefersTo [0, 0, 0] ⟨"x", .int32⟩ 0 0 ∧
      g.term.RefersTo [0, 0] ⟨"a", .int32⟩ 0 0 ∧
      f.term.scopes [0, 0, 0] = [[⟨"x", .int32⟩], [⟨"y", .int32⟩]] ∧
      (spliced (.byName [("x", g)]) [] [⟨"x", .int32⟩]).1 = [⟨"a", .int32⟩] ∧
      (spliced (.byName [("x", g)]) [] [⟨"y", .int32⟩]).1 = [⟨"y", .int32⟩])) (by decide +kernel)
  obtain ⟨hp, hq, hscopes, hx, hy⟩ := of_decide_eq_true hkind
  have hlevel : (f.term.scopes [0, 0, 0])[0]? = some [⟨"x", .int32⟩] := by
    rw [hscopes]
    rfl
  have hd : InlineResolver.byName [("x", g)] ⟨"x", .int32⟩ = some g := rfl
  obtain ⟨q', -, -, -, hfresh, -, hiff⟩ := inline_refersTo hf hp hlevel rfl hd hg hq
  simp only [hx] at hfresh
  obtain rfl : ⟨"a", .int32⟩ = q' := Option.some.inj hfresh
  rw [hscopes] at hiff
  refine ⟨f, g, _, hf, hg, hp, hq, hiff.mpr ⟨fun params hparams => ?_, .inl rfl⟩⟩
  obtain rfl := List.mem_singleton.mp hparams
  simp only [hy]
  decide

/-- A parameter of a nested lambda captures a copied reference to a parameter of the same name. -/
theorem Function.inline_captures : ∃ f g : Function, f.Elaborated ∧ g.Elaborated ∧
    f.term.RefersTo [0, 0, 0] ⟨"x", .int32⟩ 0 0 ∧ g.term.RefersTo [0, 0] ⟨"y", .int32⟩ 0 0 ∧
    (f.inline (.byName [("x", g)])).term.RefersTo [0, 0, 0, 0] ⟨"y", .int32⟩ 1 0 := by
  obtain ⟨f, g, hf, hg, hkind⟩ := exists_elaborated "x => y => x + y" "y => y * 3"
    (fun f g => decide (f.term.RefersTo [0, 0, 0] ⟨"x", .int32⟩ 0 0 ∧
      g.term.RefersTo [0, 0] ⟨"y", .int32⟩ 0 0 ∧
      (f.inline (.byName [("x", g)])).term.RefersTo [0, 0, 0, 0] ⟨"y", .int32⟩ 1 0))
    (by decide +kernel)
  exact ⟨f, g, hf, hg, of_decide_eq_true hkind⟩

end FatArrow
