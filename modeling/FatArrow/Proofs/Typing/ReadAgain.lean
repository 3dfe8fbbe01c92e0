import FatArrow.Proofs.Typing.SequenceCall

/-!
# Lambdas whose body is a static reference

Where the host finds its static members and methods again, a lambda whose body refers to one of them
can be read where it is printed, and what mirrors it is elaborated to the same lambda: unless one of
its parameters has the name as which the declaring type is printed.
-/

namespace FatArrow

namespace Term

/-- A call of a sequence operation. -/
def callsSequenceOp : Term → Bool
  | .staticCall m _ => m.isSequenceOp
  | _ => false

theorem exists_params {args : List Term} (h : args.all (·.isParam) = true) :
    ∃ ps : List Param, args = ps.map .param := by
  induction args with
  | nil => exact ⟨[], rfl⟩
  | cons t args ih =>
    rw [List.all_cons, Bool.and_eq_true] at h
    obtain ⟨ps, rfl⟩ := ih h.2
    cases t with
    | param p => exact ⟨p :: ps, rfl⟩
    | _ => cases h.1

end Term

namespace Surface

variable {s : Surface} {scope : List Param} {node : Syntax.Node} {t : Term}

/-- A reference on its way through a text: it can be read, and it is what anything that mirrors it
resolves to. -/
structure Keeps (s : Surface) (scope : List Param) (t : Term) : Prop where
  legible : t.Legible s.namespaces
  again : ∀ node, t.Mirrors s.namespaces node → s.resolve scope none node = .ok (.value t)

theorem keeps_staticMember {m : Member} (hs : s.FindsAgain) (hm : (Term.staticMember m).Refers s)
    (hfree : ∀ p ∈ scope, p.name ≠ m.declaring.shortText s.namespaces) :
    s.Keeps scope (.staticMember m) where
  legible := by
    obtain ⟨hstatic, type, name, hfound⟩ := hm
    obtain ⟨⟨printed, hprinted, hname, -⟩, hmember, -⟩ := hs.member type name m hfound hstatic
    exact ⟨HostType.legibleOwner_of_printedName? hprinted hname, hmember⟩
  again _ := resolve_staticMember hs hm hfree

theorem legible_params {ps : List Param} (hnames : ∀ p ∈ scope, Syntax.isName p.name = true)
    (hp : ∀ p ∈ ps, p ∈ scope) : Term.LegibleList s.namespaces (ps.map .param) := by
  rw [Term.legibleList_iff, List.forall_mem_map]
  exact fun p hin => hnames p (hp p hin)

theorem keeps_staticCall {m : Method} {ps : List Param} (hs : s.FindsAgain)
    (hn : (scope.map (·.name)).Nodup) (hnames : ∀ p ∈ scope, Syntax.isName p.name = true)
    (hp : ∀ p ∈ ps, p ∈ scope) (hop : m.isSequenceOp = false)
    (hm : (Term.staticCall m (ps.map .param)).Refers s)
    (hfree : ∀ type, m.declaring = some type → ∀ p ∈ scope, p.name ≠ type.shortText s.namespaces) :
    s.Keeps scope (.staticCall m (ps.map .param)) where
  legible := by
    obtain ⟨type, name, typeArgs, terms, -, -, -, hfound⟩ := hm hop
    obtain ⟨-, htypeArgs, hname, declaring, hdeclaring, ⟨printed, hprinted, hprintedName, -⟩, -⟩ :=
      hs.method type name _ m hfound hop
    refine ⟨fun _ owner howner => ?_, hname, ?_, legible_params hnames hp⟩
    · cases hdeclaring.symm.trans howner
      exact HostType.legibleOwner_of_printedName? hprinted hprintedName
    · rw [htypeArgs]
      exact List.forall_mem_nil _
  again _ := resolve_staticCall hs hn hp hop hm hfree

theorem keeps_sequenceCall {m : Method} {ps : List Param} (hs : s.FindsAgain)
    (hn : (scope.map (·.name)).Nodup) (hnames : ∀ p ∈ scope, Syntax.isName p.name = true)
    (hp : ∀ p ∈ ps, p ∈ scope) (hop : m.isSequenceOp = true) (hm : s.Calls m (ps.map .param)) :
    s.Keeps scope (.staticCall m (ps.map .param)) where
  legible := by
    obtain ⟨type, name, nodes, typeArgs, terms, hwritten, htypes, -, hl, hargs, hfound⟩ := hm
    obtain ⟨hsame, hname, receiver, rest, hsite, -⟩ := hs.sequence type name _ m hfound hop
    refine ⟨fun hfirst => ?_, hname, fun type htype => ?_, legible_params hnames hp⟩
    · -- there is a first argument to print it on
      cases ps with
      | nil =>
        cases terms with
        | nil => cases hsite
        | cons a terms =>
          have hlength := congrArg List.length hargs
          simp [Term.asArguments, ← hl] at hlength
      | cons p ps =>
        rw [Term.onFirst, hop] at hfirst
        cases hfirst
    · rw [hsame] at htype
      exact (hs.readsWritten hwritten htypes type htype).legible
  again _ := resolve_sequenceCall hs hn hp hop hm

/-- What resolves to a static reference is kept. -/
theorem keeps_of_isReference (hs : s.FindsAgain) (hn : (scope.map (·.name)).Nodup)
    (hnames : ∀ p ∈ scope, Syntax.isName p.name = true) (hscoped : Scoped scope t)
    (hnamed : node.Named) (h : s.resolve scope none node = .ok (.value t))
    (hr : t.isReference = true) (hcalls : t.callsSequenceOp = true → s.CallsType scope node)
    (hfree : ∀ type ∈ t.owner?, ∀ p ∈ scope, p.name ≠ type.shortText s.namespaces) :
    s.Keeps scope t := by
  have hrefers : t.Refers s := resolve_refers hs.unnamed node h
  cases t with
  | staticMember m => exact keeps_staticMember hs hrefers (hfree m.declaring rfl)
  | staticCall m args =>
    obtain ⟨ps, rfl⟩ := Term.exists_params hr
    -- in a term of the scope every reference is declared
    have hp : ∀ p ∈ ps, p ∈ scope := by
      cases hscoped with
      | staticCall inside fits =>
        intro p hp
        cases inside _ (List.mem_map_of_mem hp) with
        | param declared => exact declared
    by_cases hop : m.isSequenceOp = true
    · obtain ⟨_, _, ht, hm⟩ := calls_of_callsType hnamed (hcalls hop) h
      cases ht
      exact keeps_sequenceCall hs hn hnames hp hop hm
    · rw [Bool.not_eq_true] at hop
      refine keeps_staticCall hs hn hnames hp hop hrefers fun type htype => hfree type ?_
      rw [Term.owner?, Term.onFirst, hop]
      exact htype
  | _ => cases hr

/-- A lambda that was read, with a static reference for its body, can be read where it is printed,
and what mirrors it is elaborated to the same lambda. -/
theorem elaborate_again {shape : LambdaShape} {text : String} {written : Syntax.Lambda}
    {f : Function} (hs : s.FindsAgain) (hread : Syntax.parseLambda text = .ok written)
    (h : s.elaborate (some shape) written = .ok f) (hr : f.body.isReference = true)
    (hcalls : f.body.callsSequenceOp = true → s.CallsType f.params written.body)
    (hfree : ∀ type ∈ f.body.owner?, ∀ p ∈ f.params, p.name ≠ type.shortText s.namespaces) :
    f.Legible s.namespaces ∧
      ∀ other, f.Mirrors s.namespaces other → s.elaborate (some shape) other = .ok f := by
  obtain ⟨hn, hscoped⟩ := Function.Elaborated.scoped ⟨s, some shape, written, h⟩
  have hnames : ∀ p ∈ f.params, Syntax.isName p.name = true := by
    intro p hp
    obtain ⟨w, hw, hname⟩ := elaborate_names h p hp
    rw [← hname]
    exact Syntax.parseLambda_names hread w hw
  obtain ⟨found, body, -, htypes, hfound, hvalue, hcloses⟩ := elaborate_eq_ok h
  -- nothing is converted, so the body is what was resolved
  obtain rfl := hcloses.eq_of_isReference hr
  have hbody : s.resolve f.params none written.body = .ok (.value f.body) := by
    cases found <;> cases hvalue
    exact hfound
  have hkeeps := keeps_of_isReference hs hn hnames hscoped (Syntax.parseLambda_named hread) hbody hr
    hcalls hfree
  refine ⟨⟨hnames, hkeeps.legible⟩, ?_⟩
  rintro other ⟨hparams, hmirrors⟩
  have hshape : shape.params = f.params.map (·.type) := (htypes shape rfl).symm
  refine elaborate_of_parts ?_ ?_ (hkeeps.again other.body hmirrors) (hcloses.elsewhere _)
  · rw [hshape, List.length_map]
    exact hparams.length_eq
  · rw [hshape]
    exact declare_mirrors hn hparams

end Surface

end FatArrow
