import FatArrow.Proofs.Typing.Reference

/-!
# Sequence operations that are called on their type

A sequence operation is printed behind its first argument, also where it was called on its type.
There it is selected again: the type arguments that were written are printed and read as themselves,
and no method of the argument's own type comes before it.
-/

namespace FatArrow

open Syntax (Node TypeNode)

namespace Surface

/-- An expression is written as a call of a member of a type. -/
def CallsType (s : Surface) (scope : List Param) (node : Node) : Prop :=
  ∃ callee args span object name typeArgs span' type, node.bare = .call callee args span ∧
    callee.bare = .member object name typeArgs span' ∧ s.resolve scope none object = .ok (.type type)

/-- The host selects a static method for arguments and for type arguments that can be written. -/
def Calls (s : Surface) (m : Method) (args : List Term) : Prop :=
  ∃ type name, ∃ nodes : List TypeNode, ∃ typeArgs, ∃ terms : List (Term × HostType),
    (∀ node ∈ nodes, node.Named) ∧ s.typesOf nodes = .ok typeArgs ∧
      (∀ a ∈ terms, a.1.type? = some a.2) ∧ terms.length = m.params.length ∧
      args = Term.asArguments (terms.map (·.1)) m.params ∧
      s.static? type name ⟨terms.map (·.2), typeArgs⟩ = some m

variable {s : Surface} {scope : List Param} {node : Node} {m : Method}

theorem FindsAgain.readsWritten (hs : s.FindsAgain) {nodes : List TypeNode} {types : List HostType}
    (hn : ∀ node ∈ nodes, node.Named) (h : s.typesOf nodes = .ok types) :
    ∀ type ∈ types, s.ReadsType type :=
  forall_mem_typesOf (fun node hin type => hs.types node type (hn node hin)) h

/-- What is called on a type is a static method that the host selects. -/
theorem calls_of_callsType {t : Term} (hnamed : node.Named) (hc : s.CallsType scope node)
    (h : s.resolve scope none node = .ok (.value t)) :
    ∃ m args, t = .staticCall m args ∧ s.Calls m args := by
  obtain ⟨callee, nodes, span, object, name, written, span', type, hbare, hcallee, hobject⟩ := hc
  have hnamed := hnamed.bare
  rw [resolve_bare, hbare] at h
  rw [hbare] at hnamed
  obtain ⟨terms, hterms, h⟩ := bind_eq_ok.mp h
  obtain ⟨typeArgs, htypeArgs, h⟩ := bind_eq_ok.mp h
  obtain ⟨found, hfound, h⟩ := bind_eq_ok.mp h
  obtain ⟨t', ht, h⟩ := bind_eq_ok.mp h
  cases h
  rw [calleeTypeArgs, hcallee] at htypeArgs
  -- the written type arguments are parts of the callee
  have hwritten : ∀ node ∈ written, node.Named := by
    cases hnamed with
    | mk _ hparts =>
      have hin := (hparts callee List.mem_cons_self).bare
      rw [hcallee] at hin
      cases hin with
      | mk htypes _ => exact htypes
  rw [resolve_bare, hcallee, resolve, hobject] at hfound
  have hfound : s.ofType (some ⟨terms.map (·.2), typeArgs⟩) type name span' = .ok found := hfound
  unfold ofType at hfound
  dsimp only at hfound
  split at hfound
  next m hm =>
    cases hfound
    simp only [callOf] at ht
    split at ht
    next hlength =>
      cases ht
      exact ⟨m, _, rfl, type, name.text, written, typeArgs, terms, hwritten, htypeArgs,
        arguments_typed nodes hterms, by simpa using hlength, rfl, hm⟩
    next => cases ht
  next => cases hfound

/-- A sequence operation on parameters is selected again behind the first of them. -/
theorem resolve_sequenceCall (hs : s.FindsAgain) (hn : (scope.map (·.name)).Nodup)
    {ps : List Param} (hp : ∀ p ∈ ps, p ∈ scope) (hop : m.isSequenceOp = true)
    (hm : s.Calls m (ps.map .param))
    (h : (Term.staticCall m (ps.map .param)).Mirrors s.namespaces node) :
    s.resolve scope none node = .ok (.value (.staticCall m (ps.map .param))) := by
  obtain ⟨type, name, written, typeArgs, terms, hwritten, htypeArgs, hterms, hl, hargs, hfound⟩ := hm
  obtain ⟨hsame, -, receiver, rest, hsite, hown, hselect⟩ := hs.sequence _ _ _ m hfound hop
  -- the arguments are the parameters, with their types
  obtain rfl := Term.eq_params_of_asArguments hterms hl hargs
  have htypes := hs.readsWritten hwritten htypeArgs
  obtain rfl : m.typeArgs = typeArgs := hsame
  cases ps with
  | nil => cases hsite
  | cons p ps =>
    -- the receiver that was found is the first of them
    obtain ⟨rfl, rfl⟩ := List.cons.inj hsite
    obtain ⟨hfirst, hrest⟩ := List.forall_mem_cons.mp hp
    obtain ⟨callee, nodes, span, hbare, hm⟩ := h
    have honFirst : Term.onFirst m ((p :: ps).map .param) = true := by
      rw [Term.onFirst, hop]
      rfl
    rw [if_pos honFirst] at hm
    obtain ⟨object, ⟨id, nodeArgs, span', rfl, hid, hnodeArgs⟩, hmirrors⟩ := hm
    rw [Term.mirrorsList_iff] at hmirrors
    cases hmirrors with
    | cons hobject hnodes =>
      have hcallee : s.resolve scope
          (some ⟨(ps.map fun p => (Term.param p, p.type)).map (·.2), m.typeArgs⟩)
          (.member object id nodeArgs span') = .ok (.method (.onSequence (.param p) m)) := by
        rw [resolve, resolve_param hn hfirst hobject]
        show s.ofValue (some _) (.param p) id object.span span' = _
        rw [ofValue, hid]
        simp only [Term.type?, hown, hselect]
      rw [resolve_bare, hbare, resolve, arguments_params hn hrest hnodes]
      simp only [calleeTypeArgs, Node.bare, bind, Except.bind, typesOf_of_mirrors htypes hnodeArgs,
        hcallee, callOf]
      rw [if_pos (by simpa using hl), hargs]
      rfl

end Surface

end FatArrow
