import FatArrow.Proofs.Meaning.Inlining
import FatArrow.Proofs.Typing.ReadTypes

/-!
# Static references

A static member is found in some type, and a static method is selected among those of one.  Where
every one of them is found again behind the printed name of its declaring type, an expression that
has the parts of such a reference resolves to the same reference, unless a parameter of the lambda
has the name of the type.
-/

namespace FatArrow

open Syntax (Node)

/-! ## 1. References -/

/-- A parameter. -/
def Term.isParam : Term → Bool
  | .param _ => true
  | _ => false

/-- A static member, or a call of a static method on parameters. -/
def Term.isReference : Term → Bool
  | .staticMember _ => true
  | .staticCall _ args => args.all (·.isParam)
  | _ => false

/-- The type behind whose name a static reference is printed. -/
def Term.owner? : Term → Option HostType
  | .staticMember m => some m.declaring
  | .staticCall m args => if onFirst m args then none else m.declaring
  | _ => none

namespace Surface

/-- The static method of a type that a call by name selects. -/
def static? (s : Surface) (type : HostType) (name : String) (site : CallSite) : Option Method :=
  CallSite.select? s.host.toTypeOrder ((s.host.methods type name).filter (·.isStatic)) site

/-- Static members, and static methods that are no sequence operations, are found again behind the
printed name of their declaring type; sequence operations are found again on their first argument.
Types that are written are read as themselves, and the caller knows no methods. -/
structure FindsAgain (s : Surface) : Prop where
  member : ∀ type name m, s.member? type name = some m → m.isStatic = true →
    s.Prints m.declaring ∧ Syntax.isName m.name = true ∧ s.member? m.declaring m.name = some m
  method : ∀ type name site m, s.static? type name site = some m → m.isSequenceOp = false →
    site.typeArgs = [] ∧ m.typeArgs = [] ∧ Syntax.isName m.name = true ∧
      ∃ declaring, m.declaring = some declaring ∧ s.Prints declaring ∧
        s.static? declaring m.name site = some m
  sequence : ∀ type name site m, s.static? type name site = some m → m.isSequenceOp = true →
    m.typeArgs = site.typeArgs ∧ Syntax.isName m.name = true ∧ ∃ receiver rest,
      site.args = receiver :: rest ∧
        CallSite.select? s.host.toTypeOrder
          ((s.host.methods receiver m.name).filter fun n => !n.isStatic) ⟨rest, site.typeArgs⟩ = none ∧
        ((s.host.itemType? receiver).bind fun item => CallSite.selectSequenceOp? s.host m.name receiver
          item ⟨rest, site.typeArgs⟩) = some m
  types : ∀ node type, Syntax.TypeNode.Named node → s.typeOf node = .ok type → s.ReadsType type
  unnamed : ∀ name types, s.resolver.method? name types = none

end Surface

/-- A static member is one of the host, and a call of a static method that is no sequence operation
has arguments for which the host selects it. -/
def Term.Refers (s : Surface) : Term → Prop
  | .staticMember m => m.isStatic = true ∧ ∃ type name, s.member? type name = some m
  | .staticCall m args => m.isSequenceOp = false → ∃ type name typeArgs,
      ∃ terms : List (Term × HostType), (∀ a ∈ terms, a.1.type? = some a.2) ∧
        terms.length = m.params.length ∧ args = Term.asArguments (terms.map (·.1)) m.params ∧
        s.static? type name ⟨terms.map (·.2), typeArgs⟩ = some m
  | _ => True

/-- A value refers to what the host has, and so does a method that waits for its call. -/
def Resolved.Refers (s : Surface) (site : Option CallSite) : Resolved → Prop
  | .value t => t.Refers s
  | .method (.alone m) => ∃ c type name, site = some c ∧ s.static? type name c = some m
  | .method (.onSequence _ m) => m.isSequenceOp = true
  | _ => True

section

variable {s : Surface} {scope : List Param} {site : Option CallSite} {r : Resolved} {span : Span}

/-- Written type arguments are bound to a generic method; without any, a plain method is taken as it
is. -/
theorem CallSite.bind?_cases {typeArgs : List HostType} {m n : Method} (h : bind? typeArgs m = some n) :
    (typeArgs = [] ∧ m.isGenericDefinition = false ∧ n = m) ∨
      (typeArgs ≠ [] ∧ m.isGenericDefinition = true ∧ n = m.instantiate typeArgs) := by
  unfold bind? at h
  cases typeArgs with
  | nil =>
    cases hm : m.isGenericDefinition with
    | true =>
      rw [hm] at h
      cases h
    | false =>
      rw [hm] at h
      exact .inl ⟨rfl, rfl, (Option.some.inj h).symm⟩
  | cons type types =>
    split at h
    next hnil => cases hnil
    next =>
      split at h
      next hboth =>
        rw [Bool.and_eq_true] at hboth
        exact .inr ⟨List.cons_ne_nil _ _, hboth.1, (Option.some.inj h).symm⟩
      next => cases h

theorem CallSite.isSequenceOp_of_bind? {typeArgs : List HostType} {m n : Method}
    (h : bind? typeArgs m = some n) : n.isSequenceOp = m.isSequenceOp := by
  rcases bind?_cases h with ⟨-, -, rfl⟩ | ⟨-, -, rfl⟩ <;> rfl

/-- What is selected is one of the candidates, with type arguments bound. -/
theorem CallSite.exists_of_select? {o : TypeOrder} {candidates : List Method} {site : CallSite}
    {m : Method} (h : select? o candidates site = some m) :
    ∃ n ∈ candidates, bind? site.typeArgs n = some m := by
  unfold select? at h
  extract_lets bound at h
  have hbound : ∀ n ∈ bound, ∃ c ∈ candidates, bind? site.typeArgs c = some n := fun n hn =>
    List.mem_filterMap.mp (List.mem_of_mem_filter hn)
  -- an exact match, or the only one that accepts the arguments
  split at h
  next hfind =>
    cases h
    exact hbound m (List.mem_of_find?_eq_some hfind)
  next =>
    split at h
    next hfilter =>
      cases h
      refine hbound m (List.mem_of_mem_filter (p := fun n => accepts o n.params site.args) ?_)
      rw [hfilter]
      exact List.mem_singleton_self m
    next => cases h

theorem CallSite.isSequenceOp_of_selectSequenceOp? {host : Host} {name : String}
    {receiver item : HostType} {site : CallSite} {m : Method}
    (h : selectSequenceOp? host name receiver item site = some m) : m.isSequenceOp = true := by
  simp only [selectSequenceOp?, Option.bind_eq_bind, Option.bind_eq_some_iff] at h
  obtain ⟨holder, -, h⟩ := h
  obtain ⟨n, hn, hbind⟩ := exists_of_select? h
  obtain ⟨n', hn', rfl⟩ := List.mem_map.mp hn
  have hop : n'.isSequenceOp = true := (List.mem_filter.mp hn').2
  rw [isSequenceOp_of_bind? hbind, bindItem]
  split <;> exact hop

theorem Surface.arguments_typed {terms : List (Term × HostType)} (nodes : List Node)
    (h : s.arguments scope nodes = .ok terms) : ∀ a ∈ terms, a.1.type? = some a.2 := by
  induction nodes generalizing terms with
  | nil =>
    cases h
    exact List.forall_mem_nil _
  | cons node nodes ih =>
    simp only [Surface.arguments] at h
    split at h
    · cases h
    obtain ⟨a, -, h⟩ := bind_eq_ok.mp h
    obtain ⟨first, hfirst, h⟩ := bind_eq_ok.mp h
    obtain ⟨rest, hrest, h⟩ := bind_eq_ok.mp h
    cases h
    exact List.forall_mem_cons.mpr ⟨(Resolved.needOperand_eq_ok hfirst).2, ih hrest⟩

theorem Surface.ofMember_refers {object : Resolved} {objectSpan : Span} {name : Syntax.Name}
    {typeArgs : List Syntax.TypeNode} (h : s.ofMember site object objectSpan name typeArgs span = .ok r) :
    r.Refers s site := by
  cases object with
  | value target =>
    simp only [ofMember, ofValue] at h
    split at h
    next => cases h
    next type htype =>
      cases site with
      | some c =>
        dsimp only at h
        split at h
        next m _ =>
          cases h
          trivial
        next =>
          split at h
          next m hm =>
            cases h
            obtain ⟨item, -, hm⟩ := Option.bind_eq_some_iff.mp hm
            exact CallSite.isSequenceOp_of_selectSequenceOp? hm
          next => cases h
      | none =>
        dsimp only at h
        split at h
        next =>
          cases h
          trivial
        next =>
          split at h
          next m hm =>
            cases h
            by_cases hstatic : m.isStatic = true
            · simp only [hstatic, ↓reduceIte]
              exact ⟨hstatic, _, _, hm⟩
            · simp only [hstatic, Bool.false_eq_true, ↓reduceIte]
              trivial
          next => cases h
  | type type =>
    simp only [ofMember, ofType] at h
    cases site with
    | some c =>
      dsimp only at h
      split at h
      next m hm =>
        cases h
        exact ⟨c, _, _, rfl, hm⟩
      next => cases h
    | none =>
      dsimp only at h
      split at h
      next m hm =>
        split at h
        next hstatic =>
          cases h
          exact ⟨hstatic, _, _, hm⟩
        next => cases h
      next => split at h <;> cases h; trivial
  | method callee => cases h
  | pending start at_ =>
    simp only [ofMember, ofPending] at h
    split at h
    · cases h
      trivial
    · split at h
      · split at h <;> cases h <;> trivial
      · obtain ⟨_, -, h⟩ := bind_eq_ok.mp h
        obtain ⟨_, -, h⟩ := bind_eq_ok.mp h
        cases h
        trivial

theorem Surface.ofName_refers (hunnamed : ∀ name types, s.resolver.method? name types = none)
    {name : Syntax.Name} {typeArgs : List Syntax.TypeNode}
    (h : s.ofName scope site name typeArgs span = .ok r) : r.Refers s site := by
  unfold ofName at h
  split at h
  next =>
    cases h
    trivial
  next =>
    cases site with
    | some c =>
      simp only [hunnamed, ite_self] at h
      cases h
      trivial
    | none =>
      dsimp only at h
      split at h
      · split at h <;> cases h <;> trivial
      · obtain ⟨_, -, h⟩ := bind_eq_ok.mp h
        obtain ⟨_, -, h⟩ := bind_eq_ok.mp h
        cases h
        trivial

theorem Surface.callOf_refers {callee : Resolved} {calleeSpan : Span} {typeArgs : List HostType}
    {terms : List (Term × HostType)} {t : Term} (hterms : ∀ a ∈ terms, a.1.type? = some a.2)
    (hc : callee.Refers s (some ⟨terms.map (·.2), typeArgs⟩))
    (h : callOf callee calleeSpan (terms.map (·.1)) span = .ok t) : t.Refers s := by
  cases callee with
  | method callee =>
    cases callee with
    | onValue target m =>
      simp only [callOf] at h
      split at h <;> cases h
      trivial
    | alone m =>
      simp only [callOf] at h
      split at h
      next hlength =>
        cases h
        obtain ⟨c, type, name, hsite, hm⟩ := hc
        cases hsite
        exact fun _ => ⟨type, name, typeArgs, terms, hterms, by simpa using hlength, rfl, hm⟩
      next => cases h
    | onSequence receiver m =>
      simp only [callOf] at h
      split at h <;> cases h
      intro hop
      rw [show m.isSequenceOp = true from hc] at hop
      cases hop
  | _ => cases h

/-- Whatever is resolved refers to what the host has. -/
theorem Surface.resolve_refers {s : Surface} {scope : List Param} {site : Option CallSite}
    {r : Resolved} (hunnamed : ∀ name types, s.resolver.method? name types = none) (node : Node)
    (h : s.resolve scope site node = .ok r) : r.Refers s site := by
  -- only names, members and calls give references; a call asks what its callee refers to
  cases node with
  | literal value span =>
    obtain ⟨t, ht, h⟩ := bind_eq_ok.mp h
    cases h
    unfold literalTerm at ht
    split at ht <;> cases ht <;> trivial
  | name id typeArgs span => exact ofName_refers hunnamed h
  | predefined keyword =>
    obtain ⟨_, -, h⟩ := bind_eq_ok.mp h
    cases h
    trivial
  | binary op left right span =>
    obtain ⟨_, -, h⟩ := bind_eq_ok.mp h
    obtain ⟨_, -, h⟩ := bind_eq_ok.mp h
    obtain ⟨_, -, h⟩ := bind_eq_ok.mp h
    obtain ⟨_, -, h⟩ := bind_eq_ok.mp h
    obtain ⟨t, ht, h⟩ := bind_eq_ok.mp h
    cases h
    unfold binaryOf at ht
    dsimp only at ht
    split at ht <;> cases ht
    trivial
  | unary op operand span =>
    obtain ⟨_, -, h⟩ := bind_eq_ok.mp h
    obtain ⟨_, -, h⟩ := bind_eq_ok.mp h
    dsimp only at h
    split at h <;> cases h
    trivial
  | conditional test ifTrue ifFalse span =>
    obtain ⟨_, -, h⟩ := bind_eq_ok.mp h
    obtain ⟨_, -, h⟩ := bind_eq_ok.mp h
    dsimp only at h
    split at h
    · cases h
    obtain ⟨_, -, h⟩ := bind_eq_ok.mp h
    obtain ⟨_, -, h⟩ := bind_eq_ok.mp h
    obtain ⟨_, -, h⟩ := bind_eq_ok.mp h
    obtain ⟨_, -, h⟩ := bind_eq_ok.mp h
    cases h
    trivial
  | call callee args span =>
    obtain ⟨terms, hterms, h⟩ := bind_eq_ok.mp h
    obtain ⟨typeArgs, -, h⟩ := bind_eq_ok.mp h
    obtain ⟨found, hfound, h⟩ := bind_eq_ok.mp h
    obtain ⟨t, ht, h⟩ := bind_eq_ok.mp h
    cases h
    exact callOf_refers (arguments_typed args hterms) (resolve_refers hunnamed callee hfound) ht
  | index object args span =>
    obtain ⟨_, -, h⟩ := bind_eq_ok.mp h
    obtain ⟨_, -, h⟩ := bind_eq_ok.mp h
    obtain ⟨_, -, h⟩ := bind_eq_ok.mp h
    obtain ⟨t, ht, h⟩ := bind_eq_ok.mp h
    cases h
    unfold indexOf at ht
    dsimp only at ht
    split at ht
    · split at ht
      · split at ht <;> cases ht
        trivial
      · cases ht
    · split at ht <;> cases ht
      trivial
  | member object id typeArgs span =>
    obtain ⟨found, -, h⟩ := bind_eq_ok.mp h
    exact ofMember_refers h
  | cast written operand span =>
    obtain ⟨_, -, h⟩ := bind_eq_ok.mp h
    obtain ⟨_, -, h⟩ := bind_eq_ok.mp h
    obtain ⟨_, -, h⟩ := bind_eq_ok.mp h
    dsimp only at h
    split at h <;> cases h
    trivial
  | new written args span =>
    obtain ⟨_, -, h⟩ := bind_eq_ok.mp h
    obtain ⟨_, -, h⟩ := bind_eq_ok.mp h
    obtain ⟨t, ht, h⟩ := bind_eq_ok.mp h
    cases h
    unfold creationOf at ht
    dsimp only at ht
    split at ht <;> cases ht
    trivial
  | newArray written nodes span =>
    simp only [Surface.resolve] at h
    split at h
    all_goals
      obtain ⟨_, -, h⟩ := bind_eq_ok.mp h
      obtain ⟨⟨_, element⟩, -, h⟩ := bind_eq_ok.mp h
      cases element <;> cases h
      trivial
  | lambda keyword params body span =>
    obtain ⟨_, -, h⟩ := bind_eq_ok.mp h
    obtain ⟨_, -, h⟩ := bind_eq_ok.mp h
    obtain ⟨_, -, h⟩ := bind_eq_ok.mp h
    cases h
    trivial
  | paren inner span => exact resolve_refers hunnamed inner h

/-! ## 2. Resolving again -/

/-- Parentheses mean what is inside them. -/
theorem Surface.resolve_bare (node : Node) :
    s.resolve scope site node = s.resolve scope site node.bare := by
  induction node using Syntax.Node.bare.induct with
  | case1 inner span ih => exact ih
  | case2 node hne =>
    unfold Node.bare
    split
    next inner span => exact absurd rfl (hne inner span)
    next => rfl

variable {p : Param} {node : Node} {type : HostType}

theorem Surface.resolve_param (hn : (scope.map (·.name)).Nodup) (hp : p ∈ scope)
    (h : (Term.param p).Mirrors s.namespaces node) :
    s.resolve scope none node = .ok (.value (.param p)) := by
  obtain ⟨id, span, hbare, hid⟩ := h
  -- names are declared once, so the first parameter of the name is this one
  have hfind : scope.find? (·.name == id.text) = some p := by
    rw [hid]
    clear hbare hid
    induction scope with
    | nil => cases hp
    | cons q scope ih =>
      rw [List.map_cons, List.nodup_cons] at hn
      rcases List.mem_cons.mp hp with rfl | hp
      · exact List.find?_cons_of_pos (beq_self_eq_true _)
      · have hne : q.name ≠ p.name := fun he => hn.1 (he ▸ List.mem_map_of_mem hp)
        rw [List.find?_cons_of_neg (by simpa using hne)]
        exact ih hn.2 hp
  rw [resolve_bare, hbare, resolve, ofName]
  simp only [List.isEmpty_nil, ↓reduceIte, hfind]

/-- The printed name of a type means the type where no parameter has the name. -/
theorem Surface.resolve_type (ht : s.Prints type)
    (hfree : ∀ p ∈ scope, p.name ≠ type.shortText s.namespaces)
    (h : type.MirrorsName s.namespaces node) : s.resolve scope none node = .ok (.type type) := by
  obtain ⟨name, hprinted, -, hnamed⟩ := ht
  obtain ⟨id, span, rfl, rfl⟩ := h.eq_name hprinted
  rw [HostType.shortText_of_printedName? hprinted] at hfree
  have hfind : scope.find? (·.name == id.text) = none :=
    List.find?_eq_none.mpr fun p hp => by simpa using hfree p hp
  rw [resolve, ofName]
  simp only [List.isEmpty_nil, ↓reduceIte, hfind, hnamed]

/-- The arguments of a call on parameters. -/
theorem Surface.arguments_params (hn : (scope.map (·.name)).Nodup) {ps : List Param}
    {nodes : List Node} (hp : ∀ p ∈ ps, p ∈ scope)
    (h : List.Forall₂ (Term.Mirrors s.namespaces) (ps.map .param) nodes) :
    s.arguments scope nodes = .ok (ps.map fun p => (.param p, p.type)) := by
  induction ps generalizing nodes with
  | nil =>
    cases h
    rfl
  | cons p ps ih =>
    obtain ⟨hfirst, hrest⟩ := List.forall_mem_cons.mp hp
    cases h with
    | @cons _ node _ nodes hnode hnodes =>
      have hlambda : isLambdaNode node = false := by
        obtain ⟨id, span, hbare, -⟩ := hnode
        rw [isLambdaNode, hbare]
      simp only [arguments, hlambda, resolve_param hn hfirst hnode, ih hrest hnodes,
        Bool.false_eq_true, ↓reduceIte]
      rfl

theorem Term.eq_param_of_asArgument {t : Term} (h : t.asArgument type = .param p) : t = .param p := by
  have hconverts := t.converts_asArgument type
  rw [h] at hconverts
  cases hconverts
  rfl

/-- Arguments that are parameters once they are brought to their types were so before. -/
theorem Term.eq_params_of_asArguments {terms : List (Term × HostType)} {types : List HostType}
    {ps : List Param} (hterms : ∀ a ∈ terms, a.1.type? = some a.2)
    (hl : terms.length = types.length)
    (h : ps.map .param = Term.asArguments (terms.map (·.1)) types) :
    terms = ps.map fun p => (.param p, p.type) := by
  induction terms generalizing types ps with
  | nil =>
    cases ps with
    | nil => rfl
    | cons p ps => cases h
  | cons a terms ih =>
    obtain ⟨hfirst, hrest⟩ := List.forall_mem_cons.mp hterms
    cases types with
    | nil => cases hl
    | cons type types =>
      cases ps with
      | nil => cases h
      | cons p ps =>
        simp only [asArguments, List.map_cons, List.zip_cons_cons, List.cons.injEq] at h
        obtain ⟨t, found⟩ := a
        obtain rfl := eq_param_of_asArgument h.1.symm
        cases hfirst
        rw [List.map_cons, ← ih hrest (Nat.succ.inj hl) h.2]

theorem Surface.resolve_staticMember (hs : s.FindsAgain) {m : Member}
    (hm : (Term.staticMember m).Refers s)
    (hfree : ∀ p ∈ scope, p.name ≠ m.declaring.shortText s.namespaces)
    (h : (Term.staticMember m).Mirrors s.namespaces node) :
    s.resolve scope none node = .ok (.value (.staticMember m)) := by
  obtain ⟨hstatic, _, _, hfound⟩ := hm
  obtain ⟨hprints, -, hagain⟩ := hs.member _ _ m hfound hstatic
  obtain ⟨object, id, span, hbare, hid, howner⟩ := h
  rw [resolve_bare, hbare, resolve, resolve_type hprints hfree howner]
  show s.ofType none m.declaring id span = _
  rw [ofType]
  simp only [hid, hagain, hstatic, ↓reduceIte]

theorem Surface.resolve_staticCall (hs : s.FindsAgain) (hn : (scope.map (·.name)).Nodup)
    {m : Method} {ps : List Param} (hp : ∀ p ∈ ps, p ∈ scope) (hop : m.isSequenceOp = false)
    (hm : (Term.staticCall m (ps.map .param)).Refers s)
    (hfree : ∀ type, m.declaring = some type → ∀ p ∈ scope, p.name ≠ type.shortText s.namespaces)
    (h : (Term.staticCall m (ps.map .param)).Mirrors s.namespaces node) :
    s.resolve scope none node = .ok (.value (.staticCall m (ps.map .param))) := by
  obtain ⟨_, _, typeArgs, terms, hterms, hl, hargs, hfound⟩ := hm hop
  obtain ⟨hnone, htypeArgs, -, declaring, hdeclaring, hprints, hagain⟩ :=
    hs.method _ _ _ m hfound hop
  -- the arguments are the parameters, with their types
  obtain rfl := Term.eq_params_of_asArguments hterms hl hargs
  obtain rfl : typeArgs = [] := hnone
  obtain ⟨callee, nodes, span, hbare, hm⟩ := h
  have hfirst : Term.onFirst m (ps.map .param) = false := by rw [Term.onFirst, hop, Bool.false_and]
  simp only [hfirst, Bool.false_eq_true, ↓reduceIte, Term.mirrorsList_iff, Method.IsStaticName,
    hdeclaring] at hm
  obtain ⟨⟨object, ⟨id, written, span', rfl, hid, hwritten⟩, howner⟩, hnodes⟩ := hm
  rw [htypeArgs] at hwritten
  cases hwritten
  -- the type is found by its name, and the method among those of the type
  have hcallee (site : CallSite) (hsite : s.static? declaring m.name site = some m) :
      s.resolve scope (some site) (.member object id [] span') = .ok (.method (.alone m)) := by
    rw [resolve, resolve_type hprints (hfree declaring hdeclaring) howner]
    show s.ofType (some site) declaring id span' = _
    rw [static?, ← hid] at hsite
    rw [ofType]
    simp only [hsite]
  have hlength : ((ps.map fun p => (Term.param p, p.type)).map (·.1)).length = m.params.length := by
    rw [List.length_map]
    exact hl
  rw [resolve_bare, hbare, resolve, arguments_params hn hp hnodes]
  simp only [calleeTypeArgs, Syntax.Node.bare, typesOf, bind, Except.bind, hcallee _ hagain, callOf,
    hlength, ↓reduceIte, ← hargs]
  rfl

/-! ## 3. Lambdas -/

/-- Declared parameters have the names that are written. -/
theorem Surface.declare_names {written : List (Syntax.Parameter × Option HostType)}
    {params : List Param} (h : s.declare scope written = .ok params) :
    ∀ p ∈ params, ∃ w ∈ written, w.1.name.text = p.name := by
  induction written generalizing scope params with
  | nil =>
    cases h
    exact nofun
  | cons w written ih =>
    simp only [declare] at h
    split at h
    · cases h
    obtain ⟨type, -, h⟩ := bind_eq_ok.mp h
    obtain ⟨rest, hrest, h⟩ := bind_eq_ok.mp h
    cases h
    refine List.forall_mem_cons.mpr ⟨⟨w, List.mem_cons_self, rfl⟩, fun p hp => ?_⟩
    obtain ⟨w', hw', hname⟩ := ih hrest p hp
    exact ⟨w', List.mem_cons_of_mem _ hw', hname⟩

/-- The parameters of an elaborated lambda have the names that are written. -/
theorem Surface.elaborate_names {expected : LambdaShape} {written : Syntax.Lambda} {f : Function}
    (h : s.elaborate (some expected) written = .ok f) :
    ∀ p ∈ f.params, ∃ w ∈ written.params, w.name.text = p.name := by
  obtain ⟨types, found, body, -, -, hparams, -⟩ := elaborate_steps h
  intro p hp
  obtain ⟨w, hw, hname⟩ := declare_names hparams p hp
  exact ⟨w.1, (List.of_mem_zip hw).1, hname⟩

/-- Parameters written without types are declared with the types that are expected. -/
theorem Surface.declare_mirrors {params : List Param} {written : List Syntax.Parameter}
    (hn : ((scope ++ params).map (·.name)).Nodup) (h : List.Forall₂ Param.Mirrors params written) :
    s.declare scope (written.zip ((params.map (·.type)).map some)) = .ok params := by
  induction h generalizing scope with
  | nil => rfl
  | @cons p w params written hfirst _ ih =>
    obtain ⟨htype, hname⟩ := hfirst
    -- the name is new, so that it may be declared
    have hnew : scope.any (·.name == w.name.text) = false := by
      rw [List.any_eq_false]
      intro q hq he
      rw [List.map_append] at hn
      refine (List.nodup_append.mp hn).2.2 q.name (List.mem_map_of_mem hq) p.name ?_ ?_
      · exact List.mem_map_of_mem List.mem_cons_self
      · rw [← hname]
        exact beq_iff_eq.mp he
    rw [List.append_cons] at hn
    have hparamType : s.paramType w (some p.type) = .ok p.type := by
      unfold paramType
      simp only [htype]
    have hdeclared : (⟨w.name.text, p.type⟩ : Param) = p := by rw [hname]
    simp only [List.map_cons, List.zip_cons_cons, declare, hnew, Bool.false_eq_true, ↓reduceIte,
      hparamType, bind, Except.bind, hdeclared, ih hn]
    rfl

theorem Surface.declare_single {written : Syntax.Parameter} (hw : written.type = none)
    (type : HostType) :
    s.declare [] [(written, some type)] = .ok [⟨written.name.text, type⟩] := by
  have hmirrors : List.Forall₂ Param.Mirrors [⟨written.name.text, type⟩] [written] :=
    .cons ⟨hw, rfl⟩ .nil
  have hnodup : (([] ++ [⟨written.name.text, type⟩] : List Param).map (·.name)).Nodup :=
    List.nodup_singleton _
  exact declare_mirrors hnodup hmirrors

/-- A reference is what was there before it was brought to a type. -/
theorem Surface.Closes.eq_of_isReference {returns : Option HostType} {body result : Term}
    (h : s.Closes returns body result span) (hr : result.isReference = true) : result = body := by
  rcases h with ⟨-, rfl⟩ | ⟨type, -, h⟩
  · rfl
  · unfold returned at h
    split at h
    next found _ =>
      by_cases hsame : found = type
      · simp only [hsame, ↓reduceIte] at h
        exact (Except.ok.inj h).symm
      · simp only [hsame, ↓reduceIte] at h
        split at h
        · -- a conversion that changes anything leaves a constant or a cast
          obtain rfl := Except.ok.inj h
          have hconverts := body.converts_convert type
          generalize body.convert type = result at hr hconverts
          cases hconverts with
          | kept => rfl
          | constant | cast => cases hr
        · cases h
    next => cases h

/-- Whether a body is brought to a type does not depend on its place. -/
theorem Surface.Closes.elsewhere {returns : Option HostType} {body result : Term}
    (h : s.Closes returns body result span) (other : Span) : s.Closes returns body result other := by
  rcases h with h | ⟨type, hreturns, h⟩
  · exact .inl h
  · refine .inr ⟨type, hreturns, ?_⟩
    unfold returned at h ⊢
    cases htype : body.type? with
    | none =>
      rw [htype] at h
      cases h
    | some found =>
      rw [htype] at h
      dsimp only at h ⊢
      by_cases hsame : found = type
      · rwa [if_pos hsame] at h ⊢
      · rw [if_neg hsame] at h ⊢
        by_cases hfits : s.host.assignable type found = true
        · rwa [if_pos hfits] at h ⊢
        · rw [if_neg hfits] at h
          cases h

/-- A lambda is elaborated where its parameters are declared, its body is resolved, and what that
yields is brought to the expected type. -/
theorem Surface.elaborate_of_parts {expected : LambdaShape} {written : Syntax.Lambda}
    {f : Function} {body : Term} (hl : expected.params.length = written.params.length)
    (hparams : s.declare [] (written.params.zip (expected.params.map some)) = .ok f.params)
    (hbody : s.resolve f.params none written.body = .ok (.value body))
    (hcloses : s.Closes expected.returns body f.body written.body.span) :
    s.elaborate (some expected) written = .ok f := by
  obtain ⟨params, result⟩ := f
  simp only [elaborate, hl, ↓reduceIte, pure, Except.pure, bind, Except.bind, hparams, hbody,
    Resolved.needValue, Option.bind]
  rcases hcloses with ⟨hreturns, rfl⟩ | ⟨type, hreturns, hresult⟩
  · simp only [hreturns]
  · simp only [hreturns, hresult]

end

end FatArrow
