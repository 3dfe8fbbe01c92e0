import FatArrow.Proofs.Typing.Reference

/-!
# Written type arguments

What an expression is resolved to heeds the type arguments that are written in it: those behind the
name of a method that is called are those of the method, and those behind the name of a type are those
of the type.  Nothing looks at those behind a piece of a dotted type before its last, and at those
behind a member that is read and not called.
-/

namespace FatArrow

open Syntax (Node TypeNode Segment)

/-! ## 1. What heeds written type arguments -/

/-- A type is what a name means with type arguments.  If its definition has as many parameters, they
are the arguments of the type, or the type is the nullable type of the only one. -/
def Surface.Applies (s : Surface) (name : String) (types : List HostType) (t : HostType) : Prop :=
  ∃ definition, s.typeNamed? (name ++ "`" ++ toString types.length) = some definition ∧
    ∀ q, definition = .applied q ((List.range types.length).map .param) →
      t = .applied q types ∨
        q.text = WellKnown.nullable ∧ ∃ inner, types = [inner] ∧ t = inner.orNull

/-- A type is what a written one means, and has the type arguments that are written in it.  Of a
dotted name only those behind the last piece count. -/
inductive HostType.Heeds (s : Surface) : HostType → TypeNode → Prop where
  | predefined {t : HostType} {keyword : Syntax.Name} (h : Surface.keywordType keyword = .ok t) :
      Heeds s t (.predefined keyword)
  | array {t : HostType} {element : TypeNode} {span : Span} (h : Heeds s t element) :
      Heeds s (.arrayOf t) (.array element span)
  | nullable {t : HostType} {inner : TypeNode} {span : Span} (h : Heeds s t inner) :
      Heeds s t.orNull (.nullable inner span)
  | plain {t : HostType} {segments : List Segment} {span : Span}
      (h : TypeNode.lastArgs segments = [])
      (ht : s.typeNamed? (TypeNode.dottedName segments) = some t) : Heeds s t (.named segments span)
  | applied {t : HostType} {types : List HostType} {segments : List Segment} {span : Span}
      (h : List.Forall₂ (Heeds s) types (TypeNode.lastArgs segments))
      (ht : s.Applies (TypeNode.dottedName segments) types t) : Heeds s t (.named segments span)

/-- A type is what a name means with the type arguments that are written behind it. -/
def Surface.Names (s : Surface) (name : String) (written : List TypeNode) (t : HostType) : Prop :=
  written = [] ∧ s.typeNamed? name = some t ∨
    written ≠ [] ∧ ∃ types, List.Forall₂ (HostType.Heeds s) types written ∧ s.Applies name types t

/-- A method has the type arguments that are written behind its name. -/
def Method.HeedsArgs (s : Surface) (m : Method) (written : List TypeNode) : Prop :=
  written = [] ∨ List.Forall₂ (HostType.Heeds s) m.typeArgs written

/-- A method that a host knows, maybe with type arguments bound. -/
def Method.Binds (n m : Method) : Prop := m = n ∨ m = n.instantiate m.typeArgs

/-- A parameter has the type arguments of its written type. -/
def Param.Heeds (s : Surface) (p : Param) (written : Syntax.Parameter) : Prop :=
  ∀ type, written.type = some type → p.type.Heeds s type

mutual

/-- What a written expression is resolved to heeds the type arguments that are written in it, part by
part: a called method and a named type have those behind their names.  Those behind a member that is
read are free. -/
inductive Surface.Heeds (s : Surface) : Node → Resolved → Prop where
  | literal {value : Syntax.Literal} {span : Span} {t : Term} :
      s.Heeds (.literal value span) (.value t)
  | parameter {name : Syntax.Name} {span : Span} {p : Param} :
      s.Heeds (.name name [] span) (.value (.param p))
  | function {name : Syntax.Name} {span : Span} {m : Method} :
      s.Heeds (.name name [] span) (.method (.alone m))
  | unknown {name : Syntax.Name} {span : Span} :
      s.Heeds (.name name [] span) (.pending name.text span)
  | type {name : Syntax.Name} {typeArgs : List TypeNode} {span : Span} {type : HostType}
      (ht : s.Names name.text typeArgs type) : s.Heeds (.name name typeArgs span) (.type type)
  | keyword {keyword : Syntax.Name} {type : HostType} (h : keywordType keyword = .ok type) :
      s.Heeds (.predefined keyword) (.type type)
  | paren {inner : Node} {span : Span} {r : Resolved} (h : s.Heeds inner r) :
      s.Heeds (.paren inner span) r
  -- operators
  | binary {op : Syntax.BinaryOperator} {chosen : BinaryOp} {left right : Node} {span : Span}
      {a b a' b' : Term} (hl : s.Heeds left (.value a)) (hr : s.Heeds right (.value b))
      (ha : a.Retains a') (hb : b.Retains b') :
      s.Heeds (.binary op left right span) (.value (.joined chosen a' b'))
  | unary {op : Syntax.UnaryOperator} {chosen : UnaryOp} {operand : Node} {span : Span} {t : Term}
      (h : s.Heeds operand (.value t)) :
      s.Heeds (.unary op operand span) (.value (.applied chosen t))
  | conditional {test ifTrue ifFalse : Node} {span : Span} {c a b : Term}
      (hc : s.Heeds test (.value c)) (ha : s.Heeds ifTrue (.value a))
      (hb : s.Heeds ifFalse (.value b)) :
      s.Heeds (.conditional test ifTrue ifFalse span) (.value (.cond c a b))
  | cast {written : TypeNode} {operand : Node} {span : Span} {t : Term} {type : HostType}
      (ht : type.Heeds s written) (h : s.Heeds operand (.value t)) :
      s.Heeds (.cast written operand span) (.value (.cast t type))
  -- calls
  | call {callee : Node} {args : List Node} {span : Span} {t : Term} {m : Method} {us : List Term}
      (hc : s.Heeds callee (.method (.onValue t m))) (ha : s.HeedsEach args us) :
      s.Heeds (.call callee args span) (.value (.call t m us))
  | callAlone {callee : Node} {args : List Node} {span : Span} {m : Method} {us : List Term}
      (hc : s.Heeds callee (.method (.alone m))) (ha : s.HeedsEach args us) :
      s.Heeds (.call callee args span) (.value (.staticCall m us))
  | callOnSequence {callee : Node} {args : List Node} {span : Span} {t u : Term} {m : Method}
      {us : List Term} (hc : s.Heeds callee (.method (.onSequence t m))) (ht : t.Retains u)
      (ha : s.HeedsEach args us) :
      s.Heeds (.call callee args span) (.value (.staticCall m (u :: us)))
  | arrayIndex {object : Node} {args : List Node} {span : Span} {t u : Term}
      (ho : s.Heeds object (.value t)) (ha : s.HeedsEach args [u]) :
      s.Heeds (.index object args span) (.value (.joined .arrayIndex t u))
  | indexer {object : Node} {args : List Node} {span : Span} {t : Term} {m : Method} {us : List Term}
      (ho : s.Heeds object (.value t)) (ha : s.HeedsEach args us) :
      s.Heeds (.index object args span) (.value (.index t m us))
  -- creations
  | new {written : TypeNode} {args : List Node} {span : Span} {type : HostType}
      {types : List HostType} {c : Constructor} {us : List Term} (ht : type.Heeds s written)
      (hc : s.host.constructor? type types = some c) (ha : s.HeedsEach args us) :
      s.Heeds (.new written args span) (.value (.new c us))
  | newArray {written : Option TypeNode} {items : List Node} {span : Span} {element : HostType}
      {us : List Term} (ht : ∀ node, written = some node → element.Heeds s node)
      (hi : s.HeedsEach items us) :
      s.Heeds (.newArray written items span) (.value (.newArray element us))
  | lambda {parenthesized : Bool} {params : List Syntax.Parameter} {body : Node} {span : Span}
      {declared : List Param} {t : Term} (hp : List.Forall₂ (Param.Heeds s) declared params)
      (h : s.Heeds body (.value t)) :
      s.Heeds (.lambda parenthesized params body span) (.value (.lambda declared t))
  -- members that are called
  | method {object : Node} {name : Syntax.Name} {typeArgs : List TypeNode} {span : Span} {t : Term}
      {m : Method} (ho : s.Heeds object (.value t)) (hm : m.HeedsArgs s typeArgs) :
      s.Heeds (.member object name typeArgs span) (.method (.onValue t m))
  | sequenceMethod {object : Node} {name : Syntax.Name} {typeArgs : List TypeNode} {span : Span}
      {t : Term} {m : Method} (ho : s.Heeds object (.value t)) (hm : m.HeedsArgs s typeArgs) :
      s.Heeds (.member object name typeArgs span) (.method (.onSequence t m))
  | staticMethod {object : Node} {name : Syntax.Name} {typeArgs : List TypeNode} {span : Span}
      {type : HostType} {n m : Method} (ho : s.Heeds object (.type type))
      (hn : n ∈ s.host.methods type name.text) (hb : n.Binds m) (hm : m.HeedsArgs s typeArgs) :
      s.Heeds (.member object name typeArgs span) (.method (.alone m))
  -- dotted names
  | dotted {object : Node} {name : Syntax.Name} {span at_ at' : Span} {start : String}
      (ho : s.Heeds object (.pending start at_)) :
      s.Heeds (.member object name [] span) (.pending (start ++ "." ++ name.text) at')
  | dottedType {object : Node} {name : Syntax.Name} {typeArgs : List TypeNode} {span at_ : Span}
      {start : String} {type : HostType} (ho : s.Heeds object (.pending start at_))
      (ht : s.Names (start ++ "." ++ name.text) typeArgs type) :
      s.Heeds (.member object name typeArgs span) (.type type)
  -- members that are read: type arguments behind them are not looked at
  | length {object : Node} {name : Syntax.Name} {typeArgs : List TypeNode} {span : Span} {t : Term}
      (ho : s.Heeds object (.value t)) :
      s.Heeds (.member object name typeArgs span) (.value (.applied .arrayLength t))
  | property {object : Node} {name : Syntax.Name} {typeArgs : List TypeNode} {span : Span}
      {t : Term} {m : Member} (ho : s.Heeds object (.value t)) :
      s.Heeds (.member object name typeArgs span) (.value (.member t m))
  | staticOfValue {object : Node} {name : Syntax.Name} {typeArgs : List TypeNode} {span : Span}
      {t : Term} {type : HostType} {m : Member} (ho : s.Heeds object (.value t))
      (ht : t.type? = some type) (hm : s.member? type name.text = some m) :
      s.Heeds (.member object name typeArgs span) (.value (.staticMember m))
  | staticMember {object : Node} {name : Syntax.Name} {typeArgs : List TypeNode} {span : Span}
      {type : HostType} {m : Member} (ho : s.Heeds object (.type type))
      (hm : s.member? type name.text = some m) :
      s.Heeds (.member object name typeArgs span) (.value (.staticMember m))
  | nested {object : Node} {name : Syntax.Name} {typeArgs : List TypeNode} {span : Span}
      {type inner : HostType} (ho : s.Heeds object (.type type))
      (hm : s.host.nested? type name.text = some inner) :
      s.Heeds (.member object name typeArgs span) (.type inner)

/-- So do arguments and items, each with the conversion that was inserted. -/
inductive Surface.HeedsEach (s : Surface) : List Node → List Term → Prop where
  | nil : s.HeedsEach [] []
  | cons {node : Node} {nodes : List Node} {t u : Term} {us : List Term}
      (h : s.Heeds node (.value t)) (ht : t.Retains u) (hrest : s.HeedsEach nodes us) :
      s.HeedsEach (node :: nodes) (u :: us)

end

/-- A typed lambda heeds the type arguments of a written one, up to the conversion of the body. -/
def Function.Heeds (s : Surface) (f : Function) (written : Syntax.Lambda) : Prop :=
  List.Forall₂ (Param.Heeds s) f.params written.params ∧
    ∃ t, s.Heeds written.body (.value t) ∧ t.Retains f.body

variable {s : Surface} {scope : List Param} {site : Option CallSite} {r : Resolved} {span : Span}
  {t : HostType} {written : List TypeNode}

/-! ## 2. Types -/

theorem HostType.substList_range_param (types : List HostType) :
    HostType.substList types ((List.range types.length).map .param) = types := by
  have hsubst (ts : List HostType) : substList types ts = ts.map (subst types) := by
    induction ts with
    | nil => rfl
    | cons t ts ih => rw [substList, ih, List.map_cons]
  have hparam (i : Nat) (hi : i < types.length) : (param i).subst types = types[i] := by
    rw [param, subst, List.getElem?_eq_getElem hi]
    cases types[i]
    simp
  rw [hsubst, List.map_map]
  refine List.ext_getElem (by simp) fun i _ hi => ?_
  rw [List.getElem_map, List.getElem_range]
  exact hparam i hi

theorem HostType.subst_range_param (q : QualifiedName) (types : List HostType) :
    (applied q ((List.range types.length).map .param)).subst types = applied q types := by
  have hsubst (args : List HostType) : (applied q args).subst types =
      applied q (substList types args) := by
    rw [applied, subst]
    · rfl
    · intro n h
      cases h
  rw [hsubst, substList_range_param]

theorem Surface.typeNamed?_of_plainType {name : String} (h : s.plainType name span = .ok t) :
    s.typeNamed? name = some t := by
  unfold plainType at h
  split at h <;> cases h
  assumption

theorem Surface.applies_of_genericType {name : String} {types : List HostType}
    (h : s.genericType name types span = .ok t) : s.Applies name types t := by
  obtain ⟨definition, hdefinition, h⟩ := bind_eq_ok.mp h
  refine ⟨definition, typeNamed?_of_plainType hdefinition, ?_⟩
  rintro q rfl
  cases hnullable : (HostType.applied q ((List.range types.length).map .param)).isNamed
      WellKnown.nullable with
  | false =>
    rw [hnullable] at h
    cases h
    exact .inl (HostType.subst_range_param q types)
  | true =>
    rw [hnullable] at h
    split at h
    next inner _ _ =>
      cases h
      exact .inr ⟨beq_iff_eq.mp hnullable, inner, rfl, rfl⟩
    next =>
      cases h
      exact .inl (HostType.subst_range_param q _)

mutual

/-- What a written type means heeds its type arguments. -/
theorem Surface.typeOf_heeds {t : HostType} (node : TypeNode) (h : s.typeOf node = .ok t) :
    t.Heeds s node := by
  cases node with
  | predefined keyword => exact .predefined h
  | named segments span =>
    obtain ⟨types, htypes, h⟩ := bind_eq_ok.mp h
    have hheeds := lastTypes_heeds segments htypes
    split at h
    next hnone =>
      rw [List.isEmpty_iff.mp hnone] at hheeds
      exact .plain (List.forall₂_nil_left_iff.mp hheeds) (typeNamed?_of_plainType h)
    next => exact .applied hheeds (applies_of_genericType h)
  | array element span =>
    obtain ⟨type, htype, h⟩ := bind_eq_ok.mp h
    cases h
    exact .array (typeOf_heeds element htype)
  | nullable inner span =>
    obtain ⟨type, htype, h⟩ := bind_eq_ok.mp h
    cases h
    exact .nullable (typeOf_heeds inner htype)

theorem Surface.lastTypes_heeds {types : List HostType} (segments : List Segment)
    (h : s.lastTypes segments = .ok types) :
    List.Forall₂ (HostType.Heeds s) types (TypeNode.lastArgs segments) := by
  match segments with
  | [] =>
    cases h
    exact .nil
  | [.mk name args] => exact typesOf_heeds args h
  | first :: segment :: segments =>
    have hlast : TypeNode.lastArgs (first :: segment :: segments) =
        TypeNode.lastArgs (segment :: segments) := by
      rw [TypeNode.lastArgs, List.getLast?_cons_cons, TypeNode.lastArgs]
    rw [lastTypes] at h
    rw [hlast]
    exact lastTypes_heeds (segment :: segments) h

theorem Surface.typesOf_heeds {types : List HostType} (nodes : List TypeNode)
    (h : s.typesOf nodes = .ok types) :
    List.Forall₂ (HostType.Heeds s) types nodes := by
  cases nodes with
  | nil =>
    cases h
    exact .nil
  | cons node nodes =>
    obtain ⟨type, htype, h⟩ := bind_eq_ok.mp h
    obtain ⟨rest, hrest, h⟩ := bind_eq_ok.mp h
    cases h
    exact .cons (typeOf_heeds node htype) (typesOf_heeds nodes hrest)

end

/-- A type that is named with type arguments heeds them. -/
theorem Surface.names_of_genericType {name : String} {types : List HostType}
    (hne : written ≠ []) (htypes : s.typesOf written = .ok types)
    (h : s.genericType name types span = .ok t) : s.Names name written t :=
  .inr ⟨hne, types, typesOf_heeds written htypes, applies_of_genericType h⟩

theorem Surface.declare_heeds {declared : List Param}
    {params : List (Syntax.Parameter × Option HostType)}
    (h : s.declare scope params = .ok declared) :
    List.Forall₂ (Param.Heeds s) declared (params.map (·.1)) := by
  induction params generalizing scope declared with
  | nil =>
    cases h
    exact .nil
  | cons p params ih =>
    simp only [declare] at h
    split at h
    · cases h
    obtain ⟨type, htype, h⟩ := bind_eq_ok.mp h
    obtain ⟨rest, hrest, h⟩ := bind_eq_ok.mp h
    cases h
    refine .cons (fun node hnode => ?_) (ih hrest)
    unfold paramType at htype
    rw [hnode] at htype
    obtain ⟨found, hfound, htype⟩ := bind_eq_ok.mp htype
    -- a type that is expected is the written one
    have hsame : found = type := by
      split at htype
      · split at htype <;> cases htype
        rfl
      · cases htype
        rfl
    exact hsame ▸ typeOf_heeds node hfound

/-! ## 3. Names and members -/

/-- What is selected has the type arguments that the call binds. -/
theorem CallSite.select?_heedsArgs {o : TypeOrder} {candidates : List Method} {c : CallSite}
    {m : Method} (hw : List.Forall₂ (HostType.Heeds s) c.typeArgs written)
    (h : select? o candidates c = some m) :
    m.HeedsArgs s written ∧ ∃ n ∈ candidates, n.Binds m := by
  obtain ⟨n, hn, hbind⟩ := exists_of_select? h
  rcases bind?_cases hbind with ⟨hnil, -, rfl⟩ | ⟨-, -, rfl⟩
  · rw [hnil] at hw
    exact ⟨.inl (List.forall₂_nil_left_iff.mp hw), m, hn, .inl rfl⟩
  · exact ⟨.inr hw, n, hn, .inr rfl⟩

/-- The type arguments of a call are those written on its callee. -/
def Surface.SiteHeeds (s : Surface) (site : Option CallSite) (written : List TypeNode) : Prop :=
  ∀ c, site = some c → s.typesOf written = .ok c.typeArgs

theorem Surface.siteHeeds_none (s : Surface) {written : List TypeNode} : s.SiteHeeds none written := by
  rintro _ ⟨⟩

/-- An expression is resolved for itself, or it is the callee of a call. -/
def Resolved.Settled (site : Option CallSite) (r : Resolved) : Prop :=
  site = none ∨ ∃ c, r = .method c

namespace Surface

theorem ofName_heeds {name : Syntax.Name}
    (hsite : s.SiteHeeds site written) (hr : r.Settled site)
    (h : s.ofName scope site name written span = .ok r) : s.Heeds (.name name written span) r := by
  unfold ofName at h
  split at h
  next p hp =>
    cases h
    split at hp
    next hnil =>
      rw [List.isEmpty_iff.mp hnil]
      exact .parameter
    next => cases hp
  next =>
    cases site with
    | some c =>
      have hheeds := typesOf_heeds written (hsite c rfl)
      dsimp only at h
      split at h
      next m hm =>
        cases h
        split at hm
        next hnil =>
          rw [List.isEmpty_iff.mp hnil] at hheeds
          rw [List.forall₂_nil_left_iff.mp hheeds]
          exact .function
        next => cases hm
      next =>
        cases h
        rcases hr with hr | ⟨_, hr⟩ <;> cases hr
    | none =>
      dsimp only at h
      split at h
      next hnil =>
        rw [List.isEmpty_iff.mp hnil]
        split at h
        next type hfound =>
          cases h
          exact .type (.inl ⟨rfl, hfound⟩)
        next =>
          cases h
          exact .unknown
      next hsome =>
        obtain ⟨types, htypes, h⟩ := bind_eq_ok.mp h
        obtain ⟨type, htype, h⟩ := bind_eq_ok.mp h
        cases h
        refine .type (names_of_genericType (fun hnil => hsome ?_) htypes htype)
        rw [hnil]
        rfl

theorem ofPending_heeds {object : Node} {name : Syntax.Name}
    {start : String} {at_ at' : Span} (ho : s.Heeds object (.pending start at_))
    (hr : r.Settled site)
    (h : s.ofPending site (start ++ "." ++ name.text) written at' = .ok r) :
    s.Heeds (.member object name written span) r := by
  unfold ofPending at h
  cases site with
  | some c =>
    cases h
    rcases hr with hr | ⟨_, hr⟩ <;> cases hr
  | none =>
    dsimp only at h
    split at h
    next hnil =>
      rw [List.isEmpty_iff.mp hnil]
      split at h
      next type hfound =>
        cases h
        exact .dottedType ho (.inl ⟨rfl, hfound⟩)
      next =>
        cases h
        exact .dotted ho
    next hsome =>
      obtain ⟨types, htypes, h⟩ := bind_eq_ok.mp h
      obtain ⟨type, htype, h⟩ := bind_eq_ok.mp h
      cases h
      refine .dottedType ho (names_of_genericType (fun hnil => hsome ?_) htypes htype)
      rw [hnil]
      rfl

theorem ofValue_heeds {object : Node} {name : Syntax.Name}
    {target : Term} {objectSpan : Span} (ho : s.Heeds object (.value target))
    (hsite : s.SiteHeeds site written)
    (h : s.ofValue site target name objectSpan span = .ok r) :
    s.Heeds (.member object name written span) r := by
  unfold ofValue at h
  split at h
  next => cases h
  next type htype =>
    cases site with
    | some c =>
      have hheeds := typesOf_heeds written (hsite c rfl)
      dsimp only at h
      split at h
      next m hm =>
        cases h
        exact .method ho (CallSite.select?_heedsArgs hheeds hm).1
      next =>
        split at h
        next m hm =>
          cases h
          obtain ⟨item, -, hm⟩ := Option.bind_eq_some_iff.mp hm
          simp only [CallSite.selectSequenceOp?, Option.bind_eq_bind, Option.bind_eq_some_iff] at hm
          obtain ⟨holder, -, hm⟩ := hm
          exact .sequenceMethod ho
            (CallSite.select?_heedsArgs (c := ⟨type :: c.args, c.typeArgs⟩) hheeds hm).1
        next => cases h
    | none =>
      dsimp only at h
      split at h
      · cases h
        exact .length ho
      · split at h
        next m hm =>
          cases h
          cases m.isStatic with
          | true => exact .staticOfValue ho htype hm
          | false => exact .property ho
        next => cases h

theorem ofType_heeds {object : Node} {name : Syntax.Name}
    {type : HostType} (ho : s.Heeds object (.type type)) (hsite : s.SiteHeeds site written)
    (h : s.ofType site type name span = .ok r) :
    s.Heeds (.member object name written span) r := by
  unfold ofType at h
  cases site with
  | some c =>
    have hheeds := typesOf_heeds written (hsite c rfl)
    dsimp only at h
    split at h
    next m hm =>
      cases h
      obtain ⟨hargs, n, hn, hbinds⟩ := CallSite.select?_heedsArgs hheeds hm
      exact .staticMethod ho (List.mem_of_mem_filter hn) hbinds hargs
    next => cases h
  | none =>
    dsimp only at h
    split at h
    next m hm =>
      split at h
      · cases h
        exact .staticMember ho hm
      · cases h
    next =>
      split at h
      next inner hinner =>
        cases h
        exact .nested ho hinner
      next => cases h

theorem ofMember_heeds {object : Node} {found : Resolved}
    {name : Syntax.Name} {objectSpan : Span} (ho : s.Heeds object found)
    (hsite : s.SiteHeeds site written) (hr : r.Settled site)
    (h : s.ofMember site found objectSpan name written span = .ok r) :
    s.Heeds (.member object name written span) r := by
  cases found with
  | value target => exact ofValue_heeds ho hsite h
  | type type => exact ofType_heeds ho hsite h
  | method callee => cases h
  | pending start at_ => exact ofPending_heeds ho hr h

/-! ## 4. Calls and operators -/

/-- Nodes are kept by whatever terms retain those that they are resolved to. -/
def HeededBy (s : Surface) (nodes : List Node) (terms : List Term) : Prop :=
  ∀ us, List.Forall₂ Term.Retains terms us → s.HeedsEach nodes us

theorem callOf_heeds {callee : Node} {args : List Node} {found : Resolved} {terms : List Term}
    {u : Term} {calleeSpan : Span} (hc : ∀ c, found = .method c → s.Heeds callee (.method c))
    (ha : s.HeededBy args terms) (h : callOf found calleeSpan terms span = .ok u) :
    s.Heeds (.call callee args span) (.value u) := by
  unfold callOf at h
  extract_lets make at h
  have hmake : ∀ {m : Method} {as : List Term} {term : List Term → Term}, make m as term = .ok u →
      as.length = m.params.length ∧ u = term (Term.asArguments as m.params) := by
    intro m as term h
    simp only [make] at h
    split at h
    next hl => exact ⟨hl, (Except.ok.inj h).symm⟩
    next => cases h
  cases found with
  | value t => cases h
  | type t => cases h
  | pending text at_ => cases h
  | method c =>
    have hcallee := hc c rfl
    cases c with
    | onValue target m =>
      obtain ⟨hl, rfl⟩ := hmake h
      exact .call hcallee (ha _ (Term.retains_asArguments hl))
    | alone m =>
      obtain ⟨hl, rfl⟩ := hmake h
      exact .callAlone hcallee (ha _ (Term.retains_asArguments hl))
    | onSequence receiver m =>
      obtain ⟨hl, rfl⟩ := hmake h
      -- the receiver is the first of the arguments
      have hall := Term.retains_asArguments hl
      generalize Term.asArguments (receiver :: terms) m.params = us at hall
      cases hall with
      | cons hfirst hrest => exact .callOnSequence hcallee hfirst (ha _ hrest)

theorem indexOf_heeds {object : Node} {args : List Node} {target u : Term} {type : HostType}
    {terms : List (Term × HostType)} (ho : s.Heeds object (.value target))
    (ha : s.HeededBy args (terms.map (·.1))) (h : s.indexOf target type terms span = .ok u) :
    s.Heeds (.index object args span) (.value u) := by
  unfold indexOf at h
  extract_lets order types candidates at h
  split at h
  next =>
    split at h
    next index found =>
      split at h
      · cases h
        exact .arrayIndex ho (ha _ (.cons (index.retains_convert _) .nil))
      · cases h
    next => cases h
  next =>
    split at h
    next m hm =>
      cases h
      have hl := (CallSite.select?_takes hm).length_eq
      refine .indexer ho (ha _ (Term.retains_asArguments ?_))
      rw [hl]
      simp [types]
    next => cases h

theorem binaryOf_heeds {op : Syntax.BinaryOperator} {left right : Node} {a b : Term × HostType}
    {u : Term} (hl : s.Heeds left (.value a.1)) (hr : s.Heeds right (.value b.1))
    (h : s.binaryOf op a b span = .ok u) : s.Heeds (.binary op left right span) (.value u) := by
  unfold binaryOf at h
  extract_lets order a' b' leftType rightType at h
  split at h
  next chosen _ =>
    cases h
    exact .binary hl hr (Term.retains_coerce _ _ _) (Term.retains_coerce _ _ _)
  next => cases h

end Surface

/-! ## 5. Expressions -/

theorem Surface.Heeds.operand {node : Node} {o : Term × HostType} (h : s.Heeds node r)
    (ho : r.needOperand span = .ok o) : s.Heeds node (.value o.1) :=
  (Resolved.needOperand_eq_ok ho).1 ▸ h

/-- The constructors of a host have as many parameters as they are given arguments. -/
def Surface.MakesAll (s : Surface) : Prop :=
  ∀ type types c, s.host.constructor? type types = some c → types.length = c.params.length

mutual

/-- What a written expression is resolved to heeds its type arguments; a callee is settled once a
method is found for it. -/
theorem Surface.resolve_heeds (hmakes : s.MakesAll) {scope : List Param}
    {site : Option CallSite} {r : Resolved} (node : Node)
    (hsite : s.SiteHeeds site (calleeTypeArgs node)) (hr : r.Settled site)
    (h : s.resolve scope site node = .ok r) : s.Heeds node r := by
  cases node with
  | literal value span =>
    obtain ⟨t, ht, h⟩ := bind_eq_ok.mp h
    cases h
    exact .literal
  | name name typeArgs span => exact ofName_heeds hsite hr h
  | predefined keyword =>
    obtain ⟨type, htype, h⟩ := bind_eq_ok.mp h
    cases h
    exact .keyword htype
  | binary op left right span =>
    obtain ⟨a, ha, h⟩ := bind_eq_ok.mp h
    obtain ⟨a', ha', h⟩ := bind_eq_ok.mp h
    obtain ⟨b, hb, h⟩ := bind_eq_ok.mp h
    obtain ⟨b', hb', h⟩ := bind_eq_ok.mp h
    obtain ⟨t, ht, h⟩ := bind_eq_ok.mp h
    cases h
    have hleft := (resolve_heeds hmakes left s.siteHeeds_none (.inl rfl) ha).operand ha'
    have hright := (resolve_heeds hmakes right s.siteHeeds_none (.inl rfl) hb).operand hb'
    exact binaryOf_heeds hleft hright ht
  | unary op operand span =>
    obtain ⟨a, ha, h⟩ := bind_eq_ok.mp h
    obtain ⟨⟨t, type⟩, ha', h⟩ := bind_eq_ok.mp h
    dsimp only at h
    split at h
    next chosen hchosen =>
      cases h
      exact .unary ((resolve_heeds hmakes operand s.siteHeeds_none (.inl rfl) ha).operand ha')
    next => cases h
  | conditional test ifTrue ifFalse span =>
    obtain ⟨c, hc, h⟩ := bind_eq_ok.mp h
    obtain ⟨⟨condition, type⟩, hc', h⟩ := bind_eq_ok.mp h
    dsimp only at h
    split at h
    · cases h
    obtain ⟨a, ha, h⟩ := bind_eq_ok.mp h
    obtain ⟨a', ha', h⟩ := bind_eq_ok.mp h
    obtain ⟨b, hb, h⟩ := bind_eq_ok.mp h
    obtain ⟨b', hb', h⟩ := bind_eq_ok.mp h
    cases h
    have htest := (resolve_heeds hmakes test s.siteHeeds_none (.inl rfl) hc).operand hc'
    have htrue := (resolve_heeds hmakes ifTrue s.siteHeeds_none (.inl rfl) ha).operand ha'
    have hfalse := (resolve_heeds hmakes ifFalse s.siteHeeds_none (.inl rfl) hb).operand hb'
    exact .conditional htest htrue hfalse
  | call callee args span =>
    obtain ⟨terms, hterms, h⟩ := bind_eq_ok.mp h
    obtain ⟨typeArgs, htypeArgs, h⟩ := bind_eq_ok.mp h
    obtain ⟨found, hfound, h⟩ := bind_eq_ok.mp h
    obtain ⟨t, ht, h⟩ := bind_eq_ok.mp h
    cases h
    refine callOf_heeds (fun c hc => ?_) (arguments_heeds hmakes args hterms) ht
    subst hc
    refine resolve_heeds hmakes callee ?_ (.inr ⟨c, rfl⟩) hfound
    rintro _ ⟨⟩
    exact htypeArgs
  | index object args span =>
    obtain ⟨a, ha, h⟩ := bind_eq_ok.mp h
    obtain ⟨⟨target, type⟩, ha', h⟩ := bind_eq_ok.mp h
    obtain ⟨terms, hterms, h⟩ := bind_eq_ok.mp h
    obtain ⟨t, ht, h⟩ := bind_eq_ok.mp h
    cases h
    exact indexOf_heeds ((resolve_heeds hmakes object s.siteHeeds_none (.inl rfl) ha).operand ha')
      (arguments_heeds hmakes args hterms) ht
  | member object name typeArgs span =>
    obtain ⟨found, hfound, h⟩ := bind_eq_ok.mp h
    exact ofMember_heeds (resolve_heeds hmakes object s.siteHeeds_none (.inl rfl) hfound) hsite hr h
  | cast written operand span =>
    obtain ⟨target, htarget, h⟩ := bind_eq_ok.mp h
    obtain ⟨a, ha, h⟩ := bind_eq_ok.mp h
    obtain ⟨⟨t, type⟩, ha', h⟩ := bind_eq_ok.mp h
    dsimp only at h
    split at h
    · cases h
      exact .cast (typeOf_heeds written htarget)
        ((resolve_heeds hmakes operand s.siteHeeds_none (.inl rfl) ha).operand ha')
    · cases h
  | new written args span =>
    obtain ⟨type, htype, h⟩ := bind_eq_ok.mp h
    obtain ⟨terms, hterms, h⟩ := bind_eq_ok.mp h
    obtain ⟨t, ht, h⟩ := bind_eq_ok.mp h
    cases h
    unfold creationOf at ht
    extract_lets types at ht
    split at ht
    next c hc =>
      cases ht
      have hl : (terms.map (·.1)).length = c.params.length := by
        rw [← hmakes _ _ _ hc, List.length_map, List.length_map]
      exact .new (typeOf_heeds written htype) hc
        (arguments_heeds hmakes args hterms _ (Term.retains_asArguments hl))
    next => cases ht
  | newArray written items span =>
    cases written with
    | none =>
      obtain ⟨_, hdeclared, h⟩ := bind_eq_ok.mp h
      cases hdeclared
      obtain ⟨⟨terms, element⟩, hterms, h⟩ := bind_eq_ok.mp h
      cases element with
      | none => cases h
      | some type =>
        cases h
        exact .newArray nofun (items_heeds hmakes items hterms).1
    | some node =>
      obtain ⟨_, hdeclared, h⟩ := bind_eq_ok.mp h
      obtain ⟨declared, htype, rfl⟩ := map_eq_ok.mp hdeclared
      obtain ⟨⟨terms, element⟩, hterms, h⟩ := bind_eq_ok.mp h
      obtain ⟨hitems, hkept⟩ := items_heeds hmakes items hterms
      obtain rfl := hkept declared rfl
      cases h
      refine .newArray ?_ hitems
      rintro _ ⟨⟩
      exact typeOf_heeds node htype
  | lambda parenthesized params body span =>
    obtain ⟨declared, hdeclared, h⟩ := bind_eq_ok.mp h
    obtain ⟨found, hfound, h⟩ := bind_eq_ok.mp h
    obtain ⟨t, ht, h⟩ := bind_eq_ok.mp h
    cases h
    have hparams := declare_heeds hdeclared
    rw [List.map_map] at hparams
    obtain rfl := Resolved.needValue_eq_ok ht
    exact .lambda (by simpa using hparams)
      (resolve_heeds hmakes body s.siteHeeds_none (.inl rfl) hfound)
  | paren inner span => exact .paren (resolve_heeds hmakes inner hsite hr h)

theorem Surface.arguments_heeds (hmakes : s.MakesAll)
    {scope : List Param} {terms : List (Term × HostType)} (nodes : List Node)
    (h : s.arguments scope nodes = .ok terms) : s.HeededBy nodes (terms.map (·.1)) := by
  cases nodes with
  | nil =>
    cases h
    rintro _ ⟨⟩
    exact .nil
  | cons node nodes =>
    simp only [Surface.arguments] at h
    split at h
    · cases h
    obtain ⟨a, ha, h⟩ := bind_eq_ok.mp h
    obtain ⟨first, hfirst, h⟩ := bind_eq_ok.mp h
    obtain ⟨rest, hrest, h⟩ := bind_eq_ok.mp h
    cases h
    intro us hus
    cases hus with
    | cons hu hus =>
      have hnode := (resolve_heeds hmakes node s.siteHeeds_none (.inl rfl) ha).operand hfirst
      exact .cons hnode hu (arguments_heeds hmakes nodes hrest _ hus)

/-- The items of an array keep their type arguments, and have the type that is found before them. -/
theorem Surface.items_heeds (hmakes : s.MakesAll) {scope : List Param}
    {declared element found : Option HostType} {terms : List Term} (nodes : List Node)
    (h : s.items scope declared element nodes = .ok (terms, found)) :
    s.HeedsEach nodes terms ∧ ∀ t, element = some t → found = some t := by
  cases nodes with
  | nil =>
    cases h
    exact ⟨.nil, fun _ h => h⟩
  | cons node nodes =>
    obtain ⟨a, ha, h⟩ := bind_eq_ok.mp h
    obtain ⟨item, hitem, h⟩ := bind_eq_ok.mp h
    obtain ⟨⟨term, type⟩, hterm, h⟩ := bind_eq_ok.mp h
    obtain ⟨⟨rest, found'⟩, hrest, h⟩ := bind_eq_ok.mp h
    cases h
    obtain ⟨hheeds, hkept⟩ := items_heeds hmakes nodes hrest
    have hretains : item.1.Retains term := by
      obtain ⟨hsame | ⟨target, -, hsame⟩, -⟩ := itemOf_eq_ok hterm
      · rw [← hsame]
        exact .kept term
      · rw [(Prod.mk.inj hsame).1]
        exact item.1.retains_coerce _ _
    have hnode := (resolve_heeds hmakes node s.siteHeeds_none (.inl rfl) ha).operand hitem
    refine ⟨.cons hnode hretains hheeds, fun t ht => ?_⟩
    subst ht
    exact hkept t rfl

end

/-! ## 6. Lambdas -/

theorem Surface.returned_retains {body result : Term} {span : Span} {type : HostType}
    (h : s.returned body span type = .ok result) : body.Retains result := by
  unfold returned at h
  split at h
  next found hfound =>
    by_cases hsame : found = type
    · rw [if_pos hsame] at h
      cases h
      exact .kept body
    · rw [if_neg hsame] at h
      split at h <;> cases h
      exact body.retains_convert type
  next => cases h

/-- Elaboration heeds the type arguments of a lambda. -/
theorem Surface.elaborate_heeds (hmakes : s.MakesAll)
    {shape : Option LambdaShape} {written : Syntax.Lambda} {f : Function}
    (h : s.elaborate shape written = .ok f) : f.Heeds s written := by
  obtain ⟨types, found, body, hl, -, hparams, hfound, hbody, hcloses⟩ := elaborate_steps h
  obtain rfl := Resolved.needValue_eq_ok hbody
  have hdeclared := declare_heeds hparams
  rw [List.map_fst_zip (Nat.le_of_eq hl.symm)] at hdeclared
  refine ⟨hdeclared, body,
    resolve_heeds hmakes written.body s.siteHeeds_none (.inl rfl) hfound, ?_⟩
  rcases hcloses with ⟨-, hsame⟩ | ⟨type, -, hreturned⟩
  · rw [hsame]
    exact .kept body
  · exact returned_retains hreturned

theorem Registry.makesAll (r : Registry) (namespaces : Namespaces) (resolver : Resolver) :
    (⟨r.host, namespaces, resolver⟩ : Surface).MakesAll :=
  fun _ _ _ h => (constructor?_takes h).length_eq.symm

/-- An accepted text heeds its type arguments: a called method and a named type have those that are
written behind their names, wherever they stand.  Those on a member that is read, and those inside a
dotted name, are free. -/
theorem Context.parse_heeds (c : Context) (text : String) (shape : Option LambdaShape)
    (resolver : Resolver) (f : Function) (h : c.parse text shape resolver = .ok f) :
    ∃ written, Syntax.parseLambda text = .ok written ∧
      f.Heeds ⟨c.registry.host, c.namespaces, resolver⟩ written := by
  obtain ⟨written, hread, helaborate⟩ := parse_eq_ok.mp h
  exact ⟨written, hread, Surface.elaborate_heeds (c.registry.makesAll _ _) helaborate⟩

/-- Boxes that are made of what they hold. -/
def boxModules : List HostModule := [
  .ofNamespace "System" [.ofPrimitive (.integer .int32)],
  .ofNamespace "App" [
    { TypeDecl.ofName "Box`1" with
      arity := 1, constructors := [⟨[.param 0], fun _ => pure .null⟩] }]]

/-- Boxes of integers. -/
def boxOfIntegers : HostType := .applied (.ofDotted "App.Box`1") [.int32]

/-- The type that is written with a type argument is made. -/
theorem Context.parse_heeds_box : ∃ c f, ofModules boxModules Namespaces.system = .ok c ∧
    c.parse "x => new App.Box<int>(x)" (some ⟨[.int32], none⟩) .none = .ok f ∧
    f.returns? = some boxOfIntegers ∧
    ∃ written, Syntax.parseLambda "x => new App.Box<int>(x)" = .ok written ∧
      f.Heeds ⟨c.registry.host, c.namespaces, .none⟩ written := by
  obtain ⟨c, f, hc, hf, hkind⟩ := exists_of_reads boxModules "x => new App.Box<int>(x)"
    (some ⟨[.int32], none⟩) .none (fun f => f.returns? == some boxOfIntegers) (by decide +kernel)
  exact ⟨c, f, hc, hf, beq_iff_eq.mp hkind, parse_heeds c _ _ .none f hf⟩

/-- The length of a parameter. -/
def Function.isLength (f : Function) : Bool :=
  match f.body with
  | .unary .arrayLength (.param _) _ => true
  | _ => false

/-- Type arguments on a member that is read, and inside a dotted name, are not looked at: they need not
even be types. -/
theorem Context.parse_unheeded :
    (∃ c f p type, ofModules boxModules Namespaces.system = .ok c ∧
      c.namespaces.typeOf? c.registry.host "Missing" = none ∧
      c.parse "xs => xs.Length<Missing>" (some ⟨[.arrayOf .int32], none⟩) .none = .ok f ∧
      f.body = .unary .arrayLength (.param p) type) ∧
    ∃ c f, ofModules boxModules Namespaces.system = .ok c ∧
      c.parse "x => new App<Missing>.Box<int>(x)" (some ⟨[.int32], none⟩) .none = .ok f ∧
      f.returns? = some boxOfIntegers := by
  constructor
  · obtain ⟨c, f, hc, hf, hkind⟩ := exists_of_reads boxModules "xs => xs.Length<Missing>"
      (some ⟨[.arrayOf .int32], none⟩) .none Function.isLength (by decide +kernel)
    have hmissing : (ofModules boxModules Namespaces.system).toOption.all
        (fun c => c.namespaces.typeOf? c.registry.host "Missing" == none) = true := by
      decide +kernel
    rw [hc] at hmissing
    unfold Function.isLength at hkind
    split at hkind
    next p type hbody => exact ⟨c, f, p, type, hc, beq_iff_eq.mp hmissing, hf, hbody⟩
    next => cases hkind
  · obtain ⟨c, f, hc, hf, hkind⟩ := exists_of_reads boxModules "x => new App<Missing>.Box<int>(x)"
      (some ⟨[.int32], none⟩) .none (fun f => f.returns? == some boxOfIntegers) (by decide +kernel)
    exact ⟨c, f, hc, hf, beq_iff_eq.mp hkind⟩

end FatArrow
