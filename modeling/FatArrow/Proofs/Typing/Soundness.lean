import FatArrow.Context
import FatArrow.Proofs.Typing.Assignable
import FatArrow.Proofs.Typing.Resolved

/-!
# Typing is sound

Whatever a written lambda is elaborated to is well typed.  One induction over the syntax covers
expressions, argument lists and array items together; what a single form needs is proved for the
ways of resolving it.
-/

namespace FatArrow

variable {Fits : List Term → List HostType → Prop} {s : Surface}

/-! ## 1. Expressions -/

mutual

/-- What a written expression resolves to is sound in a scope whose names are all different. -/
theorem Surface.resolve_sound (hs : s.Honors Fits) {scope : List Param} {site : Option CallSite}
    {r : Resolved} (hn : (scope.map (·.name)).Nodup) (node : Syntax.Node)
    (h : s.resolve scope site node = .ok r) : r.Sound Fits scope site := by
  cases node with
  | literal value span =>
    obtain ⟨t, ht, h⟩ := bind_eq_ok.mp h
    cases h
    exact literalTerm_sound ht
  | name name typeArgs span => exact ofName_sound hs h
  | predefined keyword =>
    obtain ⟨_, _, h⟩ := bind_eq_ok.mp h
    cases h
    trivial
  | binary op left right span =>
    obtain ⟨a, ha, h⟩ := bind_eq_ok.mp h
    obtain ⟨a', ha', h⟩ := bind_eq_ok.mp h
    obtain ⟨b, hb, h⟩ := bind_eq_ok.mp h
    obtain ⟨b', hb', h⟩ := bind_eq_ok.mp h
    obtain ⟨t, ht, h⟩ := bind_eq_ok.mp h
    cases h
    obtain ⟨wa, ta, _⟩ := Resolved.needOperand_sound (resolve_sound hs hn left ha) ha'
    obtain ⟨wb, tb, _⟩ := Resolved.needOperand_sound (resolve_sound hs hn right hb) hb'
    exact binaryOf_sound wa wb ta tb ht
  | unary op operand span =>
    obtain ⟨a, ha, h⟩ := bind_eq_ok.mp h
    obtain ⟨⟨t, type⟩, ha', h⟩ := bind_eq_ok.mp h
    obtain ⟨wa, ta, _⟩ := Resolved.needOperand_sound (resolve_sound hs hn operand ha) ha'
    dsimp only at h
    split at h
    next chosen hchosen =>
      cases h
      exact ⟨.unary wa ta (typedUnary?_applies hchosen), Term.plainNull_of_value? rfl⟩
    next => cases h
  | conditional test ifTrue ifFalse span =>
    obtain ⟨c, hc, h⟩ := bind_eq_ok.mp h
    obtain ⟨⟨condition, type⟩, hc', h⟩ := bind_eq_ok.mp h
    dsimp only at h
    split at h
    · cases h
    rename_i hbool
    obtain ⟨a, ha, h⟩ := bind_eq_ok.mp h
    obtain ⟨a', ha', h⟩ := bind_eq_ok.mp h
    obtain ⟨b, hb, h⟩ := bind_eq_ok.mp h
    obtain ⟨b', hb', h⟩ := bind_eq_ok.mp h
    cases h
    obtain ⟨wc, tc, _⟩ := Resolved.needOperand_sound (resolve_sound hs hn test hc) hc'
    obtain ⟨wa, _⟩ := Resolved.needOperand_sound (resolve_sound hs hn ifTrue ha) ha'
    obtain ⟨wb, _⟩ := Resolved.needOperand_sound (resolve_sound hs hn ifFalse hb) hb'
    exact ⟨.cond wc wa wb tc (by simpa using hbool), Term.plainNull_of_value? rfl⟩
  | call callee args span =>
    obtain ⟨terms, hterms, h⟩ := bind_eq_ok.mp h
    obtain ⟨typeArgs, _, h⟩ := bind_eq_ok.mp h
    obtain ⟨found, hfound, h⟩ := bind_eq_ok.mp h
    obtain ⟨t, ht, h⟩ := bind_eq_ok.mp h
    cases h
    exact callOf_sound (resolve_sound hs hn callee hfound) (arguments_sound hs hn args hterms) rfl ht
  | index object args span =>
    obtain ⟨a, ha, h⟩ := bind_eq_ok.mp h
    obtain ⟨⟨target, type⟩, ha', h⟩ := bind_eq_ok.mp h
    obtain ⟨terms, hterms, h⟩ := bind_eq_ok.mp h
    obtain ⟨t, ht, h⟩ := bind_eq_ok.mp h
    cases h
    obtain ⟨wa, ta, _⟩ := Resolved.needOperand_sound (resolve_sound hs hn object ha) ha'
    exact indexOf_sound hs wa ta (arguments_sound hs hn args hterms) ht
  | member object name typeArgs span =>
    obtain ⟨found, hfound, h⟩ := bind_eq_ok.mp h
    exact ofMember_sound hs (resolve_sound hs hn object hfound) h
  | cast written operand span =>
    obtain ⟨target, _, h⟩ := bind_eq_ok.mp h
    obtain ⟨a, ha, h⟩ := bind_eq_ok.mp h
    obtain ⟨⟨t, type⟩, ha', h⟩ := bind_eq_ok.mp h
    dsimp only at h
    split at h
    · cases h
      obtain ⟨wa, _⟩ := Resolved.needOperand_sound (resolve_sound hs hn operand ha) ha'
      exact ⟨.cast wa, Term.plainNull_of_value? rfl⟩
    · cases h
  | new written args span =>
    obtain ⟨type, _, h⟩ := bind_eq_ok.mp h
    obtain ⟨terms, hterms, h⟩ := bind_eq_ok.mp h
    obtain ⟨t, ht, h⟩ := bind_eq_ok.mp h
    cases h
    exact creationOf_sound hs (arguments_sound hs hn args hterms) ht
  | newArray written nodes span =>
    -- written or not, the type that is declared plays no part in what follows
    obtain ⟨declared, terms, type, hterms, rfl⟩ : ∃ declared terms type,
        s.items scope declared declared nodes = .ok (terms, some type) ∧
          r = .value (.newArray type terms) := by
      simp only [Surface.resolve] at h
      split at h
      all_goals
        obtain ⟨declared, _, h⟩ := bind_eq_ok.mp h
        obtain ⟨⟨terms, element⟩, hterms, h⟩ := bind_eq_ok.mp h
        cases element with
        | none => cases h
        | some type =>
          cases h
          exact ⟨_, _, _, hterms, rfl⟩
    obtain ⟨inside, htypes, _⟩ := items_sound hs hn nodes hterms
    exact ⟨.array inside (fun i hi => htypes i hi type rfl), Term.plainNull_of_value? rfl⟩
  | lambda keyword params body span =>
    obtain ⟨declared, hdeclared, h⟩ := bind_eq_ok.mp h
    obtain ⟨found, hfound, h⟩ := bind_eq_ok.mp h
    obtain ⟨t, ht, h⟩ := bind_eq_ok.mp h
    cases h
    have hnodup := declare_nodup hn hdeclared
    have hbody := Resolved.needValue_sound (resolve_sound hs hnodup body hfound) ht
    exact ⟨.lambda hnodup hbody.1, Term.plainNull_of_value? rfl⟩
  | paren inner span => exact resolve_sound hs hn inner h

/-- So are the arguments of a call. -/
theorem Surface.arguments_sound (hs : s.Honors Fits) {scope : List Param}
    {terms : List (Term × HostType)} (hn : (scope.map (·.name)).Nodup) (nodes : List Syntax.Node)
    (h : s.arguments scope nodes = .ok terms) : ArgumentsOf Fits scope terms := by
  cases nodes with
  | nil =>
    cases h
    exact nofun
  | cons node nodes =>
    simp only [Surface.arguments] at h
    split at h
    · cases h
    obtain ⟨a, ha, h⟩ := bind_eq_ok.mp h
    obtain ⟨first, hfirst, h⟩ := bind_eq_ok.mp h
    obtain ⟨rest, hrest, h⟩ := bind_eq_ok.mp h
    cases h
    exact List.forall_mem_cons.mpr ⟨Resolved.needOperand_sound (resolve_sound hs hn node ha) hfirst,
      arguments_sound hs hn nodes hrest⟩

/-- The items of an array are sound, and all of the one type that is found for them. -/
theorem Surface.items_sound (hs : s.Honors Fits) {scope : List Param}
    {declared element found : Option HostType} {terms : List Term}
    (hn : (scope.map (·.name)).Nodup) (nodes : List Syntax.Node)
    (h : s.items scope declared element nodes = .ok (terms, found)) :
    (∀ i ∈ terms, WellTyped Fits scope i) ∧
      (∀ i ∈ terms, ∀ t, found = some t → i.type? = some t) ∧
      ∀ t, element = some t → found = some t := by
  cases nodes with
  | nil =>
    cases h
    exact ⟨nofun, nofun, fun _ h => h⟩
  | cons node nodes =>
    obtain ⟨a, ha, h⟩ := bind_eq_ok.mp h
    obtain ⟨item, hitem, h⟩ := bind_eq_ok.mp h
    obtain ⟨⟨term, type⟩, hterm, h⟩ := bind_eq_ok.mp h
    obtain ⟨⟨rest, found'⟩, hrest, h⟩ := bind_eq_ok.mp h
    cases h
    obtain ⟨wa, ta, _⟩ := Resolved.needOperand_sound (resolve_sound hs hn node ha) hitem
    obtain ⟨inside, htype, hsame⟩ := itemOf_sound wa ta hterm
    obtain ⟨ihinside, ihtypes, ihkept⟩ := items_sound hs hn nodes hrest
    -- the type found for the items is that of this one
    have hfound : found = some type := by
      refine ihkept type ?_
      cases element with
      | none => rfl
      | some expected => exact congrArg some (hsame expected rfl).symm
    refine ⟨List.forall_mem_cons.mpr ⟨inside, ihinside⟩,
      List.forall_mem_cons.mpr ⟨fun t ht => ?_, ihtypes⟩, fun t ht => ?_⟩
    · rw [htype, ← ht, hfound]
    · rw [hfound, ← hsame t ht]

end

/-! ## 2. Lambdas -/

/-- A body that is brought to a type has that type. -/
theorem Surface.returned_sound {scope : List Param} {body result : Term} {span : Span}
    {expected : HostType} (hw : WellTyped Fits scope body)
    (h : s.returned body span expected = .ok result) :
    WellTyped Fits scope result ∧ result.type? = some expected := by
  unfold returned at h
  split at h
  next found hfound =>
    by_cases hsame : found = expected
    · simp only [hsame, ↓reduceIte] at h
      cases h
      exact ⟨hw, hsame ▸ hfound⟩
    · simp only [hsame, ↓reduceIte] at h
      split at h
      · cases h
        exact ⟨hw.converts (Term.converts_convert body expected),
          Term.type?_convert hfound expected⟩
      · cases h
  next => cases h

/-- A declared parameter has the type that is expected of it, if there is one. -/
theorem Surface.paramType_expected {p : Syntax.Parameter} {type wanted : HostType}
    (h : s.paramType p (some wanted) = .ok type) : type = wanted := by
  unfold paramType at h
  cases hwritten : p.type with
  | some node =>
    rw [hwritten] at h
    obtain ⟨found, _, h⟩ := bind_eq_ok.mp h
    dsimp only at h
    split at h
    next hsame =>
      cases h
      exact hsame.symm
    next => cases h
  | none =>
    rw [hwritten] at h
    exact (Except.ok.inj h).symm

theorem Surface.declare_expected {scope declared : List Param} {written : List Syntax.Parameter}
    {types : List HostType} (hl : types.length = written.length)
    (h : s.declare scope (written.zip (types.map some)) = .ok declared) :
    declared.map (·.type) = types := by
  induction written generalizing scope declared types with
  | nil =>
    cases h
    exact (List.eq_nil_of_length_eq_zero hl).symm
  | cons p written ih =>
    cases types with
    | nil => cases hl
    | cons wanted types =>
      simp only [List.map_cons, List.zip_cons_cons, Surface.declare] at h
      split at h
      · cases h
      obtain ⟨type, htype, h⟩ := bind_eq_ok.mp h
      obtain ⟨rest, hrest, h⟩ := bind_eq_ok.mp h
      cases h
      rw [List.map_cons, paramType_expected htype, ih (Nat.succ.inj hl) hrest]

/-- A lambda of the expected shape has its parameter types and its return type, where the shape
names one. -/
def Function.HasShape (f : Function) (shape : LambdaShape) : Prop :=
  f.paramTypes = shape.params ∧ ∀ type, shape.returns = some type → f.returns? = some type

/-- The body of a lambda, brought to a type if there is one. -/
def Surface.Closes (s : Surface) (returns : Option HostType) (body result : Term) (span : Span) :
    Prop :=
  returns = none ∧ result = body ∨
    ∃ type, returns = some type ∧ s.returned body span type = .ok result

/-- What is elaborated has declared parameters, each with the type that is expected of it if there is
one, and a body that is resolved among them. -/
theorem Surface.elaborate_steps {shape : Option LambdaShape} {written : Syntax.Lambda}
    {f : Function} (h : s.elaborate shape written = .ok f) :
    ∃ expected found body, expected.length = written.params.length ∧
      (∀ known, shape = some known → expected = known.params.map some) ∧
      s.declare [] (written.params.zip expected) = .ok f.params ∧
      s.resolve f.params none written.body = .ok found ∧
      found.needValue written.body.span = .ok body ∧
      s.Closes (shape.bind (·.returns)) body f.body written.body.span := by
  cases shape with
  | none =>
    obtain ⟨_, he, h⟩ := bind_eq_ok.mp h
    cases he
    obtain ⟨params, hparams, h⟩ := bind_eq_ok.mp h
    obtain ⟨found, hfound, h⟩ := bind_eq_ok.mp h
    obtain ⟨body, hbody, h⟩ := bind_eq_ok.mp h
    cases h
    exact ⟨_, found, body, List.length_map _, nofun, hparams, hfound, hbody, .inl ⟨rfl, rfl⟩⟩
  | some known =>
    simp only [Surface.elaborate] at h
    split at h
    next hl =>
      obtain ⟨_, he, h⟩ := bind_eq_ok.mp h
      cases he
      obtain ⟨params, hparams, h⟩ := bind_eq_ok.mp h
      obtain ⟨found, hfound, h⟩ := bind_eq_ok.mp h
      obtain ⟨body, hbody, h⟩ := bind_eq_ok.mp h
      have hlength : (known.params.map some).length = written.params.length := by
        rw [List.length_map, hl]
      have hexpected : ∀ k, some known = some k → known.params.map some = k.params.map some := by
        rintro _ ⟨⟩
        rfl
      rw [Option.bind_some] at h ⊢
      cases hreturns : known.returns with
      | none =>
        rw [hreturns] at h
        cases h
        exact ⟨_, found, body, hlength, hexpected, hparams, hfound, hbody, .inl ⟨rfl, rfl⟩⟩
      | some type =>
        rw [hreturns] at h
        obtain ⟨result, hresult, h⟩ := bind_eq_ok.mp h
        cases h
        exact ⟨_, found, body, hlength, hexpected, hparams, hfound, hbody,
          .inr ⟨type, rfl, hresult⟩⟩
    next => cases h

/-- So the parameters have different names, and those of a shape have its types. -/
theorem Surface.elaborate_eq_ok {shape : Option LambdaShape} {written : Syntax.Lambda}
    {f : Function} (h : s.elaborate shape written = .ok f) :
    ∃ found body, (f.params.map (·.name)).Nodup ∧
      (∀ expected, shape = some expected → f.paramTypes = expected.params) ∧
      s.resolve f.params none written.body = .ok found ∧
      found.needValue written.body.span = .ok body ∧
      s.Closes (shape.bind (·.returns)) body f.body written.body.span := by
  obtain ⟨types, found, body, hl, htypes, hparams, hfound, hbody, hcloses⟩ := elaborate_steps h
  refine ⟨found, body, declare_top_nodup hparams, fun expected he => ?_, hfound, hbody, hcloses⟩
  obtain rfl := htypes expected he
  rw [List.length_map] at hl
  exact declare_expected hl hparams

/-- Elaboration yields a well-typed lambda, of the expected shape if there is one. -/
theorem Surface.elaborate_sound (hs : s.Honors Fits) {shape : Option LambdaShape}
    {written : Syntax.Lambda} {f : Function} (h : s.elaborate shape written = .ok f) :
    WellTyped Fits [] f.term ∧ ∀ expected, shape = some expected → f.HasShape expected := by
  obtain ⟨found, body, hnodup, htypes, hfound, hbody, hcloses⟩ := elaborate_eq_ok h
  have hwell := (Resolved.needValue_sound (resolve_sound hs hnodup written.body hfound) hbody).1
  rcases hcloses with ⟨hreturns, hresult⟩ | ⟨wanted, hreturns, hresult⟩
  · refine ⟨.lambda hnodup (hresult ▸ hwell), fun expected he => ⟨htypes expected he, ?_⟩⟩
    intro type ht
    subst he
    rw [Option.bind_some, ht] at hreturns
    cases hreturns
  · obtain ⟨hbrought, htype⟩ := returned_sound hwell hresult
    refine ⟨.lambda hnodup hbrought, fun expected he => ⟨htypes expected he, fun type ht => ?_⟩⟩
    subst he
    rw [Option.bind_some, ht] at hreturns
    cases hreturns
    exact htype

/-! ## 3. Registries -/

theorem TypeOrder.fitsPlain_object {o : TypeOrder} {t : HostType} (hv : t.isValueType) :
    o.fitsPlain t .object = false := by
  rw [Bool.eq_false_iff]
  intro h
  rcases fitsPlain_valueType hv h with rfl | ⟨wide, _, -, hshape, -, hwidens⟩
  · cases hv
  · cases hshape
    cases hwidens

/-- Of a value type without null, nothing but a declared base makes an object stand for a value. -/
theorem TypeOrder.derives_of_assignable_object {o : TypeOrder} {t : HostType}
    (hv : t.isValueType) (hn : t.admitsNull = false) (h : o.assignable t .object = true) :
    o.derives t .object = true := by
  have hnullable : t.nullable = false := (Bool.or_eq_false_iff.mp hn).1
  have hne : t ≠ .object := by
    rintro rfl
    cases hv
  simpa [assignable, fits, hne, hnullable, fitsPlain_object hv] using h

/-- An argument that can be given to a parameter can be passed for it once it is converted. -/
theorem Term.Typed.passes {o : TypeOrder} {arg : Term} {type param : HostType}
    (ht : arg.Typed type) (h : o.assignable param type = true) :
    (arg.asArgument param).Passes o param := by
  rcases type?_asArgument ht.1 param with hsame | ⟨hkept, hnull⟩
  · exact ⟨param, hsame, o.assignable_refl param, fun _ => .inl rfl⟩
  · rw [hkept]
    refine ⟨type, ht.1, h, fun hv => .inr ?_⟩
    obtain ⟨hnull, hadmits⟩ := hnull hv
    obtain ⟨u, rfl⟩ := eq_null_of_isNullConstant hnull
    obtain rfl := ht.2 u rfl
    obtain rfl := Option.some.inj ht.1
    exact ⟨rfl, TypeOrder.derives_of_assignable_object hv hadmits h⟩

theorem TypeOrder.Takes.accepts {o : TypeOrder} {params types : List HostType} {args : List Term}
    (ha : List.Forall₂ Term.Typed args types) (h : o.Takes params types) :
    o.Accepts (Term.asArguments args params) params := by
  induction ha generalizing params with
  | nil =>
    cases h
    exact .nil
  | cons ht _ ih =>
    cases h with
    | cons hp hrest => exact .cons (ht.passes hp) (ih hrest)

/-- A registry honors its order, as long as the caller names no methods. -/
theorem Registry.host_honors (r : Registry) (namespaces : Namespaces) {resolver : Resolver}
    (hr : ∀ name types, resolver.method? name types = none) :
    (⟨r.host, namespaces, resolver⟩ : Surface).Honors r.order.Accepts where
  taken ha h := h.accepts ha
  named {name types m} h := by
    rw [hr name types] at h
    cases h
  made h ha := (constructor?_takes h).accepts ha

/-- Elaboration against a registry yields a well-typed lambda whose calls, creations and element
accesses pass arguments that their parameters accept, of the expected shape if there is one.  The
caller may say what names and parameters without a type mean, but names no methods. -/
theorem Registry.elaborate_wellTyped (r : Registry) (namespaces : Namespaces) (resolver : Resolver)
    (hr : ∀ name types, resolver.method? name types = none) (shape : Option LambdaShape)
    (written : Syntax.Lambda) (f : Function)
    (h : (⟨r.host, namespaces, resolver⟩ : Surface).elaborate shape written = .ok f) :
    WellTyped r.order.Accepts [] f.term ∧ ∀ expected, shape = some expected → f.HasShape expected :=
  Surface.elaborate_sound (r.host_honors namespaces hr) h

/-! ## 4. Lambdas from text -/

/-- A text means what is elaborated from its syntax. -/
theorem Context.parse_eq_ok {c : Context} {text : String} {shape : Option LambdaShape}
    {resolver : Resolver} {f : Function} :
    c.parse text shape resolver = .ok f ↔ ∃ written, Syntax.parseLambda text = .ok written ∧
      (⟨c.registry.host, c.namespaces, resolver⟩ : Surface).elaborate shape written = .ok f := by
  unfold parse
  cases Syntax.parseLambda text with
  | error e => simp
  | ok written => simp

/-- Whether a text means a lambda of some kind to a host with the given modules. -/
def Context.reads (modules : List HostModule) (text : String) (shape : Option LambdaShape)
    (resolver : Resolver) (kind : Function → Bool) : Bool :=
  match ofModules modules Namespaces.system with
  | .error _ => false
  | .ok c =>
    match c.parse text shape resolver with
    | .error _ => false
    | .ok f => kind f

theorem Context.exists_of_reads (modules : List HostModule) (text : String)
    (shape : Option LambdaShape) (resolver : Resolver) (kind : Function → Bool)
    (h : reads modules text shape resolver kind = true) :
    ∃ c f, ofModules modules Namespaces.system = .ok c ∧
      c.parse text shape resolver = .ok f ∧ kind f = true := by
  unfold reads at h
  split at h
  next => cases h
  next c hc =>
    split at h
    next => cases h
    next f hf => exact ⟨c, f, hc, hf, h⟩

/-- A caller for whom every parameter has one type. -/
def Resolver.typing (type : HostType) : Resolver := { Resolver.none with paramType? _ := some type }

/-- A host in which objects count as integers, and in which meters are made from an integer. -/
def meterModules : List HostModule := [
  .ofNamespace "System" [
    .ofPrimitive (.integer .int32),
    { TypeDecl.ofPrimitive .object with bases := [.int32] }],
  .ofNamespace "App" [
    { TypeDecl.ofName "Meter" with constructors := [⟨[.int32], fun _ => pure .null⟩] }]]

/-- A sum of two types, of which one is brought to the other and the sum to what is expected. -/
theorem Context.parse_sum_wellTyped : ∃ c f, ofModules meterModules Namespaces.system = .ok c ∧
    c.parse "x => x + 1" (some ⟨[.int64], some .double⟩) .none = .ok f ∧
    WellTyped c.registry.order.Accepts [] f.term ∧ f.returns? = some .double := by
  obtain ⟨c, f, hc, hf, _⟩ := exists_of_reads meterModules "x => x + 1"
    (some ⟨[.int64], some .double⟩) .none (fun _ => true)
    (by decide +kernel)
  obtain ⟨written, _, h⟩ := parse_eq_ok.mp hf
  obtain ⟨hw, hshape⟩ := Registry.elaborate_wellTyped c.registry c.namespaces .none
    (fun _ _ => rfl) _ written f h
  exact ⟨c, f, hc, hf, hw, (hshape _ rfl).2 _ rfl⟩

/-- An array index whose type is not the element type of the array. -/
def Function.indexesAmiss (f : Function) : Bool :=
  match f.body with
  | .binary .arrayIndex array _ type => array.type?.bind (·.element?) != some type
  | _ => false

/-- A creation whose one argument is no integer, though the parameter is one. -/
def Function.passesAmiss (f : Function) : Bool :=
  match f.body with
  | .new made [arg] => made.params == [.int32] && arg.type? != some .int32
  | _ => false

/-- An array type without an element type is indexed as one of objects, and where objects derive
from integers a written null stays an object where an integer is asked for. -/
theorem Context.parse_bare_array_and_null_integer :
    (∃ c f array index type, ofModules [] Namespaces.system = .ok c ∧
      c.parse "xs => xs[0]" none (.typing ⟨.array, [], false⟩) = .ok f ∧
      f.body = .binary .arrayIndex array index type ∧
      array.type?.bind (·.element?) ≠ some type) ∧
    ∃ c f made arg, ofModules meterModules Namespaces.system = .ok c ∧
      c.parse "x => new App.Meter(null)" none (.typing .object) = .ok f ∧
      f.body = .new made [arg] ∧ made.params = [.int32] ∧ arg.type? ≠ some .int32 := by
  constructor
  · obtain ⟨c, f, hc, hf, hkind⟩ := exists_of_reads [] "xs => xs[0]" none
      (.typing ⟨.array, [], false⟩) Function.indexesAmiss (by decide +kernel)
    unfold Function.indexesAmiss at hkind
    split at hkind
    next array index type hbody =>
      exact ⟨c, f, array, index, type, hc, hf, hbody, by simpa using hkind⟩
    next => cases hkind
  · obtain ⟨c, f, hc, hf, hkind⟩ := exists_of_reads meterModules "x => new App.Meter(null)"
      none (.typing .object) Function.passesAmiss (by decide +kernel)
    unfold Function.passesAmiss at hkind
    split at hkind
    next made arg hbody =>
      simp only [Bool.and_eq_true, beq_iff_eq, bne_iff_ne] at hkind
      exact ⟨c, f, made, arg, hc, hf, hbody, hkind.1, hkind.2⟩
    next => cases hkind

end FatArrow
