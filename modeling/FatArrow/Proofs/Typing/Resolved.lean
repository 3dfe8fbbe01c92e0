import FatArrow.Proofs.Outcome
import FatArrow.Proofs.Typing.Judgement
import FatArrow.Proofs.Typing.Overload
import FatArrow.Typing.Resolved

/-!
# What written expressions resolve to is well typed

One fact for every way in which a name, a member, a call, an operator or an array item is resolved:
if what it is made from is well typed, then so is the result.  A method that waits for its call
serves the types of the arguments of that call.
-/

namespace FatArrow

/-! ## 1. Methods and callers -/

/-- Whatever arguments of the given types are passed to the method fit its parameters. -/
def Method.Serves (Fits : List Term → List HostType → Prop) (m : Method) (types : List HostType) :
    Prop :=
  ∀ args, List.Forall₂ Term.Typed args types → args.length = m.params.length →
    Fits (Term.asArguments args m.params) m.params

/-- The methods and constructors that typing goes by take fitting arguments: those chosen by the
types of the arguments, those that the caller names, and constructors. -/
structure Surface.Honors (s : Surface) (Fits : List Term → List HostType → Prop) : Prop where
  taken : ∀ {args types params}, List.Forall₂ Term.Typed args types →
    s.host.toTypeOrder.Takes params types → Fits (Term.asArguments args params) params
  named : ∀ {name types m}, s.resolver.method? name types = some m → m.Serves Fits types
  made : ∀ {type types c args}, s.host.constructor? type types = some c →
    List.Forall₂ Term.Typed args types → Fits (Term.asArguments args c.params) c.params

/-- What holds of a resolved expression: a value is well typed, and a method serves the call that
it waits for. -/
def Resolved.Sound (Fits : List Term → List HostType → Prop) (scope : List Param)
    (site : Option CallSite) : Resolved → Prop
  | .value t => WellTyped Fits scope t ∧ t.PlainNull
  | .type _ => True
  | .method (.onValue target m) =>
    WellTyped Fits scope target ∧ ∃ c, site = some c ∧ m.Serves Fits c.args
  | .method (.alone m) => ∃ c, site = some c ∧ m.Serves Fits c.args
  | .method (.onSequence receiver m) =>
    WellTyped Fits scope receiver ∧ ∃ c type, site = some c ∧ receiver.Typed type ∧
      m.Serves Fits (type :: c.args)
  | .pending _ _ => True

variable {Fits : List Term → List HostType → Prop} {s : Surface} {scope : List Param}
  {site : Option CallSite} {r : Resolved} {span : Span}

theorem Surface.Honors.serves (hs : s.Honors Fits) {m : Method} {types : List HostType}
    (h : s.host.toTypeOrder.Takes m.params types) : m.Serves Fits types :=
  fun _ ha _ => hs.taken ha h

theorem Term.plainNull_of_value? {t : Term} (h : t.value? = none) : t.PlainNull := by
  rintro type rfl
  cases h

/-! ## 2. Values that are needed -/

theorem Resolved.needValue_eq_ok {t : Term} (h : r.needValue span = .ok t) : r = .value t := by
  cases r <;> cases h
  rfl

theorem Resolved.needOperand_eq_ok {o : Term × HostType} (h : r.needOperand span = .ok o) :
    r = .value o.1 ∧ o.1.type? = some o.2 := by
  obtain ⟨t, ht, h⟩ := bind_eq_ok.mp h
  split at h
  next type htype =>
    cases h
    exact ⟨needValue_eq_ok ht, htype⟩
  next => cases h

theorem Resolved.needValue_sound {t : Term} (hr : r.Sound Fits scope site)
    (h : r.needValue span = .ok t) : WellTyped Fits scope t ∧ t.PlainNull := by
  obtain rfl := needValue_eq_ok h
  exact hr

theorem Resolved.needOperand_sound {o : Term × HostType} (hr : r.Sound Fits scope site)
    (h : r.needOperand span = .ok o) : WellTyped Fits scope o.1 ∧ o.1.Typed o.2 := by
  obtain ⟨rfl, htype⟩ := needOperand_eq_ok h
  exact ⟨hr.1, htype, hr.2⟩

/-! ## 3. Names and members -/

theorem literalTerm_sound {literal : Syntax.Literal} {t : Term}
    (h : literalTerm literal span = .ok t) : WellTyped Fits scope t ∧ t.PlainNull := by
  unfold literalTerm at h
  split at h <;> cases h <;> refine ⟨.const, fun type he => ?_⟩ <;> cases he
  rfl

theorem Surface.ofName_sound (hs : s.Honors Fits) {name : Syntax.Name}
    {typeArgs : List Syntax.TypeNode} (h : s.ofName scope site name typeArgs span = .ok r) :
    r.Sound Fits scope site := by
  unfold ofName at h
  split at h
  next p hp =>
    cases h
    split at hp
    · exact ⟨.param (List.mem_of_find?_eq_some hp), Term.plainNull_of_value? rfl⟩
    · cases hp
  next =>
    cases site with
    | some c =>
      dsimp only at h
      split at h
      next m hm =>
        cases h
        split at hm
        · exact ⟨c, rfl, hs.named hm⟩
        · cases hm
      next => cases h; trivial
    | none =>
      dsimp only at h
      split at h
      · split at h <;> cases h <;> trivial
      · obtain ⟨_, _, h⟩ := bind_eq_ok.mp h
        obtain ⟨_, _, h⟩ := bind_eq_ok.mp h
        cases h
        trivial

theorem Surface.ofPending_sound {dotted : String} {typeArgs : List Syntax.TypeNode}
    (h : s.ofPending site dotted typeArgs span = .ok r) : r.Sound Fits scope site := by
  unfold ofPending at h
  cases site with
  | some c => cases h; trivial
  | none =>
    dsimp only at h
    split at h
    · split at h <;> cases h <;> trivial
    · obtain ⟨_, _, h⟩ := bind_eq_ok.mp h
      obtain ⟨_, _, h⟩ := bind_eq_ok.mp h
      cases h
      trivial

theorem Surface.ofValue_sound (hs : s.Honors Fits) {target : Term} {name : Syntax.Name}
    {objectSpan : Span} (hw : WellTyped Fits scope target) (hn : target.PlainNull)
    (h : s.ofValue site target name objectSpan span = .ok r) : r.Sound Fits scope site := by
  unfold ofValue at h
  split at h
  next => cases h
  next type htype =>
    cases site with
    | some c =>
      dsimp only at h
      split at h
      next m hm =>
        cases h
        exact ⟨hw, c, rfl, hs.serves (CallSite.select?_takes hm)⟩
      next =>
        split at h
        next m hm =>
          cases h
          obtain ⟨item, _, hm⟩ := Option.bind_eq_some_iff.mp hm
          exact ⟨hw, c, type, rfl, ⟨htype, hn⟩, hs.serves (CallSite.selectSequenceOp?_takes hm)⟩
        next => cases h
    | none =>
      dsimp only at h
      split at h
      next harray =>
        cases h
        refine ⟨.unary hw htype ?_, Term.plainNull_of_value? rfl⟩
        exact (Bool.and_eq_true_iff.mp harray).1
      next =>
        split at h
        next m _ =>
          cases h
          by_cases hstatic : m.isStatic
          · simp only [hstatic, ↓reduceIte]
            exact ⟨.staticMember, Term.plainNull_of_value? rfl⟩
          · simp only [hstatic, Bool.false_eq_true, ↓reduceIte]
            exact ⟨.member hw, Term.plainNull_of_value? rfl⟩
        next => cases h

theorem Surface.ofType_sound (hs : s.Honors Fits) {type : HostType} {name : Syntax.Name}
    (h : s.ofType site type name span = .ok r) : r.Sound Fits scope site := by
  unfold ofType at h
  cases site with
  | some c =>
    dsimp only at h
    split at h
    next m hm =>
      cases h
      exact ⟨c, rfl, hs.serves (CallSite.select?_takes hm)⟩
    next => cases h
  | none =>
    dsimp only at h
    split at h
    · split at h
      · cases h
        exact ⟨.staticMember, Term.plainNull_of_value? rfl⟩
      · cases h
    · split at h <;> cases h
      trivial

theorem Surface.ofMember_sound (hs : s.Honors Fits) {object : Resolved} {objectSpan : Span}
    {name : Syntax.Name} {typeArgs : List Syntax.TypeNode} (ho : object.Sound Fits scope none)
    (h : s.ofMember site object objectSpan name typeArgs span = .ok r) :
    r.Sound Fits scope site := by
  cases object with
  | value target => exact ofValue_sound hs ho.1 ho.2 h
  | type type => exact ofType_sound hs h
  | method callee => cases h
  | pending start at_ => exact ofPending_sound h

/-! ## 4. Calls -/

/-- Arguments well typed in a scope, of given types. -/
def ArgumentsOf (Fits : List Term → List HostType → Prop) (scope : List Param)
    (args : List (Term × HostType)) : Prop :=
  ∀ a ∈ args, WellTyped Fits scope a.1 ∧ a.1.Typed a.2

namespace ArgumentsOf

variable {args : List (Term × HostType)}

theorem wellTyped (h : ArgumentsOf Fits scope args) :
    ∀ a ∈ args.map (·.1), WellTyped Fits scope a := by
  intro a ha
  obtain ⟨b, hb, rfl⟩ := List.mem_map.mp ha
  exact (h b hb).1

theorem typed (h : ArgumentsOf Fits scope args) :
    List.Forall₂ Term.Typed (args.map (·.1)) (args.map (·.2)) := by
  rw [List.forall₂_map_left_iff, List.forall₂_map_right_iff, List.forall₂_same]
  exact fun a ha => (h a ha).2

end ArgumentsOf

theorem callOf_sound {callee : Resolved} {c : CallSite} {args : List (Term × HostType)} {t : Term}
    {calleeSpan : Span} (hc : callee.Sound Fits scope (some c)) (ha : ArgumentsOf Fits scope args)
    (htypes : c.args = args.map (·.2))
    (h : Surface.callOf callee calleeSpan (args.map (·.1)) span = .ok t) :
    WellTyped Fits scope t ∧ t.PlainNull := by
  unfold Surface.callOf at h
  extract_lets make at h
  -- every call is made in the one way, so its parts are read off once
  have hmake : ∀ {m : Method} {terms : List Term} {term : List Term → Term},
      make m terms term = .ok t →
        terms.length = m.params.length ∧ t = term (Term.asArguments terms m.params) := by
    intro m terms term h
    simp only [make] at h
    split at h
    next hl => exact ⟨hl, (Except.ok.inj h).symm⟩
    next => cases h
  match callee, hc with
  | .value _, _ => cases h
  | .type _, _ => cases h
  | .pending _ _, _ => cases h
  | .method (.onValue target m), ⟨hw, _, rfl, hm⟩ =>
    obtain ⟨hl, rfl⟩ := hmake h
    rw [htypes] at hm
    exact ⟨.call hw (.asArguments ha.wellTyped _) (hm _ ha.typed hl), Term.plainNull_of_value? rfl⟩
  | .method (.alone m), ⟨_, rfl, hm⟩ =>
    obtain ⟨hl, rfl⟩ := hmake h
    rw [htypes] at hm
    exact ⟨.staticCall (.asArguments ha.wellTyped _) (hm _ ha.typed hl),
      Term.plainNull_of_value? rfl⟩
  | .method (.onSequence receiver m), ⟨hw, _, type, rfl, ht, hm⟩ =>
    obtain ⟨hl, rfl⟩ := hmake h
    rw [htypes] at hm
    have hall : ∀ a ∈ receiver :: args.map (·.1), WellTyped Fits scope a :=
      List.forall_mem_cons.mpr ⟨hw, ha.wellTyped⟩
    exact ⟨.staticCall (.asArguments hall _) (hm _ (.cons ht ha.typed) hl),
      Term.plainNull_of_value? rfl⟩

theorem indexOf_sound (hs : s.Honors Fits) {target : Term} {type : HostType}
    {args : List (Term × HostType)} {t : Term} (hw : WellTyped Fits scope target)
    (htype : target.type? = some type) (ha : ArgumentsOf Fits scope args)
    (h : s.indexOf target type args span = .ok t) : WellTyped Fits scope t ∧ t.PlainNull := by
  unfold Surface.indexOf at h
  extract_lets order types candidates at h
  split at h
  next harray =>
    split at h
    next index found =>
      split at h
      · cases h
        obtain ⟨hi, hfound, _⟩ := ha (index, found) (List.mem_singleton_self _)
        have hjoins : BinaryOp.arrayIndex.Joins type .int32 (type.element?.getD .object) :=
          ⟨harray, rfl, rfl⟩
        refine ⟨?_, Term.plainNull_of_value? rfl⟩
        simp only [Term.joined, htype, Option.bind_some]
        exact .binary hw (hi.converts (Term.converts_convert _ _)) htype
          (Term.type?_convert hfound _) hjoins
      · cases h
    next => cases h
  next =>
    split at h
    next m hm =>
      cases h
      exact ⟨.index hw (.asArguments ha.wellTyped _)
        (hs.taken ha.typed (CallSite.select?_takes hm)), Term.plainNull_of_value? rfl⟩
    next => cases h

theorem creationOf_sound (hs : s.Honors Fits) {type : HostType} {args : List (Term × HostType)}
    {t : Term} (ha : ArgumentsOf Fits scope args) (h : s.creationOf type args span = .ok t) :
    WellTyped Fits scope t ∧ t.PlainNull := by
  unfold Surface.creationOf at h
  extract_lets types at h
  split at h
  next c hc =>
    cases h
    exact ⟨.new (.asArguments ha.wellTyped _) (hs.made hc ha.typed), Term.plainNull_of_value? rfl⟩
  next => cases h

/-! ## 5. Operators -/

/-- A chosen operator joins operands of the types for which it was chosen. -/
theorem typedBinary?_joins {o : TypeOrder} {op : Syntax.BinaryOperator} {a b : HostType}
    {chosen : BinaryOp} {left right : Term} (ha : left.type? = some a)
    (h : typedBinary? o op a b = some chosen) :
    ∃ type, Term.joined chosen left right = .binary chosen left right type ∧
      chosen.Joins a b type := by
  refine ⟨_, rfl, ?_⟩
  unfold typedBinary? at h
  simp only [ha, Option.some_or, Option.getD_some]
  cases op <;> dsimp only at h
  case caret =>
    split at h
    · next hbool =>
      cases h
      simpa [BinaryOp.Joins, BinaryOp.yieldsBool, BinaryOp.isLogical] using hbool
    · split at h <;> cases h
      next hnumber =>
      simp only [Bool.and_eq_true, beq_iff_eq] at hnumber
      exact ⟨rfl, hnumber.1.symm, hnumber.2⟩
  all_goals
    split at h <;> cases h
    next hallowed =>
      simp only [Bool.and_eq_true, Bool.or_eq_true, beq_iff_eq] at hallowed
      simp [BinaryOp.Joins, BinaryOp.yieldsBool, BinaryOp.isRelational, BinaryOp.isEquality,
        BinaryOp.isLogical]
      first
        | done
        | exact hallowed
        | exact ⟨hallowed.1.symm, hallowed.2⟩
        | exact hallowed.imp id id
        | grind

theorem binaryOf_sound {op : Syntax.BinaryOperator} {left right : Term × HostType} {t : Term}
    (hl : WellTyped Fits scope left.1) (hr : WellTyped Fits scope right.1)
    (tl : left.1.type? = some left.2) (tr : right.1.type? = some right.2)
    (h : s.binaryOf op left right span = .ok t) : WellTyped Fits scope t ∧ t.PlainNull := by
  unfold Surface.binaryOf at h
  extract_lets order a b leftType rightType at h
  have ha : a.type? = some leftType := by
    rcases Term.type?_coerce tl order right.2 with he | he <;> simp [a, leftType, he]
  have hb : b.type? = some rightType := by
    rcases Term.type?_coerce tr order left.2 with he | he <;> simp [b, rightType, he]
  split at h
  next chosen hchosen =>
    cases h
    obtain ⟨type, he, hjoins⟩ := typedBinary?_joins ha hchosen
    rw [he]
    exact ⟨.binary (hl.converts (Term.converts_coerce _ _ _))
      (hr.converts (Term.converts_coerce _ _ _)) ha hb hjoins, Term.plainNull_of_value? rfl⟩
  next => cases h

theorem typedUnary?_applies {op : Syntax.UnaryOperator} {t : HostType} {chosen : UnaryOp}
    (h : typedUnary? op t = some chosen) : chosen.Applies t := by
  unfold typedUnary? at h
  cases op
  all_goals
    dsimp only at h
    split at h <;> cases h
    assumption

/-! ## 6. Items and parameters -/

/-- An accepted item is the written one, or what the declared type makes of it, and has the type of the
items before it, if there are any. -/
theorem itemOf_eq_ok {declared element : Option HostType} {item result : Term × HostType}
    (h : s.itemOf declared element item span = .ok result) :
    (result = item ∨ ∃ target, declared = some target ∧ result =
      (item.1.coerce s.host.toTypeOrder target,
        (item.1.coerce s.host.toTypeOrder target).type?.getD item.2)) ∧
      ∀ t, element = some t → result.2 = t := by
  unfold Surface.itemOf at h
  cases element with
  | none =>
    refine ⟨?_, nofun⟩
    cases declared with
    | none => exact .inl (Except.ok.inj h).symm
    | some target =>
      by_cases hsame : target = item.2
      · simp only [hsame, ↓reduceIte] at h
        exact .inl (Except.ok.inj h).symm
      · simp only [hsame, ↓reduceIte] at h
        exact .inr ⟨target, rfl, (Except.ok.inj h).symm⟩
  | some expected =>
    cases declared with
    | none =>
      dsimp only at h
      split at h
      next he =>
        cases h
        exact ⟨.inl rfl, fun t ht => he.symm.trans (Option.some.inj ht)⟩
      next => cases h
    | some target =>
      by_cases hsame : target = item.2
      · simp only [hsame, ↓reduceIte] at h
        split at h
        next he =>
          cases h
          exact ⟨.inl rfl, fun t ht => he.symm.trans (Option.some.inj ht)⟩
        next => cases h
      · simp only [hsame, ↓reduceIte] at h
        split at h
        next he =>
          cases h
          exact ⟨.inr ⟨target, rfl, rfl⟩, fun t ht => he.symm.trans (Option.some.inj ht)⟩
        next => cases h

/-- An accepted item is well typed, of a type that is known; it is the type of the items before it,
if there are any. -/
theorem itemOf_sound {declared element : Option HostType} {item result : Term × HostType}
    (hw : WellTyped Fits scope item.1) (ht : item.1.type? = some item.2)
    (h : s.itemOf declared element item span = .ok result) :
    WellTyped Fits scope result.1 ∧ result.1.type? = some result.2 ∧
      ∀ t, element = some t → result.2 = t := by
  obtain ⟨rfl | ⟨target, -, rfl⟩, hsame⟩ := itemOf_eq_ok h
  · exact ⟨hw, ht, hsame⟩
  · refine ⟨hw.converts (Term.converts_coerce _ _ _), ?_, hsame⟩
    rcases Term.type?_coerce ht s.host.toTypeOrder target with he | he <;> simp [he]

/-- Declared parameters have names of their own, in the lambda and next to those around it. -/
theorem declare_nodup {declared : List Param} {written : List (Syntax.Parameter × Option HostType)}
    (hn : (scope.map (·.name)).Nodup) (h : s.declare scope written = .ok declared) :
    ((scope ++ declared).map (·.name)).Nodup := by
  induction written generalizing scope declared with
  | nil =>
    cases h
    simpa using hn
  | cons p written ih =>
    obtain ⟨p, expected⟩ := p
    simp only [Surface.declare] at h
    split at h
    · obtain ⟨_, hthrow, _⟩ := bind_eq_ok.mp h
      exact absurd hthrow throw_ne_ok
    rename_i hnew
    obtain ⟨type, _, h⟩ := bind_eq_ok.mp h
    obtain ⟨rest, hrest, h⟩ := bind_eq_ok.mp h
    cases h
    have hn' : ((scope ++ [(⟨p.name.text, type⟩ : Param)]).map (·.name)).Nodup := by
      simp only [List.map_append, List.map_cons, List.map_nil]
      rw [List.nodup_append]
      refine ⟨hn, by simp, ?_⟩
      rintro a ha b hb rfl
      obtain ⟨q, hq, rfl⟩ := List.mem_map.mp ha
      refine hnew (List.any_eq_true.mpr ⟨q, hq, ?_⟩)
      simpa using hb
    simpa using ih hn' hrest

theorem declare_top_nodup {declared : List Param}
    {written : List (Syntax.Parameter × Option HostType)} (h : s.declare [] written = .ok declared) :
    (declared.map (·.name)).Nodup := by
  have hnil : (([] : List Param).map (·.name)).Nodup := List.nodup_nil
  exact declare_nodup hnil h

end FatArrow
