import FatArrow.Proofs.Typing.Rebuilding

/-!
# Lambdas that are rebuilt

By induction over the syntax, whatever an expression is resolved to is read again where it is printed,
if it names no type and its constants read back.  So a lambda of the types of a host can be read where
it is printed, and what mirrors it is elaborated to the same lambda.
-/

namespace FatArrow

open Syntax (Node TypeNode)

namespace Surface

variable {s : Surface} {B : HostType → Prop} {scope : List Param} {t : Term} {type : HostType}
  {span : Span}

/-! ## 1. Operators -/

theorem binaryOf_rebuilt (hs : s.Rebuilds B) {op : Syntax.BinaryOperator}
    {left right : Term × HostType} (hl : s.OperandIfPlain B scope left.1 left.2)
    (hr : s.OperandIfPlain B scope right.1 right.2) (h : s.binaryOf op left right span = .ok t) :
    (Resolved.value t).Rebuilt s B scope none := by
  unfold binaryOf at h
  extract_lets order a b leftType rightType at h
  split at h
  next chosen hop =>
    cases h
    intro hplain
    obtain ⟨hplainLeft, hplainRight⟩ := List.forall_mem_cons.mp (Term.throughout_iff.mp hplain).2
    have hl := hl ((left.1.retains_coerce order right.2).plain hplainLeft)
    have hr := hr ((right.1.retains_coerce order left.2).plain
      (hplainRight _ (List.mem_singleton_self _)))
    -- each operand keeps its type or has that of the other one
    have hkeeps {u : Term} {own other : HostType} (hu : u.type? = some own) (hown : B own)
        (hother : B other) : ∃ type, (u.coerce order other).type? = some type ∧ B type := by
      rcases Term.type?_coerce hu order other with he | he
      · exact ⟨own, he, hown⟩
      · exact ⟨other, he, hother⟩
    obtain ⟨typeA, hta, hbuilt⟩ := hkeeps hl.typed hl.built hr.built
    obtain ⟨typeB, htb, -⟩ := hkeeps hr.typed hr.built hl.built
    have hleft : leftType = typeA := by simp only [leftType, a, hta, Option.getD_some]
    have hright : rightType = typeB := by simp only [rightType, b, htb, Option.getD_some]
    rw [hleft, hright] at hop
    refine ⟨_, operand_of_value? rfl rfl ?_ fun hback => ?_⟩
    · rw [if_neg (written_of_typedBinary? hop).2]
      split
      · exact hs.primitive nofun
      · rw [show a.type? = some typeA from hta]
        exact hbuilt
    · obtain ⟨hbackLeft, hbackRight⟩ := List.forall_mem_cons.mp (Term.throughout_iff.mp hback).2
      obtain ⟨ta, tb, hreadA, hreadB, hsameA, hsameB⟩ :=
        Term.coerce_pair hs.shaped hl.built hr.built hl.read hr.read hl.typed hr.typed
      exact rereads_binary (rereads_coerce hs.shaped hl hr.built (hs.reads hr.built) hbackLeft)
        (rereads_coerce hs.shaped hr hl.built (hs.reads hl.built)
          (hbackRight _ (List.mem_singleton_self _)))
        hreadA hreadB hsameA hsameB hta htb hop
  next => cases h

theorem applied_rebuilt (hs : s.Rebuilds B) {op : Syntax.UnaryOperator} {chosen : UnaryOp}
    (ht : s.OperandIfPlain B scope t type) (hop : typedUnary? op type = some chosen) :
    (Resolved.value (.applied chosen t)).Rebuilt s B scope none := by
  intro hplain
  have ht := ht ((Term.throughout_iff.mp hplain).2 t (List.mem_singleton_self t))
  refine ⟨_, operand_of_value? rfl rfl ?_ fun hback => ?_⟩
  · rw [ht.typed]
    split
    · exact hs.primitive nofun
    · split
      · exact hs.primitive nofun
      · exact ht.built
    · exact ht.built
  · have hback := (Term.throughout_iff.mp hback).2 t (List.mem_singleton_self t)
    exact rereads_unary (ht.rereads hback) ht.read ht.typed hop

theorem cond_rebuilt {a b : Term} {typeA typeB : HostType} (ht : s.OperandIfPlain B scope t type)
    (ha : s.OperandIfPlain B scope a typeA) (hb : s.OperandIfPlain B scope b typeB)
    (hbool : type.isBoolean = true) : (Resolved.value (.cond t a b)).Rebuilt s B scope none := by
  intro hplain
  obtain ⟨hplainTest, hplain⟩ := List.forall_mem_cons.mp (Term.throughout_iff.mp hplain).2
  obtain ⟨hplainTrue, hplain⟩ := List.forall_mem_cons.mp hplain
  have ht := ht hplainTest
  have ha := ha hplainTrue
  have hb := hb (hplain b (List.mem_singleton_self b))
  refine ⟨typeA, operand_of_value? rfl ha.typed ha.built fun hback => ?_⟩
  obtain ⟨hbackTest, hback⟩ := List.forall_mem_cons.mp (Term.throughout_iff.mp hback).2
  obtain ⟨hbackTrue, hback⟩ := List.forall_mem_cons.mp hback
  exact rereads_cond (ht.rereads hbackTest) (ha.rereads hbackTrue)
    (hb.rereads (hback b (List.mem_singleton_self b))) ht.toIsOperand ha.toIsOperand hb.toIsOperand
    hbool

theorem cast_rebuilt (hs : s.Rebuilds B) {target : HostType} (ht : s.OperandIfPlain B scope t type)
    (hb : B target) (hcast : s.host.castable type target = true) :
    (Resolved.value (.cast t target)).Rebuilt s B scope none := by
  intro hplain
  have ht := ht ((Term.throughout_iff.mp hplain).2 t (List.mem_singleton_self t))
  refine ⟨target, operand_of_value? rfl rfl hb fun hback => ?_⟩
  have hback := (Term.throughout_iff.mp hback).2 t (List.mem_singleton_self t)
  exact rereads_cast (ht.rereads hback) ht.read ht.typed (hs.reads hb) hcast

/-! ## 2. Items -/

/-- An item of an array: it is read again, and what is read of it is brought to its type again. -/
structure Item (s : Surface) (B : HostType → Prop) (scope : List Param) (t : Term)
    (type : HostType) : Prop where
  typed : t.type? = some type
  built : B type
  again : ∃ found, t.asRead.type? = some found ∧ t.asRead.coerce s.host.toTypeOrder type = t
  rereads : t.Throughout Term.ReadsBack → s.Rereads scope t

theorem Operand.toItem (h : s.Operand B scope t type) : s.Item B scope t type where
  typed := h.typed
  built := h.built
  again := ⟨type, by rw [h.read, h.typed], by rw [h.read, Term.coerce_self h.typed]⟩
  rereads := h.rereads

theorem itemOf_rebuilt (hs : s.Rebuilds B) {declared element : Option HostType}
    {item result : Term × HostType} (hd : ∀ type, declared = some type → B type)
    (hitem : s.OperandIfPlain B scope item.1 item.2)
    (h : s.itemOf declared element item span = .ok result) (hplain : result.1.Throughout Term.IsPlain) :
    s.Item B scope result.1 result.2 := by
  obtain ⟨rfl | ⟨target, hdeclared, rfl⟩, -⟩ := itemOf_eq_ok h
  · exact (hitem hplain).toItem
  have hitem := hitem ((item.1.retains_coerce _ target).plain hplain)
  have hb := hd target hdeclared
  have hagain := Term.coerce_asRead hs.shaped hb hitem.read hitem.typed
  have hrereads := rereads_coerce hs.shaped hitem hb (hs.reads hb)
  -- it keeps its type, or it has the declared one
  rcases Term.coerce_cases (o := s.host.toTypeOrder) (c := target) hitem.typed with he |
    ⟨-, ⟨-, he⟩ | ⟨hnull, -, -, he⟩⟩
  · simp only [he, hitem.typed, Option.getD_some]
    exact hitem.toItem
  · rw [he] at hagain hrereads ⊢
    exact ⟨rfl, hb, ⟨_, rfl, hagain⟩, hrereads⟩
  · rw [he] at hagain hrereads ⊢
    have htype := Term.type?_convert hitem.typed target
    have hfound : ∃ found, (item.1.convert target).asRead.type? = some found := by
      obtain ⟨-, -, ⟨hread, htype⟩ | ⟨-, -, htype⟩⟩ :=
        Term.asRead_convert hs.shaped hb hitem.read hitem.typed hnull
      · exact ⟨target, hread.symm ▸ htype⟩
      · exact ⟨_, htype⟩
    obtain ⟨found, hfound⟩ := hfound
    simp only [htype, Option.getD_some]
    exact ⟨htype, hb, ⟨found, hfound, hagain⟩, hrereads⟩

theorem newArray_rebuilt (hs : s.Rebuilds B) {items : List Term} {element : HostType}
    (hitems : ∀ i ∈ items, i.Throughout Term.IsPlain → ∃ type, s.Item B scope i type)
    (htypes : ∀ i ∈ items, i.type? = some element) (hb : items = [] → B element) :
    (Resolved.value (.newArray element items)).Rebuilt s B scope none := by
  intro hplain
  have hitems : ∀ i ∈ items, s.Item B scope i element := by
    intro i hi
    obtain ⟨type, hitem⟩ := hitems i hi ((Term.throughout_iff.mp hplain).2 i hi)
    cases hitem.typed.symm.trans (htypes i hi)
    exact hitem
  have hbuilt : B element := by
    cases items with
    | nil => exact hb rfl
    | cons i items => exact (hitems i List.mem_cons_self).built
  refine ⟨.arrayOf element, operand_of_value? rfl rfl (hs.arrayOf hbuilt) fun hback => ?_⟩
  exact rereads_array (hs.reads hbuilt)
    (fun i hi => (hitems i hi).rereads ((Term.throughout_iff.mp hback).2 i hi))
    fun i hi => ⟨(hitems i hi).typed, (hitems i hi).again⟩

/-! ## 3. Expressions -/

/-- The type arguments on a callee that was read have names that are names. -/
theorem named_calleeTypeArgs {callee : Node} (h : callee.Named) :
    ∀ node ∈ calleeTypeArgs callee, node.Named := by
  have hbare := h.bare
  unfold calleeTypeArgs
  split
  next he =>
    rw [he] at hbare
    cases hbare with
    | mk htypes _ => exact htypes
  next he =>
    rw [he] at hbare
    cases hbare with
    | mk htypes _ => exact htypes
  next => exact List.forall_mem_nil _

mutual

/-- Whatever an expression is resolved to is read again, if it names no type. -/
theorem resolve_rebuilt (hs : s.Rebuilds B) (hd : Declares B scope) {site : Option CallSite}
    {r : Resolved} (node : Node) (hr : node.IsRead) (h : s.resolve scope site node = .ok r) :
    r.Rebuilt s B scope site := by
  cases node with
  | literal value span =>
    obtain ⟨t, ht, h⟩ := bind_eq_ok.mp h
    cases h
    obtain ⟨-, hnumerals⟩ := hr
    cases hnumerals with
    | mk hvalue _ => exact fun _ => literal_rebuilt hs (hvalue value span rfl) ht
  | name id typeArgs span => exact ofName_rebuilt hs hd h
  | predefined keyword =>
    obtain ⟨_, -, h⟩ := bind_eq_ok.mp h
    cases h
    trivial
  | binary op left right span =>
    obtain ⟨a, ha, h⟩ := bind_eq_ok.mp h
    obtain ⟨a', ha', h⟩ := bind_eq_ok.mp h
    obtain ⟨b, hb, h⟩ := bind_eq_ok.mp h
    obtain ⟨b', hb', h⟩ := bind_eq_ok.mp h
    obtain ⟨t, ht, h⟩ := bind_eq_ok.mp h
    cases h
    have hl : left.IsRead := hr.part List.mem_cons_self
    have hr : right.IsRead := hr.part (List.mem_cons_of_mem _ List.mem_cons_self)
    exact binaryOf_rebuilt hs (needOperand_rebuilt (resolve_rebuilt hs hd left hl ha) ha')
      (needOperand_rebuilt (resolve_rebuilt hs hd right hr hb) hb') ht
  | unary op operand span =>
    obtain ⟨a, ha, h⟩ := bind_eq_ok.mp h
    obtain ⟨⟨t, type⟩, ht, h⟩ := bind_eq_ok.mp h
    dsimp only at h
    split at h
    next chosen hop =>
      cases h
      have hr : operand.IsRead := hr.part List.mem_cons_self
      exact applied_rebuilt hs (needOperand_rebuilt (resolve_rebuilt hs hd operand hr ha) ht) hop
    next => cases h
  | conditional test ifTrue ifFalse span =>
    obtain ⟨c, hc, h⟩ := bind_eq_ok.mp h
    obtain ⟨⟨condition, type⟩, hc', h⟩ := bind_eq_ok.mp h
    dsimp only at h
    split at h
    · cases h
    rename_i hbool
    obtain ⟨a, ha, h⟩ := bind_eq_ok.mp h
    obtain ⟨a', ha', h⟩ := bind_eq_ok.mp h
    obtain ⟨b, hb, h⟩ := bind_eq_ok.mp h
    obtain ⟨b', hb', h⟩ := bind_eq_ok.mp h
    cases h
    have hparts : ∀ n ∈ [test, ifTrue, ifFalse], n.IsRead := fun n hn => hr.part hn
    simp only [List.forall_mem_cons] at hparts
    obtain ⟨htest, htrue, hfalse, -⟩ := hparts
    exact cond_rebuilt (needOperand_rebuilt (resolve_rebuilt hs hd test htest hc) hc')
      (needOperand_rebuilt (resolve_rebuilt hs hd ifTrue htrue ha) ha')
      (needOperand_rebuilt (resolve_rebuilt hs hd ifFalse hfalse hb) hb') (by simpa using hbool)
  | call callee args span =>
    obtain ⟨terms, hterms, h⟩ := bind_eq_ok.mp h
    obtain ⟨typeArgs, htypeArgs, h⟩ := bind_eq_ok.mp h
    obtain ⟨found, hfound, h⟩ := bind_eq_ok.mp h
    obtain ⟨t, ht, h⟩ := bind_eq_ok.mp h
    cases h
    obtain ⟨hcallee, hargs⟩ : callee.IsRead ∧ ∀ n ∈ args, n.IsRead :=
      List.forall_mem_cons.mp fun n hn => hr.part hn
    have hbuilt : ∀ type ∈ typeArgs, B type :=
      forall_mem_typesOf (fun node hin type => hs.written (named_calleeTypeArgs hcallee.named node hin))
        htypeArgs
    exact callOf_rebuilt hs (resolve_rebuilt hs hd callee hcallee hfound) hbuilt
      (arguments_rebuilt hs hd args hargs hterms) ht
  | index object args span =>
    obtain ⟨a, ha, h⟩ := bind_eq_ok.mp h
    obtain ⟨⟨target, type⟩, ha', h⟩ := bind_eq_ok.mp h
    obtain ⟨terms, hterms, h⟩ := bind_eq_ok.mp h
    obtain ⟨t, ht, h⟩ := bind_eq_ok.mp h
    cases h
    obtain ⟨hobject, hargs⟩ : object.IsRead ∧ ∀ n ∈ args, n.IsRead :=
      List.forall_mem_cons.mp fun n hn => hr.part hn
    exact indexOf_rebuilt hs (needOperand_rebuilt (resolve_rebuilt hs hd object hobject ha) ha')
      (arguments_rebuilt hs hd args hargs hterms) ht
  | member object name typeArgs span =>
    obtain ⟨found, hfound, h⟩ := bind_eq_ok.mp h
    have hr : object.IsRead := hr.part List.mem_cons_self
    exact ofMember_rebuilt hs (resolve_rebuilt hs hd object hr hfound) h
  | cast written operand span =>
    obtain ⟨target, htarget, h⟩ := bind_eq_ok.mp h
    obtain ⟨a, ha, h⟩ := bind_eq_ok.mp h
    obtain ⟨⟨t, type⟩, ht, h⟩ := bind_eq_ok.mp h
    dsimp only at h
    split at h
    next hcast =>
      cases h
      have hb := hs.written (hr.type List.mem_cons_self) htarget
      have hr : operand.IsRead := hr.part List.mem_cons_self
      exact cast_rebuilt hs (needOperand_rebuilt (resolve_rebuilt hs hd operand hr ha) ht) hb hcast
    next => cases h
  | new written args span =>
    obtain ⟨type, htype, h⟩ := bind_eq_ok.mp h
    obtain ⟨terms, hterms, h⟩ := bind_eq_ok.mp h
    obtain ⟨t, ht, h⟩ := bind_eq_ok.mp h
    cases h
    have hb := hs.written (hr.type List.mem_cons_self) htype
    exact creationOf_rebuilt hs hb
      (arguments_rebuilt hs hd args (fun n hn => hr.part hn) hterms) ht
  | newArray written nodes span =>
    -- the type that is written, if one is, is the declared one
    obtain ⟨declared, terms, type, hdeclared, hterms, rfl⟩ : ∃ declared terms type,
        (∀ type, declared = some type → B type) ∧
          s.items scope declared declared nodes = .ok (terms, some type) ∧
            r = .value (.newArray type terms) := by
      cases written with
      | none =>
        obtain ⟨_, hd, h⟩ := bind_eq_ok.mp h
        cases hd
        obtain ⟨⟨terms, element⟩, hterms, h⟩ := bind_eq_ok.mp h
        cases element with
        | none => cases h
        | some type =>
          cases h
          exact ⟨none, terms, type, nofun, hterms, rfl⟩
      | some node =>
        obtain ⟨_, hd, h⟩ := bind_eq_ok.mp h
        obtain ⟨declared, hdeclared, rfl⟩ := map_eq_ok.mp hd
        obtain ⟨⟨terms, element⟩, hterms, h⟩ := bind_eq_ok.mp h
        cases element with
        | none => cases h
        | some type =>
          cases h
          refine ⟨some declared, terms, type, ?_, hterms, rfl⟩
          rintro _ ⟨⟩
          exact hs.written (hr.type List.mem_cons_self) hdeclared
    obtain ⟨-, htypes, -⟩ := items_sound s.honors_anything hd.nodup nodes hterms
    obtain ⟨hitems, hempty⟩ :=
      items_rebuilt hs hd hdeclared nodes (fun n hn => hr.part hn) hterms
    exact newArray_rebuilt hs hitems (fun i hi => htypes i hi type rfl) fun hnil =>
      hdeclared type (hempty hnil).symm
  | lambda keyword params body span =>
    obtain ⟨_, -, h⟩ := bind_eq_ok.mp h
    obtain ⟨_, -, h⟩ := bind_eq_ok.mp h
    obtain ⟨_, -, h⟩ := bind_eq_ok.mp h
    cases h
    exact fun hplain => (Term.throughout_iff.mp hplain).1.elim
  | paren inner span =>
    exact resolve_rebuilt hs hd inner (hr.part List.mem_cons_self) h

theorem arguments_rebuilt (hs : s.Rebuilds B) (hd : Declares B scope)
    {terms : List (Term × HostType)} (nodes : List Node) (hr : ∀ n ∈ nodes, n.IsRead)
    (h : s.arguments scope nodes = .ok terms) : s.OperandsIfPlain B scope terms := by
  cases nodes with
  | nil =>
    cases h
    exact List.forall_mem_nil _
  | cons node nodes =>
    simp only [Surface.arguments] at h
    split at h
    · cases h
    obtain ⟨a, ha, h⟩ := bind_eq_ok.mp h
    obtain ⟨first, hfirst, h⟩ := bind_eq_ok.mp h
    obtain ⟨rest, hrest, h⟩ := bind_eq_ok.mp h
    cases h
    obtain ⟨hnode, hnodes⟩ := List.forall_mem_cons.mp hr
    exact List.forall_mem_cons.mpr
      ⟨needOperand_rebuilt (resolve_rebuilt hs hd node hnode ha) hfirst,
        arguments_rebuilt hs hd nodes hnodes hrest⟩

/-- Without any items, the type of an array is the declared one. -/
theorem items_rebuilt (hs : s.Rebuilds B) (hd : Declares B scope)
    {declared element found : Option HostType} {terms : List Term}
    (hdeclared : ∀ type, declared = some type → B type) (nodes : List Node)
    (hr : ∀ n ∈ nodes, n.IsRead) (h : s.items scope declared element nodes = .ok (terms, found)) :
    (∀ i ∈ terms, i.Throughout Term.IsPlain → ∃ type, s.Item B scope i type) ∧
      (terms = [] → found = element) := by
  cases nodes with
  | nil =>
    cases h
    exact ⟨List.forall_mem_nil _, fun _ => rfl⟩
  | cons node nodes =>
    obtain ⟨a, ha, h⟩ := bind_eq_ok.mp h
    obtain ⟨item, hitem, h⟩ := bind_eq_ok.mp h
    obtain ⟨⟨term, type⟩, hterm, h⟩ := bind_eq_ok.mp h
    obtain ⟨⟨rest, found'⟩, hrest, h⟩ := bind_eq_ok.mp h
    cases h
    obtain ⟨hnode, hnodes⟩ := List.forall_mem_cons.mp hr
    have hoperand := needOperand_rebuilt (resolve_rebuilt hs hd node hnode ha) hitem
    refine ⟨List.forall_mem_cons.mpr ⟨fun hplain => ?_, ?_⟩, nofun⟩
    · exact ⟨type, itemOf_rebuilt hs hdeclared hoperand hterm hplain⟩
    · exact (items_rebuilt hs hd hdeclared nodes hnodes hrest).1

end

/-! ## 4. Lambdas -/

/-- A body that is brought to a type has it already, or is no null and is converted to it. -/
theorem returned_cases (hs : s.host.toTypeOrder.Shaped B) {body : Term} {expected : HostType}
    (hb : body.IsOperand B type) (he : B expected) (h : s.returned body span expected = .ok t) :
    t = body ∧ type = expected ∨ t = body.convert expected ∧ body.isNullConstant = false ∧
      s.host.assignable expected type = true := by
  unfold returned at h
  rw [hb.typed] at h
  dsimp only at h
  split at h
  next hsame =>
    cases h
    exact .inl ⟨rfl, hsame⟩
  next hne =>
    split at h
    next hfits =>
      cases h
      refine .inr ⟨rfl, hb.not_null ?_, hfits⟩
      rintro rfl
      exact hne (hs.eq_object he hb.built hfits).symm
    next => cases h

/-- A body that was brought to a type is read again, and brought to it again. -/
theorem returned_again (hs : s.Rebuilds B) {body : Term} {expected : HostType}
    (hb : s.Operand B scope body type) (he : B expected)
    (h : s.returned body span expected = .ok t) (hback : t.Throughout Term.ReadsBack)
    (other : Span) : s.Rereads scope t ∧ s.returned t.asRead other expected = .ok t := by
  rcases returned_cases hs.shaped hb.toIsOperand he h with ⟨rfl, rfl⟩ | ⟨rfl, hnull, hfits⟩
  · refine ⟨hb.rereads hback, ?_⟩
    rw [hb.read, returned, hb.typed]
    simp only [↓reduceIte]
  · refine ⟨rereads_convert hs.shaped hb he (hs.reads he) hnull hfits hback, ?_⟩
    obtain ⟨-, hagain, htype⟩ := Term.asRead_convert hs.shaped he hb.read hb.typed hnull
    rcases htype with ⟨hread, htype⟩ | ⟨hn, -, htype⟩
    · rw [hread, returned, htype]
      simp only [↓reduceIte]
    · have hne : expected.underlying ≠ expected := fun he => by
        rw [← he] at hn
        cases hn
      rw [returned, htype]
      simp only [hne, s.host.toTypeOrder.assignable_underlying, hagain, ↓reduceIte]

theorem closes_again (hs : s.Rebuilds B) {body : Term} {returns : Option HostType}
    (hb : s.OperandIfPlain B scope body type) (hreturns : ∀ expected, returns = some expected → B expected)
    (h : s.Closes returns body t span) (hplain : t.Throughout Term.IsPlain)
    (hback : t.Throughout Term.ReadsBack) (other : Span) :
    s.Rereads scope t ∧ s.Closes returns t.asRead t other := by
  rcases h with ⟨hnone, rfl⟩ | ⟨expected, hsome, h⟩
  · have hb := hb hplain
    exact ⟨hb.rereads hback, .inl ⟨hnone, hb.read.symm⟩⟩
  · have hretains : body.Retains t := by
      unfold returned at h
      split at h
      · split at h
        · cases h
          exact .kept _
        · split at h <;> cases h
          exact body.retains_convert expected
      · cases h
    obtain ⟨hrereads, hagain⟩ :=
      returned_again hs (hb (hretains.plain hplain)) (hreturns expected hsome) h hback other
    exact ⟨hrereads, .inr ⟨expected, hsome, hagain⟩⟩

/-- A lambda of a shape of the types of the host can be read where it is printed, and what mirrors it
is elaborated to the same lambda, if its body names no type and its constants read back. -/
theorem elaborate_rebuilt (hs : s.Rebuilds B) {shape : LambdaShape} {text : String}
    {written : Syntax.Lambda} {f : Function} (hparams : ∀ type ∈ shape.params, B type)
    (hreturns : ∀ type, shape.returns = some type → B type)
    (hread : Syntax.parseLambda text = .ok written) (h : s.elaborate (some shape) written = .ok f)
    (hplain : f.body.Throughout Term.IsPlain) (hback : f.body.Throughout Term.ReadsBack) :
    f.Legible s.namespaces ∧
      ∀ other, f.Mirrors s.namespaces other → s.elaborate (some shape) other = .ok f := by
  obtain ⟨found, body, hn, htypes, hfound, hvalue, hcloses⟩ := elaborate_eq_ok h
  have hshape : f.params.map (·.type) = shape.params := htypes shape rfl
  have hd : Declares B f.params := by
    refine ⟨hn, fun p hp => ?_, fun p hp => hparams _ (hshape ▸ List.mem_map_of_mem hp)⟩
    obtain ⟨w, hw, hname⟩ := elaborate_names h p hp
    rw [← hname]
    exact Syntax.parseLambda_names hread w hw
  rw [Resolved.needValue_eq_ok hvalue] at hfound
  have hbody := resolve_rebuilt hs hd written.body (Syntax.parseLambda_isRead hread) hfound
  obtain ⟨type, hoperand⟩ : ∃ type, s.OperandIfPlain B f.params body type := by
    by_cases hplain : body.Throughout Term.IsPlain
    · obtain ⟨type, hoperand⟩ := hbody hplain
      exact ⟨type, fun _ => hoperand⟩
    · exact ⟨.object, fun h => absurd h hplain⟩
  have hagain := closes_again hs hoperand hreturns hcloses hplain hback
  refine ⟨⟨hd.names, (hagain written.body.span).1.legible⟩, ?_⟩
  rintro other ⟨hmirrors, hbodyMirrors⟩
  obtain ⟨hrereads, hcloses⟩ := hagain other.body.span
  refine elaborate_of_parts ?_ ?_ (hrereads.again other.body hbodyMirrors) hcloses
  · rw [← hshape, List.length_map]
    exact hmirrors.length_eq
  · rw [← hshape]
    exact declare_mirrors hn hmirrors

end Surface

end FatArrow
