import FatArrow.Proofs.Tree.Nodes
import FatArrow.Proofs.Typing.Constant
import FatArrow.Proofs.Typing.Reference
import FatArrow.Proofs.Typing.Reselection

/-!
# Terms that are read again

A term is read again if it can be read where it is printed, and if what mirrors it resolves to the term
as it is read.  Each kind of term is read again where its parts are, and where the operands that are
read are brought to the same types again, and the same operators and methods are chosen for them.
-/

namespace FatArrow

open Syntax (Node TypeNode)

/-- A constant that reads back. -/
def Term.ReadsBack : Term → Prop
  | .const value _ => value.ReadsBack
  | _ => True

instance : DecidablePred Term.ReadsBack
  | .const value _ => inferInstanceAs (Decidable value.ReadsBack)
  | .param _ | .lambda _ _ | .member _ _ | .staticMember _ | .call _ _ _ | .staticCall _ _
  | .binary _ _ _ _ | .unary _ _ _ | .cond _ _ _ | .new _ _ | .array _ _ _ | .cast _ _
  | .index _ _ _ => .isTrue trivial

namespace Surface

/-- A term can be read where it is printed, and what mirrors it resolves to what is read of it. -/
structure Rereads (s : Surface) (scope : List Param) (t : Term) : Prop where
  legible : t.Legible s.namespaces
  again : ∀ node, t.Mirrors s.namespaces node → s.resolve scope none node = .ok (.value t.asRead)

/-- An operand that is read again, if its constants read back. -/
structure Operand (s : Surface) (B : HostType → Prop) (scope : List Param) (t : Term)
    (type : HostType) : Prop extends t.IsOperand B type where
  spelled : t.Spelled
  rereads : t.Throughout Term.ReadsBack → s.Rereads scope t

variable {s : Surface} {B : HostType → Prop} {scope : List Param} {t u : Term}
  {type target : HostType} {node : Node}

/-! ## 1. Values -/

theorem needOperand_value (ht : t.type? = some type) (span : Span) :
    (Resolved.value t).needOperand span = .ok (t, type) := by
  simp only [Resolved.needOperand, Resolved.needValue, bind, Except.bind, ht]
  rfl

/-- What mirrors a term is no lambda. -/
theorem isLambdaNode_of_mirrors {ns : Namespaces} (h : t.Mirrors ns node) :
    isLambdaNode node = false := by
  have hbare (other : Node) (he : node.bare = other)
      (hne : ∀ keyword params body span, other ≠ .lambda keyword params body span) :
      isLambdaNode node = false := by
    rw [isLambdaNode, he]
    split
    next keyword params body span => exact absurd rfl (hne keyword params body span)
    next => rfl
  cases t with
  | lambda => exact h.elim
  | const value type =>
    have h : value.Mirrors ns node := h
    unfold Value.Mirrors at h
    split at h
    · obtain ⟨l, span, he, -⟩ := h
      exact hbare _ he (by simp)
    · obtain ⟨written, inner, l, span, span', he, -⟩ := h
      exact hbare _ he (by simp)
  | binary op left right type =>
    unfold Term.Mirrors at h
    split at h
    · obtain ⟨object, index, span, he, -⟩ := h
      exact hbare _ he (by simp)
    · obtain ⟨first, second, span, he, -⟩ := h
      exact hbare _ he (by simp)
  | unary op operand type =>
    rcases h with ⟨operator, inner, span, -, he, -⟩ | ⟨object, name, span, -, he, -⟩
    · exact hbare _ he (by simp)
    · exact hbare _ he (by simp)
  | param =>
    obtain ⟨_, _, he, -⟩ := h
    exact hbare _ he (by simp)
  | staticMember | member | cast | new | array | index =>
    obtain ⟨_, _, _, he, -⟩ := h
    exact hbare _ he (by simp)
  | call | cond =>
    obtain ⟨_, _, _, _, he, -⟩ := h
    exact hbare _ he (by simp)
  | staticCall m args =>
    obtain ⟨callee, nodes, span, he, -⟩ := h
    exact hbare _ he (by simp)

theorem rereads_param {p : Param} (hn : (scope.map (·.name)).Nodup) (hp : p ∈ scope)
    (hname : Syntax.isName p.name = true) : s.Rereads scope (.param p) where
  legible := hname
  again _ := resolve_param hn hp

/-- A constant that is spelled and reads back is read with the type of its literal. -/
theorem rereads_const {v : Value} (h : v.IsSpelled) (hr : v.ReadsBack) (type : HostType) :
    s.Rereads scope (.const v type) where
  legible := h.legible hr
  again node hm := by
    have hm : v.Mirrors s.namespaces node := hm
    unfold Value.Mirrors at hm
    rw [h.narrow?] at hm
    obtain ⟨l, span, hbare, hl⟩ := hm
    rw [resolve_bare, hbare, resolve, h.literalTerm_eq hr hl]
    rfl

theorem rereads_null (type : HostType) : s.Rereads scope (.null type) :=
  rereads_const (v := .null) trivial trivial type

/-! ## 2. Conversions -/

theorem rereads_cast (h : s.Rereads scope t) (hread : t.asRead = t) (ht : t.type? = some type)
    (htarget : s.ReadsType target) (hcast : s.host.castable type target = true) :
    s.Rereads scope (.cast t target) where
  legible := ⟨htarget.legible, h.legible⟩
  again node hm := by
    obtain ⟨written, inner, span, hbare, hwritten, hinner⟩ := hm
    rw [resolve_bare, hbare, resolve, htarget.again _ hwritten, h.again _ hinner, hread]
    simp only [bind, Except.bind, needOperand_value ht, hcast, ↓reduceIte]
    rfl

theorem rereads_convert (hs : s.host.toTypeOrder.Shaped B) (h : s.Operand B scope t type)
    (hb : B target) (htarget : s.ReadsType target) (hnull : t.isNullConstant = false)
    (hfits : s.host.assignable target type = true)
    (hback : (t.convert target).Throughout Term.ReadsBack) : s.Rereads scope (t.convert target) := by
  have hspelled := h.spelled.convert hs h.toIsOperand hb hnull hfits
  rcases Term.convert_cases h.read h.typed hnull (c := target) with ⟨he, -⟩ | he |
    ⟨v, w, from_, kind, rfl, -, -, he, -⟩
  · rw [he] at hback ⊢
    exact h.rereads hback
  · rw [he] at hback ⊢
    obtain ⟨-, hinside⟩ := Term.throughout_iff.mp hback
    refine rereads_cast (h.rereads (hinside t (List.mem_singleton_self t))) h.read h.typed htarget ?_
    rw [TypeOrder.castable, hfits]
    rfl
  · rw [he] at hback hspelled ⊢
    exact rereads_const (hspelled w target rfl) (Term.throughout_iff.mp hback).1 target

theorem rereads_coerce (hs : s.host.toTypeOrder.Shaped B) (h : s.Operand B scope t type)
    (hb : B target) (htarget : s.ReadsType target)
    (hback : (t.coerce s.host.toTypeOrder target).Throughout Term.ReadsBack) :
    s.Rereads scope (t.coerce s.host.toTypeOrder target) := by
  rcases Term.coerce_cases (o := s.host.toTypeOrder) (c := target) h.typed with he |
    ⟨-, ⟨-, he⟩ | ⟨hnull, -, hfits, he⟩⟩
  · rw [he] at hback ⊢
    exact h.rereads hback
  · rw [he]
    exact rereads_null target
  · rw [he] at hback ⊢
    exact rereads_convert hs h hb htarget hnull hfits hback

theorem rereads_asArgument (hs : s.host.toTypeOrder.Shaped B) (h : s.Operand B scope t type)
    (hb : B target) (htarget : s.ReadsType target) (hfits : s.host.assignable target type = true)
    (hback : (t.asArgument target).Throughout Term.ReadsBack) :
    s.Rereads scope (t.asArgument target) := by
  unfold Term.asArgument at hback ⊢
  rw [h.typed] at hback ⊢
  dsimp only at hback ⊢
  -- case by case as the argument is brought to its type
  split at hback
  next hsame =>
    rw [if_pos hsame]
    exact h.rereads hback
  next hsame =>
    rw [if_neg hsame]
    split at hback
    next hnull =>
      rw [if_pos hnull]
      split
      · exact rereads_null target
      next hadmits =>
        rw [if_neg hadmits] at hback
        exact h.rereads hback
    next hnull =>
      rw [if_neg hnull]
      split at hback
      next hv =>
        rw [if_pos hv]
        exact rereads_convert hs h hb htarget (Bool.not_eq_true _ ▸ hnull) hfits hback
      next hv =>
        rw [if_neg hv]
        exact h.rereads hback

/-! ## 3. Operators -/

/-- A typed operator is written as the one that it was chosen for, and is no element access. -/
theorem written_of_typedBinary? {o : TypeOrder} {op : Syntax.BinaryOperator} {a b : HostType}
    {chosen : BinaryOp} (h : typedBinary? o op a b = some chosen) :
    chosen.written = op ∧ chosen ≠ .arrayIndex := by
  unfold typedBinary? at h
  cases op <;> dsimp only at h
  case caret =>
    split at h
    · cases h
      exact ⟨rfl, nofun⟩
    · split at h <;> cases h
      exact ⟨rfl, nofun⟩
  all_goals
    split at h <;> cases h
    exact ⟨rfl, nofun⟩

theorem written?_of_typedUnary? {op : Syntax.UnaryOperator} {chosen : UnaryOp}
    (h : typedUnary? op type = some chosen) : chosen.written? = some op := by
  unfold typedUnary? at h
  cases op
  all_goals
    dsimp only at h
    split at h <;> cases h
    rfl

theorem rereads_binary {a b : Term} {ta tb left right : HostType} {op : Syntax.BinaryOperator}
    {chosen : BinaryOp} (ha : s.Rereads scope a) (hb : s.Rereads scope b)
    (hta : a.asRead.type? = some ta) (htb : b.asRead.type? = some tb)
    (hca : a.asRead.coerce s.host.toTypeOrder tb = a)
    (hcb : b.asRead.coerce s.host.toTypeOrder ta = b) (hleft : a.type? = some left)
    (hright : b.type? = some right)
    (hop : typedBinary? s.host.toTypeOrder op left right = some chosen) :
    s.Rereads scope (.joined chosen a b) where
  legible := ⟨ha.legible, hb.legible⟩
  again node hm := by
    obtain ⟨hwritten, hne⟩ := written_of_typedBinary? hop
    unfold Term.joined Term.Mirrors at hm
    rw [if_neg hne, hwritten] at hm
    obtain ⟨first, second, span, hbare, hfirst, hsecond⟩ := hm
    rw [resolve_bare, hbare, resolve, ha.again _ hfirst, hb.again _ hsecond]
    simp only [bind, Except.bind, needOperand_value hta, needOperand_value htb, binaryOf, hca, hcb,
      hleft, hright, Option.getD_some, hop]
    rfl

theorem rereads_unary {op : Syntax.UnaryOperator} {chosen : UnaryOp} (h : s.Rereads scope t)
    (hread : t.asRead = t) (ht : t.type? = some type) (hop : typedUnary? op type = some chosen) :
    s.Rereads scope (.applied chosen t) where
  legible := by
    have hwritten := written?_of_typedUnary? hop
    refine ⟨?_, ?_, h.legible⟩ <;> rintro rfl <;> cases hwritten
  again node hm := by
    have hwritten := written?_of_typedUnary? hop
    rcases hm with ⟨operator, inner, span, hoperator, hbare, hinner⟩ | ⟨_, _, _, rfl, -⟩
    · cases hwritten.symm.trans hoperator
      rw [resolve_bare, hbare, resolve, h.again _ hinner, hread]
      simp only [bind, Except.bind, needOperand_value ht, hop]
      rfl
    · cases hwritten

theorem rereads_cond {test ifTrue ifFalse : Term} {ttest ttrue tfalse : HostType}
    (htest : s.Rereads scope test) (htrue : s.Rereads scope ifTrue)
    (hfalse : s.Rereads scope ifFalse) (ht : test.IsOperand B ttest)
    (ha : ifTrue.IsOperand B ttrue) (hb : ifFalse.IsOperand B tfalse)
    (hbool : ttest.isBoolean = true) : s.Rereads scope (.cond test ifTrue ifFalse) where
  legible := ⟨htest.legible, htrue.legible, hfalse.legible⟩
  again node hm := by
    obtain ⟨condition, first, second, span, hbare, hcondition, hfirst, hsecond⟩ := hm
    rw [resolve_bare, hbare, resolve, htest.again _ hcondition, htrue.again _ hfirst,
      hfalse.again _ hsecond, ht.read, ha.read, hb.read]
    simp only [bind, Except.bind, needOperand_value ht.typed, needOperand_value ha.typed,
      needOperand_value hb.typed, hbool]
    rfl

/-! ## 4. Members -/

theorem rereads_length (h : s.Rereads scope t) (hread : t.asRead = t) (ht : t.type? = some type)
    (harray : type.isArray = true) : s.Rereads scope (.applied .arrayLength t) where
  legible := ⟨nofun, nofun, h.legible⟩
  again node hm := by
    rcases hm with ⟨_, _, _, hnone, -⟩ | ⟨object, name, span, -, hbare, hname, hobject⟩
    · cases hnone
    · rw [resolve_bare, hbare, resolve, h.again _ hobject, hread]
      show s.ofValue none t name object.span span = _
      rw [ofValue, ht, hname]
      simp only [harray, beq_self_eq_true, Bool.and_self, ↓reduceIte]
      rfl

theorem rereads_member {m : Member} (h : s.Rereads scope t) (hread : t.asRead = t)
    (ht : t.type? = some type) (hname : Syntax.isName m.name = true)
    (hlength : (type.isArray && m.name == "Length") = false) (hm : s.member? type m.name = some m)
    (hinstance : m.isStatic = false) : s.Rereads scope (.member t m) where
  legible := ⟨h.legible, hname⟩
  again node hmirrors := by
    obtain ⟨object, name, span, hbare, hname, hobject⟩ := hmirrors
    rw [resolve_bare, hbare, resolve, h.again _ hobject, hread]
    show s.ofValue none t name object.span span = _
    rw [ofValue, ht, hname]
    simp only [hlength, hm, hinstance, Bool.false_eq_true, ↓reduceIte]
    rfl

/-! ## 5. Arguments -/

/-- Terms with their types are what is read of some others. -/
def ReadsAll (ts : List Term) (again : List (Term × HostType)) : Prop :=
  again.map (·.1) = ts.map Term.asRead ∧ ∀ a ∈ again, a.1.type? = some a.2

theorem arguments_again {ts : List Term} {again : List (Term × HostType)} {nodes : List Node}
    (h : ∀ t ∈ ts, s.Rereads scope t) (hr : ReadsAll ts again)
    (hm : List.Forall₂ (Term.Mirrors s.namespaces) ts nodes) :
    s.arguments scope nodes = .ok again := by
  obtain ⟨hterms, htyped⟩ := hr
  induction hm generalizing again with
  | nil =>
    rw [List.map_nil, List.map_eq_nil_iff] at hterms
    rw [hterms]
    rfl
  | @cons t node ts nodes hfirst _ ih =>
    obtain ⟨ht, hts⟩ := List.forall_mem_cons.mp h
    cases again with
    | nil => cases hterms
    | cons a again =>
      obtain ⟨hhead, htail⟩ := List.cons.inj hterms
      obtain ⟨ha, hagain⟩ := List.forall_mem_cons.mp htyped
      have hhead : a.1 = t.asRead := hhead
      rw [hhead] at ha
      have hpair : (t.asRead, a.2) = a := by rw [← hhead]
      simp only [arguments, isLambdaNode_of_mirrors hfirst, Bool.false_eq_true, ↓reduceIte,
        ht.again _ hfirst, bind, Except.bind, needOperand_value ha, ih hts htail hagain, hpair]
      rfl

/-- Items that were brought to the type of an array are brought to it again. -/
theorem items_again {element : HostType} {ts : List Term} {nodes : List Node}
    (h : ∀ t ∈ ts, s.Rereads scope t)
    (hagain : ∀ t ∈ ts, t.type? = some element ∧ ∃ type, t.asRead.type? = some type ∧
      t.asRead.coerce s.host.toTypeOrder element = t)
    (hm : List.Forall₂ (Term.Mirrors s.namespaces) ts nodes) :
    s.items scope (some element) (some element) nodes = .ok (ts, some element) := by
  induction hm with
  | nil => rfl
  | @cons t node ts nodes hfirst _ ih =>
    obtain ⟨ht, hts⟩ := List.forall_mem_cons.mp h
    obtain ⟨⟨htyped, type, htype, hcoerce⟩, hrest⟩ := List.forall_mem_cons.mp hagain
    have hitem : s.itemOf (some element) (some element) (t.asRead, type) node.span =
        .ok (t, element) := by
      unfold itemOf
      by_cases hsame : element = type
      · -- what has the type of the array is not changed
        have hself := Term.coerce_self (o := s.host.toTypeOrder) (hsame ▸ htype)
        rw [hself] at hcoerce
        simp only [hsame, ↓reduceIte, hcoerce]
      · simp only [hsame, ↓reduceIte, hcoerce, htyped, Option.getD_some]
    simp only [items, ht.again _ hfirst, bind, Except.bind, needOperand_value htype, hitem,
      Option.or, ih hts hrest]
    rfl

/-! ## 6. Calls and creations -/

/-- A call of a method of an instance. -/
theorem rereads_call {m : Method} {args : List Term} {again : List (Term × HostType)}
    (h : s.Rereads scope t) (hread : t.asRead = t) (ht : t.type? = some type)
    (hargs : ∀ a ∈ args, s.Rereads scope a) (hr : ReadsAll args again)
    (hname : Syntax.isName m.name = true) (htypeArgs : m.typeArgs = [])
    (hl : again.length = m.params.length)
    (hsame : Term.asArguments (again.map (·.1)) m.params = args)
    (hm : CallSite.select? s.host.toTypeOrder
      ((s.host.methods type m.name).filter fun n => !n.isStatic) ⟨again.map (·.2), []⟩ = some m) :
    s.Rereads scope (.call t m args) where
  legible := by
    refine ⟨h.legible, hname, ?_, (Term.legibleList_iff _ _).mpr fun a ha => (hargs a ha).legible⟩
    rw [htypeArgs]
    exact List.forall_mem_nil _
  again node hmirrors := by
    obtain ⟨object, callee, nodes, span, hbare, ⟨name, written, span', rfl, hid, hwritten⟩, hobject,
      hnodes⟩ := hmirrors
    rw [htypeArgs] at hwritten
    cases hwritten
    rw [Term.mirrorsList_iff] at hnodes
    have hcallee : s.resolve scope (some ⟨again.map (·.2), []⟩) (.member object name [] span') =
        .ok (.method (.onValue t m)) := by
      rw [resolve, h.again _ hobject, hread]
      show s.ofValue (some _) t name object.span span' = _
      rw [ofValue, ht, hid]
      simp only [hm]
    rw [resolve_bare, hbare, resolve, arguments_again hargs hr hnodes]
    simp only [calleeTypeArgs, Node.bare, typesOf, bind, Except.bind, hcallee, callOf,
      List.length_map, hl, ↓reduceIte, hsame]
    rfl

/-- A method is the sequence operation that is called on a receiver, for arguments of given types. -/
structure CallsOn (s : Surface) (receiver : HostType) (types : List HostType) (m : Method) :
    Prop where
  own : CallSite.select? s.host.toTypeOrder
    ((s.host.methods receiver m.name).filter fun n => !n.isStatic) ⟨types, m.typeArgs⟩ = none
  found : ((s.host.itemType? receiver).bind fun item =>
    CallSite.selectSequenceOp? s.host m.name receiver item ⟨types, m.typeArgs⟩) = some m

/-- A call of a sequence operation, which is printed on its first argument. -/
theorem rereads_sequenceCall {m : Method} {first : Term} {rest : List Term} {receiver : HostType}
    {again : List (Term × HostType)} (h : s.Rereads scope first)
    (hread : first.asRead = t) (ht : t.type? = some receiver)
    (hargs : ∀ a ∈ rest, s.Rereads scope a) (hr : ReadsAll rest again)
    (hname : Syntax.isName m.name = true) (hop : m.isSequenceOp = true)
    (htypeArgs : ∀ type ∈ m.typeArgs, s.ReadsType type)
    (hl : again.length + 1 = m.params.length)
    (hsame : Term.asArguments (t :: again.map (·.1)) m.params = first :: rest)
    (hm : s.CallsOn receiver (again.map (·.2)) m) :
    s.Rereads scope (.staticCall m (first :: rest)) where
  legible := by
    refine ⟨fun hfirst => ?_, hname, fun type htype => (htypeArgs type htype).legible, ?_⟩
    · rw [Term.onFirst, hop] at hfirst
      cases hfirst
    · exact (Term.legibleList_iff _ _).mpr
        (List.forall_mem_cons.mpr ⟨h.legible, fun a ha => (hargs a ha).legible⟩)
  again node hmirrors := by
    obtain ⟨callee, nodes, span, hbare, hmirrors⟩ := hmirrors
    have honFirst : Term.onFirst m (first :: rest) = true := by
      rw [Term.onFirst, hop]
      rfl
    rw [if_pos honFirst] at hmirrors
    obtain ⟨object, ⟨name, written, span', rfl, hid, hwritten⟩, hmirrors⟩ := hmirrors
    rw [Term.mirrorsList_iff] at hmirrors
    cases hmirrors with
    | cons hobject hnodes =>
      have hcallee : s.resolve scope (some ⟨again.map (·.2), m.typeArgs⟩)
          (.member object name written span') = .ok (.method (.onSequence t m)) := by
        rw [resolve, h.again _ hobject, hread]
        show s.ofValue (some _) t name object.span span' = _
        rw [ofValue, ht, hid]
        simp only [hm.own, hm.found]
      rw [resolve_bare, hbare, resolve, arguments_again hargs hr hnodes]
      simp only [calleeTypeArgs, Node.bare, bind, Except.bind, typesOf_of_mirrors htypeArgs hwritten,
        hcallee, callOf, List.length_cons, List.length_map, hl, ↓reduceIte, hsame]
      rfl

theorem rereads_new {c : Constructor} {args : List Term} {again : List (Term × HostType)}
    (hargs : ∀ a ∈ args, s.Rereads scope a) (hr : ReadsAll args again)
    (htype : s.ReadsType c.declaring)
    (hsame : Term.asArguments (again.map (·.1)) c.params = args)
    (hc : s.host.constructor? c.declaring (again.map (·.2)) = some c) :
    s.Rereads scope (.new c args) where
  legible := ⟨htype.legible, (Term.legibleList_iff _ _).mpr fun a ha => (hargs a ha).legible⟩
  again node hm := by
    obtain ⟨written, nodes, span, hbare, hwritten, hnodes⟩ := hm
    rw [Term.mirrorsList_iff] at hnodes
    rw [resolve_bare, hbare, resolve, htype.again _ hwritten, arguments_again hargs hr hnodes]
    simp only [bind, Except.bind, creationOf, hc, hsame]
    rfl

theorem rereads_array {element : HostType} {items : List Term} (htype : s.ReadsType element)
    (hitems : ∀ i ∈ items, s.Rereads scope i)
    (hagain : ∀ i ∈ items, i.type? = some element ∧ ∃ type, i.asRead.type? = some type ∧
      i.asRead.coerce s.host.toTypeOrder element = i) :
    s.Rereads scope (.newArray element items) where
  legible := ⟨⟨element, rfl, htype.legible⟩,
    (Term.legibleList_iff _ _).mpr fun i hi => (hitems i hi).legible⟩
  again node hm := by
    obtain ⟨written, nodes, span, hbare, hwritten, hnodes⟩ := hm
    rw [Term.mirrorsList_iff] at hnodes
    obtain ⟨hwritten, -⟩ := List.forall₂_cons.mp hwritten
    rw [resolve_bare, hbare, resolve]
    simp only [bind, Except.bind, htype.again _ hwritten, Functor.map, Except.map,
      items_again hitems hagain hnodes]
    rfl

/-! ## 7. Element accesses -/

theorem rereads_arrayIndex {index : Term} (h : s.Rereads scope t)
    (hread : t.asRead = t) (ht : t.type? = some type) (harray : type.isArray = true)
    (hindex : s.Rereads scope index) (hfound : index.asRead.type? = some .int32)
    (hsame : index.asRead = index) : s.Rereads scope (.joined .arrayIndex t index) where
  legible := ⟨h.legible, hindex.legible⟩
  again node hm := by
    unfold Term.joined Term.Mirrors at hm
    rw [if_pos rfl] at hm
    obtain ⟨object, inner, span, hbare, hobject, hinner⟩ := hm
    have hargs : s.arguments scope [inner] = .ok [(index, .int32)] := by
      refine arguments_again (List.forall_mem_singleton.mpr hindex) ⟨?_, ?_⟩ (.cons hinner .nil)
      · simp [hsame]
      · rw [← hsame]
        simpa using hfound
    have hconvert : index.convert .int32 = index := by
      rw [hsame] at hfound
      unfold Term.convert
      rw [hfound]
      exact if_pos rfl
    rw [resolve_bare, hbare, resolve, h.again _ hobject, hread, hargs]
    simp only [bind, Except.bind, needOperand_value ht, indexOf, harray, ↓reduceIte, true_or,
      hconvert]
    rfl

theorem rereads_index {m : Method} {args : List Term} {again : List (Term × HostType)}
    (h : s.Rereads scope t) (hread : t.asRead = t) (ht : t.type? = some type)
    (harray : type.isArray = false) (hne : args ≠ []) (hargs : ∀ a ∈ args, s.Rereads scope a)
    (hr : ReadsAll args again) (hsame : Term.asArguments (again.map (·.1)) m.params = args)
    (hm : CallSite.select? s.host.toTypeOrder
      ((s.host.methods type "get_Item").filter fun n => !n.isStatic) ⟨again.map (·.2), []⟩ =
        some m) :
    s.Rereads scope (.index t m args) where
  legible := ⟨hne, h.legible, (Term.legibleList_iff _ _).mpr fun a ha => (hargs a ha).legible⟩
  again node hmirrors := by
    obtain ⟨object, nodes, span, hbare, hobject, hnodes⟩ := hmirrors
    rw [Term.mirrorsList_iff] at hnodes
    rw [resolve_bare, hbare, resolve, h.again _ hobject, hread, arguments_again hargs hr hnodes]
    simp only [bind, Except.bind, needOperand_value ht, indexOf, harray, Bool.false_eq_true,
      ↓reduceIte, hm, hsame]
    rfl

end Surface

end FatArrow
