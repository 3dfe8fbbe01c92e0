import FatArrow.Proofs.Meaning.Folding
import FatArrow.Proofs.Standard.Described

/-!
# Folded lambdas keep their types

A member that folding reads is replaced by a term of its value.  That term has the type of the
member, but for sequences, which are all written as arrays of their items: those can stand for an
array and for a sequence of the common type, not for a list.  So the lambda can stand wherever it
stood before it was folded, unless it answered a list.
-/

namespace FatArrow

/-! ## 1. Types that stand for a declared one -/

namespace TypeOrder

/-- A type of sequences that is neither an array type nor the common type of sequences. -/
def IsListLike (o : TypeOrder) (t : HostType) : Prop :=
  (o.itemType? t).isSome = true ∧ ∀ item, t ≠ .arrayOf item ∧ t ≠ .sequenceOf item

/-- A type that a term gets where another one was declared: that one, or for a type of sequences the
arrays of its items.  It is a type of values of the declared one, if that is not like a list. -/
structure StandsFor (o : TypeOrder) (declared t : HostType) : Prop where
  kind : t = declared ∨ ∃ item, o.itemType? declared = some item ∧ t = .arrayOf item
  fits : ¬ o.IsListLike declared → o.assignable declared t = true

variable {o : TypeOrder} {t item : HostType}

theorem StandsFor.refl (o : TypeOrder) (t : HostType) : o.StandsFor t t :=
  ⟨.inl rfl, fun _ => o.assignable_refl t⟩

/-- Arrays are sequences of their items. -/
theorem assignable_sequenceOf (hitem : o.itemType? (.arrayOf item) = some item) :
    o.assignable (.sequenceOf item) (.arrayOf item) = true := by
  have hne : HostType.sequenceOf item ≠ .arrayOf item := fun h => by cases h
  have hnamed : (HostType.sequenceOf item).isNamed WellKnown.enumerable = true := by
    show ((QualifiedName.ofDotted _).text == _) = true
    decide
  have hsequence : o.fitsSequence? (.sequenceOf item) (.arrayOf item) = some true := by
    unfold fitsSequence?
    rw [hnamed, hitem]
    simp [HostType.arrayOf, HostType.sequenceOf, HostType.applied]
  have hfits : o.fits (.sequenceOf item) (.arrayOf item) = true := by
    unfold fits fitsPlain
    rw [if_neg hne, hsequence]
    rfl
  rw [assignable, hfits, Bool.true_or]

end TypeOrder

/-! ## 2. Items of the standard sequences -/

namespace Standard

/-- The entry of a type of sequences. -/
def collection (d : TypeDecl) : TypeEntry :=
  d.entry ⟨["System", "Collections", "Generic"], ""⟩ "System.Collections.Generic"

/-- The common type of sequences. -/
def enumerable : TypeDecl :=
  { TypeDecl.ofName "IEnumerable`1" with arity := 1, itemType := some item }

theorem entries_collections : collections.entries = [collection enumerable, collection list] := by
  have hpath : collections.path = ["System", "Collections", "Generic"] := by
    show (dottedPieces "System.Collections.Generic").filter (· != "") = _
    decide
  unfold HostModule.entries
  rw [hpath]
  rfl

end Standard

namespace Registry

variable {r : Registry} {around : Surroundings} {t item : HostType} {e : TypeEntry}

/-- The types of sequences have entries. -/
theorem Holds.collection (h : r.Holds (Standard.modules around)) {d : TypeDecl}
    (hd : Standard.collection d ∈ Standard.collections.entries)
    (hkey : t.key? = some (Standard.collection d).key) :
    r.entry? t = some (Standard.collection d) := by
  have hm : Standard.collections ∈ Standard.modules around := by simp [Standard.modules]
  rw [Registry.entry?, hkey]
  exact h _ hm _ hd

theorem Holds.sequenceOf (h : r.Holds (Standard.modules around)) (item : HostType) :
    r.entry? (.sequenceOf item) = some (Standard.collection Standard.enumerable) := by
  refine h.collection ?_ ?_
  · rw [Standard.entries_collections]
    exact .head _
  · show some (QualifiedName.ofDotted WellKnown.enumerable).fingerprint = _
    decide +kernel

theorem Holds.listOf (h : r.Holds (Standard.modules around)) (item : HostType) :
    r.entry? (Standard.listOf item) = some (Standard.collection Standard.list) := by
  refine h.collection ?_ ?_
  · rw [Standard.entries_collections]
    exact .tail _ (.head _)
  · show some (QualifiedName.ofDotted _).fingerprint = _
    decide +kernel

theorem itemType?_sequenceOf (h : r.Holds (Standard.modules around)) (item : HostType) :
    r.itemType? (.sequenceOf item) = some item := by
  unfold Registry.itemType?
  rw [lineage_eq (h.sequenceOf item)]
  -- the entry says that the items are of the type that is bound to its parameter
  show some ((HostType.param 0).subst [item]) = _
  rw [Standard.subst_param]

/-- The base of a type says what its items are, if its own entry does not. -/
theorem itemType?_of_base {own base : Ancestor} {rest : List Ancestor} {type : HostType}
    (hn : t.nullable = false) (hs : t.isString = false) (he : t.element? = none)
    (hl : r.lineage t = own :: base :: rest) (hown : own.entry.itemType = none)
    (hname : own.entry.name.text ≠ WellKnown.enumerable)
    (hbase : base.entry.itemType = some type) :
    r.itemType? t = some (base.entry.bind base.receiver.actuals type) := by
  unfold itemType?
  rw [hn, hs, he, hl]
  simp [hown, hname, hbase]

/-- Looking for what is not erased. -/
theorem find?_eraseP {α : Type} {p q : α → Bool} {l : List α} (h : ∀ x, q x = true → p x = false) :
    (l.eraseP p).find? q = l.find? q := by
  induction l with
  | nil => rfl
  | cons x l ih =>
    cases hp : p x with
    | true =>
      have hq : q x = false := Bool.eq_false_iff.mpr fun hq => by rw [h x hq] at hp; cases hp
      rw [List.eraseP_cons_of_pos hp, List.find?_cons_of_neg (Bool.eq_false_iff.mp hq)]
    | false =>
      rw [List.eraseP_cons_of_neg (Bool.eq_false_iff.mp hp), List.find?_cons, List.find?_cons, ih]

/-- The items of a list are those of the sequence that it is. -/
theorem itemType?_listOf (h : r.Holds (Standard.modules around)) (item : HostType) :
    r.itemType? (Standard.listOf item) = some item := by
  have hbases : (Standard.collection Standard.list).bases.map
      ((Standard.collection Standard.list).bind (Standard.listOf item).actuals) =
        [.sequenceOf item] := by
    show [HostType.applied _ [(HostType.param 0).subst [item]]] = _
    rw [Standard.subst_param]
    rfl
  -- the entry of lists has been taken out when their base is looked for
  have hother : ∀ p, describes (.sequenceOf item) p = true →
      describes (Standard.listOf item) p = false := by
    have hne : (Standard.listOf item).key? ≠ (HostType.sequenceOf item).key? := by
      show some (QualifiedName.ofDotted _).fingerprint ≠ some (QualifiedName.ofDotted _).fingerprint
      decide +kernel
    intro p hp
    unfold describes at hp ⊢
    rw [← beq_iff_eq.mp hp]
    exact beq_false_of_ne hne
  obtain ⟨key, hfind⟩ := find?_describes (h.sequenceOf item)
  rw [← find?_eraseP hother] at hfind
  have hname : (Standard.collection Standard.list).name.text ≠ WellKnown.enumerable := by
    decide +kernel
  have hlineage := lineage_eq (h.listOf item)
  rw [hbases, lineageFrom_of_some hfind] at hlineage
  rw [itemType?_of_base rfl rfl rfl hlineage rfl hname rfl]
  show some ((HostType.param 0).subst [item]) = _
  rw [Standard.subst_param]

theorem constructor?_declaring {args : List HostType} {c : Constructor}
    (h : r.constructor? t args = some c) : c.declaring = t := by
  obtain ⟨_, -, _, -, rfl⟩ := exists_of_constructor? h
  rfl

/-! ## 3. Types of values -/

theorem type?_construct (r : Registry) (type : HostType) (args : List Term) (v : Value) :
    (r.host.construct type args v).type? = some type := by
  unfold Host.construct
  split
  next c hc => exact congrArg some (constructor?_declaring hc)
  next => rfl

/-- The term of a value has the type that the value is written for, or is an array. -/
theorem type?_wrapPlain (r : Registry) (type : HostType) (v : Value) :
    (r.host.wrapPlain type v).type? = some type ∨ ∃ item, r.itemType? type = some item ∧
      (r.host.wrapPlain type v).type? = some (.arrayOf item) := by
  cases v with
  | dateTime | dateTimeOffset | guid => exact .inl (r.type?_construct type _ _)
  | array items =>
    rw [Host.wrapPlain]
    split
    next item hitem =>
      have hitem : r.itemType? type = some item := by
        split at hitem
        · cases hitem
        · exact hitem
      exact .inr ⟨item, hitem, rfl⟩
    next => exact .inl rfl
  | _ => exact .inl rfl

/-- Sequences of values are written as arrays. -/
theorem type?_wrap_array (r : Registry) {type item : HostType} (hn : type.nullable = false)
    (hs : type.isString = false) (hitem : r.itemType? type = some item) (items : List Value) :
    (r.host.wrap type (.array items)).type? = some (.arrayOf item) := by
  have hhost : r.host.itemType? type = some item := hitem
  unfold Host.wrap Host.lifted
  rw [hn, if_neg Bool.false_ne_true, HostType.underlying_eq_self hn, Host.wrapPlain, hs,
    if_neg Bool.false_ne_true, hhost]
  rfl

/-- What a member is replaced by is of a type that stands for the type of the member. -/
theorem wrap_standsFor (h : r.Holds (Standard.modules around)) (type : HostType) (v : Value) :
    ∃ t, (r.host.wrap type v).type? = some t ∧ r.order.StandsFor type t := by
  unfold Host.wrap Host.lifted
  by_cases hn : type.nullable = true
  · rw [if_pos hn]
    refine ⟨type, ?_, .refl _ type⟩
    split <;> rfl
  rw [if_neg hn, HostType.underlying_eq_self (Bool.eq_false_iff.mpr hn)]
  rcases r.type?_wrapPlain type v with hown | ⟨item, hitem, harray⟩
  · exact ⟨type, hown, .refl _ type⟩
  refine ⟨.arrayOf item, harray, .inr ⟨item, hitem, rfl⟩, fun hlist => ?_⟩
  -- the type is one of sequences, so it is an array type or the common type of sequences
  have hsome : (r.order.itemType? type).isSome = true := Option.isSome_iff_exists.mpr ⟨item, hitem⟩
  have hcases : ∃ own, type = .arrayOf own ∨ type = .sequenceOf own := by
    by_contra hnone
    rw [not_exists] at hnone
    exact hlist ⟨hsome, fun own => not_or.mp (hnone own)⟩
  obtain ⟨own, rfl | rfl⟩ := hcases
  · obtain rfl : own = item := Option.some.inj hitem
    exact r.order.assignable_refl _
  · obtain rfl : own = item := Option.some.inj ((itemType?_sequenceOf h own).symm.trans hitem)
    exact TypeOrder.assignable_sequenceOf rfl

end Registry

/-! ## 4. Terms with their members replaced -/

namespace Term

/-- What a term becomes when members in it are replaced.  A static member, and a member of what
becomes a constant, can become a term that has a property; everything else is made again of what its
parts become, and an array is of the type of its items. -/
inductive Becomes (P : Member → Term → Prop) : Term → Term → Prop
  | lambda {params : List Param} {body body' : Term} : Becomes P body body' →
      Becomes P (.lambda params body) (.lambda params body')
  | param (p : Param) : Becomes P (.param p) (.param p)
  | const (v : Value) (type : HostType) : Becomes P (.const v type) (.const v type)
  | member {target target' : Term} {m : Member} : Becomes P target target' →
      Becomes P (.member target m) (.member target' m)
  | memberRead {target : Term} {v : Value} {type : HostType} {m : Member} {u : Term} :
      Becomes P target (.const v type) → P m u → Becomes P (.member target m) u
  | staticMember (m : Member) : Becomes P (.staticMember m) (.staticMember m)
  | staticRead {m : Member} {u : Term} : m.isStatic = true → P m u →
      Becomes P (.staticMember m) u
  | call {target target' : Term} {m : Method} {args args' : List Term} : Becomes P target target' →
      List.Forall₂ (Becomes P) args args' → Becomes P (.call target m args) (.call target' m args')
  | staticCall {m : Method} {args args' : List Term} :
      List.Forall₂ (Becomes P) args args' → Becomes P (.staticCall m args) (.staticCall m args')
  | binary {op : BinaryOp} {left left' right right' : Term} {type : HostType} :
      Becomes P left left' → Becomes P right right' →
      Becomes P (.binary op left right type) (.binary op left' right' type)
  | unary {op : UnaryOp} {operand operand' : Term} {type : HostType} : Becomes P operand operand' →
      Becomes P (.unary op operand type) (.unary op operand' type)
  | cond {test test' ifTrue ifTrue' ifFalse ifFalse' : Term} : Becomes P test test' →
      Becomes P ifTrue ifTrue' → Becomes P ifFalse ifFalse' →
      Becomes P (.cond test ifTrue ifFalse) (.cond test' ifTrue' ifFalse')
  | new {c : Constructor} {args args' : List Term} :
      List.Forall₂ (Becomes P) args args' → Becomes P (.new c args) (.new c args')
  | array {element type : HostType} {items items' : List Term} :
      List.Forall₂ (Becomes P) items items' →
      Becomes P (.array element items type) (newArray element items')
  | cast {operand operand' : Term} {type : HostType} : Becomes P operand operand' →
      Becomes P (.cast operand type) (.cast operand' type)
  | index {target target' : Term} {m : Method} {args args' : List Term} : Becomes P target target' →
      List.Forall₂ (Becomes P) args args' →
      Becomes P (.index target m args) (.index target' m args')

variable {P : Member → Term → Prop} {h : Host} {t u : Term} {m : Member}

/-- A member becomes the term of its value, or stays. -/
theorem read_becomes (hP : ∀ v, P m (h.wrap m.type v)) {receiver : Option Value}
    {before otherwise : Term} (hread : ∀ u, P m u → Becomes P before u)
    (ho : Becomes P before otherwise) (state : FoldState) :
    Becomes P before ((Fold.read h m receiver otherwise).run state).1 := by
  cases hget : m.get receiver state.store with
  | ok r =>
    rw [Fold.read_of_ok hget]
    exact hread _ (hP r.1)
  | error e =>
    rw [Fold.read_of_error hget]
    exact ho

theorem foldList_becomes {ts : List Term}
    (hts : ∀ t ∈ ts, ∀ state, Becomes P t ((t.fold h).run state).1) (state : FoldState) :
    List.Forall₂ (Becomes P) ts ((foldList h ts).run state).1 := by
  induction ts generalizing state with
  | nil => exact .nil
  | cons t ts ih =>
    obtain ⟨first, rest⟩ := List.forall_mem_cons.mp hts
    exact .cons (first state) (ih rest _)

/-- Folding replaces members by the terms of their values, and nothing else. -/
theorem fold_becomes (hP : ∀ m v, P m (h.wrap m.type v)) (t : Term) (state : FoldState) :
    Becomes P t ((t.fold h).run state).1 := by
  induction t generalizing state with
  | lambda params body ih => exact .lambda (ih state)
  | param p => exact .param p
  | const v type => exact .const v type
  | member target m ih =>
    have htarget := ih state
    rw [fold, StateT.run_bind]
    generalize (target.fold h).run state = folded at htarget ⊢
    obtain ⟨target', state'⟩ := folded
    dsimp only [Id.run, bind] at htarget ⊢
    split
    next v hv =>
      -- the target has become a constant
      cases target' with
      | const w type =>
        exact read_becomes (hP m) (fun u hu => .memberRead htarget hu) (.member htarget) state'
      | _ => cases hv
    next => exact .member htarget
  | staticMember m =>
    unfold fold
    split
    next hstatic =>
      exact read_becomes (hP m) (fun u hu => .staticRead hstatic hu) (.staticMember m) state
    next => exact .staticMember m
  | call target m args ih ihs => exact .call (ih state) (foldList_becomes ihs _)
  | staticCall m args ihs => exact .staticCall (foldList_becomes ihs state)
  | binary op left right type ih ih' => exact .binary (ih state) (ih' _)
  | unary op operand type ih => exact .unary (ih state)
  | cond test ifTrue ifFalse ih ih' ih'' => exact .cond (ih state) (ih' _) (ih'' _)
  | new c args ihs => exact .new (foldList_becomes ihs state)
  | array element items type ihs => exact .array (foldList_becomes ihs state)
  | cast operand type ih => exact .cast (ih state)
  | index target m args ih ihs => exact .index (ih state) (foldList_becomes ihs _)

/-! ## 5. Types of folded lambdas -/

/-- The term whose type a term has: that of a conditional is the type of its first branch. -/
def typedAs : Term → Term
  | .cond _ ifTrue _ => ifTrue.typedAs
  | t => t

/-- A replaced member has a type that stands for the type of the member. -/
def Replaces (o : TypeOrder) (m : Member) (u : Term) : Prop :=
  ∃ t, u.type? = some t ∧ o.StandsFor m.type t

/-- The type that a term gets where it had a declared one: one that stands for it, or the type of
the arrays of its items if the term is an array that was created as something else. -/
def Retyped (o : TypeOrder) (t : Term) (declared type : HostType) : Prop :=
  o.StandsFor declared type ∨ ∃ element items, t.typedAs = .array element items declared ∧
    declared ≠ .arrayOf element ∧ type = .arrayOf element

/-- A term has a type after its members have been replaced if it had one. -/
theorem Becomes.type? {o : TypeOrder} (hb : Becomes (Replaces o) t u) :
    (t.type? = none → u.type? = none) ∧ ∀ declared, t.type? = some declared →
      ∃ type, u.type? = some type ∧ t.Retyped o declared type := by
  have hsame : ∀ {t u : Term}, u.type? = t.type? → (t.type? = none → u.type? = none) ∧
      ∀ declared, t.type? = some declared →
        ∃ type, u.type? = some type ∧ t.Retyped o declared type := by
    intro t u htype
    rw [htype]
    exact ⟨id, fun declared hd => ⟨declared, hd, .inl (.refl o declared)⟩⟩
  induction t generalizing u with
  | cond test ifTrue ifFalse ih ih' ih'' =>
    cases hb with
    | cond _ htrue _ =>
      have := ih' htrue
      exact this
  | array element items type ihs =>
    cases hb with
    | array _ =>
      refine ⟨nofun, fun declared hd => ⟨_, rfl, ?_⟩⟩
      cases hd
      by_cases htype : type = .arrayOf element
      · exact .inl (htype ▸ .refl o type)
      · exact .inr ⟨element, items, rfl, htype, rfl⟩
  | member target m ih =>
    cases hb with
    | member _ => exact hsame rfl
    | memberRead _ hu =>
      obtain ⟨type, htype, hstands⟩ := hu
      refine ⟨nofun, fun declared hd => ⟨type, htype, .inl ?_⟩⟩
      cases hd
      exact hstands
  | staticMember m =>
    cases hb with
    | staticMember => exact hsame rfl
    | staticRead _ hu =>
      obtain ⟨type, htype, hstands⟩ := hu
      refine ⟨nofun, fun declared hd => ⟨type, htype, .inl ?_⟩⟩
      cases hd
      exact hstands
  | _ =>
    cases hb
    exact hsame rfl

end Term

/-- Folding keeps the types of a lambda.  Every member that is replaced is replaced by a term whose
type stands for the type of the member, and the type of the folded lambda stands for that of the
lambda, unless it is an array that was created as one of another type.  Where these types are not
like lists, they are the same or can be assigned. -/
theorem Registry.fold_retyped (r : Registry) (around : Surroundings)
    (h : r.Holds (Standard.modules around)) (f : Function) (store : Store) :
    f.body.Becomes (Term.Replaces r.order) (f.fold r.host store).1.body ∧
      (f.fold r.host store).1.params = f.params ∧
      (f.returns? = none → (f.fold r.host store).1.returns? = none) ∧
      ∀ declared, f.returns? = some declared →
        ∃ type, (f.fold r.host store).1.returns? = some type ∧
          f.body.Retyped r.order declared type := by
  have hbecomes : f.body.Becomes (Term.Replaces r.order) (f.fold r.host store).1.body :=
    Term.fold_becomes (fun m v => r.wrap_standsFor h m.type v) f.body ⟨store, 0⟩
  exact ⟨hbecomes, rfl, hbecomes.type?⟩

/-- The scores of a game, of a declared type. -/
def scores (type : HostType) : Function :=
  ⟨[], .staticMember ⟨"Scores", .named "Tests.Game", type, true, false,
    some fun _ => return .array [.int32 1]⟩⟩

theorem Registry.fold_retyped_scores :
    ∃ r, Registry.empty.installAll (Standard.modules .still) = .ok r ∧
      ∃ type, ((scores (.sequenceOf .int32)).fold r.host .empty).1.returns? = some type ∧
        r.order.assignable (.sequenceOf .int32) type = true := by
  obtain ⟨r, hr, h⟩ := exists_standard
  obtain ⟨-, -, -, hreturns⟩ := r.fold_retyped .still h (scores (.sequenceOf .int32)) .empty
  obtain ⟨type, htype, hstands | ⟨element, items, harray, -⟩⟩ := hreturns _ rfl
  · exact ⟨r, hr, type, htype, hstands.fits fun hlist => (hlist.2 .int32).2 rfl⟩
  · cases harray

/-- Lists are folded to arrays, and so are arrays that were created as something else; neither can
stand for what it was. -/
theorem Registry.fold_list :
    ∃ r, Registry.empty.installAll (Standard.modules .still) = .ok r ∧
      r.Holds (Standard.modules .still) ∧
      (∀ m, (scores (Standard.listOf .int32)).body.member? = some m → m.Honest r.order) ∧
      ((scores (Standard.listOf .int32)).fold r.host .empty).1.returns? = some (.arrayOf .int32) ∧
      r.order.assignable (Standard.listOf .int32) (.arrayOf .int32) = false ∧
      ((⟨[], .array .int32 [] .string⟩ : Function).fold r.host .empty).1.returns? =
        some (.arrayOf .int32) ∧
      r.order.assignable .string (.arrayOf .int32) = false := by
  obtain ⟨r, hr, h⟩ := exists_standard
  refine ⟨r, hr, h, ?_, ?_, rfl, rfl, rfl⟩
  · intro m hm native hn call
    cases hm
    cases hn
    refine ⟨.ok (.array [.int32 1]), rfl, ?_⟩
    rintro _ ⟨⟩
    refine .array nofun fun element helement i hi => ?_
    obtain rfl : element = .int32 :=
      Option.some.inj (helement.symm.trans (itemType?_listOf h .int32))
    obtain rfl := List.mem_singleton.mp hi
    exact .primitive rfl (.inl rfl)
  · exact r.type?_wrap_array rfl rfl (itemType?_listOf h .int32) [.int32 1]

end FatArrow
