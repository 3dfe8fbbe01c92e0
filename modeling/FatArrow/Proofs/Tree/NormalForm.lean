import FatArrow.Proofs.Meaning.Folding

/-!
# Folding reaches a normal form

A member is read after what it is read from has been folded, and the term that is written for its
value reads no member at all.  One pass therefore leaves no member behind that could be read, and a
second one has nothing to do.
-/

namespace FatArrow

/-! ## 1. Members that stay -/

/-- Whether the getter of the member answers is decided by the call, and not by the objects that
there are.  That is so for every getter that is a pure function. -/
def Member.Steady (m : Member) : Prop :=
  ∀ native, m.getter = some native → ∀ call store store',
    (native call store).isOk = (native call store').isOk

/-- Reading the member from the receiver fails, whatever objects there are. -/
def Member.Fails (m : Member) (receiver : Option Value) : Prop :=
  ∀ store, ∃ e, m.get receiver store = .error e

theorem Member.Steady.fails {m : Member} (h : m.Steady) {receiver : Option Value} {store : Store}
    {e : EvalError} (he : m.get receiver store = .error e) : m.Fails receiver := by
  intro store'
  unfold Member.get at he ⊢
  cases hg : m.getter with
  | none => exact ⟨_, rfl⟩
  | some native =>
    rw [hg] at he
    dsimp only at he ⊢
    split
    next => exact ⟨_, rfl⟩
    next hthere =>
      rw [if_neg hthere] at he
      -- the getter fails with some objects, so it does with all
      have hsame := h native hg ⟨receiver, [], []⟩ store store'
      rw [he] at hsame
      cases hget : native ⟨receiver, [], []⟩ store' with
      | error e' => exact ⟨e', rfl⟩
      | ok r =>
        rw [hget] at hsame
        cases hsame

namespace Term

/-- The term by itself leaves nothing to folding: no static member and no member of a constant can be
read, and an array has the type of its items. -/
def Settled : Term → Prop
  | .staticMember m => m.isStatic = true → m.Fails none
  | .member (.const v _) m => m.Fails (some v)
  | .array element _ type => type = .arrayOf element
  | _ => True

/-- Every getter in the term is steady. -/
def Steady (t : Term) : Prop :=
  t.Throughout fun u => ∀ m, u.member? = some m → m.Steady

theorem Steady.inside {t : Term} (h : t.Steady) : ∀ u ∈ t.children, u.Steady :=
  (throughout_iff.mp h).2

/-! ## 2. Terms of values -/

theorem settled_const (v : Value) (type : HostType) : (Term.const v type).Throughout Settled :=
  throughout_iff.mpr ⟨trivial, nofun⟩

theorem settled_newArray {element : HostType} {items : List Term}
    (h : ∀ i ∈ items, i.Throughout Settled) : (newArray element items).Throughout Settled :=
  throughout_iff.mpr ⟨rfl, h⟩

end Term

namespace Host

variable (h : Host)

theorem settled_construct {type : HostType} {args : List Term} {v : Value}
    (ha : ∀ a ∈ args, a.Throughout Term.Settled) :
    (h.construct type args v).Throughout Term.Settled := by
  unfold construct
  split
  · exact Term.throughout_iff.mpr ⟨trivial, ha⟩
  · exact Term.settled_const v type

theorem settled_lifted {type : HostType} {v : Value} {plain : Term}
    (hp : plain.Throughout Term.Settled) : (lifted type v plain).Throughout Term.Settled := by
  unfold lifted
  split
  · split
    · exact Term.settled_const .null type
    · exact Term.throughout_iff.mpr ⟨trivial, List.forall_mem_singleton.mpr hp⟩
  · exact hp

mutual
/-- The term of a value is settled. -/
theorem settled_wrapPlain (type : HostType) :
    ∀ v : Value, (h.wrapPlain type v).Throughout Term.Settled
  | .dateTime t => h.settled_construct (List.forall_mem_singleton.mpr (Term.settled_const _ _))
  | .dateTimeOffset t => by
    refine h.settled_construct (List.forall_mem_cons.mpr ⟨Term.settled_const _ _, ?_⟩)
    refine List.forall_mem_singleton.mpr (h.settled_construct ?_)
    exact List.forall_mem_singleton.mpr (Term.settled_const _ _)
  | .guid g => h.settled_construct (List.forall_mem_singleton.mpr (Term.settled_const _ _))
  | .array items => by
    rw [wrapPlain]
    split
    next element _ => exact Term.settled_newArray (settled_wrapItems element items)
    next => exact Term.settled_const _ _
  | .null | .bool _ | .char _ | .integer _ _ | .single _ | .double _ | .string _ | .timeSpan _
  | .object _ _ => Term.settled_const _ _

/-- The terms of the items of a sequence are settled. -/
theorem settled_wrapItems (type : HostType) :
    ∀ vs : List Value, ∀ t ∈ h.wrapItems type vs, t.Throughout Term.Settled
  | [] => nofun
  | v :: vs => List.forall_mem_cons.mpr
      ⟨settled_lifted (settled_wrapPlain type.underlying v), settled_wrapItems type vs⟩
end

theorem settled_wrap (type : HostType) (v : Value) :
    (h.wrap type v).Throughout Term.Settled :=
  settled_lifted (h.settled_wrapPlain type.underlying v)

end Host

/-! ## 3. Folded terms -/

section

variable {h : Host} {t : Term} {m : Member} {receiver : Option Value} {otherwise : Term}
  {state : FoldState}

/-- A member is replaced by a settled term, or stays because it cannot be read. -/
theorem Fold.settled_read (hm : m.Steady) (ho : m.Fails receiver → otherwise.Throughout Term.Settled) :
    ((Fold.read h m receiver otherwise).run state).1.Throughout Term.Settled := by
  cases hget : m.get receiver state.store with
  | ok r =>
    rw [Fold.read_of_ok hget]
    exact h.settled_wrap m.type r.1
  | error e =>
    rw [Fold.read_of_error hget]
    exact ho (hm.fails hget)

theorem Fold.read_of_fails (hf : m.Fails receiver) :
    (Fold.read h m receiver otherwise).run state = (otherwise, state) := by
  obtain ⟨e, he⟩ := hf state.store
  exact Fold.read_of_error he

/-- A step that changes nothing and what follows it. -/
theorem Fold.run_bind {α β : Type} {x : Fold α} {f : α → Fold β} {a : α}
    (hx : x.run state = (a, state)) : (x >>= f).run state = (f a).run state := by
  rw [StateT.run_bind, hx]
  rfl

namespace Term

theorem settled_foldList {ts : List Term}
    (hts : ∀ t ∈ ts, ∀ state, ((t.fold h).run state).1.Throughout Settled) (state : FoldState) :
    ∀ t ∈ ((foldList h ts).run state).1, t.Throughout Settled := by
  induction ts generalizing state with
  | nil => exact List.forall_mem_nil _
  | cons t ts ih =>
    obtain ⟨first, rest⟩ := List.forall_mem_cons.mp hts
    exact List.forall_mem_cons.mpr ⟨first state, ih rest _⟩

/-- A folded term is settled. -/
theorem settled_fold (ht : t.Steady) (state : FoldState) :
    ((t.fold h).run state).1.Throughout Settled := by
  induction t generalizing state with
  | lambda params body ih =>
    exact throughout_iff.mpr
      ⟨trivial, List.forall_mem_singleton.mpr (ih (ht.inside _ (.head _)) state)⟩
  | param | const => exact throughout_iff.mpr ⟨trivial, List.forall_mem_nil _⟩
  | member target m ih =>
    have hsteady := (throughout_iff.mp ht).1 m rfl
    have htarget := ih (ht.inside _ (.head _)) state
    rw [fold, StateT.run_bind]
    generalize (target.fold h).run state = folded at htarget ⊢
    obtain ⟨target', state'⟩ := folded
    dsimp only [Id.run, bind] at htarget ⊢
    have hinside := List.forall_mem_singleton.mpr htarget
    split
    next v hv =>
      -- a target with a value is a constant, from which the member is read if that can be done
      refine Fold.settled_read hsteady fun hfails => throughout_iff.mpr ⟨?_, hinside⟩
      cases target' with
      | const w type =>
        cases hv
        exact hfails
      | _ => cases hv
    next hv =>
      -- without a value the target is no constant
      refine throughout_iff.mpr ⟨?_, hinside⟩
      cases target' with
      | const w type => cases hv
      | _ => trivial
  | staticMember m =>
    have hsteady := (throughout_iff.mp ht).1 m rfl
    unfold fold
    split
    next =>
      exact Fold.settled_read hsteady fun hfails => throughout_iff.mpr ⟨fun _ => hfails, List.forall_mem_nil _⟩
    next hinstance =>
      exact throughout_iff.mpr ⟨fun hstatic => absurd hstatic hinstance, List.forall_mem_nil _⟩
  | call target m args ih ihs =>
    have hargs := settled_foldList fun a ha => ihs a ha (ht.inside a (.tail _ ha))
    exact throughout_iff.mpr
      ⟨trivial, List.forall_mem_cons.mpr ⟨ih (ht.inside _ (.head _)) state, hargs _⟩⟩
  | staticCall m args ihs =>
    exact throughout_iff.mpr
      ⟨trivial, settled_foldList (fun a ha => ihs a ha (ht.inside a ha)) state⟩
  | binary op left right type ih ih' =>
    exact throughout_iff.mpr ⟨trivial, List.forall_mem_cons.mpr
      ⟨ih (ht.inside _ (.head _)) state,
        List.forall_mem_singleton.mpr (ih' (ht.inside _ (.tail _ (.head _))) _)⟩⟩
  | unary op operand type ih =>
    exact throughout_iff.mpr
      ⟨trivial, List.forall_mem_singleton.mpr (ih (ht.inside _ (.head _)) state)⟩
  | cond test ifTrue ifFalse ih ih' ih'' =>
    exact throughout_iff.mpr ⟨trivial, List.forall_mem_cons.mpr
      ⟨ih (ht.inside _ (.head _)) state, List.forall_mem_cons.mpr
        ⟨ih' (ht.inside _ (.tail _ (.head _))) _,
          List.forall_mem_singleton.mpr (ih'' (ht.inside _ (.tail _ (.tail _ (.head _)))) _)⟩⟩⟩
  | new c args ihs =>
    exact throughout_iff.mpr
      ⟨trivial, settled_foldList (fun a ha => ihs a ha (ht.inside a ha)) state⟩
  | array element items type ihs =>
    exact settled_newArray (settled_foldList (fun i hi => ihs i hi (ht.inside i hi)) state)
  | cast operand type ih =>
    exact throughout_iff.mpr
      ⟨trivial, List.forall_mem_singleton.mpr (ih (ht.inside _ (.head _)) state)⟩
  | index target m args ih ihs =>
    have hargs := settled_foldList fun a ha => ihs a ha (ht.inside a (.tail _ ha))
    exact throughout_iff.mpr
      ⟨trivial, List.forall_mem_cons.mpr ⟨ih (ht.inside _ (.head _)) state, hargs _⟩⟩

/-! ## 4. Folding again -/

theorem foldList_of_settled {ts : List Term} (hts : ∀ t ∈ ts, (t.fold h).run state = (t, state)) :
    (foldList h ts).run state = (ts, state) := by
  induction ts with
  | nil => rfl
  | cons t ts ih =>
    obtain ⟨first, rest⟩ := List.forall_mem_cons.mp hts
    rw [foldList, Fold.run_bind first, Fold.run_bind (ih rest)]
    rfl

/-- A settled term is not changed by folding, and no member is read. -/
theorem fold_of_settled (ht : t.Throughout Settled) : (t.fold h).run state = (t, state) := by
  induction t with
  | lambda params body ih =>
    rw [fold, Fold.run_bind (ih ((throughout_iff.mp ht).2 _ (.head _)))]
    rfl
  | param | const => rfl
  | member target m ih =>
    obtain ⟨hown, hin⟩ := throughout_iff.mp ht
    rw [fold, Fold.run_bind (ih (hin _ (.head _)))]
    split
    next v hv =>
      cases target with
      | const w type =>
        cases hv
        exact Fold.read_of_fails hown
      | _ => cases hv
    next => rfl
  | staticMember m =>
    unfold fold
    split
    next hstatic => exact Fold.read_of_fails ((throughout_iff.mp ht).1 hstatic)
    next => rfl
  | call target m args ih ihs =>
    have hin := (throughout_iff.mp ht).2
    rw [fold, Fold.run_bind (ih (hin _ (.head _))),
      Fold.run_bind (foldList_of_settled fun a ha => ihs a ha (hin a (.tail _ ha)))]
    rfl
  | staticCall m args ihs =>
    have hin := (throughout_iff.mp ht).2
    rw [fold, Fold.run_bind (foldList_of_settled fun a ha => ihs a ha (hin a ha))]
    rfl
  | binary op left right type ih ih' =>
    have hin := (throughout_iff.mp ht).2
    rw [fold, Fold.run_bind (ih (hin _ (.head _))),
      Fold.run_bind (ih' (hin _ (.tail _ (.head _))))]
    rfl
  | unary op operand type ih =>
    rw [fold, Fold.run_bind (ih ((throughout_iff.mp ht).2 _ (.head _)))]
    rfl
  | cond test ifTrue ifFalse ih ih' ih'' =>
    have hin := (throughout_iff.mp ht).2
    rw [fold, Fold.run_bind (ih (hin _ (.head _))),
      Fold.run_bind (ih' (hin _ (.tail _ (.head _)))),
      Fold.run_bind (ih'' (hin _ (.tail _ (.tail _ (.head _)))))]
    rfl
  | new c args ihs =>
    have hin := (throughout_iff.mp ht).2
    rw [fold, Fold.run_bind (foldList_of_settled fun a ha => ihs a ha (hin a ha))]
    rfl
  | array element items type ihs =>
    obtain ⟨hown, hin⟩ := throughout_iff.mp ht
    rw [fold, Fold.run_bind (foldList_of_settled fun i hi => ihs i hi (hin i hi)),
      show type = .arrayOf element from hown]
    rfl
  | cast operand type ih =>
    rw [fold, Fold.run_bind (ih ((throughout_iff.mp ht).2 _ (.head _)))]
    rfl
  | index target m args ih ihs =>
    have hin := (throughout_iff.mp ht).2
    rw [fold, Fold.run_bind (ih (hin _ (.head _))),
      Fold.run_bind (foldList_of_settled fun a ha => ihs a ha (hin a (.tail _ ha)))]
    rfl

end Term

theorem Function.fold_eq (h : Host) (f : Function) (store : Store) :
    f.fold h store = (⟨f.params, ((f.body.fold h).run ⟨store, 0⟩).1⟩,
      ((f.body.fold h).run ⟨store, 0⟩).2) :=
  rfl

/-- Folding reaches a normal form.  In a folded lambda every static member without a target, and every
member of a constant, fails to be read; so folding it again, with whatever objects there are by then,
reads no member and changes nothing. -/
theorem Function.fold_settled (h : Host) (f : Function) (hf : f.body.Steady)
    (store store' : Store) :
    (∀ u ∈ (f.fold h store).1.body.nodes,
      (∀ m, u = .staticMember m → m.isStatic = true → m.Fails none) ∧
        ∀ v type m, u = .member (.const v type) m → m.Fails (some v)) ∧
      (f.fold h store).1.fold h store' = ((f.fold h store).1, ⟨store', 0⟩) := by
  have hsettled := Term.settled_fold (h := h) hf ⟨store, 0⟩
  refine ⟨fun u hu => ⟨?_, ?_⟩, ?_⟩
  · rintro m rfl
    exact hsettled _ hu
  · rintro v type m rfl
    exact hsettled _ hu
  · have hagain : ((f.fold h store).1.body.fold h).run ⟨store', 0⟩ =
        ((f.fold h store).1.body, ⟨store', 0⟩) := Term.fold_of_settled hsettled
    rw [fold_eq h (f.fold h store).1 store', hagain]

/-- The successor of the absent node: a static member that folding reads, and a member of its value
that cannot be read. -/
def nowhere : Function :=
  let node : HostType := .named "Tests.Node"
  ⟨[], .member (.staticMember ⟨"Absent", node, node, true, false, some fun _ => return .null⟩)
    ⟨"Next", node, node, false, false, some Script.this.native⟩⟩

theorem Function.fold_settled_nowhere : ∃ node next,
    (nowhere.fold (.bare []) .empty).1.body = .member (.null node) next ∧ next.Fails (some .null) ∧
      (nowhere.fold (.bare []) .empty).1.fold (.bare []) .empty =
        ((nowhere.fold (.bare []) .empty).1, ⟨.empty, 0⟩) := by
  have hsteady : nowhere.body.Steady := by
    intro u hu m hm native hn call store store'
    rcases List.mem_cons.mp hu with rfl | hu
    · cases hm
      cases hn
      unfold Script.native Call.this
      dsimp only
      split <;> rfl
    · cases List.mem_singleton.mp hu
      cases hm
      cases hn
      rfl
  obtain ⟨hstay, hagain⟩ := fold_settled (.bare []) nowhere hsteady .empty .empty
  refine ⟨_, _, rfl, ?_, hagain⟩
  exact (hstay _ (.head _)).2 _ _ _ rfl

end

end FatArrow
