import FatArrow.Proofs.Meaning.Wrapping
import Mathlib.Data.List.Forall2

/-!
# Folding preserves meaning

A member is read once, when its lambda is folded, and not each time that the lambda is applied.  That
is the same where the outcome of the getter depends on nothing but the call and its value inhabits
the type of the member.
-/

namespace FatArrow

/-! ## 1. Members that can be folded -/

/-- The getter of the member is a pure function, and the values that it answers inhabit the type of
the member. -/
def Member.Honest (o : TypeOrder) (m : Member) : Prop :=
  ∀ native, m.getter = some native → ∀ call, ∃ outcome : Except EvalError Value,
    native call = liftM outcome ∧ ∀ v, outcome = .ok v → v.Inhabits o m.type

/-- The member that a term reads by itself. -/
def Term.member? : Term → Option Member
  | .member _ m | .staticMember m => some m
  | _ => none

/-- Every member that is read in the term can be folded, and every array that is made in it is of a
type without null, as array types are. -/
def Term.Foldable (o : TypeOrder) (t : Term) : Prop :=
  t.Throughout fun u => (∀ m, u.member? = some m → m.Honest o) ∧
    ∀ element items type, u = .array element items type → type.nullable = false

theorem Term.Foldable.inside {o : TypeOrder} {t : Term} (h : t.Foldable o) :
    ∀ u ∈ t.children, u.Foldable o :=
  (throughout_iff.mp h).2

/-- A member is read with the same outcome on every store. -/
theorem Member.Honest.get {o : TypeOrder} {m : Member} (h : m.Honest o) (receiver : Option Value) :
    ∃ outcome : Except EvalError Value,
      m.get receiver = liftM outcome ∧ ∀ v, outcome = .ok v → v.Inhabits o m.type := by
  unfold Member.get
  split
  next => exact ⟨.error _, rfl, nofun⟩
  next native hn =>
    split
    · exact ⟨.error _, rfl, nofun⟩
    · exact h native hn _

/-! ## 2. Terms of the same meaning -/

/-- A term that means the same as another, and whose type admits null added if that of the other
does. -/
structure Term.Means (t u : Term) : Prop where
  same : ∀ env, t.eval env = u.eval env
  typed : t.type?.any (·.nullable) = u.type?.any (·.nullable)

theorem Term.Means.refl (t : Term) : t.Means t := ⟨fun _ => rfl, rfl⟩

namespace Term

theorem receiver_of_means {t u : Term} (h : t.Means u) (m : Method) (v : Value) :
    receiver t m v = receiver u m v := by
  unfold receiver
  rw [h.typed]

theorem evalAll_of_means {ts us : List Term} (h : List.Forall₂ Means ts us) (env : Bindings) :
    evalAll env ts = evalAll env us := by
  induction h with
  | nil => rfl
  | cons first _ ih => simp only [evalAll, first.same env, ih]

namespace Means

variable {t t' u u' : Term} {ts us : List Term}

theorem member (h : t.Means u) (m : Member) : (Term.member t m).Means (.member u m) :=
  ⟨fun env => by simp only [eval, h.same env], rfl⟩

theorem call (h : t.Means u) (hs : List.Forall₂ Means ts us) (m : Method) :
    (Term.call t m ts).Means (.call u m us) :=
  ⟨fun env => by simp only [eval, h.same env, receiver_of_means h, evalAll_of_means hs env], rfl⟩

theorem staticCall (hs : List.Forall₂ Means ts us) (m : Method) :
    (Term.staticCall m ts).Means (.staticCall m us) :=
  ⟨fun env => by simp only [eval, evalAll_of_means hs env], rfl⟩

theorem binary (h : t.Means u) (h' : t'.Means u') (op : BinaryOp) (type : HostType) :
    (Term.binary op t t' type).Means (.binary op u u' type) := by
  refine ⟨fun env => ?_, rfl⟩
  by_cases hand : op = .andAlso
  · simp only [hand, eval, h.same env, h'.same env]
  by_cases hor : op = .orElse
  · simp only [hor, eval, h.same env, h'.same env]
  rw [eval_binary hand hor, eval_binary hand hor, h.same env, h'.same env]

theorem unary (h : t.Means u) (op : UnaryOp) (type : HostType) :
    (Term.unary op t type).Means (.unary op u type) :=
  ⟨fun env => by simp only [eval, h.same env], rfl⟩

theorem cond {test test' : Term} (h : test.Means test') (ht : t.Means u) (hf : t'.Means u') :
    (Term.cond test t t').Means (.cond test' u u') :=
  ⟨fun env => by simp only [eval, h.same env, ht.same env, hf.same env], ht.typed⟩

theorem new (hs : List.Forall₂ Means ts us) (c : Constructor) : (Term.new c ts).Means (.new c us) :=
  ⟨fun env => by simp only [eval, evalAll_of_means hs env], rfl⟩

theorem array (hs : List.Forall₂ Means ts us) (element : HostType) {type : HostType}
    (hn : type.nullable = false) : (Term.newArray element ts).Means (.array element us type) :=
  ⟨fun env => by simp only [newArray, eval, evalAll_of_means hs env], hn.symm⟩

theorem cast (h : t.Means u) (type : HostType) : (Term.cast t type).Means (.cast u type) :=
  ⟨fun env => by simp only [eval, h.same env], rfl⟩

theorem index (h : t.Means u) (hs : List.Forall₂ Means ts us) (m : Method) :
    (Term.index t m ts).Means (.index u m us) :=
  ⟨fun env => by simp only [eval, h.same env, evalAll_of_means hs env], rfl⟩

end Means

end Term

/-! ## 3. Folded terms -/

variable {r : Registry} {around : Surroundings}

theorem Fold.read_of_ok {h : Host} {m : Member} {receiver : Option Value} {otherwise : Term}
    {state : FoldState} {v : Value} {store : Store}
    (hget : m.get receiver state.store = .ok (v, store)) :
    (Fold.read h m receiver otherwise).run state = (h.wrap m.type v, ⟨store, state.folded + 1⟩) := by
  simp only [Fold.read, StateT.run_bind, StateT.run_get, pure_bind, hget]
  rfl

theorem Fold.read_of_error {h : Host} {m : Member} {receiver : Option Value} {otherwise : Term}
    {state : FoldState} {e : EvalError} (hget : m.get receiver state.store = .error e) :
    (Fold.read h m receiver otherwise).run state = (otherwise, state) := by
  simp only [Fold.read, StateT.run_bind, StateT.run_get, pure_bind, hget]
  rfl

/-- What a member is replaced by means what reading it means. -/
theorem Fold.read_means (h : r.Holds (Standard.modules around)) {m : Member}
    (hm : m.Honest r.order) {receiver : Option Value} {otherwise before : Term}
    (hread : ∀ env, before.eval env = m.get receiver)
    (htype : before.type?.any (·.nullable) = m.type.nullable) (ho : otherwise.Means before)
    (state : FoldState) : ((Fold.read r.host m receiver otherwise).run state).1.Means before := by
  obtain ⟨outcome, hget, hin⟩ := hm.get receiver
  cases outcome with
  | error e =>
    rw [Fold.read_of_error (e := e) (by rw [hget]; rfl)]
    exact ho
  | ok v =>
    rw [Fold.read_of_ok (v := v) (by rw [hget]; rfl)]
    have hwrap := Host.denotes_wrap h (hin v rfl)
    refine ⟨fun env => ?_, hwrap.typed.trans htype.symm⟩
    rw [hread, hget]
    exact hwrap.means env

theorem Term.foldList_means {ts : List Term}
    (h : ∀ t ∈ ts, ∀ state, ((t.fold r.host).run state).1.Means t) (state : FoldState) :
    List.Forall₂ Term.Means ((foldList r.host ts).run state).1 ts := by
  induction ts generalizing state with
  | nil => exact .nil
  | cons t ts ih =>
    obtain ⟨first, rest⟩ := List.forall_mem_cons.mp h
    exact .cons (first state) (ih rest _)

/-- A folded term means what the term means. -/
theorem Term.fold_means (h : r.Holds (Standard.modules around)) {t : Term}
    (ht : t.Foldable r.order) (state : FoldState) : ((t.fold r.host).run state).1.Means t := by
  induction t generalizing state with
  | lambda params body ih => exact ⟨fun _ => rfl, rfl⟩
  | param | const => exact .refl _
  | member target m ih =>
    have hhonest := (throughout_iff.mp ht).1.1 m rfl
    have htarget := ih (ht.inside _ (.head _)) state
    rw [Term.fold, StateT.run_bind]
    generalize (target.fold r.host).run state = folded at htarget ⊢
    obtain ⟨target', state'⟩ := folded
    dsimp only [Id.run, bind] at htarget ⊢
    split
    next v hv =>
      -- the target is folded to a constant, so it means its value everywhere
      cases target' with
      | const w type =>
        cases hv
        refine Fold.read_means h hhonest (fun env => ?_) rfl (htarget.member m) state'
        rw [eval, ← htarget.same env]
        rfl
      | _ => cases hv
    next => exact htarget.member m
  | staticMember m =>
    have hhonest := (throughout_iff.mp ht).1.1 m rfl
    unfold fold
    split
    · exact Fold.read_means h hhonest (fun _ => rfl) rfl (.refl _) state
    · exact .refl _
  | call target m args ih ihs =>
    exact (ih (ht.inside _ (.head _)) state).call
      (foldList_means (fun a ha => ihs a ha (ht.inside a (.tail _ ha))) _) m
  | staticCall m args ihs =>
    exact .staticCall (foldList_means (fun a ha => ihs a ha (ht.inside a ha)) state) m
  | binary op left right type ih ih' =>
    exact (ih (ht.inside _ (.head _)) state).binary (ih' (ht.inside _ (.tail _ (.head _))) _) op type
  | unary op operand type ih => exact (ih (ht.inside _ (.head _)) state).unary op type
  | cond test ifTrue ifFalse ih ih' ih'' =>
    exact .cond (ih (ht.inside _ (.head _)) state) (ih' (ht.inside _ (.tail _ (.head _))) _)
      (ih'' (ht.inside _ (.tail _ (.tail _ (.head _)))) _)
  | new c args ihs =>
    exact .new (foldList_means (fun a ha => ihs a ha (ht.inside a ha)) state) c
  | array element items type ihs =>
    have hn := (throughout_iff.mp ht).1.2 element items type rfl
    exact .array (foldList_means (fun i hi => ihs i hi (ht.inside i hi)) state) element hn
  | cast operand type ih => exact (ih (ht.inside _ (.head _)) state).cast type
  | index target m args ih ihs =>
    exact (ih (ht.inside _ (.head _)) state).index
      (foldList_means (fun a ha => ihs a ha (ht.inside a (.tail _ ha))) _) m

/-- The standard modules can be installed. -/
theorem Registry.exists_standard :
    ∃ r, Registry.empty.installAll (Standard.modules .still) = .ok r ∧
      r.Holds (Standard.modules .still) := by
  have hok : (Registry.empty.installAll (Standard.modules .still)).isOk = true := by decide +kernel
  have hkeys : (((Standard.modules .still).flatMap HostModule.entries).map TypeEntry.key).Nodup :=
    by decide +kernel
  cases hr : Registry.empty.installAll (Standard.modules .still) with
  | error e =>
    rw [hr] at hok
    cases hok
  | ok r => exact ⟨r, rfl, (installAll_holds hr hkeys).1⟩

/-- The beginning of time, which folding makes anew from its ticks. -/
def beginning : Function :=
  ⟨[], .staticMember
    ⟨"MinValue", .dateTime, .dateTime, true, false, some fun _ => return .dateTime .zero⟩⟩

end FatArrow
