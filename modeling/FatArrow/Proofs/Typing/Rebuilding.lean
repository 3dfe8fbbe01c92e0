import FatArrow.Proofs.Meaning.Inlining
import FatArrow.Proofs.Typing.Rereading

/-!
# What is resolved is read again

Where the types of a host stand for each other by their shapes, and the members, methods and
constructors of each of them are found again, whatever an expression is resolved to is read again: one
fact for every kind of expression, and one induction over the syntax.
-/

namespace FatArrow

open Syntax (Node TypeNode)

/-- A term that names no type: it is no lambda, no static member, and no call of a static method other
than a sequence operation. -/
def Term.IsPlain : Term → Prop
  | .lambda _ _ | .staticMember _ => False
  | .staticCall m _ => m.isSequenceOp = true
  | _ => True

instance : DecidablePred Term.IsPlain
  | .lambda _ _ | .staticMember _ => .isFalse id
  | .staticCall m _ => inferInstanceAs (Decidable (m.isSequenceOp = true))
  | .param _ | .const _ _ | .member _ _ | .call _ _ _ | .binary _ _ _ _ | .unary _ _ _
  | .cond _ _ _ | .new _ _ | .array _ _ _ | .cast _ _ | .index _ _ _ => .isTrue trivial

/-! ## 1. Hosts -/

/-- A host whose types stand for each other by their shapes, are read as themselves, and have members,
methods and constructors that are found again for arguments of the types that are read.  Only its
sequence operations have type arguments. -/
structure Surface.Rebuilds (s : Surface) (B : HostType → Prop) : Prop where
  shaped : s.host.toTypeOrder.Shaped B
  unnamed : ∀ name types, s.resolver.method? name types = none
  reads : ∀ {t}, B t → s.ReadsType t
  written : ∀ {node t}, TypeNode.Named node → s.typeOf node = .ok t → B t
  primitive : ∀ {p}, p ≠ .void → B (.primitive p)
  arrayOf : ∀ {t}, B t → B (.arrayOf t)
  element : ∀ {t}, B t → t.isArray = true → ∃ item, t.element? = some item ∧ B item
  member : ∀ {t name m}, B t → s.member? t name = some m → m.isStatic = false →
    m.name = name ∧ Syntax.isName m.name = true ∧ B m.type
  method : ∀ {t name m}, B t → m ∈ s.host.methods t name → m.isStatic = false →
    m.name = name ∧ Syntax.isName m.name = true ∧ m.isGenericDefinition = false ∧
      m.typeArgs = [] ∧ B m.returns ∧ ∀ p ∈ m.params, B p
  indexer : ∀ {t m}, B t → m ∈ s.host.methods t "get_Item" → m.params ≠ []
  made : ∀ {t types c}, B t → s.host.constructor? t types = some c → c.declaring = t ∧
    (∀ p ∈ c.params, B p) ∧ s.host.toTypeOrder.Takes c.params types ∧
      ∀ {others}, s.host.toTypeOrder.RereadsAll c.params types others →
        s.host.constructor? t others = some c
  onValue : ∀ {receiver item name site m}, B receiver → (∀ t ∈ site.typeArgs, B t) →
    s.host.itemType? receiver = some item →
      CallSite.selectSequenceOp? s.host name receiver item site = some m →
        (∀ t ∈ m.typeArgs, B t) ∧ s.CallsOn receiver site.args m
  onType : ∀ {type name site m}, s.static? type name site = some m → m.isSequenceOp = true →
    m.typeArgs = site.typeArgs ∧ ∃ receiver rest, site.args = receiver :: rest ∧
      s.CallsOn receiver rest m
  sequence : ∀ {receiver types m}, B receiver → (∀ t ∈ m.typeArgs, B t) →
    s.CallsOn receiver types m → Syntax.isName m.name = true ∧ B m.returns ∧
      (∀ p ∈ m.params, B p) ∧ (∃ item rest, m.params = .sequenceOf item :: rest) ∧
        ∀ others, CallSite.select? s.host.toTypeOrder
          ((s.host.methods receiver m.name).filter fun n => !n.isStatic) ⟨others, m.typeArgs⟩ = none

/-- The parameters of a scope have names of their own, and types of the host. -/
structure Surface.Declares (B : HostType → Prop) (scope : List Param) : Prop where
  nodup : (scope.map (·.name)).Nodup
  names : ∀ p ∈ scope, Syntax.isName p.name = true
  built : ∀ p ∈ scope, B p.type

/-- What holds of what an expression is resolved to: a value that names no type is an operand that is
read again, and a method that waits for its call was selected for the arguments. -/
def Resolved.Rebuilt (s : Surface) (B : HostType → Prop) (scope : List Param)
    (site : Option CallSite) : Resolved → Prop
  | .value t => t.Throughout Term.IsPlain → ∃ type, s.Operand B scope t type
  | .method (.onValue target m) => ∃ c type name, site = some c ∧ target.type? = some type ∧
      (target.Throughout Term.IsPlain → s.Operand B scope target type) ∧
        CallSite.select? s.host.toTypeOrder
          ((s.host.methods type name).filter fun n => !n.isStatic) c = some m
  | .method (.alone m) => ∃ c type name, site = some c ∧ s.static? type name c = some m
  | .method (.onSequence receiver m) => ∃ c type item name, site = some c ∧
      receiver.type? = some type ∧
        (receiver.Throughout Term.IsPlain → s.Operand B scope receiver type) ∧
          s.host.itemType? type = some item ∧
            CallSite.selectSequenceOp? s.host name type item c = some m
  | .type _ | .pending _ _ => True

namespace Surface

variable {s : Surface} {B : HostType → Prop} {scope : List Param} {site : Option CallSite}
  {r : Resolved} {t : Term} {type : HostType} {span : Span}

/-! ## 2. Operands -/

/-- A term that is no constant is an operand where its type is one of the host and it is read again. -/
theorem operand_of_value? (hv : t.value? = none) (ht : t.type? = some type) (hb : B type)
    (h : t.Throughout Term.ReadsBack → s.Rereads scope t) : s.Operand B scope t type where
  typed := ht
  read := by cases t <;> first | rfl | cases hv
  built := hb
  spelled := by
    rintro v type rfl
    cases hv
  rereads := h

/-- An operand that names no type is read again. -/
def OperandIfPlain (s : Surface) (B : HostType → Prop) (scope : List Param) (t : Term)
    (type : HostType) : Prop :=
  t.Throughout Term.IsPlain → s.Operand B scope t type

theorem needOperand_rebuilt {o : Term × HostType} (hr : r.Rebuilt s B scope site)
    (h : r.needOperand span = .ok o) : s.OperandIfPlain B scope o.1 o.2 := by
  obtain ⟨rfl, htype⟩ := Resolved.needOperand_eq_ok h
  intro hplain
  obtain ⟨found, hfound⟩ := hr hplain
  cases hfound.typed.symm.trans htype
  exact hfound

end Surface

/-! ## 3. What conversions were made of -/

namespace Term

/-- What a conversion was made of names no type if the result does not. -/
theorem Retains.plain {t u : Term} (h : t.Retains u) (hu : u.Throughout IsPlain) :
    t.Throughout IsPlain := by
  cases h with
  | kept => exact hu
  | cast => exact (throughout_iff.mp hu).2 t (List.mem_singleton_self t)
  | constant => exact throughout_iff.mpr ⟨trivial, List.forall_mem_nil _⟩

theorem plain_of_asArguments {args : List Term} {params : List HostType}
    (hl : args.length = params.length)
    (h : ∀ a ∈ asArguments args params, a.Throughout IsPlain) : ∀ a ∈ args, a.Throughout IsPlain := by
  have hretains := retains_asArguments hl
  generalize asArguments args params = brought at h hretains
  induction hretains generalizing params with
  | nil => exact List.forall_mem_nil _
  | cons hfirst _ ih =>
    cases params with
    | nil => cases hl
    | cons param params =>
      obtain ⟨hplain, hrest⟩ := List.forall_mem_cons.mp h
      exact List.forall_mem_cons.mpr ⟨hfirst.plain hplain, ih (Nat.succ.inj hl) hrest⟩

end Term

namespace Surface

variable {s : Surface} {B : HostType → Prop} {scope : List Param} {site : Option CallSite}
  {r : Resolved} {t : Term} {type : HostType} {span : Span}

/-! ## 4. Arguments -/

/-- Operands with their types, for those that name no type. -/
def OperandsIfPlain (s : Surface) (B : HostType → Prop) (scope : List Param)
    (terms : List (Term × HostType)) : Prop :=
  ∀ a ∈ terms, s.OperandIfPlain B scope a.1 a.2

/-- Arguments are read again once they are brought to the types of their parameters. -/
theorem rereads_asArguments (hs : s.Rebuilds B) {terms : List (Term × HostType)}
    {params : List HostType} (ht : ∀ a ∈ terms, s.Operand B scope a.1 a.2) (hp : ∀ p ∈ params, B p)
    (hfits : s.host.toTypeOrder.Takes params (terms.map (·.2)))
    (hback : ∀ a ∈ Term.asArguments (terms.map (·.1)) params, a.Throughout Term.ReadsBack) :
    ∀ a ∈ Term.asArguments (terms.map (·.1)) params, s.Rereads scope a := by
  induction terms generalizing params with
  | nil => exact List.forall_mem_nil _
  | cons a terms ih =>
    cases hfits with
    | cons hfit hfits =>
      obtain ⟨hfirst, hrest⟩ := List.forall_mem_cons.mp ht
      obtain ⟨hparam, hparams⟩ := List.forall_mem_cons.mp hp
      obtain ⟨hb, hback⟩ := List.forall_mem_cons.mp hback
      exact List.forall_mem_cons.mpr ⟨rereads_asArgument hs.shaped hfirst hparam (hs.reads hparam)
        hfit hb, ih hrest hparams hfits hback⟩

/-- What is read of arguments is brought to the types of their parameters again. -/
theorem exists_again (hs : s.Rebuilds B) {terms : List (Term × HostType)} {params : List HostType}
    (ht : ∀ a ∈ terms, s.Operand B scope a.1 a.2) (hp : ∀ p ∈ params, B p)
    (hfits : s.host.toTypeOrder.Takes params (terms.map (·.2))) :
    ∃ again, ReadsAll (Term.asArguments (terms.map (·.1)) params) again ∧
      s.host.toTypeOrder.RereadsAll params (terms.map (·.2)) (again.map (·.2)) ∧
        Term.asArguments (again.map (·.1)) params = Term.asArguments (terms.map (·.1)) params := by
  obtain ⟨again, hterms, htyped, hreads, hsame⟩ :=
    Term.asArguments_again hs.shaped (fun a ha => (ht a ha).toIsOperand) hp hfits
  exact ⟨again, ⟨hterms, htyped⟩, hreads, hsame⟩

/-! ## 5. Names and members -/

theorem literal_rebuilt (hs : s.Rebuilds B) {value : Syntax.Literal} (hl : value.IsRead)
    (h : literalTerm value span = .ok t) : ∃ type, s.Operand B scope t type := by
  obtain ⟨v, rfl, hv⟩ := Term.literalTerm_spelled hl h
  have hbuilt : B v.literalType := by
    cases v with
    | null | bool | char | integer | single | double | string => exact hs.primitive nofun
    | _ => exact hv.elim
  refine ⟨_, ⟨rfl, rfl, hbuilt⟩, ?_, fun hback => ?_⟩
  · rintro _ _ ⟨⟩
    exact hv
  · exact rereads_const hv (Term.throughout_iff.mp hback).1 _

theorem ofName_rebuilt (hs : s.Rebuilds B) (hd : Declares B scope) {name : Syntax.Name}
    {typeArgs : List TypeNode} (h : s.ofName scope site name typeArgs span = .ok r) :
    r.Rebuilt s B scope site := by
  unfold ofName at h
  split at h
  next p hp =>
    cases h
    split at hp
    · have hp := List.mem_of_find?_eq_some hp
      exact fun _ => ⟨p.type, operand_of_value? rfl rfl (hd.built p hp) fun _ =>
        rereads_param hd.nodup hp (hd.names p hp)⟩
    · cases hp
  next =>
    cases site with
    | some c =>
      simp only [hs.unnamed, ite_self] at h
      cases h
      trivial
    | none =>
      dsimp only at h
      split at h
      · split at h <;> cases h <;> trivial
      · obtain ⟨_, -, h⟩ := bind_eq_ok.mp h
        obtain ⟨_, -, h⟩ := bind_eq_ok.mp h
        cases h
        trivial

theorem ofValue_rebuilt (hs : s.Rebuilds B) {name : Syntax.Name} {objectSpan : Span}
    (ht : (Resolved.value t).Rebuilt s B scope none)
    (h : s.ofValue site t name objectSpan span = .ok r) : r.Rebuilt s B scope site := by
  unfold ofValue at h
  split at h
  next => cases h
  next type htype =>
    have hoperand : s.OperandIfPlain B scope t type := by
      intro hplain
      obtain ⟨found, hfound⟩ := ht hplain
      cases hfound.typed.symm.trans htype
      exact hfound
    cases site with
    | some c =>
      dsimp only at h
      split at h
      next m hm =>
        cases h
        exact ⟨c, type, name.text, rfl, htype, hoperand, hm⟩
      next =>
        split at h
        next m hm =>
          cases h
          obtain ⟨item, hitem, hm⟩ := Option.bind_eq_some_iff.mp hm
          exact ⟨c, type, item, name.text, rfl, htype, hoperand, hitem, hm⟩
        next => cases h
    | none =>
      dsimp only at h
      split at h
      next harray =>
        cases h
        rw [Bool.and_eq_true] at harray
        intro hplain
        have hoperand := hoperand ((Term.throughout_iff.mp hplain).2 t (List.mem_singleton_self t))
        refine ⟨.int32, operand_of_value? rfl rfl (hs.primitive nofun) fun hback => ?_⟩
        have hback := (Term.throughout_iff.mp hback).2 t (List.mem_singleton_self t)
        exact rereads_length (hoperand.rereads hback) hoperand.read htype harray.1
      next hlength =>
        split at h
        next m hm =>
          cases h
          by_cases hstatic : m.isStatic = true
          · simp only [hstatic, ↓reduceIte]
            exact fun hplain => (Term.throughout_iff.mp hplain).1.elim
          · rw [Bool.not_eq_true] at hstatic
            simp only [hstatic, Bool.false_eq_true, ↓reduceIte]
            intro hplain
            have hoperand :=
              hoperand ((Term.throughout_iff.mp hplain).2 t (List.mem_singleton_self t))
            obtain ⟨hname, hisName, hbuilt⟩ := hs.member hoperand.built hm hstatic
            refine ⟨m.type, operand_of_value? rfl rfl hbuilt fun hback => ?_⟩
            have hback := (Term.throughout_iff.mp hback).2 t (List.mem_singleton_self t)
            rw [Bool.not_eq_true] at hlength
            rw [← hname] at hm hlength
            exact rereads_member (hoperand.rereads hback) hoperand.read htype hisName hlength hm
              hstatic
        next => cases h

theorem ofType_rebuilt {name : Syntax.Name} (h : s.ofType site type name span = .ok r) :
    r.Rebuilt s B scope site := by
  unfold ofType at h
  cases site with
  | some c =>
    dsimp only at h
    split at h
    next m hm =>
      cases h
      exact ⟨c, type, name.text, rfl, hm⟩
    next => cases h
  | none =>
    dsimp only at h
    split at h
    · split at h
      · cases h
        exact fun hplain => (Term.throughout_iff.mp hplain).1.elim
      · cases h
    · split at h <;> cases h
      trivial

theorem ofMember_rebuilt (hs : s.Rebuilds B) {object : Resolved} {objectSpan : Span}
    {name : Syntax.Name} {typeArgs : List TypeNode} (ho : object.Rebuilt s B scope none)
    (h : s.ofMember site object objectSpan name typeArgs span = .ok r) :
    r.Rebuilt s B scope site := by
  cases object with
  | value target => exact ofValue_rebuilt hs ho h
  | type type => exact ofType_rebuilt h
  | method callee => cases h
  | pending start at_ =>
    simp only [ofMember, ofPending] at h
    split at h
    · cases h
      trivial
    · split at h
      · split at h <;> cases h <;> trivial
      · obtain ⟨_, -, h⟩ := bind_eq_ok.mp h
        obtain ⟨_, -, h⟩ := bind_eq_ok.mp h
        cases h
        trivial

/-! ## 6. Calls and creations -/

/-- A call of a method of an instance; without a generic one among the candidates, no type arguments
are written behind its name. -/
theorem instanceCall_rebuilt (hs : s.Rebuilds B) {m : Method} {name : String}
    {typeArgs : List HostType} {terms : List (Term × HostType)}
    (ht : s.OperandIfPlain B scope t type) (hterms : s.OperandsIfPlain B scope terms)
    (hl : terms.length = m.params.length)
    (hm : CallSite.select? s.host.toTypeOrder
      ((s.host.methods type name).filter fun n => !n.isStatic) ⟨terms.map (·.2), typeArgs⟩ =
        some m) :
    (Resolved.value (.call t m (Term.asArguments (terms.map (·.1)) m.params))).Rebuilt s B scope
      none := by
  intro hplain
  obtain ⟨htarget, hargs⟩ := List.forall_mem_cons.mp (Term.throughout_iff.mp hplain).2
  have ht := ht htarget
  have hall : ∀ a ∈ terms, s.Operand B scope a.1 a.2 := fun a ha =>
    hterms a ha (Term.plain_of_asArguments (by simpa using hl) hargs a.1 (List.mem_map_of_mem ha))
  obtain ⟨n, hn, hbind⟩ := CallSite.exists_of_select? hm
  obtain ⟨hn, hinstance⟩ := List.mem_filter.mp hn
  obtain ⟨rfl, hisName, hplainMethod, hnone, hreturns, hparams⟩ :=
    hs.method ht.built hn (by simpa using hinstance)
  obtain ⟨htypeArgs, -, rfl⟩ | ⟨-, hgeneric, -⟩ := CallSite.bind?_cases hbind
  · obtain rfl : typeArgs = [] := htypeArgs
    refine ⟨m.returns, operand_of_value? rfl rfl hreturns fun hback => ?_⟩
    obtain ⟨hbackTarget, hbackArgs⟩ := List.forall_mem_cons.mp (Term.throughout_iff.mp hback).2
    have hfits := CallSite.select?_takes hm
    obtain ⟨again, hr, hreads, hsame⟩ := exists_again hs hall hparams hfits
    have hlength : again.length = m.params.length := by
      have hlength := hreads.length_eq
      rw [List.length_map, List.length_map] at hlength
      rw [hlength, hl]
    exact rereads_call (ht.rereads hbackTarget) ht.read ht.typed
      (rereads_asArguments hs hall hparams hfits hbackArgs) hr hisName hnone hlength hsame
      (CallSite.select?_again hreads hm)
  · cases hplainMethod.symm.trans hgeneric

/-- A call of a sequence operation: its first argument is a sequence, which is kept. -/
theorem sequenceCall_rebuilt (hs : s.Rebuilds B) {m : Method} {first : Term × HostType}
    {terms : List (Term × HostType)} (hfirst : s.OperandIfPlain B scope first.1 first.2)
    (hterms : s.OperandsIfPlain B scope terms) (hop : m.isSequenceOp = true)
    (hl : (first :: terms).length = m.params.length)
    (hcalls : B first.2 →
      (∀ type ∈ m.typeArgs, B type) ∧ s.CallsOn first.2 (terms.map (·.2)) m) :
    (Resolved.value (.staticCall m (Term.asArguments (first.1 :: terms.map (·.1)) m.params))).Rebuilt
      s B scope none := by
  intro hplain
  obtain ⟨hfirstPlain, hrestPlain⟩ := List.forall_mem_cons.mp
    (Term.plain_of_asArguments (by simpa using hl) (Term.throughout_iff.mp hplain).2)
  have hfirst := hfirst hfirstPlain
  have hall : ∀ a ∈ terms, s.Operand B scope a.1 a.2 := fun a ha =>
    hterms a ha (hrestPlain a.1 (List.mem_map_of_mem ha))
  obtain ⟨htypeArgs, hcalls⟩ := hcalls hfirst.built
  obtain ⟨hisName, hreturns, hparams, ⟨item, params, hsequence⟩, hown⟩ :=
    hs.sequence hfirst.built htypeArgs hcalls
  refine ⟨m.returns, operand_of_value? rfl rfl hreturns fun hback => ?_⟩
  obtain ⟨found, hitem, hselect⟩ := Option.bind_eq_some_iff.mp hcalls.found
  -- a receiver with items is no null
  have hnull : first.1.isNullConstant = false := by
    refine hfirst.not_null fun hobject => ?_
    have hno := (hs.shaped.items hfirst.built hitem).2
    rw [hobject] at hno
    cases hno
  have hkept : first.1.asArgument (.sequenceOf item) = first.1 := by
    refine Term.asArgument_eq_self hfirst.typed hnull ?_
    show List.contains _ (QualifiedName.ofDotted WellKnown.enumerable).text = false
    decide
  have hbrought (others : List Term) : Term.asArguments (first.1 :: others) m.params =
      first.1 :: Term.asArguments others params := by
    rw [hsequence]
    show first.1.asArgument _ :: _ = _
    rw [hkept]
    rfl
  have hfits := CallSite.selectSequenceOp?_takes hselect
  have hback := (Term.throughout_iff.mp hback).2
  rw [hbrought] at hback ⊢
  obtain ⟨hbackFirst, hbackRest⟩ := List.forall_mem_cons.mp hback
  rw [hsequence] at hparams hfits
  cases hfits with
  | cons hfit hfits =>
    obtain ⟨-, hparams⟩ := List.forall_mem_cons.mp hparams
    obtain ⟨again, hr, hreads, hsame⟩ := exists_again hs hall hparams hfits
    have hreadsAll : s.host.toTypeOrder.RereadsAll m.params (first.2 :: terms.map (·.2))
        (first.2 :: again.map (·.2)) :=
      hsequence ▸ .cons ⟨fun h => h, hfit, fun h => h⟩ hreads
    have hlength : again.length + 1 = m.params.length := by
      have hlength := hreads.length_eq
      rw [List.length_map, List.length_map] at hlength
      rw [hlength, ← hl, List.length_cons]
    refine rereads_sequenceCall (hfirst.rereads hbackFirst) hfirst.read hfirst.typed
      (rereads_asArguments hs hall hparams hfits hbackRest) hr hisName hop
      (fun type htype => hs.reads (htypeArgs type htype)) hlength ?_ ⟨hown _, ?_⟩
    · rw [hbrought, hsame]
    · exact Option.bind_eq_some_iff.mpr
        ⟨found, hitem, CallSite.selectSequenceOp?_again hreadsAll hselect⟩

theorem callOf_rebuilt (hs : s.Rebuilds B) {callee : Resolved} {calleeSpan : Span}
    {typeArgs : List HostType} {terms : List (Term × HostType)}
    (hc : callee.Rebuilt s B scope (some ⟨terms.map (·.2), typeArgs⟩))
    (htypeArgs : ∀ type ∈ typeArgs, B type) (hterms : s.OperandsIfPlain B scope terms)
    (h : callOf callee calleeSpan (terms.map (·.1)) span = .ok t) :
    (Resolved.value t).Rebuilt s B scope none := by
  cases callee with
  | method callee =>
    cases callee with
    | onValue target m =>
      simp only [callOf] at h
      split at h
      next hl =>
        cases h
        obtain ⟨_, type, name, ⟨⟩, -, ht, hm⟩ := hc
        exact instanceCall_rebuilt hs ht hterms (by simpa using hl) hm
      next => cases h
    | alone m =>
      simp only [callOf] at h
      split at h
      next hl =>
        cases h
        obtain ⟨_, type, name, ⟨⟩, hm⟩ := hc
        intro hplain
        -- a static method that is called on its type and is no sequence operation names the type
        have hop : m.isSequenceOp = true := (Term.throughout_iff.mp hplain).1
        obtain ⟨hsame, receiver, rest, hargs, hcalls⟩ := hs.onType hm hop
        have hargs : terms.map (·.2) = receiver :: rest := hargs
        have hsame : m.typeArgs = typeArgs := hsame
        cases terms with
        | nil => cases hargs
        | cons first terms =>
          obtain ⟨rfl, rfl⟩ := List.cons.inj hargs
          obtain ⟨hfirst, hrest⟩ := List.forall_mem_cons.mp hterms
          exact sequenceCall_rebuilt hs hfirst hrest hop (by simpa using hl)
            (fun _ => ⟨hsame ▸ htypeArgs, hcalls⟩) hplain
      next => cases h
    | onSequence receiver m =>
      simp only [callOf] at h
      split at h
      next hl =>
        cases h
        obtain ⟨_, type, item, name, ⟨⟩, -, hreceiver, hitem, hm⟩ := hc
        have hop := CallSite.isSequenceOp_of_selectSequenceOp? hm
        have hfirst : s.OperandIfPlain B scope (receiver, type).1 (receiver, type).2 := hreceiver
        exact sequenceCall_rebuilt hs hfirst hterms hop (by simpa using hl)
          fun hbuilt => hs.onValue hbuilt htypeArgs hitem hm
      next => cases h
  | _ => cases h

theorem creationOf_rebuilt (hs : s.Rebuilds B) {terms : List (Term × HostType)} (hb : B type)
    (hterms : s.OperandsIfPlain B scope terms) (h : s.creationOf type terms span = .ok t) :
    (Resolved.value t).Rebuilt s B scope none := by
  unfold creationOf at h
  extract_lets types at h
  split at h
  next c hc =>
    cases h
    obtain ⟨rfl, hparams, hfits, hagain⟩ := hs.made hb hc
    have hl : (terms.map (·.1)).length = c.params.length := by
      have hlength := hfits.length_eq
      rw [List.length_map] at hlength
      rw [List.length_map, hlength]
    intro hplain
    have hargs := (Term.throughout_iff.mp hplain).2
    have hall : ∀ a ∈ terms, s.Operand B scope a.1 a.2 := fun a ha =>
      hterms a ha (Term.plain_of_asArguments hl hargs a.1 (List.mem_map_of_mem ha))
    refine ⟨c.declaring, operand_of_value? rfl rfl hb fun hback => ?_⟩
    obtain ⟨again, hr, hreads, hsame⟩ := exists_again hs hall hparams hfits
    exact rereads_new (rereads_asArguments hs hall hparams hfits (Term.throughout_iff.mp hback).2) hr
      (hs.reads hb) hsame (hagain hreads)
  next => cases h

/-! ## 7. Element accesses -/

theorem indexOf_rebuilt (hs : s.Rebuilds B) {terms : List (Term × HostType)}
    (ht : s.OperandIfPlain B scope t type) (hterms : s.OperandsIfPlain B scope terms) {u : Term}
    (h : s.indexOf t type terms span = .ok u) : (Resolved.value u).Rebuilt s B scope none := by
  unfold indexOf at h
  extract_lets order types candidates at h
  split at h
  next harray =>
    split at h
    next index found =>
      split at h
      next hindex =>
        cases h
        intro hplain
        obtain ⟨hplainTarget, hplainIndex⟩ :=
          List.forall_mem_cons.mp (Term.throughout_iff.mp hplain).2
        have ht := ht hplainTarget
        have hplainIndex := (index.retains_convert .int32).plain
          (hplainIndex _ (List.mem_singleton_self _))
        have hoperand := hterms (index, found) (List.mem_singleton_self _) hplainIndex
        have hint : B .int32 := hs.primitive nofun
        have hfits : s.host.assignable .int32 found = true := by
          rcases hindex with rfl | ⟨-, hfits⟩
          · exact s.host.toTypeOrder.assignable_refl _
          · exact hfits
        -- an index is a number, so it is no null
        have hnull : index.isNullConstant = false := by
          refine hoperand.not_null ?_
          rintro rfl
          rcases hindex with hobject | ⟨hnumeric, -⟩
          · cases hobject
          · cases hnumeric
        obtain ⟨-, -, ⟨hread, htyped⟩ | ⟨hnullable, -⟩⟩ :=
          Term.asRead_convert hs.shaped hint hoperand.read hoperand.typed hnull
        · obtain ⟨item, hitem, hbuilt⟩ := hs.element ht.built harray
          refine ⟨item, operand_of_value? rfl ?_ hbuilt fun hback => ?_⟩
          · simp only [Term.joined, ht.typed, Option.bind_some, hitem]
            rfl
          · obtain ⟨hbackTarget, hbackIndex⟩ :=
              List.forall_mem_cons.mp (Term.throughout_iff.mp hback).2
            refine rereads_arrayIndex (ht.rereads hbackTarget) ht.read ht.typed harray ?_
              (by rw [hread, htyped]) hread
            exact rereads_convert hs.shaped hoperand hint (hs.reads hint) hnull hfits
              (hbackIndex _ (List.mem_singleton_self _))
        · cases hnullable
      next => cases h
    next => cases h
  next harray =>
    split at h
    next m hm =>
      cases h
      intro hplain
      obtain ⟨htarget, hargs⟩ := List.forall_mem_cons.mp (Term.throughout_iff.mp hplain).2
      have ht := ht htarget
      have hfits := CallSite.select?_takes hm
      have hl : (terms.map (·.1)).length = m.params.length := by
        have hlength : m.params.length = (terms.map (·.2)).length := hfits.length_eq
        rw [List.length_map] at hlength
        rw [List.length_map, hlength]
      have hall : ∀ a ∈ terms, s.Operand B scope a.1 a.2 := fun a ha =>
        hterms a ha (Term.plain_of_asArguments hl hargs a.1 (List.mem_map_of_mem ha))
      obtain ⟨n, hn, hbind⟩ := CallSite.exists_of_select? hm
      obtain ⟨hn, hinstance⟩ := List.mem_filter.mp hn
      obtain ⟨-, -, -, -, hreturns, hparams⟩ := hs.method ht.built hn (by simpa using hinstance)
      obtain ⟨-, -, rfl⟩ | ⟨hne, -⟩ := CallSite.bind?_cases hbind
      · refine ⟨m.returns, operand_of_value? rfl rfl hreturns fun hback => ?_⟩
        obtain ⟨hbackTarget, hbackArgs⟩ := List.forall_mem_cons.mp (Term.throughout_iff.mp hback).2
        obtain ⟨again, hr, hreads, hsame⟩ := exists_again hs hall hparams hfits
        have hne : Term.asArguments (terms.map (·.1)) m.params ≠ [] := by
          intro hnil
          have hlength := congrArg List.length hnil
          rw [Term.asArguments, List.length_map, List.length_zip, hl, Nat.min_self] at hlength
          exact hs.indexer ht.built hn (List.eq_nil_of_length_eq_zero hlength)
        exact rereads_index (ht.rereads hbackTarget) ht.read ht.typed (Bool.not_eq_true _ ▸ harray)
          hne (rereads_asArguments hs hall hparams hfits hbackArgs) hr hsame
          (CallSite.select?_again hreads hm)
      · exact absurd rfl hne
    next => cases h

end Surface

end FatArrow
