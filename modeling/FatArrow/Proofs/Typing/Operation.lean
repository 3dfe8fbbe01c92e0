import FatArrow.Proofs.Meaning.HasType
import FatArrow.Proofs.Typing.Soundness

/-!
# What written operations mean

An operation is written with parameters, literals, parentheses, operators, array creations, element
accesses and lengths.  Its term consists of constants of their types, of operators on operands whose
types they ask for, and of casts along the order of the types; where an element access or a length
turns out to be no matter of arrays, it reads a member or calls an indexer instead.
-/

namespace FatArrow

/-! ## 1. Written operations -/

namespace Syntax.Node

mutual
/-- An expression of parameters, literals, parentheses, operators, array creations, element accesses
and lengths. -/
def isOperation : Node → Bool
  | .literal _ _ => true
  | .name _ typeArgs _ => typeArgs.isEmpty
  | .binary _ left right _ => left.isOperation && right.isOperation
  | .unary _ operand _ => operand.isOperation
  | .index object args _ => object.isOperation && areOperations args
  | .member object id typeArgs _ =>
    object.isOperation && id.text == "Length" && typeArgs.isEmpty
  | .newArray _ items _ => areOperations items
  | .paren inner _ => inner.isOperation
  | _ => false

/-- Expressions of this kind. -/
def areOperations : List Node → Bool
  | [] => true
  | node :: nodes => node.isOperation && areOperations nodes
end

end Syntax.Node

/-! ## 2. Terms -/

/-- A member that is read, or an indexer that is called. -/
def Term.isAccess : Term → Bool
  | .member _ _ | .staticMember _ | .index _ _ _ => true
  | _ => false

/-- The type of an operand, and that of the operator applied to it. -/
def UnaryOp.Makes (op : UnaryOp) (operand type : HostType) : Prop :=
  match op with
  | .arrayLength => type = .int32
  | .not => type.primitive? = some .boolean
  | _ => type = operand

/-- The terms of operations, with their types. -/
inductive Term.Operates (o : TypeOrder) (scope : List Param) : Term → HostType → Prop where
  | param {p : Param} (declared : p ∈ scope) : Operates o scope (.param p) p.type
  | const {value : Value} {type : HostType} (has : value.HasType o type) :
      Operates o scope (.const value type) type
  | binary {op : BinaryOp} {left right : Term} {a b type : HostType}
      (first : Operates o scope left a) (second : Operates o scope right b)
      (joins : op.Joins a b type) : Operates o scope (.binary op left right type) type
  | unary {op : UnaryOp} {operand : Term} {t type : HostType} (inside : Operates o scope operand t)
      (applies : op.Applies t) (makes : op.Makes t type) :
      Operates o scope (.unary op operand type) type
  | array {element : HostType} {items : List Term}
      (inside : ∀ i ∈ items, Operates o scope i element) :
      Operates o scope (.array element items (.arrayOf element)) (.arrayOf element)
  | cast {operand : Term} {source type : HostType} (inside : Operates o scope operand source)
      (fits : o.assignable type source = true) : Operates o scope (.cast operand type) type
  | access {t : Term} {type : HostType} (isAccess : t.isAccess = true)
      (typed : t.type? = some type) : Operates o scope t type

namespace Term.Operates

variable {o : TypeOrder} {scope : List Param} {t : Term} {source type : HostType}

theorem type? (h : t.Operates o scope type) : t.type? = some type := by
  cases h <;> first | rfl | assumption

/-- A null constant has the values of any type that admits null. -/
theorem null (h : type.admitsNull = true) : (Term.null type).Operates o scope type :=
  .const (.null h)

theorem retyped? {value : Value} {target : HostType} (h : Term.retyped? value source target = some t) :
    t.Operates o scope target := by
  unfold Term.retyped? at h
  split at h
  · split at h
    next hadmits =>
      cases h
      exact null hadmits
    next => cases h
  · simp only [Option.bind_eq_bind, Option.bind_eq_some_iff] at h
    obtain ⟨_, -, kind, hkind, h⟩ := h
    split at h
    · obtain ⟨w, hw, rfl⟩ := Option.map_eq_some_iff.mp h
      exact .const (.primitive (Value.convert?_primitive? hw) hkind)
    · cases h

/-- A term that is converted along the order operates at the type it is converted to. -/
theorem convert (h : t.Operates o scope source) {target : HostType}
    (hfits : o.assignable target source = true) : (t.convert target).Operates o scope target := by
  unfold Term.convert
  rw [h.type?]
  dsimp only
  split
  next hsame =>
    rw [← hsame]
    exact h
  next =>
    split
    next value type =>
      cases hr : Term.retyped? value type target with
      | none => exact .cast h hfits
      | some u => exact retyped? hr
    next => exact .cast h hfits

/-- An operand that is brought to the type of the other one operates at its own type or at that. -/
theorem coerce (h : t.Operates o scope source) (target : HostType) :
    ∃ type, (t.coerce o target).Operates o scope type := by
  unfold Term.coerce
  rw [h.type?]
  dsimp only
  split
  · exact ⟨source, h⟩
  · split
    · split
      next hadmits => exact ⟨target, null hadmits⟩
      next => exact ⟨source, h⟩
    · split
      next => exact ⟨source, h⟩
      next hfits =>
        simp only [Bool.or_eq_true, Bool.not_eq_true', not_or, Bool.not_eq_false] at hfits
        exact ⟨target, h.convert hfits.2⟩

end Term.Operates

/-! ## 3. Elaboration -/

/-- What an operation resolves to: where it is a value, the term of an operation. -/
def Resolved.Operates (o : TypeOrder) (scope : List Param) : Resolved → Prop
  | .value t => ∃ type, t.Operates o scope type
  | _ => True

section

variable {s : Surface} {scope : List Param} {span : Span}

theorem Resolved.needOperand_operates {o : TypeOrder} {r : Resolved} {operand : Term × HostType}
    (hr : r.Operates o scope) (h : r.needOperand span = .ok operand) :
    operand.1.Operates o scope operand.2 := by
  obtain ⟨t, ht, hoperand⟩ := bind_eq_ok.mp h
  cases r with
  | value u =>
    cases ht
    obtain ⟨type, hu⟩ := hr
    rw [hu.type?] at hoperand
    cases hoperand
    exact hu
  | _ => cases ht

theorem literalTerm_operates {o : TypeOrder} {literal : Syntax.Literal} {t : Term}
    (h : literalTerm literal span = .ok t) : ∃ type, t.Operates o scope type := by
  unfold literalTerm at h
  split at h <;> cases h
  all_goals first | exact ⟨_, .const (.primitive rfl rfl)⟩ | exact ⟨_, .null rfl⟩

theorem binaryOf_operates {op : Syntax.BinaryOperator} {left right : Term × HostType} {t : Term}
    (hl : left.1.Operates s.host.toTypeOrder scope left.2)
    (hr : right.1.Operates s.host.toTypeOrder scope right.2)
    (h : s.binaryOf op left right span = .ok t) :
    ∃ type, t.Operates s.host.toTypeOrder scope type := by
  obtain ⟨a, ha⟩ := hl.coerce right.2
  obtain ⟨b, hb⟩ := hr.coerce left.2
  unfold Surface.binaryOf at h
  simp only [ha.type?, hb.type?, Option.getD_some] at h
  split at h
  next chosen hchosen =>
    cases h
    obtain ⟨type, he, hjoins⟩ := typedBinary?_joins ha.type? hchosen
    rw [he]
    exact ⟨type, .binary ha hb hjoins⟩
  next => cases h

/-- An operator applied to an operand of a type has the type that it makes of it. -/
theorem applied_makes {op : UnaryOp} {operand : Term} {t : HostType} (ht : operand.type? = some t)
    (h : op.Applies t) :
    ∃ type, Term.applied op operand = .unary op operand type ∧ op.Makes t type := by
  refine ⟨_, rfl, ?_⟩
  cases op with
  | not =>
    have hboolean : (t.shape == .primitive .boolean) = true := h
    have hshape : t.shape = .primitive .boolean := beq_iff_eq.mp hboolean
    have hprimitive : t.primitive? = some .boolean := by simp only [HostType.primitive?, hshape]
    simp only [UnaryOp.Makes, ht, Option.getD_some]
    split
    · rfl
    · exact hprimitive
  | arrayLength => rfl
  | negate | unaryPlus => simp only [UnaryOp.Makes, ht, Option.getD_some]
  | postIncrement | postDecrement => exact h.elim

theorem applied_operates {o : TypeOrder} {op : UnaryOp} {operand : Term} {t : HostType}
    (ht : operand.Operates o scope t) (h : op.Applies t) :
    ∃ type, (Term.applied op operand).Operates o scope type := by
  obtain ⟨type, he, hmakes⟩ := applied_makes ht.type? h
  rw [he]
  exact ⟨type, .unary ht h hmakes⟩

theorem ofMember_operates {object r : Resolved} {objectSpan : Span} {name : Syntax.Name}
    {typeArgs : List Syntax.TypeNode} (ho : object.Operates s.host.toTypeOrder scope)
    (h : s.ofMember none object objectSpan name typeArgs span = .ok r) :
    r.Operates s.host.toTypeOrder scope := by
  cases object with
  | value target =>
    obtain ⟨type, ht⟩ := ho
    simp only [Surface.ofMember, Surface.ofValue, ht.type?] at h
    split at h
    next harray =>
      cases h
      exact applied_operates ht (Bool.and_eq_true_iff.mp harray).1
    next =>
      split at h
      next m _ =>
        cases h
        by_cases hstatic : m.isStatic
        · simp only [hstatic, ↓reduceIte]
          exact ⟨_, .access rfl rfl⟩
        · simp only [hstatic, Bool.false_eq_true, ↓reduceIte]
          exact ⟨_, .access rfl rfl⟩
      next => cases h
  | type type =>
    simp only [Surface.ofMember, Surface.ofType] at h
    split at h
    · split at h
      · cases h
        exact ⟨_, .access rfl rfl⟩
      · cases h
    · split at h <;> cases h
      trivial
  | method callee => cases h
  | pending start at_ =>
    simp only [Surface.ofMember, Surface.ofPending] at h
    split at h
    · split at h <;> cases h <;> trivial
    · obtain ⟨_, _, h⟩ := bind_eq_ok.mp h
      obtain ⟨_, _, h⟩ := bind_eq_ok.mp h
      cases h
      trivial

theorem indexOf_operates {target : Term} {type : HostType} {args : List (Term × HostType)} {t : Term}
    (ht : target.Operates s.host.toTypeOrder scope type)
    (ha : ∀ a ∈ args, a.1.Operates s.host.toTypeOrder scope a.2)
    (h : s.indexOf target type args span = .ok t) :
    ∃ type, t.Operates s.host.toTypeOrder scope type := by
  unfold Surface.indexOf at h
  extract_lets order types candidates at h
  split at h
  next harray =>
    split at h
    next index found =>
      split at h
      next hindex =>
        cases h
        have hi := ha (index, found) (List.mem_singleton_self _)
        have hfits : order.assignable .int32 found = true := by
          rcases hindex with rfl | hindex
          · exact TypeOrder.assignable_refl _ _
          · exact hindex.2
        have hjoins : BinaryOp.arrayIndex.Joins type .int32 (type.element?.getD .object) :=
          ⟨harray, rfl, rfl⟩
        simp only [Term.joined, ht.type?, Option.bind_some]
        exact ⟨_, .binary ht (hi.convert hfits) hjoins⟩
      next => cases h
    next => cases h
  next =>
    split at h
    next m _ =>
      cases h
      exact ⟨_, .access rfl rfl⟩
    next => cases h

/-- An accepted item operates at its type, that of the items before it if there are any. -/
theorem itemOf_operates {declared element : Option HostType} {item result : Term × HostType}
    (ht : item.1.Operates s.host.toTypeOrder scope item.2)
    (h : s.itemOf declared element item span = .ok result) :
    result.1.Operates s.host.toTypeOrder scope result.2 ∧ ∀ t, element = some t → result.2 = t := by
  obtain ⟨rfl | ⟨target, -, rfl⟩, hsame⟩ := itemOf_eq_ok h
  · exact ⟨ht, hsame⟩
  · refine ⟨?_, hsame⟩
    obtain ⟨type, hoperates⟩ := ht.coerce target
    simp only [hoperates.type?, Option.getD_some]
    exact hoperates

mutual

/-- An operation resolves to the term of an operation, if it resolves to a value. -/
theorem resolve_operates {s : Surface} {scope : List Param} {r : Resolved} (node : Syntax.Node)
    (hnode : node.isOperation = true) (h : s.resolve scope none node = .ok r) : r.Operates s.host.toTypeOrder scope := by
  cases node with
  | literal value span =>
    obtain ⟨t, ht, h⟩ := bind_eq_ok.mp h
    cases h
    exact literalTerm_operates ht
  | name id typeArgs span =>
    have hargs : typeArgs.isEmpty = true := hnode
    simp only [Surface.resolve, Surface.ofName, hargs, ↓reduceIte] at h
    split at h
    next p hp =>
      cases h
      exact ⟨_, .param (List.mem_of_find?_eq_some hp)⟩
    next => split at h <;> cases h <;> trivial
  | binary op left right span =>
    obtain ⟨hl, hr⟩ := Bool.and_eq_true_iff.mp hnode
    obtain ⟨a, ha, h⟩ := bind_eq_ok.mp h
    obtain ⟨a', ha', h⟩ := bind_eq_ok.mp h
    obtain ⟨b, hb, h⟩ := bind_eq_ok.mp h
    obtain ⟨b', hb', h⟩ := bind_eq_ok.mp h
    obtain ⟨t, ht, h⟩ := bind_eq_ok.mp h
    cases h
    exact binaryOf_operates (Resolved.needOperand_operates (resolve_operates left hl ha) ha')
      (Resolved.needOperand_operates (resolve_operates right hr hb) hb') ht
  | unary op operand span =>
    obtain ⟨a, ha, h⟩ := bind_eq_ok.mp h
    obtain ⟨⟨t, type⟩, ha', h⟩ := bind_eq_ok.mp h
    dsimp only at h
    split at h
    next chosen hchosen =>
      cases h
      exact applied_operates (Resolved.needOperand_operates (resolve_operates operand hnode ha) ha')
        (typedUnary?_applies hchosen)
    next => cases h
  | index object args span =>
    obtain ⟨hobject, hargs⟩ := Bool.and_eq_true_iff.mp hnode
    obtain ⟨a, ha, h⟩ := bind_eq_ok.mp h
    obtain ⟨⟨target, type⟩, ha', h⟩ := bind_eq_ok.mp h
    obtain ⟨terms, hterms, h⟩ := bind_eq_ok.mp h
    obtain ⟨t, ht, h⟩ := bind_eq_ok.mp h
    cases h
    exact indexOf_operates (Resolved.needOperand_operates (resolve_operates object hobject ha) ha')
      (arguments_operates args hargs hterms) ht
  | member object id typeArgs span =>
    simp only [Syntax.Node.isOperation, Bool.and_eq_true] at hnode
    obtain ⟨found, hfound, h⟩ := bind_eq_ok.mp h
    exact ofMember_operates (resolve_operates object hnode.1.1 hfound) h
  | newArray written nodes span =>
    obtain ⟨declared, terms, type, hterms, rfl⟩ : ∃ declared terms type,
        s.items scope declared declared nodes = .ok (terms, some type) ∧
          r = .value (.newArray type terms) := by
      simp only [Surface.resolve] at h
      split at h
      all_goals
        obtain ⟨declared, _, h⟩ := bind_eq_ok.mp h
        obtain ⟨⟨terms, element⟩, hterms, h⟩ := bind_eq_ok.mp h
        cases element with
        | none => cases h
        | some type =>
          cases h
          exact ⟨_, _, _, hterms, rfl⟩
    exact ⟨_, .array fun i hi => (items_operates nodes hnode hterms).1 i hi type rfl⟩
  | paren inner span => exact resolve_operates inner hnode h
  | _ => cases hnode

/-- So do the arguments of an element access. -/
theorem arguments_operates {s : Surface} {scope : List Param} {terms : List (Term × HostType)} (nodes : List Syntax.Node)
    (hnodes : Syntax.Node.areOperations nodes = true) (h : s.arguments scope nodes = .ok terms) :
    ∀ a ∈ terms, a.1.Operates s.host.toTypeOrder scope a.2 := by
  cases nodes with
  | nil =>
    cases h
    exact nofun
  | cons node nodes =>
    obtain ⟨hnode, hnodes⟩ := Bool.and_eq_true_iff.mp hnodes
    simp only [Surface.arguments] at h
    split at h
    · cases h
    obtain ⟨a, ha, h⟩ := bind_eq_ok.mp h
    obtain ⟨first, hfirst, h⟩ := bind_eq_ok.mp h
    obtain ⟨rest, hrest, h⟩ := bind_eq_ok.mp h
    cases h
    exact List.forall_mem_cons.mpr
      ⟨Resolved.needOperand_operates (resolve_operates node hnode ha) hfirst,
        arguments_operates nodes hnodes hrest⟩

/-- The items of an array operate at the one type that is found for them. -/
theorem items_operates {s : Surface} {scope : List Param} {declared element found : Option HostType}
    {terms : List Term} (nodes : List Syntax.Node) (hnodes : Syntax.Node.areOperations nodes = true)
    (h : s.items scope declared element nodes = .ok (terms, found)) :
    (∀ i ∈ terms, ∀ t, found = some t → i.Operates s.host.toTypeOrder scope t) ∧
      ∀ t, element = some t → found = some t := by
  cases nodes with
  | nil =>
    cases h
    exact ⟨nofun, fun _ h => h⟩
  | cons node nodes =>
    obtain ⟨hnode, hnodes⟩ := Bool.and_eq_true_iff.mp hnodes
    obtain ⟨a, ha, h⟩ := bind_eq_ok.mp h
    obtain ⟨item, hitem, h⟩ := bind_eq_ok.mp h
    obtain ⟨⟨term, type⟩, hterm, h⟩ := bind_eq_ok.mp h
    obtain ⟨⟨rest, found'⟩, hrest, h⟩ := bind_eq_ok.mp h
    cases h
    obtain ⟨hoperates, hsame⟩ := itemOf_operates
      (Resolved.needOperand_operates (resolve_operates node hnode ha) hitem) hterm
    obtain ⟨ihitems, ihkept⟩ := items_operates nodes hnodes hrest
    -- the type found for the items is that of this one
    have hfound : found = some type := by
      refine ihkept type ?_
      cases element with
      | none => rfl
      | some expected => exact congrArg some (hsame expected rfl).symm
    refine ⟨List.forall_mem_cons.mpr ⟨fun t ht => ?_, ihitems⟩, fun t ht => ?_⟩
    · rw [hfound] at ht
      cases ht
      exact hoperates
    · rw [hfound, ← hsame t ht]

end

/-- The body of a lambda whose written body is an operation. -/
theorem elaborate_operates {shape : Option LambdaShape} {written : Syntax.Lambda} {f : Function}
    (hbody : written.body.isOperation = true) (h : s.elaborate shape written = .ok f) :
    (f.params.map (·.name)).Nodup ∧ ∃ type, f.body.Operates s.host.toTypeOrder f.params type := by
  obtain ⟨found, body, hnodup, -, hfound, hvalue, hcloses⟩ := Surface.elaborate_eq_ok h
  refine ⟨hnodup, ?_⟩
  have hoperates := resolve_operates written.body hbody hfound
  cases found with
  | value t =>
    cases hvalue
    obtain ⟨type, ht⟩ := hoperates
    rcases hcloses with ⟨-, hresult⟩ | ⟨wanted, -, hresult⟩
    · rw [hresult]
      exact ⟨type, ht⟩
    · unfold Surface.returned at hresult
      rw [ht.type?] at hresult
      dsimp only at hresult
      split at hresult
      next =>
        rw [← Except.ok.inj hresult]
        exact ⟨type, ht⟩
      next =>
        split at hresult
        next hfits =>
          rw [← Except.ok.inj hresult]
          exact ⟨wanted, ht.convert hfits⟩
        next => cases hresult
  | _ => cases hvalue

end

end FatArrow
