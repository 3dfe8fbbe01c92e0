import FatArrow.Proofs.Registry.Ancestors
import FatArrow.Proofs.Typing.Reference

/-!
# Static members of registered types

Where the entries of a registry with static members stand under names that are read as their types,
and those with static methods stand alone, every static member and method that is found anywhere is
found again: behind the name of its type, or on its first argument.
-/

namespace FatArrow

/-- An entry whose type is printed as a name and has no arguments. -/
structure TypeEntry.IsOwner (s : Surface) (e : TypeEntry) : Prop where
  plain : e.isGeneric = false
  key : e.type.key? = some e.key
  prints : s.Prints e.type

/-- What the entries of a registry say of static members: they are properties, and methods of
entries that stand alone.  Only the sequence operations are generic; they are the static methods of
their type, they take a sequence first, and those that are not generic share their name with no
generic one and with no method of an instance. -/
structure Surface.HasStatics (s : Surface) (es : List TypeEntry) : Prop where
  fields : ∀ e ∈ es, e.fields = []
  property : ∀ e ∈ es, ∀ m ∈ e.properties, m.isStatic = true →
    e.IsOwner s ∧ m.declaring = e.type ∧ Syntax.isName m.name = true
  method : ∀ e ∈ es, ∀ m ∈ e.methods, m.typeArgs = [] ∧ (m.isStatic = true →
    e.IsOwner s ∧ e.Alone es ∧ m.declaring = some e.type ∧ Syntax.isName m.name = true)
  generic : ∀ e ∈ es, ∀ m ∈ e.methods, m.arity ≠ 0 → m.isSequenceOp = true
  sequence : ∀ e ∈ es, ∀ m ∈ e.methods, m.isSequenceOp = true → s.host.sequenceOps? = some e.type ∧
    (∃ item rest, m.params = .sequenceOf item :: rest) ∧
      ∀ n ∈ e.methods, n.isStatic = n.isSequenceOp
  single : ∀ e ∈ es, ∀ m ∈ e.methods, m.isSequenceOp = true → m.arity = 0 →
    (∀ n ∈ e.methods, n.name = m.name → n.arity = 0) ∧
      ∀ d ∈ es, ∀ n ∈ d.methods, n.name = m.name → n.isStatic = true
  items : ∃ e ∈ es, e.itemType.isSome ∧ ∀ item, (HostType.sequenceOf item).key? = some e.key

namespace Surface.HasStatics

variable {s : Surface} {r : Registry} {es : List TypeEntry} {type : HostType} {name : String}

/-! ## 1. Members -/

theorem member_again (h : s.HasStatics es) (hr : s.host = r.host) (hl : r.Lists es) {m : Member}
    (hm : s.member? type name = some m) (hstatic : m.isStatic = true) :
    s.Prints m.declaring ∧ Syntax.isName m.name = true ∧ s.member? m.declaring m.name = some m := by
  rw [member?, hr, Option.or_eq_some_iff] at hm
  -- it is a property, for no entry has fields
  rcases hm with hm | ⟨-, hm⟩
  · obtain ⟨⟨e, receiver⟩, ha, n, hn, hfound, rfl, rfl⟩ := Registry.exists_of_property? hm
    have he : e ∈ es := hl.entry_mem ha
    rw [Ancestor.isStatic_bindMember] at hstatic
    obtain ⟨howner, hdeclaring, hname⟩ := h.property e he n hn hstatic
    rw [Ancestor.bindMember_plain howner.plain, hdeclaring]
    refine ⟨howner.prints, hname, ?_⟩
    obtain ⟨rest, hlineage⟩ := hl.lineage_eq_cons he howner.key
    have hfound : e.property? n.name = some n := hfound
    have hagain : r.host.property? e.type n.name = some n := by
      show (r.lineage e.type).findSome? _ = _
      rw [hlineage, List.findSome?_cons, hfound, Option.map_some,
        Ancestor.bindMember_plain howner.plain]
    rw [member?, hr, hagain]
    rfl
  · obtain ⟨a, ha, n, hn, -⟩ := Registry.exists_of_field? hm
    exact absurd (h.fields _ (hl.entry_mem ha)) (List.ne_nil_of_mem hn)

/-! ## 2. Methods -/

/-- Where a static method is found, the methods are those of its declaring type. -/
theorem methods_again (h : s.HasStatics es) (hl : r.Lists es) {m : Method}
    (hm : m ∈ r.methods type name) (hstatic : m.isStatic = true) :
    ∃ e ∈ es, m ∈ e.methods ∧ m.name = name ∧ m.declaring = some e.type ∧ e.IsOwner s ∧
      r.methods e.type name = r.methods type name ∧
        ∀ n ∈ r.methods type name, n ∈ e.methods ∧ n.name = name := by
  obtain ⟨⟨e, receiver⟩, ha, n, hn, hname, hbind⟩ := Registry.exists_of_mem_methods hm
  have he : e ∈ es := hl.entry_mem ha
  rw [hbind, Ancestor.isStatic_bindMethod] at hstatic
  obtain ⟨howner, halone, hdeclaring, -⟩ := (h.method e he n hn).2 hstatic
  rw [Ancestor.bindMethod_plain howner.plain] at hbind
  subst hbind
  have hlineage : r.lineage type = [⟨e, type⟩] := hl.lineage_eq_singleton halone ha
  have hself : r.lineage e.type = [⟨e, e.type⟩] := by
    obtain ⟨rest, hcons⟩ := hl.lineage_eq_cons he howner.key
    have hin : ⟨e, e.type⟩ ∈ r.lineage e.type := hcons ▸ List.mem_cons_self
    exact hl.lineage_eq_singleton halone hin
  refine ⟨e, he, hn, hname, hdeclaring, howner, ?_, fun o ho => ?_⟩
  · have hid (t : HostType) : (Ancestor.mk e t).bindMethod = id :=
      funext fun o => Ancestor.bindMethod_plain howner.plain t o
    unfold Registry.methods
    rw [hself, hlineage]
    simp only [List.flatMap_cons, List.flatMap_nil, hid]
  · obtain ⟨b, hb, o, hin, hoName, rfl⟩ := Registry.exists_of_mem_methods ho
    rw [hlineage, List.mem_singleton] at hb
    subst hb
    rw [Ancestor.bindMethod_plain howner.plain]
    exact ⟨hin, hoName⟩

/-- What is called on a type is called on the declaring type, with the type arguments bound. -/
theorem static_again (h : s.HasStatics es) (hr : s.host = r.host) (hl : r.Lists es)
    {site : CallSite} {m : Method} (hm : s.static? type name site = some m) :
    ∃ e ∈ es, ∃ n ∈ e.methods, CallSite.bind? site.typeArgs n = some m ∧ n.name = name ∧
      n.isStatic = true ∧ n.declaring = some e.type ∧ Syntax.isName name = true ∧ e.IsOwner s ∧
        r.methods e.type name = r.methods type name ∧
          ∀ n ∈ r.methods type name, n ∈ e.methods ∧ n.name = name := by
  rw [static?, hr] at hm
  obtain ⟨n, hn, hbind⟩ := CallSite.exists_of_select? hm
  obtain ⟨hn, hstatic⟩ := List.mem_filter.mp hn
  obtain ⟨e, he, hin, hname, hdeclaring, howner, hsame, hall⟩ := h.methods_again hl hn hstatic
  obtain ⟨-, -, -, hword⟩ := (h.method e he n hin).2 hstatic
  exact ⟨e, he, n, hin, hbind, hname, hstatic, hdeclaring, hname ▸ hword, howner, hsame, hall⟩

theorem method_again (h : s.HasStatics es) (hr : s.host = r.host) (hl : r.Lists es)
    {site : CallSite} {m : Method} (hm : s.static? type name site = some m)
    (hop : m.isSequenceOp = false) :
    site.typeArgs = [] ∧ m.typeArgs = [] ∧ Syntax.isName m.name = true ∧
      ∃ declaring, m.declaring = some declaring ∧ s.Prints declaring ∧
        s.static? declaring m.name site = some m := by
  obtain ⟨e, he, n, hn, hbind, rfl, -, hdeclaring, hword, howner, hsame, -⟩ := h.static_again hr hl hm
  -- a generic method would be a sequence operation
  have harity : n.arity = 0 := by
    by_contra hne
    rw [CallSite.isSequenceOp_of_bind? hbind, h.generic e he n hn hne] at hop
    cases hop
  have hplain : n.isGenericDefinition = false := by rw [Method.isGenericDefinition, harity]; rfl
  obtain ⟨htypeArgs, -, rfl⟩ | ⟨-, hgeneric, -⟩ := CallSite.bind?_cases hbind
  · refine ⟨htypeArgs, (h.method e he m hn).1, hword, e.type, hdeclaring, howner.prints, ?_⟩
    rw [static?, hr] at hm ⊢
    show CallSite.select? _ ((r.methods e.type m.name).filter _) site = _
    rw [hsame]
    exact hm
  · cases hplain.symm.trans hgeneric

/-! ## 3. Sequence operations -/

theorem select?_eq_none {o : TypeOrder} {candidates : List Method} {site : CallSite}
    (h : ∀ n ∈ candidates, CallSite.bind? site.typeArgs n = none) :
    CallSite.select? o candidates site = none := by
  have hnone : candidates.filterMap (CallSite.bind? site.typeArgs) = [] :=
    List.filterMap_eq_nil_iff.mpr h
  simp only [CallSite.select?, hnone]
  rfl

/-- What can stand for a sequence has items. -/
theorem items_of_assignable (h : s.HasStatics es) (hl : r.Lists es) {item receiver : HostType}
    (ha : r.order.assignable (.sequenceOf item) receiver = true) :
    (r.itemType? receiver).isSome := by
  unfold TypeOrder.assignable TypeOrder.fits at ha
  by_cases hs : HostType.sequenceOf item = receiver
  · obtain ⟨e, he, hitems, hkey⟩ := h.items
    obtain ⟨rest, hlineage⟩ := hl.lineage_eq_cons he (hkey item)
    obtain ⟨type, htype⟩ := Option.isSome_iff_exists.mp hitems
    rw [← hs]
    unfold Registry.itemType?
    rw [hlineage, List.findSome?_cons]
    simp only [htype]
    rfl
  · have hnamed : (HostType.sequenceOf item).isNamed WellKnown.enumerable = true := by
      show (QualifiedName.ofDotted WellKnown.enumerable).text == WellKnown.enumerable
      decide
    -- a type derives from an instance of the sequences only by having items
    have hderives : r.order.derives (.sequenceOf item) receiver = false := rfl
    rw [if_neg hs, hderives, Bool.or_false] at ha
    have hplain : r.order.fitsPlain (.sequenceOf item) receiver = true := ha
    have hsame : (decide (HostType.sequenceOf item = receiver) ||
        (HostType.sequenceOf item).isPrimitive .object) = false := by
      rw [decide_eq_false hs]
      rfl
    rw [TypeOrder.fitsPlain, hsame] at hplain
    have hfits : (r.order.fitsSequence? (.sequenceOf item) receiver).getD false = true := hplain
    rw [TypeOrder.fitsSequence?, hnamed] at hfits
    cases hitem : r.itemType? receiver with
    | some type => rfl
    | none =>
      have hnone : r.order.itemType? receiver = none := hitem
      simp [hnone] at hfits

theorem arity_of_bind? (h : s.HasStatics es) {e : TypeEntry} (he : e ∈ es) {n m : Method}
    (hn : n ∈ e.methods) (hbind : CallSite.bind? [] n = some m) : n.arity = 0 := by
  obtain ⟨-, hplain, -⟩ | ⟨hne, -⟩ := CallSite.bind?_cases hbind
  · rw [Method.isGenericDefinition, (h.method e he n hn).1] at hplain
    simpa using hplain
  · exact absurd rfl hne

/-- No method of an instance comes before a sequence operation that was called on its type. -/
theorem own_eq_none (h : s.HasStatics es) (hl : r.Lists es) {e : TypeEntry} (he : e ∈ es)
    {typeArgs : List HostType} {n m : Method} (hn : n ∈ e.methods)
    (hbind : CallSite.bind? typeArgs n = some m) (hop : n.isSequenceOp = true)
    (receiver : HostType) (rest : List HostType) (o : TypeOrder) :
    CallSite.select? o ((r.methods receiver n.name).filter fun n => !n.isStatic)
      ⟨rest, typeArgs⟩ = none := by
  refine select?_eq_none fun c hc => ?_
  obtain ⟨hc, hinstance⟩ := List.mem_filter.mp hc
  obtain ⟨a, ha, d, hd, hname, rfl⟩ := Registry.exists_of_mem_methods hc
  have hin := hl.entry_mem ha
  rw [a.isStatic_bindMethod, Bool.not_eq_true'] at hinstance
  -- an instance method is not generic, so it takes no type arguments
  have harity : d.arity = 0 := by
    by_contra hne
    have hdop := h.generic _ hin d hd hne
    rw [(h.sequence _ hin d hd hdop).2.2 d hd, hdop] at hinstance
    cases hinstance
  have hplain : (a.bindMethod d).isGenericDefinition = false := by
    rw [a.isGenericDefinition_bindMethod, Method.isGenericDefinition, harity]
    rfl
  show CallSite.bind? typeArgs (a.bindMethod d) = none
  rw [CallSite.bind?, hplain]
  cases typeArgs with
  | cons type types => rfl
  | nil =>
    -- without type arguments the operation is not generic, and no such method has its name
    exfalso
    have hnarity := h.arity_of_bind? he hn hbind
    rw [(h.single e he n hn hop hnarity).2 _ hin d hd hname] at hinstance
    cases hinstance

/-- A sequence operation with its type arguments bound keeps its name, and takes a sequence first. -/
theorem bound_sequence (h : s.HasStatics es) {e : TypeEntry} (he : e ∈ es)
    {typeArgs : List HostType} {n m : Method} (hn : n ∈ e.methods)
    (hbind : CallSite.bind? typeArgs n = some m) (hop : n.isSequenceOp = true) :
    m.typeArgs = typeArgs ∧ m.name = n.name ∧
      ∃ item params, m.params = .sequenceOf item :: params := by
  obtain ⟨-, ⟨item, params, hparams⟩, -⟩ := h.sequence e he n hn hop
  obtain ⟨htypeArgs, -, rfl⟩ | ⟨-, -, rfl⟩ := CallSite.bind?_cases hbind
  · exact ⟨by rw [htypeArgs, (h.method e he m hn).1], rfl, item, params, hparams⟩
  · refine ⟨rfl, rfl, item.subst typeArgs, params.map (·.subst typeArgs), ?_⟩
    rw [Method.instantiate, hparams, List.map_cons]
    simp [HostType.sequenceOf, HostType.applied, HostType.subst]

theorem sequence_again (h : s.HasStatics es) (hr : s.host = r.host) (hl : r.Lists es)
    {site : CallSite} {m : Method} (hm : s.static? type name site = some m)
    (hop : m.isSequenceOp = true) :
    m.typeArgs = site.typeArgs ∧ Syntax.isName m.name = true ∧ ∃ receiver rest,
      site.args = receiver :: rest ∧
        CallSite.select? s.host.toTypeOrder
          ((s.host.methods receiver m.name).filter fun n => !n.isStatic) ⟨rest, site.typeArgs⟩ = none ∧
        ((s.host.itemType? receiver).bind fun item => CallSite.selectSequenceOp? s.host m.name receiver
          item ⟨rest, site.typeArgs⟩) = some m := by
  obtain ⟨e, he, n, hn, hbind, rfl, -, hdeclaring, hword, howner, hsame, hall⟩ :=
    h.static_again hr hl hm
  have hnop : n.isSequenceOp = true := by rw [← CallSite.isSequenceOp_of_bind? hbind, hop]
  obtain ⟨hholder, -, hstatics⟩ := h.sequence e he n hn hnop
  obtain ⟨htypeArgs, hname, item, params, hparams⟩ := h.bound_sequence he hn hbind hnop
  have htakes := CallSite.select?_takes hm
  obtain ⟨args, typeArgs⟩ := site
  rw [hparams, hr] at htakes
  cases htakes with
  | @cons _ receiver _ rest hfirst _ =>
    obtain ⟨found, hfound⟩ := Option.isSome_iff_exists.mp (h.items_of_assignable hl hfirst)
    refine ⟨htypeArgs, hname ▸ hword, receiver, rest, rfl, ?_, ?_⟩
    · rw [hname, hr]
      exact h.own_eq_none hl he hn hbind hnop receiver rest _
    · -- the item is bound to no candidate: either type arguments are written or none is generic
      have hsite (c : Method) (hc : c ∈ r.methods e.type n.name) :
          CallSite.bindItem ⟨rest, typeArgs⟩ found c = c := by
        cases typeArgs with
        | cons bound typeArgs => rw [CallSite.bindItem, List.isEmpty_cons, Bool.and_false]; rfl
        | nil =>
          obtain ⟨hin, hcname⟩ := hall c (hsame ▸ hc)
          have harity := (h.single e he n hn hnop (h.arity_of_bind? he hn hbind)).1 c hin hcname
          rw [CallSite.bindItem, Method.isGenericDefinition, harity]
          rfl
      -- so the sequence operations of the name are its static methods, which were selected among
      have hcandidates : ((r.methods e.type n.name).filter (·.isSequenceOp)).map
          (CallSite.bindItem ⟨rest, typeArgs⟩ found) = (r.methods type n.name).filter (·.isStatic) := by
        rw [List.map_congr_left fun c hc => hsite c (List.mem_filter.mp hc).1, List.map_id', hsame]
        exact List.filter_congr fun c hc => (hstatics c (hall c hc).1).symm
      rw [hr] at hholder
      rw [hname, hr]
      show ((r.itemType? receiver).bind _) = _
      rw [hfound, Option.bind_some]
      show (r.host.sequenceOps?.bind _) = _
      rw [hholder, Option.bind_some]
      show CallSite.select? r.order (((r.methods e.type n.name).filter (·.isSequenceOp)).map
        (CallSite.bindItem ⟨rest, typeArgs⟩ found)) ⟨receiver :: rest, typeArgs⟩ = _
      rw [hcandidates]
      rw [static?, hr] at hm
      exact hm

end Surface.HasStatics

end FatArrow
