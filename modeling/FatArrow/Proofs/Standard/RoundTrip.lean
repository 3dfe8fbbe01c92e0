import FatArrow.Proofs.Standard.Described
import FatArrow.Proofs.Standard.References
import FatArrow.Proofs.Typing.Rebuilt

/-!
# Lambdas of the standard types that are rebuilt

In the standard context, a lambda that was read for a shape of the standard types is printed as a text
that is read as the same lambda: if it names no type, and if each of its floats is read where its
shortest decimal is written.
-/

namespace FatArrow

/-- Type arguments that are bound to a method are as many as it has parameters. -/
theorem CallSite.length_of_bind? {typeArgs : List HostType} {m n : Method}
    (h : bind? typeArgs m = some n) (hne : typeArgs ≠ []) : m.arity = typeArgs.length := by
  unfold bind? at h
  rw [List.isEmpty_eq_false_iff.mpr hne] at h
  simp only [Bool.false_eq_true, ↓reduceIte] at h
  split at h
  next hboth => exact eq_of_beq (Bool.and_eq_true_iff.mp hboth).2
  next => cases h

/-- What is selected depends on the candidates with their type arguments bound. -/
theorem CallSite.select?_congr {o : TypeOrder} {candidates others : List Method}
    {args types types' : List HostType}
    (h : candidates.filterMap (bind? types) = others.filterMap (bind? types')) :
    select? o candidates ⟨args, types⟩ = select? o others ⟨args, types'⟩ := by
  simp only [select?, h]

namespace Standard.Fills

variable {s : Surface} {r : Registry} {around : Surroundings} {t item receiver : HostType}
  {e : TypeEntry} {m n : Method} {name : String} {typeArgs types : List HostType}

/-! ## 1. Sequence operations -/

theorem sequenceOp_makes (h : Fills s r around) (he : e ∈ entries around) (hn : n ∈ e.methods)
    (hop : n.isSequenceOp = true) (hbind : CallSite.bind? typeArgs n = some m)
    (ht : ∀ type ∈ typeArgs, Makes around type) :
    Makes around m.returns ∧ ∀ p ∈ m.params, Makes around p := by
  obtain ⟨hle, htypes⟩ := (making he).2.1 _ (plainMethod_mem hn) hop
  obtain ⟨hreturns, hparams⟩ := List.forall_mem_cons.mp htypes
  have hle : n.arity ≤ 1 := hle
  obtain ⟨rfl, -, rfl⟩ | ⟨hne, -, rfl⟩ := CallSite.bind?_cases hbind
  · have harity : ((plainMethod m).arity == 1) = false := by
      show (m.arity == 1) = false
      rw [h.hasStatics.arity_of_bind? he hn hbind]
      rfl
    rw [harity] at hreturns hparams
    exact ⟨makes_of_isMade hreturns, fun p hp => makes_of_isMade (hparams p hp)⟩
  · have hlength := CallSite.length_of_bind? hbind hne
    have hpos := List.length_pos_of_ne_nil hne
    obtain ⟨type, rfl⟩ := List.length_eq_one_iff.mp (show typeArgs.length = 1 by omega)
    have harity : ((plainMethod n).arity == 1) = true := by
      show (n.arity == 1) = true
      rw [hlength]
      rfl
    rw [harity] at hreturns hparams
    have htype := ht type (List.mem_singleton_self type)
    exact ⟨makes_subst_of_isMade hreturns htype,
      List.forall_mem_map.mpr fun p hp => makes_subst_of_isMade (hparams p hp) htype⟩

/-- The sequence operations of a name are methods of one entry, whose types are not bound. -/
theorem exists_entry_of_op (h : Fills s r around) (hn : n ∈ r.methods t name)
    (hop : n.isSequenceOp = true) : ∃ e ∈ entries around, n ∈ e.methods ∧ n.name = name ∧
      ∀ c ∈ r.methods t name, c ∈ e.methods ∧ c.name = name := by
  have hstatic : n.isStatic = true := by
    obtain ⟨a, ha, d, hd, -, rfl⟩ := Registry.exists_of_mem_methods hn
    obtain ⟨declaring, heq⟩ := a.bindMethod_eq d
    rw [heq] at hop ⊢
    have hop : d.isSequenceOp = true := hop
    show d.isStatic = true
    rw [(h.hasStatics.sequence _ (h.lists.entry_mem ha) d hd hop).2.2 d hd, hop]
  obtain ⟨e, he, hin, hname, -, -, -, hall⟩ := h.hasStatics.methods_again h.lists hn hstatic
  exact ⟨e, he, hin, hname, hall⟩

/-- Where a generic sequence operation has a name, binding the item type to the candidates of the name
comes to the same as writing it. -/
theorem bind?_bindItem (h : Fills s r around) {ms : List Method} (he : e ∈ entries around)
    (hms : ∀ c ∈ ms, c ∈ e.methods ∧ c.isSequenceOp = true ∧ c.arity ≠ 0)
    (args : List HostType) (item : HostType) :
    (ms.map (CallSite.bindItem ⟨args, []⟩ item)).filterMap (CallSite.bind? []) =
      (ms.map (CallSite.bindItem ⟨args, [item]⟩ item)).filterMap (CallSite.bind? [item]) := by
  rw [List.filterMap_map, List.filterMap_map]
  refine List.filterMap_congr fun c hc => ?_
  obtain ⟨hin, hop, hne⟩ := hms c hc
  have hle : c.arity ≤ 1 := ((making he).2.1 _ (plainMethod_mem hin) hop).1
  have harity : c.arity = 1 := by omega
  have hnone : c.typeArgs = [] := (h.hasStatics.method e he c hin).1
  have hgeneric : c.isGenericDefinition = true := by
    rw [Method.isGenericDefinition, harity, hnone]
    rfl
  have hbound : (c.instantiate [item]).isGenericDefinition = false := Bool.and_false _
  simp only [Function.comp, CallSite.bindItem, hgeneric, List.isEmpty_nil, List.isEmpty_cons,
    Bool.and_true, Bool.and_false, Bool.false_eq_true, ↓reduceIte, CallSite.bind?, harity,
    List.length_singleton, beq_self_eq_true, hbound]

/-- What is called on a sequence is a sequence operation with type arguments bound: those that are
written, or the type of the items, for which it is selected again when it is written. -/
theorem exists_of_selectSequenceOp? (h : Fills s r around) {site : CallSite}
    (hm : CallSite.selectSequenceOp? r.host name receiver item site = some m) :
    ∃ e ∈ entries around, ∃ n ∈ e.methods, n.name = name ∧ n.isSequenceOp = true ∧
      CallSite.bind? m.typeArgs n = some m ∧ (m.typeArgs = site.typeArgs ∨ m.typeArgs = [item] ∧
        CallSite.selectSequenceOp? r.host name receiver item ⟨site.args, [item]⟩ = some m) := by
  obtain ⟨args, typeArgs⟩ := site
  obtain ⟨holder, hholder, hselect⟩ := Option.bind_eq_some_iff.mp hm
  obtain ⟨c, hc, hbind⟩ := CallSite.exists_of_select? hselect
  obtain ⟨n, hn, rfl⟩ := List.mem_map.mp hc
  obtain ⟨hn, hop⟩ := List.mem_filter.mp hn
  obtain ⟨e, he, hin, hname, hall⟩ := h.exists_entry_of_op hn hop
  refine ⟨e, he, n, hin, hname, hop, ?_⟩
  have hnone : n.typeArgs = [] := (h.hasStatics.method e he n hin).1
  by_cases hitem : n.isGenericDefinition = true ∧ typeArgs = []
  · -- the item type is bound, to a generic operation of a single parameter
    obtain ⟨hgeneric, rfl⟩ := hitem
    have harity : n.arity ≠ 0 := by
      intro hzero
      rw [Method.isGenericDefinition, hzero] at hgeneric
      cases hgeneric
    have hle : n.arity ≤ 1 := ((making he).2.1 _ (plainMethod_mem hin) hop).1
    have hone : n.arity = 1 := by omega
    have hbound : CallSite.bindItem ⟨args, []⟩ item n = n.instantiate [item] := by
      rw [CallSite.bindItem, hgeneric]
      rfl
    rw [hbound] at hbind
    obtain ⟨-, -, rfl⟩ | ⟨hne, -⟩ := CallSite.bind?_cases hbind
    · refine ⟨?_, .inr ⟨rfl, ?_⟩⟩
      · show CallSite.bind? [item] n = _
        simp only [CallSite.bind?, hgeneric, hone, List.isEmpty_cons, List.length_singleton,
          beq_self_eq_true, Bool.and_self, Bool.false_eq_true, ↓reduceIte]
      · refine Option.bind_eq_some_iff.mpr ⟨holder, hholder, ?_⟩
        have hms : ∀ c ∈ (r.methods holder name).filter (·.isSequenceOp),
            c ∈ e.methods ∧ c.isSequenceOp = true ∧ c.arity ≠ 0 := by
          intro c hc
          obtain ⟨hc, hcop⟩ := List.mem_filter.mp hc
          obtain ⟨hcin, hcname⟩ := hall c hc
          -- an operation that is not generic shares its name with none that is
          exact ⟨hcin, hcop, fun hzero =>
            harity ((h.hasStatics.single e he c hcin hcop hzero).1 n hin (hname.trans hcname.symm))⟩
        exact (CallSite.select?_congr (h.bind?_bindItem he hms args item)).symm.trans hselect
    · exact absurd rfl hne
  · -- nothing is bound but what is written
    have hkept : CallSite.bindItem ⟨args, typeArgs⟩ item n = n := by
      unfold CallSite.bindItem
      refine if_neg fun hboth => hitem ?_
      rw [Bool.and_eq_true, List.isEmpty_iff] at hboth
      exact hboth
    rw [hkept] at hbind
    have hsame : m.typeArgs = typeArgs := (h.hasStatics.bound_sequence he hin hbind hop).1
    exact ⟨hsame.symm ▸ hbind, .inl hsame⟩

/-- A sequence operation that is called on a value is the one that is called with its type arguments
written. -/
theorem callsOn_of_selectSequenceOp? (h : Fills s r around) {site : CallSite}
    (ht : Makes around receiver) (htypes : ∀ type ∈ site.typeArgs, Makes around type)
    (hitem : r.itemType? receiver = some item)
    (hm : CallSite.selectSequenceOp? r.host name receiver item site = some m) :
    (∀ type ∈ m.typeArgs, Makes around type) ∧ s.CallsOn receiver site.args m := by
  obtain ⟨e, he, n, hn, hname, hop, hbind, hsame⟩ := h.exists_of_selectSequenceOp? hm
  obtain ⟨-, hbound, -⟩ := h.hasStatics.bound_sequence he hn hbind hop
  refine ⟨?_, ?_, ?_⟩
  · rcases hsame with hsame | ⟨hsame, -⟩
    · exact hsame ▸ htypes
    · exact hsame ▸ List.forall_mem_singleton.mpr (h.itemType?_makes ht hitem).1
  · rw [h.host, hbound]
    exact h.hasStatics.own_eq_none h.lists he hn hbind hop receiver site.args _
  · rw [h.host, hbound, hname]
    refine Option.bind_eq_some_iff.mpr ⟨item, hitem, ?_⟩
    rcases hsame with hsame | ⟨hsame, hagain⟩
    · rw [hsame]
      exact hm
    · rw [hsame]
      exact hagain

/-- A sequence operation that is called on a type made of the standard ones has such types, and takes a
sequence first; no method of the type has its name. -/
theorem callsOn_makes (h : Fills s r around) (ht : ∀ type ∈ m.typeArgs, Makes around type)
    (hm : s.CallsOn receiver types m) :
    Syntax.isName m.name = true ∧ Makes around m.returns ∧ (∀ p ∈ m.params, Makes around p) ∧
      (∃ item rest, m.params = .sequenceOf item :: rest) ∧
        ∀ others, CallSite.select? s.host.toTypeOrder
          ((s.host.methods receiver m.name).filter fun n => !n.isStatic) ⟨others, m.typeArgs⟩ = none := by
  have hfound := hm.found
  rw [h.host] at hfound
  obtain ⟨item, -, hselect⟩ := Option.bind_eq_some_iff.mp hfound
  obtain ⟨e, he, n, hn, -, hop, hbind, -⟩ := h.exists_of_selectSequenceOp? hselect
  obtain ⟨-, hbound, hsequence⟩ := h.hasStatics.bound_sequence he hn hbind hop
  obtain ⟨hreturns, hparams⟩ := h.sequenceOp_makes he hn hop hbind ht
  have hstatic : n.isStatic = true := by rw [(h.hasStatics.sequence e he n hn hop).2.2 n hn, hop]
  obtain ⟨-, -, -, hisName⟩ := (h.hasStatics.method e he n hn).2 hstatic
  refine ⟨hbound ▸ hisName, hreturns, hparams, hsequence, fun others => ?_⟩
  rw [h.host, hbound]
  exact h.hasStatics.own_eq_none h.lists he hn hbind hop receiver others _

/-! ## 2. The standard host -/

/-- Every type that can be written is made of the standard types. -/
theorem meansOnly (h : Fills s r around) : s.MeansOnly (entries around) (Makes around) where
  found := h.readsEntries.found
  keyword word p hp := by
    refine .primitive ?_
    rintro rfl
    unfold Primitive.ofKeyword? at hp
    split at hp <;> cases hp
  plain e he hplain := by
    refine .named he ?_
    rw [Bool.eq_false_iff]
    exact fun hgeneric => hplain (outlines_generic _ (outline_mem he) hgeneric).1
  arity e he hgeneric := (h.readsEntries.generic e he hgeneric).arity
  applied e he hgeneric hnull type ht := by
    have hopen : e.isGeneric = true := by
      rw [← Bool.not_eq_false]
      exact fun hplain => outlines_plain _ (outline_mem he) hplain hgeneric
    obtain ⟨-, name, hname, hcalled, htype⟩ := outlines_generic _ (outline_mem he) hopen
    have hcalled : e.name = .ofDotted name := hcalled
    have htype : e.type = .applied e.name [.param 0] := htype
    rw [htype, HostType.subst_applied, hcalled]
    rcases List.mem_cons.mp hname with rfl | hname
    · -- the nullable types are no such types
      rw [htype, hcalled] at hnull
      have hnamed : (HostType.applied (.ofDotted WellKnown.nullable) [.param 0]).isNamed
          WellKnown.nullable = true := by decide
      cases hnamed.symm.trans hnull
    · rcases List.mem_pair.mp hname with rfl | rfl
      · exact .list ht
      · exact .sequence ht
  arrayOf := .array
  orNull := Makes.orNull

/-- In the standard context, whatever is made of the standard types is found again. -/
theorem rebuilds (h : Fills s r around) : s.Rebuilds (Makes around) where
  shaped := by
    rw [h.host]
    exact h.shaped
  unnamed := h.findsAgain.unnamed
  reads := h.readsType_of_makes
  written hn ht := h.meansOnly.typeOf hn ht
  primitive := .primitive
  arrayOf := .array
  element {t} ht harray := by
    rcases ht.cases with ⟨-, hv⟩ | ⟨hn, ⟨e, he, hplain, rfl⟩ | ⟨item, hitem, rfl | rfl | rfl⟩⟩
    · rw [HostType.isValueType, beq_iff_eq.mp harray] at hv
      cases hv
    · obtain ⟨-, -, hkey, -⟩ := ground he hplain
      rw [HostType.key?, hn, beq_iff_eq.mp harray] at hkey
      cases hkey
    · cases harray
    · cases harray
    · exact ⟨item, rfl, hitem⟩
  member ht hm hinstance := h.member_makes ht hm hinstance
  method ht hm hinstance := by
    rw [h.host] at hm
    exact h.method_makes ht hm hinstance
  indexer _ hm := by
    rw [h.host] at hm
    exact h.indexer_params hm
  made {t types c} ht hc := by
    rw [h.host] at hc ⊢
    obtain ⟨hdeclaring, hparams, hagain⟩ := h.constructor_again ht hc
    exact ⟨hdeclaring, hparams, Registry.constructor?_takes hc, hagain⟩
  onValue ht htypes hitem hm := by
    rw [h.host] at hitem hm
    exact h.callsOn_of_selectSequenceOp? ht htypes hitem hm
  onType {type name site m} hm hop := by
    obtain ⟨hsame, -, receiver, rest, hargs, hown, hfound⟩ :=
      h.findsAgain.sequence type name site m hm hop
    rw [← hsame] at hown hfound
    exact ⟨hsame, receiver, rest, hargs, hown, hfound⟩
  sequence _ htypes hm := h.callsOn_makes htypes hm

end Standard.Fills

/-! ## 3. Texts that are read again -/

/-- The float of a constant of 32 bits. -/
def Term.single? : Term → Option Float32
  | .const (.single x) _ => some x
  | _ => none

namespace Context

variable {around : Surroundings} {c : Context} {text : String} {shape : LambdaShape} {f : Function}

/-- What a text is read as, for a shape of the standard types, is printed so that it is read as the
same lambda with the same types, if it names no type and its constants read back. -/
theorem parse_text (hc : standard around = .ok c)
    (hparams : ∀ type ∈ shape.params, Standard.Makes around type)
    (hreturns : ∀ type, shape.returns = some type → Standard.Makes around type)
    (h : c.parse text (some shape) .none = .ok f) (hplain : f.body.Throughout Term.IsPlain)
    (hback : f.body.Throughout Term.ReadsBack) : c.parse (c.text f) (some shape) .none = .ok f := by
  obtain ⟨written, hread, helaborate⟩ := parse_eq_ok.mp h
  obtain ⟨hlegible, hagain⟩ := Surface.elaborate_rebuilt (fills_of_standard hc).rebuilds hparams
    hreturns hread helaborate hplain hback
  obtain ⟨other, hother, hmirrors⟩ := Function.readsBack_of_legible hlegible
  exact parse_eq_ok.mpr ⟨other, hother, hagain other hmirrors⟩

/-- A number that is converted to one type and to another, and an item of an array. -/
theorem parse_text_converted : ∃ c f, standard .still = .ok c ∧
    c.parse "x => x > 0.5F ? new[] \x7b 2L, 3L \x7d[x] : x * 3L" (some ⟨[.int32], none⟩) .none =
      .ok f ∧
    (∀ type ∈ [HostType.int32], Standard.Makes .still type) ∧
    f.body.Throughout Term.IsPlain ∧ f.body.Throughout Term.ReadsBack ∧
    c.parse (c.text f) (some ⟨[.int32], none⟩) .none = .ok f := by
  have hall : (standard .still).toOption.any (fun c =>
      (c.parse "x => x > 0.5F ? new[] \x7b 2L, 3L \x7d[x] : x * 3L" (some ⟨[.int32], none⟩)
        .none).toOption.any fun f =>
          f.body.Throughout Term.IsPlain && f.body.Throughout Term.ReadsBack) = true := by
    decide +kernel
  obtain ⟨c, hc, hall⟩ := exists_ok_of_any hall
  obtain ⟨f, hf, hall⟩ := exists_ok_of_any hall
  obtain ⟨hplain, hback⟩ := Bool.and_eq_true_iff.mp hall
  have hplain := of_decide_eq_true hplain
  have hback := of_decide_eq_true hback
  have hparams : ∀ type ∈ [HostType.int32], Standard.Makes .still type :=
    List.forall_mem_singleton.mpr (.primitive (by decide))
  exact ⟨c, f, hc, hf, hparams, hplain, hback, parse_text hc hparams nofun hf hplain hback⟩

/-- A nullable type as it is made by its name, and not of the type that may be null. -/
def namedNullable : HostType := .applied (.ofDotted WellKnown.nullable) [.int32]

/-- A literal of 32 bits is read with 64 bits and narrowed, which can turn the shortest decimal of a
float into the next float.  A nullable type that is made by its name is printed like the type that may
be null, and read as that. -/
theorem parse_text_changed : ∃ c, standard .still = .ok c ∧
    (∃ f g, c.parse "x => 7.0385306918512091e-26F" (some ⟨[.single], none⟩) .none = .ok f ∧
      f.body.Throughout Term.IsPlain ∧ c.text f = "x => 7.038531e-26F" ∧
      c.parse (c.text f) (some ⟨[.single], none⟩) .none = .ok g ∧
      f.body.single? = some (.ofBits 0x15ae43fd) ∧ g.body.single? = some (.ofBits 0x15ae43fe)) ∧
    ∃ f, c.parse "x => new[] \x7b x \x7d" (some ⟨[namedNullable], none⟩) .none = .ok f ∧
      f.body.Throughout Term.IsPlain ∧ f.body.Throughout Term.ReadsBack ∧
      c.text f = "x => new Nullable<Int32>[] \x7b x \x7d" ∧
      ∀ g, c.parse (c.text f) (some ⟨[namedNullable], none⟩) .none ≠ .ok g := by
  have hall : (standard .still).toOption.any (fun c =>
      (c.parse "x => 7.0385306918512091e-26F" (some ⟨[.single], none⟩) .none).toOption.any (fun f =>
        f.body.Throughout Term.IsPlain && c.text f == "x => 7.038531e-26F" &&
        decide (f.body.single? = some (.ofBits 0x15ae43fd)) &&
        (c.parse (c.text f) (some ⟨[.single], none⟩) .none).toOption.any fun g =>
          decide (g.body.single? = some (.ofBits 0x15ae43fe))) &&
      (c.parse "x => new[] \x7b x \x7d" (some ⟨[namedNullable], none⟩) .none).toOption.any fun f =>
        f.body.Throughout Term.IsPlain && f.body.Throughout Term.ReadsBack &&
        c.text f == "x => new Nullable<Int32>[] \x7b x \x7d" &&
        (c.parse (c.text f) (some ⟨[namedNullable], none⟩) .none).toOption.all fun _ => false) =
      true := by
    decide +kernel
  obtain ⟨c, hc, hall⟩ := exists_ok_of_any hall
  obtain ⟨hnarrowed, hnamed⟩ := Bool.and_eq_true_iff.mp hall
  refine ⟨c, hc, ?_, ?_⟩
  · obtain ⟨f, hf, hall⟩ := exists_ok_of_any hnarrowed
    simp only [Bool.and_eq_true, decide_eq_true_eq, beq_iff_eq] at hall
    obtain ⟨⟨⟨hplain, htext⟩, hx⟩, hagain⟩ := hall
    obtain ⟨g, hg, hy⟩ := exists_ok_of_any hagain
    exact ⟨f, g, hf, hplain, htext, hg, hx, of_decide_eq_true hy⟩
  · obtain ⟨f, hf, hall⟩ := exists_ok_of_any hnamed
    simp only [Bool.and_eq_true, decide_eq_true_eq, beq_iff_eq] at hall
    obtain ⟨⟨⟨hplain, hback⟩, htext⟩, hnone⟩ := hall
    refine ⟨f, hf, hplain, hback, htext, fun g hg => ?_⟩
    rw [hg] at hnone
    cases hnone

end Context

end FatArrow
