import FatArrow.Context
import FatArrow.Proofs.Printing.ReadLambda
import FatArrow.Proofs.Standard.Entries
import FatArrow.Proofs.Typing.ReadAgain

/-!
# Static references to the standard types

In the standard context, a lambda whose body refers to a static member, or calls a static method on
parameters, is printed as a text that is read as the same lambda: unless a parameter has the name as
which the declaring type is printed, and takes its place.
-/

namespace FatArrow

namespace Standard

variable {s : Surface} {r : Registry} {around : Surroundings} {e : TypeEntry}

/-! ## 1. What is found again -/

/-- A method without its native function. -/
def plainMethod (m : Method) : Method := { m with invoker := none }

theorem plainMethod_mem {m : Method} (hm : m ∈ e.methods) : plainMethod m ∈ e.outline.methods :=
  List.mem_map_of_mem hm

namespace Fills

theorem isOwner (h : Fills s r around) (he : e ∈ entries around) (hplain : IsPlain e.outline) :
    e.IsOwner s :=
  ⟨hplain.2.1, hplain.2.2, h.readsEntries.plain e he hplain.1⟩

theorem alone (he : IsAlone e.outline) : e.Alone (entries around) := by
  refine ⟨he.1, fun d hd base hbase => ?_⟩
  obtain ⟨key, hkey, hne⟩ :=
    (Option.any_eq_true _ _).mp (he.2 d.outline (outline_mem hd) base hbase)
  exact ⟨key, hkey, bne_iff_ne.mp hne⟩

theorem hasStatics (h : Fills s r around) : s.HasStatics (entries around) where
  fields e he := by
    obtain ⟨-, ⟨hfields, -⟩, -⟩ := outlines_checked _ (outline_mem he)
    exact List.map_eq_nil_iff.mp (List.isEmpty_iff.mp hfields)
  property e he m hm hstatic := by
    obtain ⟨-, ⟨-, hproperties, -⟩, -⟩ := outlines_checked _ (outline_mem he)
    obtain ⟨hplain, hdeclaring, hname⟩ := hproperties _ (List.mem_map_of_mem hm) hstatic
    exact ⟨h.isOwner he hplain, hdeclaring, hname⟩
  method e he m hm := by
    obtain ⟨-, ⟨-, -, howner, hmethods⟩, -⟩ := outlines_checked _ (outline_mem he)
    obtain ⟨htypeArgs, hnamed⟩ := hmethods _ (plainMethod_mem hm)
    refine ⟨htypeArgs, fun hstatic => ?_⟩
    have hsome : e.outline.staticMethods.isEmpty = false := by
      rw [List.isEmpty_eq_false_iff]
      exact List.ne_nil_of_mem (List.mem_filter.mpr ⟨plainMethod_mem hm, hstatic⟩)
    obtain ⟨hplain, halone⟩ := howner hsome
    exact ⟨h.isOwner he hplain, alone halone, hnamed hstatic⟩
  generic e he m hm :=
    ((outlines_checked _ (outline_mem he)).2.2 _ (plainMethod_mem hm)).1
  sequence e he m hm hop := by
    obtain ⟨hholder, hfirst, hstatics, -⟩ :=
      ((outlines_checked _ (outline_mem he)).2.2 _ (plainMethod_mem hm)).2 hop
    refine ⟨?_, ?_, fun n hn => hstatics (plainMethod n) (plainMethod_mem hn)⟩
    · show s.host.typeIn? _ _ = _
      rw [h.host, h.lists.typeIn?, h.explicit, ← Host.ofEntries_outline, map_outline_entries]
      exact hholder
    · obtain ⟨type, htype, hsequence⟩ := (Option.any_eq_true _ _).mp hfirst
      obtain ⟨params, hparams⟩ := List.head?_eq_some_iff.mp htype
      unfold isSequence at hsequence
      split at hsequence
      next item _ => exact ⟨item, params, beq_iff_eq.mp hsequence ▸ hparams⟩
      next => cases hsequence
  single e he m hm hop harity := by
    obtain ⟨-, -, -, hsingle⟩ :=
      ((outlines_checked _ (outline_mem he)).2.2 _ (plainMethod_mem hm)).2 hop
    obtain ⟨hsame, hother⟩ := hsingle harity
    exact ⟨fun n hn => hsame (plainMethod n) (plainMethod_mem hn),
      fun d hd n hn => hother d.outline (outline_mem hd) (plainMethod n) (plainMethod_mem hn)⟩
  items := by
    obtain ⟨o, ho, hitem, hkey⟩ := outlines_sequence
    obtain ⟨e, he, rfl⟩ := exists_of_mem_outlines around ho
    exact ⟨e, he, hitem, fun item => congrArg some hkey.symm⟩

/-- In the standard context static members and methods are found again. -/
theorem findsAgain (h : Fills s r around) : s.FindsAgain where
  member _ _ _ := h.hasStatics.member_again h.host h.lists
  method _ _ _ _ := h.hasStatics.method_again h.host h.lists
  sequence _ _ _ _ := h.hasStatics.sequence_again h.host h.lists
  types _ _ := h.readsEntries.readsType
  unnamed name types := by rw [h.resolver]; rfl

end Fills

/-! ## 2. A constant behind its type -/

/-- A member without its native function. -/
def plainMember (m : Member) : Member := { m with getter := none }

theorem lastNamed?_plain (members : List Member) (name : String) :
    TypeEntry.lastNamed? (members.map plainMember) name =
      (TypeEntry.lastNamed? members name).map plainMember := by
  rw [TypeEntry.lastNamed?, ← List.map_reverse, List.find?_map]
  rfl

/-- The members of a type whose entry has no bases are those of the entry. -/
theorem Fills.member?_eq {s : Surface} {r : Registry} {around : Surroundings} (h : Fills s r around)
    {o : TypeEntry} (ho : o ∈ outlines) {type : HostType} (hkey : type.key? = some o.key)
    (hbases : o.bases = []) (hplain : o.isGeneric = false) (name : String) :
    (s.member? type name).map plainMember = (o.property? name).or (o.field? name) := by
  obtain ⟨e, he, rfl⟩ := exists_of_mem_outlines around ho
  have hlineage : r.lineage type = [⟨e, type⟩] := by
    have hbases : e.bases = [] := hbases
    rw [Registry.lineage, Registry.lineageFrom_of_some (h.lists.find?_describes he hkey), hbases,
      List.map_nil, List.append_nil, Registry.lineageFrom]
  have hbind : (Ancestor.mk e type).bindMember = id :=
    funext fun m => Ancestor.bindMember_plain hplain type m
  have hproperty : r.host.property? type name = e.property? name := by
    show (r.lineage type).findSome? _ = _
    rw [hlineage, List.findSome?_singleton, hbind, Option.map_id]
    rfl
  have hfield : r.host.field? type name = e.field? name := by
    show (r.lineage type).findSome? _ = _
    rw [hlineage, List.findSome?_singleton, hbind, Option.map_id]
    rfl
  rw [Surface.member?, h.host, hproperty, hfield, Option.map_or]
  exact congrArg₂ Option.or (lastNamed?_plain e.properties name).symm
    (lastNamed?_plain e.fields name).symm

/-- The constant `System.Math.PI`. -/
def isPi (m : Member) : Bool := m.isStatic && m.declaring == .named "System.Math" && m.name == "PI"

theorem Fills.exists_pi {s : Surface} {r : Registry} {around : Surroundings}
    (h : Fills s r around) : ∃ m, s.member? (.named "System.Math") "PI" = some m ∧ isPi m = true := by
  have ho : ∃ o ∈ outlines, (HostType.named "System.Math").key? = some o.key ∧ o.bases = [] ∧
      o.isGeneric = false ∧ ((o.property? "PI").or (o.field? "PI")).any isPi = true := by
    decide +kernel
  obtain ⟨o, ho, hkey, hbases, hplain, hpi⟩ := ho
  rw [← h.member?_eq ho hkey hbases hplain, Option.any_map] at hpi
  exact (Option.any_eq_true _ _).mp hpi

theorem Fills.no_pi {s : Surface} {r : Registry} {around : Surroundings} (h : Fills s r around) :
    s.member? .double "PI" = none := by
  have ho : ∃ o ∈ outlines, HostType.double.key? = some o.key ∧ o.bases = [] ∧
      o.isGeneric = false ∧ ((o.property? "PI").or (o.field? "PI")).isNone = true := by
    decide +kernel
  obtain ⟨o, ho, hkey, hbases, hplain, hpi⟩ := ho
  rw [← h.member?_eq ho hkey hbases hplain, Option.isNone_map] at hpi
  exact Option.isNone_iff_eq_none.mp hpi

/-- A lambda is written as a parameter, with no type, and the constant by its full name. -/
def writesPi (param : String) (written : Syntax.Lambda) : Bool :=
  match written.params, written.body with
  | [p], .member (.member (.name first [] _) second [] _) last [] _ =>
    p.type.isNone && p.name.text == param && first.text == "System" && second.text == "Math" &&
      last.text == "PI"
  | _, _ => false

/-- What such a lambda means to one who expects a function of floats. -/
theorem Fills.elaborate_pi {s : Surface} {r : Registry} {around : Surroundings}
    (h : Fills s r around) {param : String} (hparam : param ≠ "System") {written : Syntax.Lambda}
    (hw : writesPi param written = true) : ∃ m, isPi m = true ∧
      s.elaborate (some ⟨[.double], none⟩) written = .ok ⟨[⟨param, .double⟩], .staticMember m⟩ := by
  obtain ⟨m, hm, hpi⟩ := h.exists_pi
  refine ⟨m, hpi, ?_⟩
  unfold writesPi at hw
  split at hw
  next p first firstSpan second secondSpan last lastSpan hparams hbody =>
    simp only [Bool.and_eq_true, Option.isNone_iff_eq_none, beq_iff_eq] at hw
    obtain ⟨⟨⟨⟨htype, hname⟩, hfirst⟩, hsecond⟩, hlast⟩ := hw
    have hcloses : s.Closes none (.staticMember m) (.staticMember m) written.body.span :=
      .inl ⟨rfl, rfl⟩
    refine Surface.elaborate_of_parts ?_ ?_ ?_ hcloses
    · rw [hparams]
      rfl
    · rw [hparams, ← hname]
      exact Surface.declare_single htype .double
    · -- the namespace means no type, so the name waits for its member
      have hnone : s.typeNamed? "System" = none := by
        rw [h.typeNamed?]
        decide
      have hmath : s.typeNamed? "System.Math" = some (.named "System.Math") := by
        rw [h.typeNamed?]
        decide
      have hstart : s.resolve [⟨param, .double⟩] none (.name first [] firstSpan) =
          .ok (.pending "System" firstSpan) := by
        rw [Surface.resolve, Surface.ofName, hfirst]
        simp [hparam, hnone]
      have htype : s.resolve [⟨param, .double⟩] none
          (.member (.name first [] firstSpan) second [] secondSpan) =
            .ok (.type (.named "System.Math")) := by
        rw [Surface.resolve, hstart]
        show s.ofPending none ("System" ++ "." ++ second.text) [] _ = _
        rw [Surface.ofPending, hsecond]
        simp [hmath]
      have hstatic : m.isStatic = true := by
        rw [isPi, Bool.and_eq_true, Bool.and_eq_true] at hpi
        exact hpi.1.1
      rw [hbody, Surface.resolve, htype]
      show s.ofType none _ last _ = _
      rw [Surface.ofType, hlast]
      simp [hm, hstatic]
  next => cases hw

/-- A lambda is written as a parameter `Math`, with no type, and a member `PI` of it. -/
def writesMathPi (written : Syntax.Lambda) : Bool :=
  match written.params, written.body with
  | [p], .member (.name first [] _) last [] _ =>
    p.type.isNone && p.name.text == "Math" && first.text == "Math" && last.text == "PI"
  | _, _ => false

/-- The parameter is a float, which has no such member. -/
theorem Fills.not_elaborate_pi {s : Surface} {r : Registry} {around : Surroundings}
    (h : Fills s r around) {written : Syntax.Lambda} (hw : writesMathPi written = true)
    (f : Function) : s.elaborate (some ⟨[.double], none⟩) written ≠ .ok f := by
  intro hf
  unfold writesMathPi at hw
  split at hw
  next p first firstSpan last lastSpan hparams hbody =>
    simp only [Bool.and_eq_true, Option.isNone_iff_eq_none, beq_iff_eq] at hw
    obtain ⟨⟨⟨htype, hname⟩, hfirst⟩, hlast⟩ := hw
    have hdeclare : s.declare [] (written.params.zip [some .double]) = .ok [⟨"Math", .double⟩] := by
      rw [hparams, ← hname]
      exact Surface.declare_single htype .double
    have hparam : s.resolve [⟨"Math", .double⟩] none (.name first [] firstSpan) =
        .ok (.value (.param ⟨"Math", .double⟩)) :=
      Surface.resolve_param (List.nodup_singleton _) (List.mem_singleton_self _)
        ⟨first, firstSpan, rfl, hfirst⟩
    -- the name means the parameter, before any type is looked for
    have hresolve : s.resolve [⟨"Math", .double⟩] none written.body =
        .error ⟨.unknownMember .double "PI", last.span⟩ := by
      rw [hbody, Surface.resolve, hparam]
      show s.ofValue none (.param ⟨"Math", .double⟩) last firstSpan lastSpan = _
      rw [Surface.ofValue, hlast]
      simp only [Term.type?, h.no_pi]
      rfl
    have hlength : written.params.length = 1 := by rw [hparams]; rfl
    rw [Surface.elaborate] at hf
    simp only [hlength, List.length_singleton, ↓reduceIte, List.map_cons, List.map_nil, pure,
      Except.pure, bind, Except.bind, hdeclare, hresolve] at hf
    cases hf
  next => cases hw

end Standard

/-! ## 3. Texts that are read again -/

namespace Context

variable {around : Surroundings} {c : Context} {text : String} {shape : LambdaShape} {f : Function}

theorem fills_of_standard (hc : standard around = .ok c) :
    Standard.Fills ⟨c.registry.host, c.namespaces, .none⟩ c.registry around := by
  obtain ⟨r, hr, h⟩ := bind_eq_ok.mp hc
  cases h
  exact ⟨hr, rfl, rfl, rfl⟩

/-- If the body of a lambda calls a sequence operation, the text calls it on its type. -/
def CallsOnType (c : Context) (text : String) (f : Function) : Prop :=
  f.body.callsSequenceOp = true → ∀ written, Syntax.parseLambda text = .ok written →
    Surface.CallsType ⟨c.registry.host, c.namespaces, .none⟩ f.params written.body

/-- A static member, or a static method that is called on a type with parameters for arguments, is
printed so that it is read as the same member or method of the same type, whatever the parameters
are called: unless one of them has the name as which the type is printed. -/
theorem parse_text_reference (hc : standard around = .ok c)
    (h : c.parse text (some shape) .none = .ok f) (hr : f.body.isReference = true)
    (hcalls : c.CallsOnType text f)
    (hfree : ∀ type ∈ f.body.owner?, ∀ p ∈ f.params, p.name ≠ type.shortText c.namespaces) :
    c.parse (c.text f) (some shape) .none = .ok f := by
  obtain ⟨written, hread, helaborate⟩ := parse_eq_ok.mp h
  obtain ⟨hlegible, hagain⟩ := Surface.elaborate_again (fills_of_standard hc).findsAgain hread
    helaborate hr (fun hop => hcalls hop written hread) hfree
  obtain ⟨other, hother, hmirrors⟩ := Function.readsBack_of_legible hlegible
  exact parse_eq_ok.mpr ⟨other, hother, hagain other hmirrors⟩

theorem exists_standard : ∃ c, standard .still = .ok c := by
  have hok : (standard .still).isOk = true := by decide +kernel
  cases hc : standard .still with
  | ok c => exact ⟨c, rfl⟩
  | error e =>
    rw [hc] at hok
    cases hok

/-- The lambda of a text that is written as a parameter and the constant. -/
theorem parse_pi (hc : standard around = .ok c) (text param : String) (hparam : param ≠ "System")
    (hw : (Syntax.parseLambda text).toOption.any (Standard.writesPi param) = true) :
    ∃ m, Standard.isPi m = true ∧
      c.parse text (some ⟨[.double], none⟩) .none = .ok ⟨[⟨param, .double⟩], .staticMember m⟩ := by
  obtain ⟨written, hread, hw⟩ := exists_ok_of_any hw
  obtain ⟨m, hpi, helaborate⟩ := (fills_of_standard hc).elaborate_pi hparam hw
  exact ⟨m, hpi, parse_eq_ok.mpr ⟨written, hread, helaborate⟩⟩

/-- The full name of a type is printed short, and read again. -/
theorem parse_text_reference_pi : ∃ c f, standard .still = .ok c ∧
    c.parse "x => System.Math.PI" (some ⟨[.double], none⟩) .none = .ok f ∧
    f.body.isReference = true ∧ c.CallsOnType "x => System.Math.PI" f ∧
    (∀ type ∈ f.body.owner?, ∀ p ∈ f.params, p.name ≠ type.shortText c.namespaces) ∧
    c.parse (c.text f) (some ⟨[.double], none⟩) .none = .ok f := by
  obtain ⟨c, hc⟩ := exists_standard
  obtain ⟨m, hpi, h⟩ := parse_pi hc "x => System.Math.PI" "x" (by decide) (by decide +kernel)
  have hcalls : c.CallsOnType "x => System.Math.PI" ⟨[⟨"x", .double⟩], .staticMember m⟩ := nofun
  have hfree : ∀ type ∈ (Term.staticMember m).owner?, ∀ p ∈ [(⟨"x", .double⟩ : Param)],
      p.name ≠ type.shortText c.namespaces := by
    simp only [Standard.isPi, Bool.and_eq_true, beq_iff_eq] at hpi
    have hshort : (HostType.named "System.Math").shortText .system = "Math" := by decide +kernel
    have hnamespaces : c.namespaces = .system := (fills_of_standard hc).namespaces
    rintro _ ⟨⟩ p hp
    rw [List.mem_singleton.mp hp, hpi.1.2, hnamespaces, hshort]
    decide
  exact ⟨c, _, hc, h, rfl, hcalls, hfree, parse_text_reference hc h rfl hcalls hfree⟩

/-- A parameter that has the name of the type takes its place. -/
theorem parse_text_captured : ∃ c f, standard .still = .ok c ∧
    c.parse "Math => System.Math.PI" (some ⟨[.double], none⟩) .none = .ok f ∧
    f.body.isReference = true ∧ c.text f = "Math => Math.PI" ∧
    ∀ g, c.parse (c.text f) (some ⟨[.double], none⟩) .none ≠ .ok g := by
  obtain ⟨c, hc⟩ := exists_standard
  obtain ⟨m, hpi, h⟩ := parse_pi hc "Math => System.Math.PI" "Math" (by decide) (by decide +kernel)
  have hfills := fills_of_standard hc
  have hnamespaces : c.namespaces = .system := hfills.namespaces
  have htext : c.text ⟨[⟨"Math", .double⟩], .staticMember m⟩ = "Math => Math.PI" := by
    simp only [Standard.isPi, Bool.and_eq_true, beq_iff_eq] at hpi
    simp only [text, Function.text, Function.term, Term.text, hpi, hnamespaces]
    decide +kernel
  refine ⟨c, _, hc, h, rfl, htext, fun g hg => ?_⟩
  rw [htext] at hg
  obtain ⟨written, hread, hg⟩ := parse_eq_ok.mp hg
  have hw : (Syntax.parseLambda "Math => Math.PI").toOption.any Standard.writesMathPi = true := by
    decide +kernel
  rw [hread] at hw
  exact hfills.not_elaborate_pi hw g hg

end Context

end FatArrow
