import FatArrow.Proofs.Registry.Closed
import FatArrow.Proofs.Types.Substitution
import FatArrow.Standard.Primitives

/-!
# Arguments handed from base to base

A base is written in the parameters of the type that declares it.  Along a chain of bases the arguments
are composed, and what is inherited has the composed arguments for its parameters, as if the parameters
were replaced base by base.  Null is not added twice: a nullable parameter for a base hands an argument
that has null of its own on without it.
-/

namespace FatArrow

/-! ## 1. Composed arguments -/

namespace HostType

variable {t : HostType} {actuals chain : List HostType}

/-- The arguments of the last base of a chain, for arguments of the type where it starts.  The last base
comes first. -/
def composed (actuals : List HostType) : List HostType → List HostType
  | [] => actuals
  | base :: chain => base.actuals.map (·.subst (composed actuals chain))

/-- A type of the last base of a chain, its parameters replaced base by base. -/
def substEach (actuals : List HostType) : List HostType → HostType → HostType
  | [], t => t.subst actuals
  | base :: chain, t => substEach actuals chain (t.subst base.actuals)

/-- The bases of a chain have arguments for all parameters in given types, and in the arguments of each
other. -/
def Supplies : List HostType → List HostType → Prop
  | [], _ => True
  | base :: chain, types => (∀ t ∈ types, t.paramsBelow base.actuals.length = true) ∧
      Supplies chain base.actuals

/-- No base of a chain is a parameter that stands for a type with null of its own. -/
def SingleNulls (actuals : List HostType) : List HostType → Prop
  | [] => True
  | base :: chain =>
    (∀ i, base.shape = .param i → ∀ t ∈ (composed actuals chain)[i]?, t.nullable = false) ∧
      SingleNulls actuals chain

/-- Replacing base by base is replacing once. -/
theorem substEach_eq (h : Supplies chain [t]) : substEach actuals chain t =
    t.subst (composed actuals chain) := by
  induction chain generalizing t with
  | nil => rfl
  | cons base chain ih =>
    obtain ⟨hbase, hchain⟩ := h
    have hbelow := hbase t (List.mem_singleton_self t)
    -- the arguments of the base take the place of the type
    have hnext : Supplies chain [t.subst base.actuals] := by
      cases chain with
      | nil => trivial
      | cons next rest =>
        obtain ⟨hargs, hrest⟩ := hchain
        exact ⟨List.forall_mem_singleton.mpr (paramsBelow_subst hbelow hargs), hrest⟩
    rw [substEach, ih hnext, subst_subst hbelow, composed]

/-- The arguments of a type in which parameters are replaced are its own with the parameters replaced,
where null is not added twice. -/
theorem actuals_subst (hkey : t.key?.isSome = true)
    (hnulls : ∀ i, t.shape = .param i → ∀ u ∈ actuals[i]?, u.nullable = false) :
    (t.subst actuals).actuals = t.actuals.map (·.subst actuals) := by
  obtain ⟨shape, args, nullable⟩ := t
  cases shape with
  | param i =>
    cases nullable with
    | false => cases hkey
    | true =>
      show (HostType.subst actuals ⟨.param i, args, true⟩).actuals =
        [HostType.subst actuals ⟨.param i, args, false⟩]
      rw [subst, subst]
      cases hi : actuals[i]? with
      | none => rfl
      | some u =>
        have hnull := hnulls i rfl u hi
        simp [HostType.actuals, underlying, hnull]
  | _ =>
    cases nullable with
    | false => simp [subst, HostType.actuals]
    | true => rfl

/-- The parameters in the arguments of a type are among those in the type. -/
theorem paramsBelow_of_mem_actuals {n : Nat} {u : HostType} (ht : t.paramsBelow n = true)
    (hu : u ∈ t.actuals) : u.paramsBelow n = true := by
  unfold actuals at hu
  split at hu
  · rw [List.mem_singleton.mp hu]
    exact (paramsBelow_with_nullable t false).trans ht
  · obtain ⟨shape, args, nullable⟩ := t
    cases shape <;>
      simp only [paramsBelow, paramsBelowList_eq_all, Bool.and_eq_true, List.all_eq_true] at ht
    case param => exact ht.2 u hu
    all_goals exact ht u hu

end HostType

/-! ## 2. Chains of bases -/

namespace TypeEntry

variable {e : TypeEntry} {t : HostType}

/-- The parameters in a type are those of the entry, if it has any. -/
def Owns (e : TypeEntry) (t : HostType) : Prop := e.isGeneric = true ∨ t.hasParam = false

theorem bind_eq_subst (h : e.Owns t) (actuals : List HostType) : e.bind actuals t = t.subst actuals := by
  unfold bind
  by_cases hgeneric : e.isGeneric = true
  · rw [if_pos hgeneric]
  · rw [if_neg hgeneric]
    exact (HostType.subst_of_closed (h.resolve_left hgeneric) actuals).symm

end TypeEntry

namespace Registry

variable {r : Registry} {t : HostType} {chain : List HostType} {a : Ancestor}

/-- A chain of declared bases, the last one first, and the entry where it ends, as the type as which it
is reached. -/
inductive Descends (r : Registry) (t : HostType) : List HostType → Ancestor → Prop
  | self {e : TypeEntry} (he : r.entry? t = some e) : Descends r t [] ⟨e, t⟩
  | base {chain : List HostType} {a : Ancestor} {base : HostType} {e : TypeEntry}
      (ha : Descends r t chain a) (hb : base ∈ a.entry.bases) (hown : a.entry.Owns base)
      (he : r.entry? (a.entry.bind a.receiver.actuals base) = some e) :
      Descends r t (base :: chain) ⟨e, a.entry.bind a.receiver.actuals base⟩

/-- Entries without parameters speak of none. -/
def PlainClosed (r : Registry) : Prop :=
  ∀ p ∈ r.types, p.2.isGeneric = false → ∀ t ∈ p.2.mentions, t.hasParam = false

theorem exists_mem_of_entry? {e : TypeEntry} (h : r.entry? t = some e) : ∃ p ∈ r.types, p.2 = e := by
  obtain ⟨key, -, hget⟩ := Option.bind_eq_some_iff.mp h
  exact ⟨(key, e), mem_types_of_get? hget, rfl⟩

/-- A declared base is described by an entry, whatever its parameters stand for. -/
theorem Built.key?_base (hr : r.Built) {p : Fingerprint × TypeEntry} (hp : p ∈ r.types)
    {base : HostType} (hb : base ∈ p.2.bases) : ∃ key, base.key? = some key := by
  obtain ⟨_, hsound⟩ := kept_sound.built sound_empty hr
  obtain ⟨_, hbased⟩ := Option.isSome_iff_exists.mp (hsound.based p hp base hb)
  obtain ⟨key, hkey, -⟩ := Option.bind_eq_some_iff.mp hbased
  exact ⟨key, hkey⟩

namespace Descends

theorem exists_mem (h : r.Descends t chain a) : ∃ p ∈ r.types, p.2 = a.entry := by
  cases h with
  | self he => exact exists_mem_of_entry? he
  | base _ _ _ he => exact exists_mem_of_entry? he

/-- A chain goes on to every base of a generic type. -/
theorem generic (h : r.Descends t chain a) (hgeneric : a.entry.isGeneric = true) {base : HostType}
    (hb : base ∈ a.entry.bases) {e : TypeEntry}
    (he : r.entry? (base.subst a.receiver.actuals) = some e) :
    r.Descends t (base :: chain) ⟨e, base.subst a.receiver.actuals⟩ := by
  have hown : a.entry.Owns base := .inl hgeneric
  rw [← TypeEntry.bind_eq_subst hown] at he ⊢
  exact h.base hb hown he

/-- The type as which an entry is reached has the composed arguments. -/
theorem actuals_receiver (h : r.Descends t chain a) (hr : r.Built)
    (hnulls : HostType.SingleNulls t.actuals chain) :
    a.receiver.actuals = HostType.composed t.actuals chain := by
  induction h with
  | self _ => rfl
  | @base chain a base e ha hb hown he ih =>
    obtain ⟨hnull, hnulls⟩ := hnulls
    obtain ⟨p, hp, hentry⟩ := ha.exists_mem
    obtain ⟨key, hkey⟩ := hr.key?_base hp (hentry ▸ hb)
    show (a.entry.bind a.receiver.actuals base).actuals = _
    rw [TypeEntry.bind_eq_subst hown, ih hnulls]
    exact HostType.actuals_subst (by rw [hkey]; rfl) hnull

/-- Entries give their bases enough arguments, so that chains supply what is inherited. -/
theorem supplies (h : r.Descends t chain a) (hr : r.Built) (hsupplied : r.WellSupplied)
    {types : List HostType} (ht : ∀ u ∈ types, u.paramsBelow a.entry.arity = true) :
    HostType.Supplies chain types := by
  induction h generalizing types with
  | self _ => trivial
  | @base chain a base e ha hb hown he ih =>
    obtain ⟨p, hp, hentry⟩ := ha.exists_mem
    have hbase : base ∈ p.2.bases := hentry ▸ hb
    obtain ⟨key, hkey⟩ := hr.key?_base hp hbase
    have hsame : r.entry? base = some e := by
      rw [Registry.entry?, TypeEntry.key?_bind hkey] at he
      rwa [Registry.entry?, hkey]
    have henough := hsupplied.enough p hp base hbase e hsame
    have hbelow : base.paramsBelow a.entry.arity = true :=
      hentry ▸ hsupplied.own p hp base (TypeEntry.base_mem_mentions hbase)
    refine ⟨fun u hu => HostType.paramsBelow_mono henough (ht u hu), ih fun u hu => ?_⟩
    exact HostType.paramsBelow_of_mem_actuals hbelow hu

end Descends

/-- What a lineage lists is at the ends of chains. -/
theorem exists_descends (hr : r.Built) (hplain : r.PlainClosed) (ha : a ∈ r.lineage t) :
    ∃ chain, r.Descends t chain a := by
  refine forall_mem_lineageFrom (P := fun a => ∃ chain, r.Descends t chain a) ?_ ?_ a ha
  · intro u hu p hp hdescribes
    obtain rfl := List.mem_singleton.mp hu
    exact ⟨[], .self (hr.entry?_of_describes hp hdescribes)⟩
  · rintro a ⟨chain, ha⟩ base hb p hp hdescribes
    refine ⟨base :: chain, ha.base hb ?_ (hr.entry?_of_describes hp hdescribes)⟩
    obtain ⟨q, hq, hentry⟩ := ha.exists_mem
    by_cases hgeneric : a.entry.isGeneric = true
    · exact .inl hgeneric
    · rw [Bool.not_eq_true, ← hentry] at hgeneric
      exact .inr (hplain q hq hgeneric base (TypeEntry.base_mem_mentions (hentry ▸ hb)))

end Registry

/-! ## 3. What is inherited -/

/-- The parameters of an entry stand for given types: in the types inside it, in the types of members
and in those of methods. -/
structure Ancestor.HasArguments (a : Ancestor) (args : List HostType) : Prop where
  type : ∀ t, a.entry.Owns t → a.entry.bind a.receiver.actuals t = t.subst args
  member : ∀ m : Member, a.entry.Owns m.type → (a.bindMember m).type = m.type.subst args
  method : ∀ m : Method, (∀ t ∈ m.returns :: m.params, a.entry.Owns t) →
    (a.bindMethod m).params = m.params.map (·.subst args) ∧
      (a.bindMethod m).returns = m.returns.subst args

theorem Ancestor.hasArguments (a : Ancestor) : a.HasArguments a.receiver.actuals where
  type _ hown := TypeEntry.bind_eq_subst hown _
  member m hown := by
    obtain ⟨_, heq⟩ := a.bindMember_eq m
    rw [heq]
    exact TypeEntry.bind_eq_subst hown _
  method m hown := by
    obtain ⟨hreturns, hparams⟩ := List.forall_mem_cons.mp hown
    obtain ⟨_, heq⟩ := a.bindMethod_eq m
    rw [heq]
    refine ⟨?_, TypeEntry.bind_eq_subst hreturns _⟩
    exact List.map_congr_left fun t ht => TypeEntry.bind_eq_subst (hparams t ht) _

namespace Registry

variable {r : Registry}

/-- What a type inherits has the composed arguments for its parameters, along every chain of bases that
adds no null twice; it has them base by base, where entries give their bases enough arguments; and
look-ups answer with what is at the ends of chains. -/
structure Composes (r : Registry) (t : HostType) : Prop where
  inherited : ∀ chain a, r.Descends t chain a → HostType.SingleNulls t.actuals chain →
    a.HasArguments (HostType.composed t.actuals chain)
  stepwise : r.WellSupplied → ∀ chain a, r.Descends t chain a → ∀ u ∈ a.entry.mentions,
    HostType.substEach t.actuals chain u = u.subst (HostType.composed t.actuals chain)
  property : r.PlainClosed → ∀ name m, r.host.property? t name = some m → ∃ chain a n,
    r.Descends t chain a ∧ n ∈ a.entry.properties ∧ n.name = name ∧ m = a.bindMember n
  field : r.PlainClosed → ∀ name m, r.host.field? t name = some m → ∃ chain a n,
    r.Descends t chain a ∧ n ∈ a.entry.fields ∧ n.name = name ∧ m = a.bindMember n
  method : r.PlainClosed → ∀ name, ∀ m ∈ r.host.methods t name, ∃ chain a n,
    r.Descends t chain a ∧ n ∈ a.entry.methods ∧ n.name = name ∧ m = a.bindMethod n

theorem Built.composes (hr : r.Built) (t : HostType) : r.Composes t where
  inherited chain a h hnulls := by
    rw [← h.actuals_receiver hr hnulls]
    exact a.hasArguments
  stepwise hsupplied chain a h u hu := by
    apply HostType.substEach_eq
    apply h.supplies hr hsupplied
    obtain ⟨p, hp, hentry⟩ := h.exists_mem
    exact List.forall_mem_singleton.mpr (hentry ▸ hsupplied.own p hp u (hentry ▸ hu))
  property hplain name m hm := by
    obtain ⟨a, ha, n, hn, -, hname, heq⟩ := exists_of_property? hm
    obtain ⟨chain, hchain⟩ := exists_descends hr hplain ha
    exact ⟨chain, a, n, hchain, hn, hname, heq⟩
  field hplain name m hm := by
    obtain ⟨a, ha, n, hn, -, hname, heq⟩ := exists_of_field? hm
    obtain ⟨chain, hchain⟩ := exists_descends hr hplain ha
    exact ⟨chain, a, n, hchain, hn, hname, heq⟩
  method hplain name m hm := by
    obtain ⟨a, ha, n, hn, hname, heq⟩ := exists_of_mem_methods hm
    obtain ⟨chain, hchain⟩ := exists_descends hr hplain ha
    exact ⟨chain, a, n, hchain, hn, hname, heq⟩

/-- Replacing parameters composes: in types, in methods whose parameters are bound, and along the bases
of whatever a registry describes. -/
theorem arguments_compose :
    (∀ (t : HostType) (a b : List HostType), t.paramsBelow a.length = true →
      (t.subst a).subst b = t.subst (a.map (·.subst b)) ∧
        ((∀ u ∈ a, u.hasParam = false) → (t.subst a).hasParam = false)) ∧
    (∀ (m : Method) (a b : List HostType),
      (∀ t ∈ m.returns :: m.params, t.paramsBelow a.length = true) →
      (m.instantiate a).params.map (·.subst b) = (m.instantiate (a.map (·.subst b))).params ∧
        (m.instantiate a).returns.subst b = (m.instantiate (a.map (·.subst b))).returns) ∧
    ∀ (r : Registry) (t : HostType), r.Built → r.Composes t := by
  refine ⟨fun t a b h => ⟨HostType.subst_subst h, HostType.hasParam_subst h⟩, fun m a b h => ?_,
    fun r t hr => hr.composes t⟩
  exact Method.instantiate_subst h b

/-- A twin is a pair of a type and the type with null, and a pair is a box of arrays of its second type. -/
theorem arguments_compose_twin :
    let silent : Native := fun _ => pure .null
    let orNull : HostType := { HostType.param 0 with nullable := true }
    let array : HostType := .applied (.ofDotted "App.Box`1") [.arrayOf (.param 1)]
    let halves : HostType := .applied (.ofDotted "App.Pair`2") [.param 0, orNull]
    let box := { TypeDecl.ofName "Box`1" with
      arity := 1, properties := [⟨"Item", .param 0, false, silent⟩] }
    let pair := { TypeDecl.ofName "Pair`2" with arity := 2, bases := [array] }
    let twin := { TypeDecl.ofName "Twin`1" with arity := 1, bases := [halves] }
    let r := installed [.ofNamespace "App" [box, pair, twin]]
    let t : HostType := .applied (.ofDotted "App.Twin`1") [.int32]
    r.Built ∧ r.WellSupplied ∧ r.PlainClosed ∧ HostType.SingleNulls t.actuals [array, halves] ∧
      HostType.composed t.actuals [array, halves] = [.arrayOf HostType.int32.orNull] ∧
      ∃ a, r.Descends t [array, halves] a ∧
        (∀ n ∈ a.entry.properties,
          (a.bindMember n).type = n.type.subst [.arrayOf HostType.int32.orNull]) ∧
        array.paramsBelow halves.actuals.length = true ∧
        (array.subst halves.actuals).subst t.actuals =
          .applied (.ofDotted "App.Box`1") [.arrayOf HostType.int32.orNull] := by
  intro silent orNull array halves box pair twin r t
  have hr : r.Built := built_installed _
  have hsupplied : r.WellSupplied := by decide +kernel
  have hplain : r.PlainClosed := by
    unfold PlainClosed
    decide +kernel
  have hnulls : HostType.SingleNulls t.actuals [array, halves] := ⟨nofun, nofun, trivial⟩
  have hcomposed : HostType.composed t.actuals [array, halves] = [.arrayOf HostType.int32.orNull] := by
    decide +kernel
  have hbelow : array.paramsBelow halves.actuals.length = true := by decide
  -- the entries of the chain: what they are asked for, whatever their natives are
  have htwin : (r.entry? t).map (fun e => (e.isGeneric, e.bases)) = some (true, [halves]) := by
    decide +kernel
  have hpair : (r.entry? (halves.subst t.actuals)).map (fun e => (e.isGeneric, e.bases)) =
      some (true, [array]) := by decide +kernel
  have hbox : (r.entry? (array.subst (halves.subst t.actuals).actuals)).map (·.isGeneric) =
      some true := by decide +kernel
  obtain ⟨e, he, htwin⟩ := Option.map_eq_some_iff.mp htwin
  obtain ⟨f, hf, hpair⟩ := Option.map_eq_some_iff.mp hpair
  obtain ⟨g, hg, hbox⟩ := Option.map_eq_some_iff.mp hbox
  obtain ⟨htwin, hhalves⟩ := Prod.mk.inj htwin
  obtain ⟨hpair, harray⟩ := Prod.mk.inj hpair
  have hfirst : r.Descends t [halves] ⟨f, halves.subst t.actuals⟩ :=
    (Descends.self he).generic htwin (hhalves ▸ List.mem_singleton_self halves) hf
  have hlast := hfirst.generic hpair (harray ▸ List.mem_singleton_self array) hg
  obtain ⟨htypes, -, hregistry⟩ := arguments_compose
  have hinherited := (hregistry r t hr).inherited _ _ hlast hnulls
  rw [hcomposed] at hinherited
  refine ⟨hr, hsupplied, hplain, hnulls, hcomposed, _, hlast,
    fun n _ => hinherited.member n (.inl hbox), hbelow, ?_⟩
  rw [(htypes array halves.actuals t.actuals hbelow).1]
  decide +kernel

/-- A nullable parameter is a base, and its argument is nullable itself.  The composed argument is
nullable, too, but the values of a nullable type are those of the type without null. -/
theorem composed_null_twice :
    let base : HostType := { HostType.param 0 with nullable := true }
    let foo := { TypeDecl.ofName "Foo`1" with arity := 1, bases := [base] }
    let r := installed [.ofNamespace "System" [Standard.nullable], .ofNamespace "App" [foo]]
    let t : HostType := .applied (.ofDotted "App.Foo`1") [HostType.int32.orNull]
    r.Built ∧ r.WellSupplied ∧ t.hasParam = false ∧
      HostType.composed t.actuals [base] = [HostType.int32.orNull] ∧
      ∃ a n, r.Descends t [base] a ∧ n ∈ a.entry.properties ∧ n.name = "Value" ∧
        (a.bindMember n).type = .int32 ∧
        (a.bindMember n).type ≠ n.type.subst (HostType.composed t.actuals [base]) := by
  intro base foo r t
  have hcomposed : HostType.composed t.actuals [base] = [HostType.int32.orNull] := by decide +kernel
  have hfoo : (r.entry? t).map (fun e => (e.isGeneric, e.bases)) = some (true, [base]) := by
    decide +kernel
  have hnullable : (r.entry? (base.subst t.actuals)).map (fun e =>
      (e.isGeneric, e.properties.map fun n => (n.name, n.type))) =
        some (true, [("HasValue", .boolean), ("Value", .param 0)]) := by decide +kernel
  obtain ⟨e, he, hfoo⟩ := Option.map_eq_some_iff.mp hfoo
  obtain ⟨f, hf, hnullable⟩ := Option.map_eq_some_iff.mp hnullable
  obtain ⟨hfoo, hbase⟩ := Prod.mk.inj hfoo
  obtain ⟨hnullable, hproperties⟩ := Prod.mk.inj hnullable
  have hlast : r.Descends t [base] ⟨f, base.subst t.actuals⟩ :=
    (Descends.self he).generic hfoo (hbase ▸ List.mem_singleton_self base) hf
  obtain ⟨n, hn, hvalue⟩ : ∃ n ∈ f.properties, (n.name, n.type) = ("Value", HostType.param 0) := by
    apply List.mem_map.mp
    rw [hproperties]
    exact List.mem_cons_of_mem _ List.mem_cons_self
  obtain ⟨hname, htype⟩ := Prod.mk.inj hvalue
  have hinherited : ((Ancestor.mk f (base.subst t.actuals)).bindMember n).type = .int32 := by
    rw [(Ancestor.hasArguments _).member n (.inl hnullable), htype]
    show (HostType.param 0).subst (base.subst t.actuals).actuals = .int32
    decide +kernel
  refine ⟨built_installed _, by decide +kernel, rfl, hcomposed, _, n, hlast, hn, hname, hinherited, ?_⟩
  rw [hinherited, hcomposed, htype]
  decide +kernel

end Registry

end FatArrow
