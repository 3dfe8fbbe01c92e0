import FatArrow.Proofs.Registry.Ancestors
import FatArrow.Proofs.Registry.Inheritance
import FatArrow.Proofs.Registry.Overloads
import FatArrow.Proofs.Types.Params

/-!
# Look-ups on closed types

Entries of generic types speak of their own parameters, and a look-up binds these to the arguments of
the receiver.  Arguments are handed from base to base, so that at any depth of inheritance there are
enough of them, and none has a parameter itself.
-/

namespace FatArrow

/-! ## 1. What entries speak of -/

/-- The types that describe a member. -/
def Member.types (m : Member) : List HostType := [m.declaring, m.type]

/-- The types that describe a method; those that are bound to the parameters of a generic one apart. -/
def Method.types (m : Method) : List HostType := m.declaring.toList ++ m.params ++ [m.returns]

/-- The types that describe a constructor. -/
def Constructor.types (c : Constructor) : List HostType := c.declaring :: c.params

/-- The types that an entry speaks of: in its bases, its items, its members, its constructors and its
methods, but for those that have parameters of their own. -/
def TypeEntry.mentions (e : TypeEntry) : List HostType :=
  e.bases ++ e.itemType.toList ++ (e.properties ++ e.fields).flatMap Member.types ++
    e.constructors.flatMap Constructor.types ++
    (e.methods.filter (·.arity == 0)).flatMap Method.types

namespace TypeEntry

variable {e : TypeEntry} {t : HostType}

theorem base_mem_mentions (ht : t ∈ e.bases) : t ∈ e.mentions := by
  simp [mentions, ht]

theorem itemType_mem_mentions (ht : e.itemType = some t) : t ∈ e.mentions := by
  simp [mentions, ht]

theorem member_mem_mentions {m : Member} (hm : m ∈ e.properties ++ e.fields) (ht : t ∈ m.types) :
    t ∈ e.mentions := by
  have : t ∈ (e.properties ++ e.fields).flatMap Member.types := List.mem_flatMap_of_mem hm ht
  simp only [mentions, List.mem_append, this, or_true, true_or]

theorem constructor_mem_mentions {c : Constructor} (hc : c ∈ e.constructors) (ht : t ∈ c.types) :
    t ∈ e.mentions := by
  have : t ∈ e.constructors.flatMap Constructor.types := List.mem_flatMap_of_mem hc ht
  simp only [mentions, List.mem_append, this, or_true, true_or]

theorem method_mem_mentions {m : Method} (hm : m ∈ e.methods) (harity : m.arity = 0)
    (ht : t ∈ m.types) : t ∈ e.mentions :=
  List.mem_append_right _
    (List.mem_flatMap_of_mem (List.mem_filter.mpr ⟨hm, beq_iff_eq.mpr harity⟩) ht)

end TypeEntry

/-! ## 2. Arguments -/

namespace HostType

variable {t a : HostType}

theorem hasParam_of_mem_args (ht : t.hasParam = false) (ha : a ∈ t.args) : a.hasParam = false := by
  obtain ⟨shape, args, nullable⟩ := t
  cases shape with
  | param i => cases ht
  | _ =>
    simp only [hasParam, hasParamList_eq_any, List.any_eq_false, Bool.not_eq_true] at ht
    exact ht a ha

theorem hasParam_of_mem_actuals (ht : t.hasParam = false) (ha : a ∈ t.actuals) :
    a.hasParam = false := by
  unfold actuals at ha
  split at ha
  · rw [List.mem_singleton.mp ha]
    exact (hasParam_with_nullable ..).trans ht
  · exact hasParam_of_mem_args ht ha

/-- A type that an entry describes keeps the number of its arguments when parameters are replaced. -/
theorem length_actuals_subst (hkey : t.key?.isSome) (actual : List HostType) :
    (t.subst actual).actuals.length = t.actuals.length := by
  obtain ⟨shape, args, nullable⟩ := t
  cases nullable with
  | true =>
    cases shape with
    | param i =>
      rw [subst]
      cases actual[i]? <;> simp [actuals]
    | _ => rfl
  | false =>
    cases shape with
    | param i => cases hkey
    | array => cases hkey
    | _ => simp [subst, actuals]

end HostType

namespace Ancestor

variable {a : Ancestor} {u : HostType}

/-- A member of the receiver is described by the receiver, and by what describes it in the entry. -/
theorem mem_types_bindMember {m : Member} (hu : u ∈ (a.bindMember m).types) :
    u = a.receiver ∨ ∃ t ∈ m.types, u = a.entry.bind a.receiver.actuals t := by
  unfold bindMember at hu
  unfold TypeEntry.bind
  cases hgeneric : a.entry.isGeneric with
  | false =>
    rw [hgeneric] at hu
    exact .inr ⟨u, hu, rfl⟩
  | true =>
    rw [hgeneric] at hu
    rcases List.mem_pair.mp hu with rfl | rfl
    · exact .inl rfl
    · exact .inr ⟨m.type, List.mem_pair.mpr (.inr rfl), rfl⟩

theorem mem_types_bindMethod {m : Method} (hu : u ∈ (a.bindMethod m).types) :
    u = a.receiver ∨ ∃ t ∈ m.types, u = a.entry.bind a.receiver.actuals t := by
  unfold bindMethod at hu
  unfold TypeEntry.bind
  cases hgeneric : a.entry.isGeneric with
  | false =>
    rw [hgeneric] at hu
    exact .inr ⟨u, hu, rfl⟩
  | true =>
    rw [hgeneric] at hu
    simp only [Method.types, if_true, Option.toList_some, List.cons_append, List.nil_append,
      List.mem_cons, List.mem_append, List.mem_map, List.not_mem_nil, or_false] at hu ⊢
    rcases hu with rfl | ⟨t, ht, rfl⟩ | rfl
    · exact .inl rfl
    · exact .inr ⟨t, .inl (.inr ht), rfl⟩
    · exact .inr ⟨m.returns, .inr rfl, rfl⟩

theorem arity_bindMethod (a : Ancestor) (m : Method) : (a.bindMethod m).arity = m.arity := by
  unfold bindMethod
  split <;> rfl

end Ancestor

/-- An ancestor is reached as a closed type, whose arguments are enough for its entry. -/
structure Ancestor.Supplied (a : Ancestor) : Prop where
  closed : a.receiver.hasParam = false
  enough : a.entry.arity ≤ a.receiver.actuals.length

namespace Ancestor.Supplied

variable {a : Ancestor} {t : HostType}

/-- No parameter is left in what the entry speaks of. -/
theorem hasParam_bind (ha : a.Supplied) (ht : t.paramsBelow a.entry.arity = true) :
    (a.entry.bind a.receiver.actuals t).hasParam = false := by
  unfold TypeEntry.bind
  split
  next =>
    exact HostType.hasParam_subst (HostType.paramsBelow_mono ha.enough ht)
      fun _ => HostType.hasParam_of_mem_actuals ha.closed
  next hplain =>
    -- an entry without parameters speaks of none
    rw [TypeEntry.isGeneric, decide_eq_true_eq, Nat.not_lt, Nat.le_zero] at hplain
    rw [hplain] at ht
    exact HostType.hasParam_of_paramsBelow_zero ht

/-- The same for a base, which has as many arguments as before. -/
theorem base (ha : a.Supplied) {e : TypeEntry} (ht : t.paramsBelow a.entry.arity = true)
    (hkey : t.key?.isSome) (henough : e.arity ≤ t.actuals.length) :
    Ancestor.Supplied ⟨e, a.entry.bind a.receiver.actuals t⟩ where
  closed := ha.hasParam_bind ht
  enough := by
    unfold TypeEntry.bind
    split
    · rw [HostType.length_actuals_subst hkey]
      exact henough
    · exact henough

end Ancestor.Supplied

namespace Registry

variable {r : Registry} {t : HostType} {e : TypeEntry}

/-! ## 3. Registries -/

/-- The registries that are built from nothing: modules are installed, with success or without, and
single entries are registered. -/
inductive Built : Registry → Prop
  | empty : Built empty
  | install {r : Registry} (m : HostModule) (hr : Built r) : Built (r.install m).1
  | register {r r' : Registry} {e : TypeEntry} (hr : Built r) (h : r.register e = .ok r') : Built r'

/-- What every registration keeps holds of every registry that is built. -/
theorem Kept.built {P : Registry → List TypeEntry → Prop} (hP : Kept P) (h : P Registry.empty [])
    (hr : r.Built) : ∃ es, P r es := by
  induction hr with
  | empty => exact ⟨[], h⟩
  | install m _ ih =>
    obtain ⟨es, h⟩ := ih
    obtain ⟨done, -, -, h⟩ := hP.install h m
    exact ⟨es ++ done, h⟩
  | @register _ _ e _ hr ih =>
    obtain ⟨es, h⟩ := ih
    exact ⟨es ++ [e], hP.register h hr⟩

theorem built_installed (modules : List HostModule) : (installed modules).Built := by
  have hfrom : ∀ r : Registry, r.Built → (modules.foldl (fun r m => (r.install m).1) r).Built := by
    induction modules with
    | nil => exact fun r hr => hr
    | cons m modules ih => exact fun r hr => ih _ (hr.install m)
  exact hfrom empty .empty

theorem kept_found : Kept fun r _ => ∀ p ∈ r.types, r.get? p.1 = some p.2 where
  explicit h _ := h
  register {r r' _ e} h hr p hp := by
    rw [get?, register_types hr]
    rw [register_types hr] at hp
    rcases mem_put.mp hp with ⟨hp, hne⟩ | rfl
    · rw [lookup_put_of_ne hne]
      exact h p hp
    · exact lookup_put_self r.types e

/-- The entry of a type is the one that describes it. -/
theorem Built.entry?_of_describes (hr : r.Built) {p : Fingerprint × TypeEntry} (hp : p ∈ r.types)
    (ht : describes t p = true) : r.entry? t = some p.2 := by
  obtain ⟨_, hfound⟩ := kept_found.built nofun hr
  rw [describes, beq_iff_eq] at ht
  rw [Registry.entry?, ht]
  exact hfound p hp

/-- Entries speak of their own parameters only, and give their bases as many arguments as these have
parameters. -/
structure WellSupplied (r : Registry) : Prop where
  own : ∀ p ∈ r.types, ∀ t ∈ p.2.mentions, t.paramsBelow p.2.arity = true
  enough : ∀ p ∈ r.types, ∀ base ∈ p.2.bases, ∀ e ∈ r.entry? base, e.arity ≤ base.actuals.length

instance (r : Registry) : Decidable r.WellSupplied :=
  decidable_of_iff
    ((∀ p ∈ r.types, ∀ t ∈ p.2.mentions, t.paramsBelow p.2.arity = true) ∧
      ∀ p ∈ r.types, ∀ base ∈ p.2.bases, ∀ e ∈ r.entry? base, e.arity ≤ base.actuals.length)
    ⟨fun h => ⟨h.1, h.2⟩, fun h => ⟨h.own, h.enough⟩⟩

/-! ## 4. Look-ups -/

/-- Arguments are handed down a whole lineage. -/
theorem supplied_of_mem_lineage (hr : r.Built) (h : r.WellSupplied) (ht : t.hasParam = false)
    (henough : ∀ e ∈ r.entry? t, e.arity ≤ t.actuals.length) :
    ∀ a ∈ r.lineage t, a.Supplied ∧ ∃ p ∈ r.types, p.2 = a.entry := by
  obtain ⟨_, hsound⟩ := kept_sound.built sound_empty hr
  refine forall_mem_lineageFrom (List.forall_mem_singleton.mpr fun p hp hd => ?_) ?_
  · exact ⟨⟨ht, henough p.2 (hr.entry?_of_describes hp hd)⟩, p, hp, rfl⟩
  · rintro a ⟨ha, q, hq, hentry⟩ base hbase p hp hd
    rw [← hentry] at hbase
    obtain ⟨_, hbased⟩ := Option.isSome_iff_exists.mp (hsound.based q hq base hbase)
    obtain ⟨key, hkey, -⟩ := Option.bind_eq_some_iff.mp hbased
    -- a base is described by the same entry whatever is bound
    have hbind := TypeEntry.key?_bind hkey a.entry a.receiver.actuals
    have hdescribes : describes base p = true := by
      rw [describes, hkey, ← hbind]
      exact hd
    have hown : base.paramsBelow a.entry.arity = true :=
      hentry ▸ h.own q hq base (TypeEntry.base_mem_mentions hbase)
    refine ⟨ha.base hown (by rw [hkey]; rfl) ?_, p, hp, rfl⟩
    exact h.enough q hq base hbase p.2 (hr.entry?_of_describes hp hdescribes)

/-- Look-ups on a closed type answer with closed types, at any depth of inheritance. -/
theorem lookups_closed (hr : r.Built) (h : r.WellSupplied) (ht : t.hasParam = false)
    (henough : ∀ e ∈ r.entry? t, e.arity ≤ t.actuals.length) :
    (∀ name m, r.host.property? t name = some m → ∀ u ∈ m.types, u.hasParam = false) ∧
      (∀ name m, r.host.field? t name = some m → ∀ u ∈ m.types, u.hasParam = false) ∧
      (∀ args c, r.host.constructor? t args = some c → ∀ u ∈ c.types, u.hasParam = false) ∧
      (∀ item, r.host.itemType? t = some item → item.hasParam = false) ∧
      ∀ name, ∀ m ∈ r.host.methods t name, m.arity = 0 → ∀ u ∈ m.types, u.hasParam = false := by
  have hlineage := supplied_of_mem_lineage hr h ht henough
  have hbind : ∀ a ∈ r.lineage t, ∀ u ∈ a.entry.mentions,
      (a.entry.bind a.receiver.actuals u).hasParam = false := by
    intro a ha u hu
    obtain ⟨hsupplied, p, hp, hentry⟩ := hlineage a ha
    exact hsupplied.hasParam_bind (hentry ▸ h.own p hp u (hentry ▸ hu))
  have hmember : ∀ a ∈ r.lineage t, ∀ n, n ∈ a.entry.properties ++ a.entry.fields →
      ∀ u ∈ (a.bindMember n).types, u.hasParam = false := by
    intro a ha n hn u hu
    rcases Ancestor.mem_types_bindMember hu with rfl | ⟨v, hv, rfl⟩
    · exact (hlineage a ha).1.closed
    · exact hbind a ha v (TypeEntry.member_mem_mentions hn hv)
  refine ⟨fun name m hm => ?_, fun name m hm => ?_, fun args c hc => ?_, fun item hitem => ?_,
    fun name m hm harity => ?_⟩
  · obtain ⟨a, ha, n, hn, -, -, rfl⟩ := exists_of_property? hm
    exact hmember a ha n (List.mem_append_left _ hn)
  · obtain ⟨a, ha, n, hn, -, -, rfl⟩ := exists_of_field? hm
    exact hmember a ha n (List.mem_append_right _ hn)
  · obtain ⟨e, he, d, hd, rfl⟩ := exists_of_constructor? hc
    have ha : ⟨e, t⟩ ∈ r.lineage t := lineage_eq he ▸ List.mem_cons_self
    intro u hu
    rcases List.mem_cons.mp hu with rfl | hu
    · exact ht
    · obtain ⟨v, hv, rfl⟩ := List.mem_map.mp hu
      exact hbind _ ha v (TypeEntry.constructor_mem_mentions hd (List.mem_cons_of_mem _ hv))
  · obtain ⟨hn, helement | ⟨a, ha, ⟨type, htype, rfl⟩ | ⟨-, -, hhead⟩⟩⟩ := exists_of_itemType? hitem
    · unfold HostType.element? at helement
      split at helement
      · exact HostType.hasParam_of_mem_args ht (List.mem_of_head? helement)
      · cases helement
    · exact hbind a ha type (TypeEntry.itemType_mem_mentions htype)
    · exact HostType.hasParam_of_mem_actuals (hlineage a ha).1.closed (List.mem_of_head? hhead)
  · obtain ⟨a, ha, n, hn, -, rfl⟩ := exists_of_mem_methods hm
    intro u hu
    rcases Ancestor.mem_types_bindMethod hu with rfl | ⟨v, hv, rfl⟩
    · exact (hlineage a ha).1.closed
    · rw [a.arity_bindMethod] at harity
      exact hbind a ha v (TypeEntry.method_mem_mentions hn harity hv)

/-- A pair is a box of arrays of its second type. -/
theorem lookups_closed_pair :
    let silent : Native := fun _ => pure .null
    let box := { TypeDecl.ofName "Box`1" with
      arity := 1, properties := [⟨"Item", .param 0, false, silent⟩]
      fields := [⟨"rest", { HostType.param 0 with nullable := true }, false, silent⟩]
      itemType := some (.param 0) }
    let pair := { TypeDecl.ofName "Pair`2" with
      arity := 2, bases := [.applied (.ofDotted "App.Box`1") [.arrayOf (.param 1)]]
      methods := [.onReceiver "Swap" [.param 1] (.param 0)], constructors := [⟨[.param 1], silent⟩] }
    let r := installed [.ofNamespace "App" [box, pair]]
    let t : HostType := .applied (.ofDotted "App.Pair`2") [.int32, .string]
    let texts : HostType := .arrayOf .string
    r.Built ∧ r.WellSupplied ∧ t.hasParam = false ∧
      (∀ e ∈ r.entry? t, e.arity ≤ t.actuals.length) ∧
      (r.host.property? t "Item").map Member.types =
        some [.applied (.ofDotted "App.Box`1") [texts], texts] ∧
      (∀ m, r.host.property? t "Item" = some m → ∀ u ∈ m.types, u.hasParam = false) ∧
      (∀ item, r.host.itemType? t = some item → item.hasParam = false) ∧
      ∀ m ∈ r.host.methods t "Swap", m.arity = 0 → ∀ u ∈ m.types, u.hasParam = false := by
  intro silent box pair r t texts
  have hr : r.Built := built_installed _
  have hsupplied : r.WellSupplied := by decide +kernel
  have henough : ∀ e ∈ r.entry? t, e.arity ≤ t.actuals.length := by decide +kernel
  obtain ⟨hproperty, -, -, hitem, hmethods⟩ := lookups_closed hr hsupplied rfl henough
  refine ⟨hr, hsupplied, rfl, henough, ?_, hproperty "Item", hitem, hmethods "Swap"⟩
  exact lineage_of_within (r := r) (t := t) (p := fun as => (as.findSome? fun a =>
    (a.entry.property? "Item").map a.bindMember).map Member.types = _) 4 (by decide +kernel)

end Registry

end FatArrow
