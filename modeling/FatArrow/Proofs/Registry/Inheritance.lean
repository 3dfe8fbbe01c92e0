import FatArrow.Proofs.Registry.Frame
import FatArrow.Proofs.Registry.Layers
import Mathlib.Data.List.Nodup
import Mathlib.Data.List.Perm.Subperm

/-!
# Two views of inheritance

A type inherits from the types that are reached through declared bases.  Walking the entries from base
to base and following the edges between fingerprints lead to the same types, and never back to where
they started.
-/

namespace FatArrow

namespace Registry

/-! ## 1. What is inherited -/

/-- The entry of a type, and those of the bases of what it inherits: each as the type as which it is
reached, its arguments handed down. -/
inductive Inherits (r : Registry) (t : HostType) : Ancestor → Prop
  | self {e : TypeEntry} (he : r.entry? t = some e) : Inherits r t ⟨e, t⟩
  | base {a : Ancestor} {base : HostType} {e : TypeEntry} (ha : Inherits r t a)
      (hb : base ∈ a.entry.bases) (he : r.entry? (a.entry.bind a.receiver.actuals base) = some e) :
      Inherits r t ⟨e, a.entry.bind a.receiver.actuals base⟩

/-- A registered entry declares a base that another entry describes. -/
def DeclaresBase (r : Registry) (derived base : TypeEntry) : Prop :=
  r.get? derived.key = some derived ∧ ∃ type ∈ derived.bases, r.entry? type = some base

/-- An edge leads from one node to another. -/
def Linked (edges : List (Fingerprint × Fingerprint)) (x y : Fingerprint) : Prop := (x, y) ∈ edges

variable {r : Registry} {t : HostType} {x y : Fingerprint} {e : TypeEntry}

/-! ## 2. The walk along entries -/

section Walk

variable {rest : List (Fingerprint × TypeEntry)} {queue : List HostType}

/-- Once its entry is taken out, nothing describes a type any more. -/
theorem describes_of_mem_eraseP (hd : (rest.map (·.1)).Nodup) {p q : Fingerprint × TypeEntry}
    (hp : p ∈ rest) (ht : describes t p = true) (hq : q ∈ rest.eraseP (describes t)) :
    q.1 ≠ p.1 := by
  obtain ⟨found, front, back, -, hfound, rfl, herased⟩ := List.exists_of_eraseP hp ht
  have hsame : found.1 = p.1 := by
    rw [describes, beq_iff_eq] at hfound ht
    exact Option.some.inj (hfound.symm.trans ht)
  rw [herased] at hq
  rw [List.map_append, List.map_cons, List.nodup_middle, ← List.map_append, List.nodup_cons] at hd
  rw [← hsame]
  exact fun hkey => hd.1 (hkey ▸ List.mem_map_of_mem hq)

theorem nodup_eraseP (hd : (rest.map (·.1)).Nodup) :
    ((rest.eraseP (describes t)).map (·.1)).Nodup :=
  hd.sublist ((List.eraseP_sublist).map _)

/-- No entry is met twice. -/
theorem nodup_lineageFrom (queue : List HostType) (hd : (rest.map (·.1)).Nodup)
    (hk : ∀ p ∈ rest, p.1 = p.2.key) :
    ((lineageFrom rest queue).map (·.entry.key)).Nodup ∧
      ∀ a ∈ lineageFrom rest queue, ∃ p ∈ rest, p.2 = a.entry := by
  fun_induction lineageFrom rest queue with
  | case1 rest => exact ⟨List.nodup_nil, List.forall_mem_nil _⟩
  | case2 rest t queue _ ih => exact ih hd hk
  | case3 rest t queue key e hsome ih =>
    have hmem := List.mem_of_find?_eq_some hsome
    have hdescribes := List.find?_some hsome
    obtain ⟨hnodup, hfrom⟩ := ih (nodup_eraseP hd) fun p hp => hk p (List.mem_of_mem_eraseP hp)
    refine ⟨List.nodup_cons.mpr ⟨fun hkey => ?_, hnodup⟩, List.forall_mem_cons.mpr
      ⟨⟨_, hmem, rfl⟩, fun a ha => ?_⟩⟩
    · obtain ⟨a, ha, hsame⟩ := List.mem_map.mp hkey
      obtain ⟨p, hp, hentry⟩ := hfrom a ha
      refine describes_of_mem_eraseP hd hmem hdescribes hp ?_
      rw [hk p (List.mem_of_mem_eraseP hp), hentry, hsame]
      exact (hk _ hmem).symm
    · obtain ⟨p, hp, hentry⟩ := hfrom a ha
      exact ⟨p, List.mem_of_mem_eraseP hp, hentry⟩

/-- What holds of the entries of the queue, and of the bases of what it holds of, holds of all that
is met. -/
theorem forall_mem_lineageFrom {P : Ancestor → Prop}
    (hq : ∀ t ∈ queue, ∀ p ∈ rest, describes t p = true → P ⟨p.2, t⟩)
    (hb : ∀ a, P a → ∀ base ∈ a.entry.bases, ∀ p ∈ rest,
      describes (a.entry.bind a.receiver.actuals base) p = true →
        P ⟨p.2, a.entry.bind a.receiver.actuals base⟩) :
    ∀ a ∈ lineageFrom rest queue, P a := by
  fun_induction lineageFrom rest queue with
  | case1 rest => exact List.forall_mem_nil _
  | case2 rest t queue _ ih => exact ih (List.forall_mem_cons.mp hq).2 hb
  | case3 rest t queue key e hsome ih =>
    obtain ⟨hfirst, hq⟩ := List.forall_mem_cons.mp hq
    have hself := hfirst _ (List.mem_of_find?_eq_some hsome) (List.find?_some hsome)
    refine List.forall_mem_cons.mpr ⟨hself, ih (fun u hu p hp => ?_) fun a ha base hbase p hp => ?_⟩
    · rcases List.mem_append.mp hu with hu | hu
      · exact hq u hu p (List.mem_of_mem_eraseP hp)
      · obtain ⟨base, hbase, rfl⟩ := List.mem_map.mp hu
        exact hb _ hself base hbase p (List.mem_of_mem_eraseP hp)
    · exact hb a ha base hbase p (List.mem_of_mem_eraseP hp)

/-- The entries of the queue are met, and with each entry those of its bases. -/
theorem lineageFrom_closed (queue : List HostType) (hd : (rest.map (·.1)).Nodup) :
    (∀ t ∈ queue, ∀ p ∈ rest, describes t p = true →
      ∃ a ∈ lineageFrom rest queue, a.entry = p.2) ∧
    ∀ a ∈ lineageFrom rest queue, ∀ base ∈ a.entry.bases, ∀ p ∈ rest,
      describes (a.entry.bind a.receiver.actuals base) p = true →
        ∃ b ∈ lineageFrom rest queue, b.entry = p.2 := by
  fun_induction lineageFrom rest queue with
  | case1 rest => exact ⟨List.forall_mem_nil _, List.forall_mem_nil _⟩
  | case2 rest t queue hnone ih =>
    obtain ⟨hqueue, hbases⟩ := ih hd
    refine ⟨List.forall_mem_cons.mpr ⟨fun p hp ht => ?_, hqueue⟩, hbases⟩
    exact absurd ht (List.find?_eq_none.mp hnone p hp)
  | case3 rest t queue key e hsome ih =>
    have hmem := List.mem_of_find?_eq_some hsome
    have hdescribes := List.find?_some hsome
    obtain ⟨hqueue, hbases⟩ := ih (nodup_eraseP hd)
    -- an entry is the one that is taken out, or one of the rest
    have hmet {p : Fingerprint × TypeEntry} (hp : p ∈ rest)
        (hrest : describes t p = false → ∃ a ∈ lineageFrom (rest.eraseP (describes t))
          (queue ++ e.bases.map (e.bind t.actuals)), a.entry = p.2) :
        ∃ a ∈ (⟨e, t⟩ :: lineageFrom (rest.eraseP (describes t))
          (queue ++ e.bases.map (e.bind t.actuals)) : List Ancestor), a.entry = p.2 := by
      cases ht : describes t p with
      | true =>
        have hsame : p = (key, e) := by
          refine List.inj_on_of_nodup_map hd hp hmem ?_
          rw [describes, beq_iff_eq] at ht hdescribes
          exact Option.some.inj (ht.symm.trans hdescribes)
        exact ⟨⟨e, t⟩, List.mem_cons_self, by rw [hsame]⟩
      | false =>
        obtain ⟨a, ha, hentry⟩ := hrest ht
        exact ⟨a, List.mem_cons_of_mem _ ha, hentry⟩
    have hleft {p : Fingerprint × TypeEntry} (hp : p ∈ rest) (ht : describes t p = false) :
        p ∈ rest.eraseP (describes t) :=
      (List.mem_eraseP_of_neg (by rw [ht]; exact Bool.false_ne_true)).mpr hp
    refine ⟨fun u hu p hp hup => hmet hp fun ht => ?_, fun a ha base hbase p hp hbp =>
      hmet hp fun ht => ?_⟩
    · rcases List.mem_cons.mp hu with rfl | hu
      · cases ht.symm.trans hup
      · exact hqueue u (List.mem_append_left _ hu) p (hleft hp ht) hup
    · rcases List.mem_cons.mp ha with rfl | ha
      · exact hqueue _ (List.mem_append_right _ (List.mem_map_of_mem hbase)) p (hleft hp ht) hbp
      · exact hbases a ha base hbase p (hleft hp ht) hbp

end Walk

/-! ## 3. The walk along edges -/

/-- What is reached along edges is at the end of a path from the queue. -/
theorem mem_reached {edges : List (Fingerprint × Fingerprint)} {queue : List Fingerprint} :
    y ∈ reached edges queue ↔ ∃ x ∈ queue, Relation.ReflTransGen (Linked edges) x y := by
  fun_induction reached edges queue with
  | case1 edges => simp
  | case2 edges key queue ih =>
    have helsewhere {x y : Fingerprint} : Linked (elsewhere edges key) x y ↔
        Linked edges x y ∧ x ≠ key := by
      simp [Linked, elsewhere]
    have hbases {z : Fingerprint} : z ∈ basesOf edges key ↔ Linked edges key z := by
      simp [Linked, basesOf]
    rw [List.mem_cons, ih]
    constructor
    · rintro (rfl | ⟨x, hx, hpath⟩)
      · exact ⟨y, List.mem_cons_self, .refl⟩
      · have hpath : Relation.ReflTransGen (Linked edges) x y :=
          Relation.ReflTransGen.mono (fun _ _ h => (helsewhere.mp h).1) _ _ hpath
        rcases List.mem_append.mp hx with hx | hx
        · exact ⟨x, List.mem_cons_of_mem _ hx, hpath⟩
        · exact ⟨key, List.mem_cons_self, .head (hbases.mp hx) hpath⟩
    · rintro ⟨x, hx, hpath⟩
      -- from its last visit of the node on, the path follows the other edges
      clear ih
      induction hpath with
      | refl =>
        rcases List.mem_cons.mp hx with rfl | hx
        · exact .inl rfl
        · exact .inr ⟨x, List.mem_append_left _ hx, .refl⟩
      | @tail z y _ hlast ihpath =>
        by_cases hz : z = key
        · exact .inr ⟨y, List.mem_append_right _ (hbases.mpr (hz ▸ hlast)), .refl⟩
        · obtain hkey | ⟨w, hw, hpath⟩ := ihpath
          · exact absurd hkey hz
          · exact .inr ⟨w, hw, hpath.tail (helsewhere.mpr ⟨hlast, hz⟩)⟩

/-- Edges lead away from entries with bases only, and to bases only. -/
theorem Lists.exists_of_derivesFrom {es : List TypeEntry} (h : r.Lists es) {d b : HostType}
    (hderives : r.derivesFrom d b = true) :
    (∃ e ∈ es, d.key? = some e.key ∧ e.bases ≠ []) ∧
      ∃ e ∈ es, ∃ base ∈ e.bases, base.key? = b.key? := by
  unfold derivesFrom at hderives
  split at hderives
  next x y hx hy =>
    rw [Bool.and_eq_true, bne_iff_ne, List.contains_iff_mem, mem_reached] at hderives
    obtain ⟨hne, z, hz, hpath⟩ := hderives
    obtain rfl := List.mem_singleton.mp hz
    constructor
    · obtain rfl | ⟨_, hfirst, -⟩ := hpath.cases_head
      · exact absurd rfl hne
      obtain ⟨e, he, hkey, base, hbase, -⟩ := h.linked _ hfirst
      exact ⟨e, he, hx.trans (congrArg some hkey.symm), List.ne_nil_of_mem hbase⟩
    · obtain rfl | ⟨_, -, hlast⟩ := hpath.cases_tail
      · exact absurd rfl hne
      obtain ⟨e, he, -, base, hbase, hkey⟩ := h.linked _ hlast
      exact ⟨e, he, base, hbase, hkey.trans hy.symm⟩
  next => cases hderives

/-! ## 4. Both walks -/

namespace Stacked

theorem get?_of_mem (h : r.Stacked) {p : Fingerprint × TypeEntry} (hp : p ∈ r.types) :
    r.get? p.1 = some p.2 := by
  cases hget : r.get? p.1 with
  | none =>
    have hne := List.lookup_eq_none_iff.mp hget p hp
    simp at hne
  | some e =>
    have hsame := List.inj_on_of_nodup_map h.layered.distinct (mem_types_of_get? hget) hp rfl
    rw [← hsame]

theorem key_of_get? (h : r.Stacked) (he : r.get? x = some e) : x = e.key :=
  h.layered.keyed _ (mem_types_of_get? he)

theorem entry?_of_describes (h : r.Stacked) {p : Fingerprint × TypeEntry} (hp : p ∈ r.types)
    (ht : describes t p = true) : r.entry? t = some p.2 := by
  rw [describes, beq_iff_eq] at ht
  rw [Registry.entry?, ht]
  exact h.get?_of_mem hp

theorem exists_of_entry? (he : r.entry? t = some e) :
    ∃ p ∈ r.types, describes t p = true ∧ p.2 = e := by
  obtain ⟨key, hkey, he⟩ := Option.bind_eq_some_iff.mp he
  exact ⟨(key, e), mem_types_of_get? he, by rw [describes, hkey, beq_self_eq_true], rfl⟩

/-- A link goes from an entry to a base that it declares. -/
theorem linked_iff (h : r.Stacked) : Linked r.edges x y ↔
    ∃ e, r.get? x = some e ∧ ∃ base ∈ e.bases, base.key? = some y := by
  rw [Linked, h.layered.linked]
  constructor
  · rintro ⟨p, hp, rfl, hbase⟩
    exact ⟨p.2, h.get?_of_mem hp, hbase⟩
  · rintro ⟨e, he, hbase⟩
    exact ⟨(x, e), mem_types_of_get? he, rfl, hbase⟩

/-- The place of a key among the entries. -/
def place (r : Registry) (key : Fingerprint) : Nat := r.types.findIdx (·.1 == key)

/-- A base stands before the entry that declares it. -/
theorem place_lt (h : r.Stacked) (hl : Linked r.edges x y) : place r y < place r x := by
  obtain ⟨e, he, base, hbase, hkey⟩ := h.linked_iff.mp hl
  obtain ⟨before, after, htypes, hbefore⟩ := List.lookup_eq_some_iff.mp he
  obtain ⟨q, hq, hsame⟩ := h.layered.based before (x, e) ⟨after, by simp [htypes]⟩ base hbase
  have hx : place r x = before.length := by
    have hnone : before.findIdx (·.1 == x) = before.length :=
      List.findIdx_eq_length_of_false fun p hp => by
        have hne := hbefore p hp
        simp at hne ⊢
        exact fun he => hne he.symm
    rw [place, htypes, List.findIdx_append, hnone, if_neg (Nat.lt_irrefl _), List.findIdx_cons]
    simp
  have hy : place r y < before.length := by
    have hfound : before.findIdx (·.1 == y) < before.length :=
      List.findIdx_lt_length_of_exists ⟨q, hq, by simp [Option.some.inj (hkey.symm.trans hsame)]⟩
    rw [place, htypes, List.findIdx_append, if_pos hfound]
    exact hfound
  omega

/-- Arguments do not change which entry describes a declared base. -/
theorem entry?_bind (h : r.Stacked) (he : r.get? e.key = some e) {base : HostType}
    (hb : base ∈ e.bases) (actuals : List HostType) :
    r.entry? (e.bind actuals base) = r.entry? base := by
  have hsome := h.sound.based _ (mem_types_of_get? he) base hb
  cases hkey : base.key? with
  | none =>
    rw [Registry.entry?, hkey] at hsome
    cases hsome
  | some key => rw [Registry.entry?, Registry.entry?, TypeEntry.key?_bind hkey, hkey]

theorem get?_of_entry? (h : r.Stacked) (he : r.entry? t = some e) : r.get? e.key = some e := by
  obtain ⟨key, -, he⟩ := Option.bind_eq_some_iff.mp he
  rw [← h.key_of_get? he]
  exact he

theorem linked_of_declaresBase (h : r.Stacked) {d : TypeEntry} (hd : r.DeclaresBase d e) :
    Linked r.edges d.key e.key := by
  obtain ⟨hget, base, hbase, hentry⟩ := hd
  obtain ⟨key, hkey, he⟩ := Option.bind_eq_some_iff.mp hentry
  exact h.linked_iff.mpr ⟨d, hget, base, hbase, by rw [hkey, h.key_of_get? he]⟩

theorem declaresBase_of_linked (h : r.Stacked) {d : TypeEntry} (hd : r.get? x = some d)
    (hl : Linked r.edges x y) : ∃ e, r.get? y = some e ∧ r.DeclaresBase d e := by
  obtain ⟨found, hfound, base, hbase, hkey⟩ := h.linked_iff.mp hl
  obtain rfl := Option.some.inj (hd.symm.trans hfound)
  obtain ⟨e, he⟩ := Option.isSome_iff_exists.mp (h.sound.linked _ hl)
  refine ⟨e, he, h.key_of_get? hd ▸ hd, base, hbase, ?_⟩
  rw [Registry.entry?, hkey]
  exact he

/-- A path along edges is one from entry to declared base. -/
theorem declaresBase_of_path (h : r.Stacked) {d : TypeEntry} (hd : r.get? x = some d)
    (hpath : Relation.ReflTransGen (Linked r.edges) x y) :
    ∃ e, r.get? y = some e ∧ Relation.ReflTransGen r.DeclaresBase d e := by
  induction hpath with
  | refl => exact ⟨d, hd, .refl⟩
  | tail _ hl ih =>
    obtain ⟨m, hm, hfront⟩ := ih
    obtain ⟨e, he, hlast⟩ := h.declaresBase_of_linked hm hl
    exact ⟨e, he, hfront.tail hlast⟩

theorem declaresBase_of_inherits (h : r.Stacked) {d : TypeEntry} (hd : r.entry? t = some d)
    {a : Ancestor} (ha : r.Inherits t a) : r.get? a.entry.key = some a.entry ∧
      Relation.ReflTransGen r.DeclaresBase d a.entry := by
  induction ha with
  | self he =>
    obtain rfl := Option.some.inj (hd.symm.trans he)
    exact ⟨h.get?_of_entry? hd, .refl⟩
  | @base a base e _ hb he ih =>
    obtain ⟨hget, hpath⟩ := ih
    refine ⟨h.get?_of_entry? he, hpath.tail ⟨hget, base, hb, ?_⟩⟩
    rwa [h.entry?_bind hget hb] at he

theorem inherits_of_mem_lineage (h : r.Stacked) {a : Ancestor} (ha : a ∈ r.lineage t) :
    r.Inherits t a := by
  refine forall_mem_lineageFrom (P := r.Inherits t) ?_ ?_ a ha
  · intro u hu p hp hdescribes
    obtain rfl := List.mem_singleton.mp hu
    exact .self (h.entry?_of_describes hp hdescribes)
  · exact fun a ha base hbase p hp hdescribes =>
      ha.base hbase (h.entry?_of_describes hp hdescribes)

/-- The entries of a lineage are those that declared bases lead to. -/
theorem mem_lineage_iff (h : r.Stacked) {d : TypeEntry} (hd : r.entry? t = some d) :
    (∃ a ∈ r.lineage t, a.entry = e) ↔ Relation.ReflTransGen r.DeclaresBase d e := by
  constructor
  · rintro ⟨a, ha, rfl⟩
    exact (h.declaresBase_of_inherits hd (h.inherits_of_mem_lineage ha)).2
  · intro hpath
    obtain ⟨hqueue, hbases⟩ := lineageFrom_closed [t] h.layered.distinct
    induction hpath with
    | refl =>
      obtain ⟨p, hp, hdescribes, rfl⟩ := exists_of_entry? hd
      exact hqueue t (List.mem_singleton_self t) p hp hdescribes
    | @tail m e _ hlast ih =>
      obtain ⟨a, ha, rfl⟩ := ih
      obtain ⟨hget, base, hbase, hentry⟩ := hlast
      -- the base is described by the same entry when it is reached
      rw [← h.entry?_bind hget hbase a.receiver.actuals] at hentry
      obtain ⟨p, hp, hdescribes, rfl⟩ := exists_of_entry? hentry
      exact hbases a ha base hbase p hp hdescribes

/-- A type stands after those that its bases lead to, and so is none of them. -/
theorem place_lt_of_path (h : r.Stacked) {d : TypeEntry}
    (hpath : Relation.TransGen r.DeclaresBase d e) : place r e.key < place r d.key := by
  induction hpath with
  | single hd => exact h.place_lt (h.linked_of_declaresBase hd)
  | tail _ hd ih => exact Nat.lt_trans (h.place_lt (h.linked_of_declaresBase hd)) ih

/-- Edges lead to the types of a lineage, its first one apart. -/
theorem derivesFrom_iff (h : r.Stacked) (d b : HostType) : r.derivesFrom d b = true ↔
    ∃ e, r.entry? b = some e ∧ r.entry? d ≠ some e ∧ ∃ a ∈ r.lineage d, a.entry = e := by
  have hreached (x y : Fingerprint) :
      (reached r.edges [x]).contains y = true ↔ Relation.ReflTransGen (Linked r.edges) x y := by
    rw [List.contains_iff_mem, mem_reached]
    simp
  constructor
  · intro hderives
    unfold Registry.derivesFrom at hderives
    split at hderives
    next x y hx hy =>
      rw [Bool.and_eq_true, bne_iff_ne, hreached] at hderives
      obtain ⟨hne, hpath⟩ := hderives
      -- the path leaves the first entry
      obtain rfl | ⟨z, hfirst, -⟩ := hpath.cases_head
      · exact absurd rfl hne
      obtain ⟨m, hm, -⟩ := h.linked_iff.mp hfirst
      obtain ⟨e, he, hfrom⟩ := h.declaresBase_of_path hm hpath
      have hd : r.entry? d = some m := by rw [Registry.entry?, hx]; exact hm
      refine ⟨e, by rw [Registry.entry?, hy]; exact he, fun hsame => hne ?_,
        (h.mem_lineage_iff hd).mpr hfrom⟩
      obtain rfl := Option.some.inj (hd.symm.trans hsame)
      rw [h.key_of_get? hm, h.key_of_get? he]
    next => cases hderives
  · rintro ⟨e, hb, hne, a, ha, hentry⟩
    have hinherits := h.inherits_of_mem_lineage ha
    obtain ⟨m, hm⟩ : ∃ m, r.entry? d = some m := by
      clear ha hentry
      induction hinherits with
      | self he => exact ⟨_, he⟩
      | base _ _ _ ih => exact ih
    have hpath := (h.mem_lineage_iff hm).mp ⟨a, ha, hentry⟩
    obtain ⟨x, hx, hgetx⟩ := Option.bind_eq_some_iff.mp hm
    obtain ⟨y, hy, hgety⟩ := Option.bind_eq_some_iff.mp hb
    unfold Registry.derivesFrom
    rw [hx, hy]
    show (x != y && (reached r.edges [x]).contains y) = true
    rw [Bool.and_eq_true, bne_iff_ne, hreached, h.key_of_get? hgetx, h.key_of_get? hgety]
    refine ⟨fun hkey => hne ?_, hpath.lift (fun e => TypeEntry.key e)
      fun _ _ => h.linked_of_declaresBase⟩
    rw [Registry.entry?, hx, Option.bind_some, h.key_of_get? hgetx, hkey, ← h.key_of_get? hgety]
    exact hgety

end Stacked

/-! ## 5. One inheritance -/

/-- Walking the entries and following the edges of a registry come to the same: no entry is among
those that its bases lead to; the lineage of a type begins with its own entry, and lists every entry
that declared bases lead to and no other, each once and as a type as which it is reached; and a type
derives from another where the entry of that one is in the lineage, and is not its own. -/
structure Coherent (r : Registry) : Prop where
  acyclic : ∀ e, ¬ Relation.TransGen r.DeclaresBase e e
  first : ∀ t e, r.entry? t = some e → (r.lineage t).head? = some ⟨e, t⟩
  once : ∀ t, ((r.lineage t).map (·.entry)).Nodup
  bounded : ∀ t, (r.lineage t).length ≤ r.types.length
  inherited : ∀ t, ∀ a ∈ r.lineage t, r.Inherits t a
  reachable : ∀ t d, r.entry? t = some d → ∀ e,
    (∃ a ∈ r.lineage t, a.entry = e) ↔ Relation.ReflTransGen r.DeclaresBase d e
  derives : ∀ d b, r.derivesFrom d b = true ↔
    ∃ e, r.entry? b = some e ∧ r.entry? d ≠ some e ∧ ∃ a ∈ r.lineage d, a.entry = e

theorem Stacked.coherent (h : r.Stacked) : r.Coherent where
  acyclic e hcycle := Nat.lt_irrefl _ (h.place_lt_of_path hcycle)
  first t e he := by
    obtain ⟨p, hp, hdescribes, -⟩ := Stacked.exists_of_entry? he
    cases hfind : r.types.find? (describes t) with
    | none => exact absurd hdescribes (List.find?_eq_none.mp hfind p hp)
    | some q =>
      have hsame := h.entry?_of_describes (List.mem_of_find?_eq_some hfind) (List.find?_some hfind)
      rw [lineage, lineageFrom_of_some hfind, Option.some.inj (he.symm.trans hsame)]
      rfl
  once t := by
    have hkeys := (nodup_lineageFrom [t] h.layered.distinct h.layered.keyed).1
    refine List.Nodup.of_map TypeEntry.key ?_
    rw [List.map_map]
    exact hkeys
  bounded t := by
    obtain ⟨hkeys, hfrom⟩ := nodup_lineageFrom [t] h.layered.distinct h.layered.keyed
    have hsub : (r.lineage t).map (·.entry.key) ⊆ r.types.map (·.1) := by
      intro key hkey
      obtain ⟨a, ha, rfl⟩ := List.mem_map.mp hkey
      obtain ⟨p, hp, hentry⟩ := hfrom a ha
      exact List.mem_map.mpr ⟨p, hp, by rw [h.layered.keyed p hp, hentry]⟩
    have hlength := (List.subperm_of_subset hkeys hsub).length_le
    rwa [List.length_map, List.length_map] at hlength
  inherited t a ha := h.inherits_of_mem_lineage ha
  reachable t d hd e := h.mem_lineage_iff hd
  derives := h.derivesFrom_iff

/-- Whatever modules are installed, and whether they fail or not, the registry has one inheritance. -/
theorem installed_coherent (modules : List HostModule) (hm : ∀ m ∈ modules, m.Undotted)
    (hapart : (installed modules).NamesApart) : (installed modules).Coherent :=
  (installed_stacked hm hapart).coherent

/-- A type below a diamond, whose sides come from a module that was installed before; a type of an
unknown base follows it, so that its module fails. -/
theorem installed_coherent_diamond :
    let left := { TypeDecl.ofName "Left`1" with arity := 1, bases := [.named "App.Top"] }
    let right := { TypeDecl.ofName "Right" with bases := [.named "App.Top"] }
    let sides := [.applied (.ofDotted "App.Left`1") [.int32], .named "App.Right"]
    let bottom := { TypeDecl.ofName "Bottom" with bases := sides }
    let lost := { TypeDecl.ofName "Lost" with bases := [.named "App.Missing"] }
    let modules : List HostModule :=
      [.ofNamespace "App" [.ofName "Top", left, right], .ofNamespace "App" [bottom, lost]]
    let r := installed modules
    (∀ m ∈ modules, m.Undotted) ∧ r.NamesApart ∧ r.Coherent ∧
      r.derivesFrom (.named "App.Bottom") (.named "App.Top") = true ∧
      ∃ a ∈ r.lineage (.named "App.Bottom"), a.entry.type = .named "App.Top" := by
  intro left right sides bottom lost modules r
  have hnames : ∀ m ∈ modules, ∀ e ∈ m.entries, '.' ∉ e.name.name.toList := by decide +kernel
  have hm : ∀ m ∈ modules, m.Undotted := by
    intro m hm
    rcases List.mem_pair.mp hm with rfl | rfl
    · exact HostModule.undotted_ofNamespace (hnames _ List.mem_cons_self)
    · exact HostModule.undotted_ofNamespace
        (hnames _ (List.mem_cons_of_mem _ List.mem_cons_self))
  have hapart : r.NamesApart := by
    unfold NamesApart
    decide +kernel
  have hcoherent := installed_coherent modules hm hapart
  have hderives : r.derivesFrom (.named "App.Bottom") (.named "App.Top") = true := by
    decide +kernel
  have htype : (r.entry? (.named "App.Top")).map (·.type) = some (.named "App.Top") := by
    decide +kernel
  refine ⟨hm, hapart, hcoherent, hderives, ?_⟩
  obtain ⟨e, he, -, a, ha, rfl⟩ := (hcoherent.derives _ _).mp hderives
  rw [he] at htype
  exact ⟨a, ha, Option.some.inj htype⟩

end Registry

end FatArrow
