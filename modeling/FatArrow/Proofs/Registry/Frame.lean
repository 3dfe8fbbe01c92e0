import FatArrow.Proofs.Registry.Sound

/-!
# What installation leaves alone

Installation puts entries on top of a registry.  What it answers about types that these entries do
not describe stays as it was, also where the installation fails midway; what was registered until
then stays registered.
-/

namespace FatArrow

/-! ## 1. Types and entries -/

/-- The entry of a type is none of the given ones. -/
def HostType.Apart (t : HostType) (es : List TypeEntry) : Prop := ∀ e ∈ es, t.key? ≠ some e.key

/-- Arguments do not change which entry describes a type. -/
theorem HostType.key?_subst {t : HostType} {key : Fingerprint} (h : t.key? = some key)
    (actuals : List HostType) : (t.subst actuals).key? = some key := by
  obtain ⟨shape, args, nullable⟩ := t
  cases shape with
  | param i =>
    -- only a nullable parameter is described by an entry, that of all nullable types
    cases nullable with
    | false => cases h
    | true =>
      rw [subst]
      cases actuals[i]? with
      | none => exact h
      | some t => simpa [key?] using h
  | _ => exact h

theorem TypeEntry.key?_bind {t : HostType} {key : Fingerprint} (h : t.key? = some key)
    (e : TypeEntry) (actuals : List HostType) : (e.bind actuals t).key? = some key := by
  unfold bind
  split
  · exact HostType.key?_subst h actuals
  · exact h

namespace Registry

variable {r r' : Registry} {done : List TypeEntry}

/-! ## 2. Lineages and edges -/

theorem lineageFrom_of_none {rest : List (Fingerprint × TypeEntry)} {t : HostType}
    (h : rest.find? (describes t) = none) (queue : List HostType) :
    lineageFrom rest (t :: queue) = lineageFrom rest queue := by
  rw [lineageFrom]
  split
  next => rfl
  next hsome => cases h.symm.trans hsome

theorem lineageFrom_of_some {rest : List (Fingerprint × TypeEntry)} {t : HostType}
    {key : Fingerprint} {e : TypeEntry} (h : rest.find? (describes t) = some (key, e))
    (queue : List HostType) : lineageFrom rest (t :: queue) =
      ⟨e, t⟩ :: lineageFrom (rest.eraseP (describes t)) (queue ++ e.bases.map (e.bind t.actuals)) := by
  rw [lineageFrom]
  split
  next hnone => cases h.symm.trans hnone
  next hsome =>
    cases h.symm.trans hsome
    rfl

/-- Entries that describe neither a type of the queue nor a base of another entry do not take part. -/
theorem lineageFrom_append {rest added : List (Fingerprint × TypeEntry)} {queue : List HostType}
    (hq : ∀ t ∈ queue, ∀ p ∈ added, describes t p = false)
    (hb : ∀ p ∈ rest, ∀ base ∈ p.2.bases, ∀ actuals, ∀ q ∈ added,
      describes (p.2.bind actuals base) q = false) :
    lineageFrom (rest ++ added) queue = lineageFrom rest queue := by
  -- along the search: the first type of the queue has no entry, or one that leaves the rest
  fun_induction lineageFrom rest queue with
  | case1 rest => rw [lineageFrom]
  | case2 rest t queue hnone ih =>
    obtain ⟨hfirst, hq⟩ := List.forall_mem_cons.mp hq
    have hadded : added.find? (describes t) = none :=
      List.find?_eq_none.mpr fun p hp => by rw [hfirst p hp]; exact Bool.false_ne_true
    have hboth : (rest ++ added).find? (describes t) = none := by
      rw [List.find?_append, hnone, hadded]
      rfl
    rw [lineageFrom_of_none hboth, ih hq hb]
  | case3 rest t queue key e hsome ih =>
    obtain ⟨-, hq⟩ := List.forall_mem_cons.mp hq
    have hmem := List.mem_of_find?_eq_some hsome
    have hboth : (rest ++ added).find? (describes t) = some (key, e) := by
      rw [List.find?_append, hsome, Option.some_or]
    rw [lineageFrom_of_some hboth, List.eraseP_append_left (List.find?_some hsome) _ hmem, ih ?_ ?_]
    · intro u hu
      rcases List.mem_append.mp hu with hu | hu
      · exact hq u hu
      · obtain ⟨base, hbase, rfl⟩ := List.mem_map.mp hu
        exact hb _ hmem base hbase t.actuals
    · exact fun p hp => hb p (List.mem_of_mem_eraseP hp)

/-- Edges from elsewhere are not followed. -/
theorem reached_append {edges added : List (Fingerprint × Fingerprint)} {queue : List Fingerprint}
    (hq : ∀ key ∈ queue, ∀ p ∈ added, p.1 ≠ key) (he : ∀ edge ∈ edges, ∀ p ∈ added, p.1 ≠ edge.2) :
    reached (edges ++ added) queue = reached edges queue := by
  fun_induction reached edges queue with
  | case1 edges => rw [reached]
  | case2 edges key queue ih =>
    obtain ⟨hfirst, hq⟩ := List.forall_mem_cons.mp hq
    have hbases : basesOf (edges ++ added) key = basesOf edges key := by
      have hnone : added.filter (·.1 == key) = [] :=
        List.filter_eq_nil_iff.mpr fun p hp => by simp [hfirst p hp]
      rw [basesOf, List.filter_append, hnone, List.append_nil, basesOf]
    have helsewhere : elsewhere (edges ++ added) key = elsewhere edges key ++ added := by
      have hall : added.filter (·.1 != key) = added :=
        List.filter_eq_self.mpr fun p hp => bne_iff_ne.mpr (hfirst p hp)
      rw [elsewhere, List.filter_append, hall, elsewhere]
    rw [reached, hbases, helsewhere, ih ?_ ?_]
    · intro other hother
      rcases List.mem_append.mp hother with hother | hother
      · exact hq other hother
      · obtain ⟨edge, hedge, rfl⟩ := List.mem_map.mp hother
        exact he edge (List.mem_filter.mp hedge).1
    · exact fun edge hedge => he edge (List.mem_filter.mp hedge).1

/-! ## 3. Entries on top of a registry -/

/-- A registry after some new entries were put on top of another. -/
structure Grown (r r' : Registry) (done : List TypeEntry) : Prop where
  fresh : ∀ e ∈ done, r.get? e.key = none
  types : ∃ added, r'.types = r.types ++ added ∧ ∀ p ∈ added, p.1 ∈ done.map TypeEntry.key
  places : r'.index.places = r.index.places ++ done.map fun e => ((e.name.path, e.name.name), e.key)
  edges : ∃ added, r'.edges = r.edges ++ added ∧ ∀ p ∈ added, p.1 ∈ done.map TypeEntry.key

theorem grown_refl (r : Registry) : r.Grown r [] :=
  ⟨nofun, ⟨[], (List.append_nil _).symm, nofun⟩, (List.append_nil _).symm,
    ⟨[], (List.append_nil _).symm, nofun⟩⟩

theorem Grown.register {r'' : Registry} {e : TypeEntry} (h : r.Grown r' done)
    (hr : r'.register e = .ok r'') (he : r.get? e.key = none) : r.Grown r'' (done ++ [e]) := by
  obtain ⟨keys, names, -, -, rfl⟩ := register_cases hr
  obtain ⟨types, htypes, hkeys⟩ := h.types
  obtain ⟨edges, hedges, hends⟩ := h.edges
  have hwider : ∀ {key}, key ∈ done.map TypeEntry.key → key ∈ (done ++ [e]).map TypeEntry.key :=
    fun hkey => List.map_append ▸ List.mem_append_left _ hkey
  have hself : e.key ∈ (done ++ [e]).map TypeEntry.key := List.mem_map_of_mem (by simp)
  constructor
  · exact List.forall_mem_append.mpr ⟨h.fresh, List.forall_mem_singleton.mpr he⟩
  · -- none of the entries below has the key, so those stay
    have hbelow : r.types.filter (·.1 != e.key) = r.types :=
      List.filter_eq_self.mpr fun p hp => by
        have hne := (List.lookup_eq_none_iff.mp he) p hp
        rw [bne_iff_ne] at hne ⊢
        exact hne.symm
    refine ⟨put types e, ?_, fun p hp => ?_⟩
    · show put r'.types e = _
      rw [put, htypes, List.filter_append, hbelow, List.append_assoc, put]
    · rcases mem_put.mp hp with ⟨hp, -⟩ | rfl
      · exact hwider (hkeys p hp)
      · exact hself
  · show r'.index.places ++ _ = _
    rw [h.places, List.map_append, List.append_assoc]
    rfl
  · refine ⟨edges ++ keys.map (e.key, ·), ?_, fun p hp => ?_⟩
    · show r'.edges ++ _ = _
      rw [hedges, List.append_assoc]
    · rcases List.mem_append.mp hp with hp | hp
      · exact hwider (hends p hp)
      · obtain ⟨key, -, rfl⟩ := List.mem_map.mp hp
        exact hself

namespace Grown

variable {t : HostType} {key : Fingerprint}

theorem get?_of_ne (h : r.Grown r' done) (hkey : ∀ e ∈ done, key ≠ e.key) :
    r'.get? key = r.get? key := by
  obtain ⟨added, htypes, hkeys⟩ := h.types
  have hnone : added.lookup key = none := by
    rw [List.lookup_eq_none_iff]
    intro p hp
    obtain ⟨e, he, hsame⟩ := List.mem_map.mp (hkeys p hp)
    rw [bne_iff_ne, ← hsame]
    exact hkey e he
  rw [Registry.get?, htypes, List.lookup_append, hnone, Option.or_none, Registry.get?]

theorem get?_of_isSome (h : r.Grown r' done) (hkey : (r.get? key).isSome) :
    r'.get? key = r.get? key := by
  refine h.get?_of_ne fun e he hsame => ?_
  rw [hsame, h.fresh e he] at hkey
  cases hkey

theorem apart (h : r.Grown r' done) (ht : (r.entry? t).isSome) : t.Apart done := by
  intro e he hkey
  rw [Registry.entry?, hkey, Option.bind_some, h.fresh e he] at ht
  cases ht

theorem entry? (h : r.Grown r' done) (ht : t.Apart done) : r'.entry? t = r.entry? t := by
  rw [Registry.entry?, Registry.entry?]
  cases hkey : t.key? with
  | none => rfl
  | some key => exact h.get?_of_ne fun e he hsame => ht e he (hsame ▸ hkey)

/-- A type that none of the new entries describes inherits what it did. -/
theorem lineage (h : r.Grown r' done) (hr : r.Sound) (ht : t.Apart done) :
    r'.lineage t = r.lineage t := by
  obtain ⟨added, htypes, hkeys⟩ := h.types
  have hapart : ∀ {u : HostType}, u.Apart done → ∀ p ∈ added, describes u p = false := by
    intro u hu p hp
    obtain ⟨e, he, hsame⟩ := List.mem_map.mp (hkeys p hp)
    rw [describes, beq_eq_false_iff_ne, ← hsame]
    exact hu e he
  rw [Registry.lineage, htypes]
  refine lineageFrom_append (List.forall_mem_singleton.mpr (hapart ht)) ?_
  intro p hp base hbase actuals
  -- a base has an entry below, which the arguments of the type do not change
  have hentry := hr.based p hp base hbase
  refine hapart fun e he hkey => h.apart hentry e he ?_
  cases hbasekey : base.key? with
  | none =>
    rw [Registry.entry?, hbasekey] at hentry
    cases hentry
  | some key => exact hkey ▸ (TypeEntry.key?_bind hbasekey p.2 actuals).symm

theorem derivesFrom (h : r.Grown r' done) (hr : r.Sound) (ht : t.Apart done) (base : HostType) :
    r'.derivesFrom t base = r.derivesFrom t base := by
  obtain ⟨added, hedges, hkeys⟩ := h.edges
  unfold Registry.derivesFrom
  cases hkey : t.key? with
  | none => rfl
  | some key =>
    have hreached : reached r'.edges [key] = reached r.edges [key] := by
      rw [hedges]
      refine reached_append (List.forall_mem_singleton.mpr fun p hp => ?_) fun edge hedge p hp => ?_
      · obtain ⟨e, he, hsame⟩ := List.mem_map.mp (hkeys p hp)
        exact fun hk => ht e he (by rw [hkey, hsame, hk])
      · -- an edge ends at an entry, and none of those below is new
        obtain ⟨e, he, hsame⟩ := List.mem_map.mp (hkeys p hp)
        intro hk
        have hend := hr.linked edge hedge
        rw [← hk, ← hsame, h.fresh e he] at hend
        cases hend
    cases base.key? with
    | none => rfl
    | some other =>
      show (key != other && _) = (key != other && _)
      rw [hreached]

theorem resolve? (h : r.Grown r' done) {name : String} (hn : ∀ e ∈ done, e.isCalled name = false) :
    r'.index.resolve? name = r.index.resolve? name := by
  rw [NameIndex.resolve?, NameIndex.at?, h.places, List.lookup_append]
  have hnone : (done.map fun e => ((e.name.path, e.name.name), e.key)).lookup
      ((dottedPieces name).dropLast, (dottedPieces name).getLastD "") = none := by
    rw [List.lookup_eq_none_iff]
    intro p hp
    obtain ⟨e, he, rfl⟩ := List.mem_map.mp hp
    rw [bne_iff_ne]
    exact fun hsame => beq_eq_false_iff_ne.mp (hn e he) hsame.symm
  rw [hnone, Option.or_none]
  rfl

/-- What a place leads to stays. -/
theorem named?_of_resolve? (h : r.Grown r' done) (hr : r.Sound) {name : String}
    (hsame : r'.index.resolve? name = r.index.resolve? name) : r'.named? name = r.named? name := by
  rw [named?, named?, hsame]
  cases hkey : r.index.resolve? name with
  | none => rfl
  | some key =>
    obtain ⟨before, after, hplaces, -⟩ := List.lookup_eq_some_iff.mp hkey
    have hmem := hplaces ▸ List.mem_append_right before (List.mem_cons_self (l := after))
    exact h.get?_of_isSome (hr.listed _ hmem)

theorem named?_of_some (h : r.Grown r' done) (hr : r.Sound) {name : String} {e : TypeEntry}
    (hn : r.named? name = some e) : r'.named? name = some e := by
  obtain ⟨key, hkey, -⟩ := Option.bind_eq_some_iff.mp hn
  rw [h.named?_of_resolve? hr, hn]
  rw [hkey, NameIndex.resolve?, NameIndex.at?, h.places, List.lookup_append]
  rw [show List.lookup _ r.index.places = some key from hkey, Option.some_or]

theorem itemType? (h : r.Grown r' done) (hr : r.Sound) (ht : t.Apart done) :
    r'.itemType? t = r.itemType? t := by
  unfold Registry.itemType?
  rw [h.lineage hr ht]

/-- Null aside, whether a type derives from another or is one of sequences depends on what it
inherits. -/
theorem order (h : r.Grown r' done) (hr : r.Sound) {source : HostType}
    (hs : source.underlying.Apart done) (target : HostType) :
    r'.order.derives target source = r.order.derives target source ∧
      r'.order.fitsPlain target source = r.order.fitsPlain target source := by
  cases hnull : source.nullable with
  | true => simp [Registry.order, TypeOrder.fitsPlain, TypeOrder.fitsSequence?, hnull]
  | false =>
    have hsame : source.underlying = source := by
      obtain ⟨shape, args, nullable⟩ := source
      cases hnull
      rfl
    rw [hsame] at hs
    simp only [Registry.order, TypeOrder.fitsPlain, TypeOrder.fitsSequence?, h.derivesFrom hr hs,
      h.itemType? hr hs, and_self]

theorem assignable (h : r.Grown r' done) (hr : r.Sound) {source : HostType}
    (hs : source.underlying.Apart done) (target : HostType) :
    r'.order.assignable target source = r.order.assignable target source := by
  have hunder : source.underlying.underlying.Apart done := hs
  simp only [TypeOrder.assignable, TypeOrder.fits, h.order hr hs, h.order hr hunder]

theorem all_assignable (h : r.Grown r' done) (hr : r.Sound) (params : List HostType)
    {args : List HostType} (ha : ∀ a ∈ args, a.underlying.Apart done) :
    ((params.zip args).all fun (p, a) => r'.order.assignable p a) =
      (params.zip args).all fun (p, a) => r.order.assignable p a := by
  rw [Bool.eq_iff_iff, List.all_eq_true, List.all_eq_true]
  refine forall₂_congr fun pair hpair => ?_
  show r'.order.assignable pair.1 pair.2 = true ↔ r.order.assignable pair.1 pair.2 = true
  rw [h.assignable hr (ha _ (List.of_mem_zip hpair).2)]

theorem constructor? (h : r.Grown r' done) (hr : r.Sound) (ht : t.Apart done)
    {args : List HostType} (ha : ∀ a ∈ args, a.underlying.Apart done) :
    r'.constructor? t args = r.constructor? t args := by
  unfold Registry.constructor?
  simp only [h.entry? ht, h.all_assignable hr _ ha]

end Grown

/-! ## 4. Installation -/

/-- An entry is new, if its fingerprint is that of no other name and it can be put on top. -/
theorem Grown.new {r'' : Registry} {e : TypeEntry} (h : r.Grown r' done) (hr : r.Sound)
    (hnew : ∀ old, r.get? e.key = some old → old.name = e.name) (he : r'.register e = .ok r'') :
    r.get? e.key = none := by
  rw [Option.eq_none_iff_forall_not_mem]
  intro old hold
  obtain ⟨before, after, htypes, -⟩ := List.lookup_eq_some_iff.mp hold
  have hplaced := hr.placed (e.key, old) (htypes ▸ List.mem_append_right _ (.head _))
  rw [hnew old hold] at hplaced
  -- the place is taken already, so the registration fails
  obtain ⟨keys, names, -, hfree, -⟩ := register_cases he
  rw [NameIndex.at?, h.places, List.lookup_append,
    show List.lookup _ r.index.places = some _ from hplaced, Option.some_or] at hfree
  cases hfree

/-- The entries up to the first that fails are put on top. -/
theorem Grown.registerAll {es : List TypeEntry} (h : r.Grown r' done) (hr : r.Sound)
    (hnew : ∀ e ∈ es, ∀ old, r.get? e.key = some old → old.name = e.name) :
    ∃ more, more <+: es ∧ r.Grown (r'.registerAll es).1 (done ++ more) ∧
      ((r'.registerAll es).2 = .ok () → more = es) ∧
      ∀ failure, (r'.registerAll es).2 = .error failure → ∃ e rest, es = more ++ e :: rest ∧
        (r'.registerAll es).1.register e = .error failure := by
  induction es generalizing r' done with
  | nil => exact ⟨[], List.prefix_rfl, by rwa [List.append_nil], fun _ => rfl, nofun⟩
  | cons e es ih =>
    obtain ⟨hfirst, hnew⟩ := List.forall_mem_cons.mp hnew
    unfold Registry.registerAll
    split
    next r'' he =>
      obtain ⟨more, hprefix, hgrown, hall, hfail⟩ := ih (h.register he (h.new hr hfirst he)) hnew
      refine ⟨e :: more, List.cons_prefix_cons.mpr ⟨rfl, hprefix⟩, ?_, fun hok => ?_,
        fun failure hfailure => ?_⟩
      · rwa [List.append_cons]
      · rw [hall hok]
      · obtain ⟨last, rest, hes, hlast⟩ := hfail failure hfailure
        exact ⟨last, rest, by rw [hes, List.cons_append], hlast⟩
    next failure he =>
      refine ⟨[], List.nil_prefix, by rwa [List.append_nil], nofun, fun other hother => ?_⟩
      cases hother
      exact ⟨e, es, rfl, he⟩

end Registry

/-- The types of a module that was not explicit are hidden by an explicit module of its name. -/
def HostModule.Hides (m : HostModule) (r : Registry) (module : String) : Prop :=
  m.isExplicit ∧ module = m.name ∧ r.isExplicit module = false

namespace Registry

variable {r r' : Registry} {done : List TypeEntry}

/-- What stays as it was when entries of a module are put on top of a registry: what is found under
the names that meant something and about the types that had entries; and of everything else what
these entries do not bring. -/
structure Frame (r r' : Registry) (m : HostModule) (done : List TypeEntry) : Prop where
  typeOf?_of_some : ∀ name t, r.typeOf? name = some t →
    (∀ e, r.named? name = some e → ¬ m.Hides r e.module) → r'.typeOf? name = some t
  apart : ∀ t, (r.entry? t).isSome → t.Apart done
  property? : ∀ t, t.Apart done → r'.host.property? t = r.host.property? t
  field? : ∀ t, t.Apart done → r'.host.field? t = r.host.field? t
  methods : ∀ t, t.Apart done → r'.host.methods t = r.host.methods t
  constructor? : ∀ t args, t.Apart done → (∀ a ∈ args, a.underlying.Apart done) →
    r'.host.constructor? t args = r.host.constructor? t args
  entry? : ∀ t, t.Apart done → r'.entry? t = r.entry? t
  derivesFrom : ∀ t, t.Apart done → r'.derivesFrom t = r.derivesFrom t
  typeOf? : ∀ name, (∀ e ∈ done, e.isCalled name = false) →
    (∀ e, r.named? name = some e → ¬ m.Hides r e.module) → r'.typeOf? name = r.typeOf? name
  typeIn? : ∀ name, (∀ e ∈ done, e.isCalled name = false) →
    (∀ e, r.named? name = some e → ¬ m.Hides r e.module) → r'.typeIn? name = r.typeIn? name
  isExplicit : ∀ module, ¬ m.Hides r module → r'.isExplicit module = r.isExplicit module

theorem Grown.frame {m : HostModule} (h : r.Grown r' done) (hr : r.Sound)
    (he : ∀ module, ¬ m.Hides r module → r'.isExplicit module = r.isExplicit module) :
    r.Frame r' m done where
  typeOf?_of_some name t ht hseen := by
    obtain ⟨e, hname, -⟩ := Option.bind_eq_some_iff.mp ht
    rw [Registry.typeOf?, h.named?_of_some hr hname]
    rw [Registry.typeOf?, hname] at ht
    rw [← ht, Option.bind_some, Option.bind_some, he e.module (hseen e hname)]
  apart t := h.apart
  property? t ht := by
    funext name
    show (r'.lineage t).findSome? _ = (r.lineage t).findSome? _
    rw [h.lineage hr ht]
  field? t ht := by
    funext name
    show (r'.lineage t).findSome? _ = (r.lineage t).findSome? _
    rw [h.lineage hr ht]
  methods t ht := by
    funext name
    show r'.methods t name = r.methods t name
    rw [Registry.methods, h.lineage hr ht, Registry.methods]
  constructor? t args ht ha := h.constructor? hr ht ha
  entry? t := h.entry?
  derivesFrom t ht := funext (h.derivesFrom hr ht)
  typeOf? name hn hseen := by
    rw [Registry.typeOf?, h.named?_of_resolve? hr (h.resolve? hn), Registry.typeOf?]
    refine Option.bind_congr fun e hname => ?_
    rw [he e.module (hseen e hname)]
  typeIn? name hn hseen := by
    funext module
    rw [Registry.typeIn?, h.named?_of_resolve? hr (h.resolve? hn), Registry.typeIn?]
    refine Option.bind_congr fun e hname => ?_
    rw [he e.module (hseen e hname)]
  isExplicit := he

theorem Sound.install_keeps (hr : r.Sound) {m : HostModule}
    (hnew : ∀ e ∈ m.entries, ∀ old, r.get? e.key = some old → old.name = e.name) :
    ∃ done, done <+: m.entries ∧ ((r.install m).2 = .ok () → done = m.entries) ∧
      (∀ failure, (r.install m).2 = .error failure → (done = [] ∧ (r.install m).1 = r) ∨
        ∃ e rest, m.entries = done ++ e :: rest ∧ (r.install m).1.register e = .error failure) ∧
      r.Frame (r.install m).1 m done := by
  unfold Registry.install
  split
  next =>
    refine ⟨[], List.nil_prefix, nofun, fun _ _ => .inl ⟨rfl, rfl⟩, ?_⟩
    exact (grown_refl r).frame hr fun _ _ => rfl
  next =>
    -- declaring the module explicit changes neither types nor places
    extract_lets r₁
    have hstart : r.Grown r₁ [] := by
      obtain ⟨hfresh, htypes, hplaces, hedges⟩ := grown_refl r
      simp only [r₁]
      split <;> exact ⟨hfresh, htypes, hplaces, hedges⟩
    obtain ⟨done, hprefix, hgrown, hall, hfail⟩ := hstart.registerAll hr hnew
    refine ⟨done, hprefix, hall, fun failure h => .inr (hfail failure h), ?_⟩
    refine hgrown.frame hr fun module hseen => ?_
    -- the entries change no visibility, and the declaration only that of the module's own name
    rw [isExplicit, registerAll_explicit, isExplicit]
    simp only [r₁]
    split
    next hexplicit =>
      rw [List.contains_cons]
      cases hbefore : r.explicit.contains module with
      | true => exact Bool.or_true _
      | false =>
        have hne : module ≠ m.name := fun hname => hseen ⟨hexplicit, hname, hbefore⟩
        rw [beq_false_of_ne hne, Bool.false_or]
    next => rfl

/-- Installation keeps what a registry answers.  It puts the entries of the module on top up to the
first that fails, and all of them if it succeeds; they are new types, and nothing else changes but
the visibility of modules that have the name of an explicit one. -/
theorem install_frame (modules : List HostModule) (m : HostModule)
    (hnew : ∀ e ∈ m.entries, ∀ old, (installed modules).get? e.key = some old → old.name = e.name) :
    let r := installed modules
    let r' := (r.install m).1
    ∃ done, done <+: m.entries ∧ ((r.install m).2 = .ok () → done = m.entries) ∧
      (∀ failure, (r.install m).2 = .error failure → (done = [] ∧ r' = r) ∨
        ∃ e rest, m.entries = done ++ e :: rest ∧ r'.register e = .error failure) ∧
      r.Frame r' m done :=
  (installed_sound modules).install_keeps hnew

/-- A module that declares a type again fails, and keeps the types before it. -/
theorem install_frame_duplicate :
    let app := HostModule.ofNamespace "App" [.ofName "Foo"]
    let more := HostModule.ofNamespace "App" [.ofName "Bar", .ofName "Foo", .ofName "Baz"]
    let r := installed [app]
    let r' := (r.install more).1
    (∀ e ∈ more.entries, ∀ old, r.get? e.key = some old → old.name = e.name) ∧
      (r.install more).2.isOk = false ∧
      r'.typeOf? "App.Foo" = some (.named "App.Foo") ∧ ∃ done, r.Frame r' more done := by
  intro app more r r'
  have hkeys : ∀ e ∈ more.entries, (r.get? e.key).all (·.name == e.name) := by decide +kernel
  have hnew : ∀ e ∈ more.entries, ∀ old, r.get? e.key = some old → old.name = e.name := by
    intro e he old hold
    have hname := hkeys e he
    rw [hold] at hname
    exact beq_iff_eq.mp hname
  obtain ⟨done, -, -, -, hframe⟩ := install_frame [app] more hnew
  refine ⟨hnew, by decide +kernel, hframe.typeOf?_of_some _ _ (by decide +kernel) ?_, done, hframe⟩
  exact fun e _ hides => absurd hides.1 (by decide +kernel)

/-- What installation changes.  An explicit module hides the types of an earlier one of its name; a
module that fails keeps the types before the one that fails; a constructor is found for arguments
whose type has just come to derive from a parameter; and a type whose name in its namespace has a dot
gives way to another of the same full name. -/
theorem install_changes :
    let app := HostModule.ofNamespace "App" [.ofName "Foo"]
    let hidden := { HostModule.ofNamespace "App" [.ofName "Bar"] with isExplicit := true }
    let broken := HostModule.ofNamespace "App"
      [.ofName "Foo", { TypeDecl.ofName "Bar" with bases := [.named "Missing"] }]
    let taking := HostModule.ofNamespace "App" [.ofName "Foo",
      { TypeDecl.ofName "Bar" with constructors := [⟨[.named "App.Foo"], fun _ => return .null⟩] }]
    let derived := HostModule.ofNamespace "New"
      [{ TypeDecl.ofName "Foo" with bases := [.named "App.Foo"] }]
    let spelled := HostModule.ofNamespace "App"
      [{ TypeDecl.ofName "Foo.Bar" with constructors := [⟨[], fun _ => return .null⟩] }]
    let nested := HostModule.ofNamespace "App.Foo" [.ofName "Bar"]
    ((installed [app]).typeOf? "App.Foo" = some (.named "App.Foo") ∧
        ((installed [app]).install hidden).2.isOk ∧
        ((installed [app]).install hidden).1.typeOf? "App.Foo" = none) ∧
      ((installed []).typeOf? "App.Foo" = none ∧
        ((installed []).install broken).2.isOk = false ∧
        ((installed []).install broken).1.typeOf? "App.Foo" = some (.named "App.Foo")) ∧
      (((installed [taking]).constructor? (.named "App.Bar") [.named "New.Foo"]).isNone ∧
        ((installed [taking]).install derived).2.isOk ∧
        (((installed [taking]).install derived).1.constructor?
          (.named "App.Bar") [.named "New.Foo"]).isSome) ∧
      (((installed [spelled]).constructor? (.named "App.Foo.Bar") []).isSome ∧
        ((installed [spelled]).install nested).2.isOk ∧
        (((installed [spelled]).install nested).1.constructor? (.named "App.Foo.Bar") []).isNone) := by
  decide +kernel

end Registry

end FatArrow
