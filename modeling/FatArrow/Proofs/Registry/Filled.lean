import FatArrow.Proofs.Registry.Install
import FatArrow.Registry.Lineage
import FatArrow.Typing.Namespaces

/-!
# Registries filled from nothing

A registry into which nothing but some modules was installed lists their entries, in their order.
What it answers to a dotted name is the first entry of that name.
-/

namespace FatArrow

/-- Whether a dotted name is the name of an entry. -/
def TypeEntry.isCalled (e : TypeEntry) (name : String) : Bool :=
  (e.name.path, e.name.name) == ((dottedPieces name).dropLast, (dottedPieces name).getLastD "")

namespace Registry

/-- The types and the places of a registry are those of some entries, registered in their order
under keys of their own, and its edges lead from entries to their bases. -/
structure Lists (r : Registry) (es : List TypeEntry) : Prop where
  types : r.types = es.map fun e => (e.key, e)
  places : r.index.places = es.map fun e => ((e.name.path, e.name.name), e.key)
  distinct : (es.map TypeEntry.key).Nodup
  linked : ∀ edge ∈ r.edges, ∃ e ∈ es, e.key = edge.1 ∧
    ∃ base ∈ e.bases, base.key? = some edge.2

variable {r r' : Registry} {es : List TypeEntry} {e : TypeEntry}

/-! ## 1. Filling -/

theorem lists_empty : empty.Lists [] := ⟨rfl, rfl, List.nodup_nil, nofun⟩

theorem register_places (h : r.register e = .ok r') :
    r'.index.places = r.index.places ++ [((e.name.path, e.name.name), e.key)] := by
  obtain ⟨keys, names, -, -, rfl⟩ := register_cases h
  rfl

theorem put_of_fresh {types : List (Fingerprint × TypeEntry)} (h : ∀ p ∈ types, p.1 ≠ e.key) :
    put types e = types ++ [(e.key, e)] := by
  have hkept : types.filter (·.1 != e.key) = types :=
    List.filter_eq_self.mpr fun p hp => bne_iff_ne.mpr (h p hp)
  rw [put, hkept]

theorem Lists.register (h : r.Lists es) (hr : r.register e = .ok r')
    (hn : e.key ∉ es.map TypeEntry.key) : r'.Lists (es ++ [e]) where
  types := by
    have hfresh : ∀ p ∈ es.map fun e => (e.key, e), p.1 ≠ e.key := by
      intro p hp he
      obtain ⟨d, hd, rfl⟩ := List.mem_map.mp hp
      exact hn (he ▸ List.mem_map_of_mem hd)
    rw [register_types hr, h.types, put_of_fresh hfresh, List.map_append]
    rfl
  places := by
    rw [register_places hr, h.places, List.map_append]
    rfl
  distinct := by
    rw [List.map_append]
    -- the new key is apart from those before it
    refine List.nodup_append.mpr ⟨h.distinct, List.pairwise_singleton .., fun key hkey other ho => ?_⟩
    rw [List.mem_singleton.mp ho]
    exact fun he => hn (he ▸ hkey)
  linked := by
    obtain ⟨keys, names, hkeys, -, rfl⟩ := register_cases hr
    refine List.forall_mem_append.mpr ⟨fun edge hedge => ?_, List.forall_mem_map.mpr fun key hkey => ?_⟩
    · obtain ⟨d, hd, hlink⟩ := h.linked edge hedge
      exact ⟨d, List.mem_append_left _ hd, hlink⟩
    · exact ⟨e, List.mem_append_right _ (List.mem_singleton_self e), rfl,
        ((mem_baseKeys hkeys).2 key).mp hkey⟩

theorem kept_lists : Kept fun r es => (es.map TypeEntry.key).Nodup → r.Lists es where
  explicit h _ hn :=
    have h := h hn
    ⟨h.types, h.places, h.distinct, h.linked⟩
  register {r r' es e} h hr hn := by
    rw [List.map_append, List.nodup_append] at hn
    exact (h hn.1).register hr fun hm => hn.2.2 _ hm _ (List.mem_singleton_self _) rfl

theorem Lists.installAll {modules : List HostModule} (h : r.Lists es)
    (hr : r.installAll modules = .ok r')
    (hn : ((es ++ modules.flatMap HostModule.entries).map TypeEntry.key).Nodup) :
    r'.Lists (es ++ modules.flatMap HostModule.entries) :=
  kept_lists.installAll (fun _ => h) hr hn

theorem registerAll_explicit (es : List TypeEntry) :
    (r.registerAll es).1.explicit = r.explicit := by
  induction es generalizing r with
  | nil => rfl
  | cons e es ih =>
    unfold Registry.registerAll
    split
    next r₁ hfirst =>
      obtain ⟨keys, names, -, -, rfl⟩ := register_cases hfirst
      exact ih
    next => rfl

theorem install_explicit {m : HostModule} (hr : r.install m = (r', .ok ())) :
    r'.explicit = if m.isExplicit then m.name :: r.explicit else r.explicit := by
  unfold Registry.install at hr
  split at hr
  · cases hr
  rw [← congrArg (·.1.explicit) hr, registerAll_explicit]
  split <;> rfl

/-- The explicit modules, the latest first. -/
def explicitNames (modules : List HostModule) : List String :=
  ((modules.filter (·.isExplicit)).map (·.name)).reverse

theorem installAll_explicit {modules : List HostModule} (hr : r.installAll modules = .ok r') :
    r'.explicit = explicitNames modules ++ r.explicit := by
  induction modules generalizing r with
  | nil =>
    cases hr
    rfl
  | cons m modules ih =>
    unfold Registry.installAll at hr
    split at hr
    next r₁ hm =>
      rw [ih hr, install_explicit hm, explicitNames, explicitNames, List.filter_cons]
      split <;> simp
    next => cases hr

/-! ## 2. Entries by key -/

namespace Lists

theorem mem_types (h : r.Lists es) {p : Fingerprint × TypeEntry} (hp : p ∈ r.types) :
    p.1 = p.2.key ∧ p.2 ∈ es := by
  rw [h.types] at hp
  obtain ⟨e, he, rfl⟩ := List.mem_map.mp hp
  exact ⟨rfl, he⟩

theorem get? (h : r.Lists es) (he : e ∈ es) : r.get? e.key = some e := by
  have hn := h.distinct
  rw [Registry.get?, h.types]
  clear h
  induction es with
  | nil => cases he
  | cons d es ih =>
    rw [List.map_cons, List.nodup_cons] at hn
    rcases List.mem_cons.mp he with rfl | he
    · exact List.lookup_cons_self
    · have hne : e.key ≠ d.key := fun hk => hn.1 (hk ▸ List.mem_map_of_mem he)
      rw [List.map_cons, List.lookup_cons, beq_false_of_ne hne]
      exact ih he hn.2

/-- What is registered under a name is the first entry that is called so. -/
theorem named? (h : r.Lists es) (name : String) : r.named? name = es.find? (·.isCalled name) := by
  -- the places stand in the order of the entries
  have hlookup (ds : List TypeEntry) (place : List String × String) :
      (ds.map fun e => ((e.name.path, e.name.name), e.key)).lookup place =
        (ds.find? fun e => (e.name.path, e.name.name) == place).map TypeEntry.key := by
    induction ds with
    | nil => rfl
    | cons d ds ih =>
      rw [List.map_cons, List.lookup_cons, List.find?_cons, ih]
      by_cases hd : (d.name.path, d.name.name) = place
      · simp [hd]
      · rw [beq_false_of_ne hd, beq_false_of_ne (Ne.symm hd)]
  rw [Registry.named?, NameIndex.resolve?, NameIndex.at?, h.places, hlookup]
  show _ = es.find? fun e => e.isCalled name
  cases hfind : es.find? fun e => e.isCalled name with
  | none =>
    have hnone : (es.find? fun e => (e.name.path, e.name.name) ==
        ((dottedPieces name).dropLast, (dottedPieces name).getLastD "")) = none := hfind
    rw [hnone]
    rfl
  | some e =>
    have hsome : (es.find? fun e => (e.name.path, e.name.name) ==
        ((dottedPieces name).dropLast, (dottedPieces name).getLastD "")) = some e := hfind
    rw [hsome]
    exact h.get? (List.mem_of_find?_eq_some hfind)

end Lists

end Registry

/-! ## 3. Types by name -/

/-- A host that answers for the names of entries, of which those of some modules are seen only by
those who name the module. -/
def Host.ofEntries (es : List TypeEntry) (explicit : List String) : Host :=
  { Host.bare [] with
    typeOf? := fun name => (es.find? (·.isCalled name)).bind fun e =>
      if explicit.contains e.module then none else some e.type
    typeIn? := fun name module => (es.find? (·.isCalled name)).bind fun e =>
      if e.module = module ∨ ¬ explicit.contains e.module then some e.type else none }

namespace Namespaces

/-- A default namespace is looked up in the module. -/
def Asks (ns : Namespaces) (module : String) : Prop := ∃ entry ∈ ns, entry.module = some module

/-- Which types names mean depends on the answers of the host for dotted names, and on those for the
modules that are asked. -/
theorem typeOf?_congr {h h' : Host} {ns : Namespaces} (ht : ∀ name, h.typeOf? name = h'.typeOf? name)
    (hi : ∀ module, ns.Asks module → ∀ name, h.typeIn? name module = h'.typeIn? name module)
    (name : String) : ns.typeOf? h name = ns.typeOf? h' name := by
  have hfirst {asked : Namespaces} {f g : NamespaceEntry → Option HostType}
      (hfg : ∀ entry ∈ asked, f entry = g entry) : asked.findSome? f = asked.findSome? g := by
    induction asked with
    | nil => rfl
    | cons entry rest ih =>
      obtain ⟨hentry, hrest⟩ := List.forall_mem_cons.mp hfg
      rw [List.findSome?_cons, List.findSome?_cons, hentry, ih hrest]
  have hunder (name : String) : ns.findSome? (fun entry => typeUnder? h entry name) =
      ns.findSome? fun entry => typeUnder? h' entry name := by
    refine hfirst fun entry hentry => ?_
    unfold typeUnder?
    split
    next module hmodule => exact hi module ⟨entry, hentry, hmodule⟩ _
    next => exact ht _
  have hnamed (name : String) : typeNamed? h ns name = typeNamed? h' ns name := by
    unfold typeNamed?
    rw [ht]
    refine congrArg _ (hfirst fun entry hentry => ?_)
    refine Option.bind_congr fun module hmodule => ?_
    rw [hi module ⟨entry, hentry, hmodule⟩]
  unfold typeOf?
  induction dottedPieces name with
  | nil => rfl
  | cons piece pieces ih =>
    unfold typeOfPieces?
    simp only [hnamed, hunder, ih]

end Namespaces

theorem Registry.Lists.typeIn? {r : Registry} {es : List TypeEntry} (h : r.Lists es)
    (name module : String) :
    r.host.typeIn? name module = (Host.ofEntries es r.explicit).typeIn? name module := by
  show r.typeIn? name module = _
  rw [Registry.typeIn?, h.named?]
  rfl

theorem Registry.Lists.typeOf? {r : Registry} {es : List TypeEntry} (h : r.Lists es)
    (ns : Namespaces) (name : String) :
    ns.typeOf? r.host name = ns.typeOf? (Host.ofEntries es r.explicit) name := by
  refine Namespaces.typeOf?_congr (fun name => ?_) (fun module _ name => h.typeIn? name module) name
  show r.typeOf? name = _
  rw [Registry.typeOf?, h.named?]
  rfl

/-! ## 4. What an entry says -/

/-- An entry without its native functions. -/
def TypeEntry.outline (e : TypeEntry) : TypeEntry :=
  { e with
    properties := e.properties.map ({ · with getter := none })
    fields := e.fields.map ({ · with getter := none })
    methods := e.methods.map ({ · with invoker := none })
    constructors := e.constructors.map ({ · with invoker := none }) }

theorem Host.ofEntries_outline (es : List TypeEntry) (explicit : List String) :
    ofEntries (es.map TypeEntry.outline) explicit = ofEntries es explicit := by
  have hfind (name : String) : (es.map TypeEntry.outline).find? (·.isCalled name) =
      (es.find? (·.isCalled name)).map TypeEntry.outline := List.find?_map
  simp only [ofEntries, hfind, Option.bind_map]
  rfl

end FatArrow
