import FatArrow.Proofs.Registry.Layers

/-!
# What stays reachable

A registry keeps three indices: the places of a path and a simple name, the entries by the fingerprint
of the dotted name, and the dotted names by fingerprint.  Only the first refuses what is taken.  A
simple name with a dot of its own is spelled like a name below another namespace, so its place is not
where its spelling leads, and it shares an entry with whatever else is spelled so.  Everything else
stays reachable.
-/

namespace FatArrow

namespace Registry

variable {r r' : Registry} {es : List TypeEntry} {e : TypeEntry}

/-! ## 1. The three indices -/

/-- The indices of a registry into which entries were registered in their order. -/
structure Files (r : Registry) (es : List TypeEntry) : Prop where
  places : r.index.places = es.map fun e => ((e.name.path, e.name.name), e.key)
  apart : (es.map fun e => (e.name.path, e.name.name)).Nodup
  entries : ∀ key, r.get? key = (es.filter (·.key == key)).getLast?
  names : r.index.names = (es.map fun e => (e.key, e.name.text)).reverse

theorem files_empty : empty.Files [] := ⟨rfl, List.nodup_nil, fun _ => rfl, rfl⟩

theorem Files.register (h : r.Files es) (hr : r.register e = .ok r') : r'.Files (es ++ [e]) where
  places := by rw [register_places hr, h.places, List.map_append, List.map_singleton]
  apart := by
    obtain ⟨keys, names, -, hfree, -⟩ := register_cases hr
    rw [List.map_append, List.map_singleton]
    refine List.nodup_append.mpr ⟨h.apart, List.pairwise_singleton .., fun place hplace last hl => ?_⟩
    rw [List.mem_singleton.mp hl]
    rintro rfl
    -- a place that is taken is not free
    obtain ⟨d, hd, hsame⟩ := List.mem_map.mp hplace
    rw [NameIndex.at?, h.places, List.lookup_eq_none_iff] at hfree
    have hne := hfree _ (List.mem_map_of_mem hd)
    simp only [bne_iff_ne] at hne
    exact hne hsame.symm
  entries key := by
    rw [Registry.get?, register_types hr, List.filter_append]
    by_cases hkey : key = e.key
    · subst hkey
      rw [lookup_put_self, List.filter_cons_of_pos (by simp), List.filter_nil, List.getLast?_concat]
    · rw [lookup_put_of_ne hkey, List.filter_cons_of_neg (by simpa using Ne.symm hkey),
        List.filter_nil, List.append_nil]
      exact h.entries key
  names := by
    rw [register_names hr, h.names, List.map_append, List.map_singleton, List.reverse_append]
    rfl

theorem kept_files : Kept Files where
  explicit h _ := ⟨h.places, h.apart, h.entries, h.names⟩
  register := Files.register

theorem Files.installAll {modules : List HostModule} (h : r.Files es)
    (hr : r.installAll modules = .ok r') : r'.Files (es ++ modules.flatMap HostModule.entries) :=
  kept_files.installAll h hr

/-! ## 2. Spellings -/

/-- The entries with a dotted name, in the order of their registration. -/
def spelled (es : List TypeEntry) (name : String) : List TypeEntry :=
  es.filter (·.name.text == name)

theorem mem_spelled {name : String} : e ∈ spelled es name ↔ e ∈ es ∧ e.name.text = name := by
  rw [spelled, List.mem_filter, beq_iff_eq]

/-- No two different dotted names of entries have the same fingerprint. -/
def KeysApart (es : List TypeEntry) : Prop :=
  ∀ d ∈ es, ∀ e ∈ es, d.key = e.key → d.name.text = e.name.text

theorem key_eq_of_text {d e : TypeEntry} (h : d.name.text = e.name.text) : d.key = e.key :=
  congrArg Fingerprint.ofName h

/-- The entries under a fingerprint are those of its dotted name. -/
theorem KeysApart.filter_key (h : KeysApart es) (he : e ∈ es) :
    es.filter (·.key == e.key) = spelled es e.name.text := by
  refine List.filter_congr fun d hd => ?_
  rw [Bool.eq_iff_iff, beq_iff_eq, beq_iff_eq]
  exact ⟨h d hd e he, key_eq_of_text⟩

/-- The dotted name of an entry is known. -/
theorem Files.nameOf? (h : r.Files es) (hapart : KeysApart es) (he : e ∈ es) :
    r.index.nameOf? e.key = some e.name.text := by
  have hsame : ∀ p ∈ r.index.names, p.1 = e.key → p.2 = e.name.text := by
    intro p hp hkey
    rw [h.names, List.mem_reverse] at hp
    obtain ⟨d, hd, rfl⟩ := List.mem_map.mp hp
    exact hapart d hd e he hkey
  rw [NameIndex.nameOf?]
  cases hlookup : r.index.names.lookup e.key with
  | none =>
    have hmem : (e.key, e.name.text) ∈ r.index.names := by
      rw [h.names, List.mem_reverse]
      exact List.mem_map_of_mem he
    have hne := List.lookup_eq_none_iff.mp hlookup _ hmem
    simp at hne
  | some name =>
    obtain ⟨before, after, hnames, -⟩ := List.lookup_eq_some_iff.mp hlookup
    have hmem := hnames ▸ List.mem_append_right before (List.mem_cons_self (l := after))
    exact congrArg some (hsame _ hmem rfl)

/-- A name leads to the place of an entry if it is spelled like the entry, which has no dots of its
own. -/
theorem isCalled_iff {name : String} :
    e.isCalled name = true ↔ e.name.text = name ∧ e.name.Undotted := by
  have hpieces : e.isCalled name = true ↔ dottedPieces name = e.name.path ++ [e.name.name] := by
    have hlast : dottedPieces name = (dottedPieces name).dropLast ++ [(dottedPieces name).getLastD ""] := by
      rw [List.getLastD_eq_getLast?, List.getLast?_eq_some_getLast (dottedPieces_ne_nil name)]
      exact (List.dropLast_concat_getLast (dottedPieces_ne_nil name)).symm
    rw [TypeEntry.isCalled, beq_iff_eq, Prod.mk.injEq]
    constructor
    · rintro ⟨hpath, hname⟩
      rw [hpath, hname]
      exact hlast
    · intro h
      rw [h, List.dropLast_concat, List.getLastD_eq_getLast?, List.getLast?_concat]
      exact ⟨rfl, rfl⟩
  rw [hpieces, QualifiedName.text_eq]
  constructor
  · intro h
    refine ⟨by rw [← h, dotted_dottedPieces], fun piece hpiece => ?_⟩
    exact @no_dot_of_mem_dottedPieces name piece (h ▸ hpiece)
  · rintro ⟨rfl, hundotted⟩
    exact dottedPieces_dotted (by simp) hundotted

/-- A name that leads to a place leads to the entry under its fingerprint. -/
theorem Files.named?_of_isCalled (h : r.Files es) {name : String} (he : e ∈ es)
    (hcalled : e.isCalled name = true) : r.named? name = r.get? (Fingerprint.ofName name) := by
  have hfound : r.index.resolve? name = some (Fingerprint.ofName name) := by
    rw [NameIndex.resolve?, NameIndex.at?, h.places]
    cases hlookup : (es.map fun e => ((e.name.path, e.name.name), e.key)).lookup
        ((dottedPieces name).dropLast, (dottedPieces name).getLastD "") with
    | none =>
      have hne := List.lookup_eq_none_iff.mp hlookup _ (List.mem_map_of_mem he)
      rw [bne_iff_ne] at hne
      exact absurd (beq_iff_eq.mp hcalled).symm hne
    | some key =>
      obtain ⟨before, after, hplaces, -⟩ := List.lookup_eq_some_iff.mp hlookup
      have hmem := hplaces ▸ List.mem_append_right before (List.mem_cons_self (l := after))
      obtain ⟨d, -, hd⟩ := List.mem_map.mp hmem
      -- whatever stands at the place is spelled like it
      have hplace : d.isCalled name = true := beq_iff_eq.mpr (congrArg Prod.fst hd)
      have hkey : d.key = key := congrArg Prod.snd hd
      rw [← hkey]
      exact congrArg (fun text => some (Fingerprint.ofName text)) (isCalled_iff.mp hplace).1
  rw [Registry.named?, hfound, Option.bind_some]

theorem Files.named?_of_not_isCalled (h : r.Files es) {name : String}
    (hcalled : ∀ e ∈ es, e.isCalled name = false) : r.named? name = none := by
  have hnone : r.index.resolve? name = none := by
    rw [NameIndex.resolve?, NameIndex.at?, h.places, List.lookup_eq_none_iff]
    intro p hp
    obtain ⟨e, he, rfl⟩ := List.mem_map.mp hp
    rw [bne_iff_ne]
    exact fun hsame => beq_eq_false_iff_ne.mp (hcalled e he) hsame.symm
  rw [Registry.named?, hnone, Option.bind_none]

/-- Entries without dots of their own are alone with their spelling. -/
theorem Files.spelled_eq (h : r.Files es) (he : e ∈ es)
    (hundotted : ∀ d ∈ spelled es e.name.text, d.name.Undotted) :
    spelled es e.name.text = [e] := by
  have hmem : e ∈ spelled es e.name.text := mem_spelled.mpr ⟨he, rfl⟩
  have hnames : ∀ d ∈ spelled es e.name.text, d.name = e.name := fun d hd =>
    (hundotted d hd).eq (hundotted e hmem) (mem_spelled.mp hd).2
  -- they all have one place, and no two entries have that
  have hapart : ((spelled es e.name.text).map fun d => (d.name.path, d.name.name)).Nodup :=
    h.apart.sublist (List.filter_sublist.map _)
  cases hspelled : spelled es e.name.text with
  | nil =>
    rw [hspelled] at hmem
    cases hmem
  | cons d rest =>
    rw [hspelled] at hmem hnames hapart
    obtain ⟨hfirst, hrest⟩ := List.forall_mem_cons.mp hnames
    cases rest with
    | nil => rw [List.mem_singleton.mp hmem]
    | cons d' rest =>
      have hne := (List.nodup_cons.mp hapart).1
      simp only [List.map_cons, hfirst, hrest d' List.mem_cons_self] at hne
      exact absurd List.mem_cons_self hne

/-! ## 3. Installed modules -/

/-- Every entry of installed modules is known by its dotted name.  Under that name the registry has the
last entry with that spelling: for the named type always, and for the dotted name if one of the entries
so spelled has no dots in its pieces, as a type has whose own name and those around it have none.  If
none of them has any, the entry is the only one of its spelling, and both return it as it was
installed. -/
theorem installed_reachable {modules : List HostModule} (hr : empty.installAll modules = .ok r)
    (hapart : KeysApart (modules.flatMap HostModule.entries))
    (he : e ∈ modules.flatMap HostModule.entries) :
    let alike := spelled (modules.flatMap HostModule.entries) e.name.text
    r.index.nameOf? e.key = some e.name.text ∧
    (∀ args, r.entry? (.applied e.name args) = alike.getLast?) ∧
    ((∃ d ∈ alike, d.name.Undotted) → r.named? e.name.text = alike.getLast?) ∧
    ((∀ d ∈ alike, ¬d.name.Undotted) → r.named? e.name.text = none) ∧
    ((∀ d ∈ alike, d.name.Undotted) → alike = [e] ∧ r.named? e.name.text = some e ∧
      ∀ args, r.entry? (.applied e.name args) = some e) := by
  intro alike
  have hfiles : r.Files (modules.flatMap HostModule.entries) := files_empty.installAll hr
  have hself : e ∈ alike := mem_spelled.mpr ⟨he, rfl⟩
  have hget : r.get? e.key = alike.getLast? := by
    rw [hfiles.entries, hapart.filter_key he]
  have hentry (args : List HostType) : r.entry? (.applied e.name args) = alike.getLast? := hget
  have hnamed : (∃ d ∈ alike, d.name.Undotted) → r.named? e.name.text = alike.getLast? := by
    rintro ⟨d, hd, hundotted⟩
    obtain ⟨hmem, htext⟩ := mem_spelled.mp hd
    rw [hfiles.named?_of_isCalled hmem (isCalled_iff.mpr ⟨htext, hundotted⟩)]
    exact hget
  refine ⟨hfiles.nameOf? hapart he, hentry, hnamed, fun hdotted => ?_, fun hundotted => ?_⟩
  · refine hfiles.named?_of_not_isCalled fun d hd => Bool.eq_false_iff.mpr fun hcalled => ?_
    obtain ⟨htext, hundotted⟩ := isCalled_iff.mp hcalled
    exact hdotted d (mem_spelled.mpr ⟨hd, htext⟩) hundotted
  · have halone : alike = [e] := hfiles.spelled_eq he hundotted
    have hlast : alike.getLast? = some e := by
      rw [halone]
      rfl
    exact ⟨halone, (hnamed ⟨e, hself, hundotted e hself⟩).trans hlast,
      fun args => (hentry args).trans hlast⟩

/-- A nested type is found below the type around it, which has a parameter. -/
theorem installed_reachable_nested :
    let outer := { TypeDecl.ofName "Foo`1" with arity := 1, nested := [.ofName "Bar"] }
    let modules : List HostModule := [.ofNamespace "App" [outer], .ofNamespace "App" [.ofName "Bar"]]
    let e := (TypeDecl.ofName "Bar").entry ⟨["App"], "Foo`1"⟩ "App"
    ∃ r, empty.installAll modules = .ok r ∧ KeysApart (modules.flatMap HostModule.entries) ∧
      e ∈ modules.flatMap HostModule.entries ∧ r.index.nameOf? e.key = some "App.Foo`1.Bar" ∧
      r.named? "App.Foo`1.Bar" = some e ∧ r.entry? (.applied e.name []) = some e := by
  intro outer modules e
  obtain ⟨r, hr, -⟩ : ∃ r, empty.installAll modules = .ok r ∧ true = true :=
    exists_ok_of_any (by decide +kernel)
  have hapart : KeysApart (modules.flatMap HostModule.entries) := by
    unfold KeysApart
    decide +kernel
  have he : e ∈ modules.flatMap HostModule.entries := List.mem_of_getElem? (i := 1) rfl
  have htext : e.name.text = "App.Foo`1.Bar" := by decide +kernel
  have hundotted : ∀ d ∈ spelled (modules.flatMap HostModule.entries) e.name.text,
      d.name.Undotted := by
    unfold QualifiedName.Undotted
    decide +kernel
  obtain ⟨hname, -, -, -, halone⟩ := installed_reachable hr hapart he
  obtain ⟨-, hnamed, hentry⟩ := halone hundotted
  rw [htext] at hname hnamed
  exact ⟨r, hr, hapart, he, hname, hnamed, hentry []⟩

/-- A simple name with a dot is not found where it is spelled, and another type of its spelling takes
its entry. -/
theorem installed_unreachable :
    let dotted := HostModule.ofNamespace "App" [{ TypeDecl.ofName "Foo.Bar" with arity := 1 }]
    let plain := HostModule.ofNamespace "App.Foo" [.ofName "Bar"]
    let name : QualifiedName := ⟨["App"], "Foo.Bar"⟩
    ((empty.installAll [dotted]).toOption.any fun r =>
        (r.named? name.text).isNone && ((r.entry? (.applied name [])).map (·.arity) == some 1)) ∧
      (empty.installAll [dotted, plain]).toOption.any fun r =>
        (r.entry? (.applied name [])).map (·.arity) == some 0 := by
  decide +kernel

end Registry

end FatArrow
