import FatArrow.Proofs.Registry.Reachable

/-!
# Modules that are not asked

The types of an explicit module are shown to those who name it.  A name that meant something before
such a module was installed means the same afterwards, since its place was taken; and what the module
brings is hidden from names by themselves and from those that are looked up in other modules.
-/

namespace FatArrow

/-! ## 1. Entries of a module -/

namespace TypeDecl

mutual
theorem module_of_mem_entries (parent : QualifiedName) (module : String) (d : TypeDecl) :
    ∀ e ∈ d.entries parent module, e.module = module := by
  obtain ⟨name, primitive, arity, properties, fields, methods, constructors, nested, bases, item⟩ := d
  unfold entries
  exact List.forall_mem_cons.mpr ⟨rfl, module_of_mem_entriesList (parent.child name) module nested⟩

theorem module_of_mem_entriesList (parent : QualifiedName) (module : String) (ds : List TypeDecl) :
    ∀ e ∈ entriesList parent module ds, e.module = module := by
  cases ds with
  | nil => exact nofun
  | cons d ds =>
    unfold entriesList
    exact List.forall_mem_append.mpr ⟨module_of_mem_entries parent module d,
      module_of_mem_entriesList parent module ds⟩
end

end TypeDecl

theorem HostModule.module_of_mem_entries {m : HostModule} {e : TypeEntry} (he : e ∈ m.entries) :
    e.module = m.name :=
  TypeDecl.module_of_mem_entriesList _ m.name m.types e he

namespace Registry

variable {r r' : Registry} {es done : List TypeEntry} {m : HostModule} {name module : String}

/-! ## 2. Visibility -/

/-- An installation makes the types of its own module explicit and no others. -/
theorem install_isExplicit (r : Registry) (hne : module ≠ m.name) :
    (r.install m).1.isExplicit module = r.isExplicit module := by
  unfold install
  split
  next => rfl
  next =>
    rw [isExplicit, registerAll_explicit, isExplicit]
    split
    next => rw [List.contains_cons, beq_false_of_ne hne, Bool.false_or]
    next => rfl

/-- What an installation shows to those who do not name the module: of an explicit module it brings
nothing, or what it brings is hidden. -/
theorem install_hides (r : Registry) (hx : m.isExplicit = true) :
    (r.install m).1 = r ∨ (r.install m).1.isExplicit m.name = true := by
  unfold install
  split
  next => exact .inl rfl
  next =>
    refine .inr ?_
    rw [isExplicit, registerAll_explicit]
    simp only [List.contains_cons, beq_self_eq_true, Bool.true_or]

/-! ## 3. Names -/

/-- Entries whose names have no dots of their own change nothing under a name that had a place. -/
theorem Files.named?_append (h : r.Files es) (h' : r'.Files (es ++ done))
    (hapart : KeysApart (es ++ done)) (hundotted : ∀ d ∈ done, d.name.Undotted) {e : TypeEntry}
    (he : e ∈ es) (hcalled : e.isCalled name = true) : r'.named? name = r.named? name := by
  obtain ⟨rfl, heUndotted⟩ := isCalled_iff.mp hcalled
  have hnone : done.filter (·.key == Fingerprint.ofName e.name.text) = [] := by
    rw [List.filter_eq_nil_iff]
    intro d hd hkey
    -- the two would share a name, and so a place
    have htext := hapart d (List.mem_append_right _ hd) e (List.mem_append_left _ he)
      (beq_iff_eq.mp hkey)
    have hname := (hundotted d hd).eq heUndotted htext
    have hplaces := h'.apart
    rw [List.map_append, List.nodup_append] at hplaces
    exact hplaces.2.2 _ (List.mem_map_of_mem he) _ (List.mem_map_of_mem hd) (by rw [hname])
  rw [h'.named?_of_isCalled (List.mem_append_left _ he) hcalled, h.named?_of_isCalled he hcalled,
    h'.entries, h.entries, List.filter_append, hnone, List.append_nil]

/-- A name that had no place leads to a new entry, if to any. -/
theorem Files.mem_done_of_named? (h : r.Files (es ++ done)) (hold : ∀ e ∈ es, e.isCalled name = false)
    {e : TypeEntry} (he : r.named? name = some e) : e ∈ done := by
  by_cases hnew : ∃ d ∈ done, d.isCalled name = true
  · obtain ⟨d, hd, hcalled⟩ := hnew
    have hmem : d ∈ done.filter (·.key == Fingerprint.ofName name) := by
      rw [List.mem_filter, beq_iff_eq, ← (isCalled_iff.mp hcalled).1]
      exact ⟨hd, rfl⟩
    rw [h.named?_of_isCalled (List.mem_append_right _ hd) hcalled, h.entries, List.filter_append,
      List.getLast?_append] at he
    cases hlast : (done.filter (·.key == Fingerprint.ofName name)).getLast? with
    | none => exact absurd (List.getLast?_eq_none_iff.mp hlast) (List.ne_nil_of_mem hmem)
    | some last =>
      rw [hlast, Option.some_or] at he
      cases he
      exact (List.mem_filter.mp (List.mem_of_getLast? hlast)).1
  · have hnone : ∀ e ∈ es ++ done, e.isCalled name = false := by
      refine List.forall_mem_append.mpr ⟨hold, fun d hd => ?_⟩
      rw [Bool.eq_false_iff]
      exact fun hcalled => hnew ⟨d, hd, hcalled⟩
    rw [h.named?_of_not_isCalled hnone] at he
    cases he

theorem Files.mem_of_named? (h : r.Files es) {e : TypeEntry} (he : r.named? name = some e) :
    e ∈ es :=
  Files.mem_done_of_named? (show r.Files ([] ++ es) from h) (List.forall_mem_nil _) he

/-- Entries of a module that is hidden, on top of others, change no answer to those who do not name the
module. -/
theorem Files.answers_append (h : r.Files es) (h' : r'.Files (es ++ done))
    (hapart : KeysApart (es ++ done)) (hundotted : ∀ d ∈ done, d.name.Undotted) {hidden : String}
    (hold : ∀ e ∈ es, e.module ≠ hidden) (hnew : ∀ d ∈ done, d.module = hidden)
    (hx : r'.isExplicit hidden = true)
    (hsame : ∀ other, other ≠ hidden → r'.isExplicit other = r.isExplicit other) (name : String) :
    r'.typeOf? name = r.typeOf? name ∧
      ∀ other, other ≠ hidden → r'.typeIn? name other = r.typeIn? name other := by
  unfold Registry.typeOf? Registry.typeIn?
  by_cases hplace : ∃ e ∈ es, e.isCalled name = true
  · obtain ⟨e, he, hcalled⟩ := hplace
    rw [h.named?_append h' hapart hundotted he hcalled]
    have hvisible {found : TypeEntry} (hfound : r.named? name = some found) :
        r'.isExplicit found.module = r.isExplicit found.module :=
      hsame _ (hold found (h.mem_of_named? hfound))
    refine ⟨Option.bind_congr fun found hfound => ?_, fun other _ =>
      Option.bind_congr fun found hfound => ?_⟩
    all_goals rw [hvisible hfound]
  · have hnone : ∀ e ∈ es, e.isCalled name = false := fun e he =>
      Bool.eq_false_iff.mpr fun hcalled => hplace ⟨e, he, hcalled⟩
    rw [h.named?_of_not_isCalled hnone]
    cases hfound : r'.named? name with
    | none => exact ⟨rfl, fun _ _ => rfl⟩
    | some d =>
      -- it is a new entry, which is hidden
      have hmodule := hnew d (h'.mem_done_of_named? hnone hfound)
      simp only [Option.bind_some, hmodule, hx, ↓reduceIte]
      exact ⟨rfl, fun other hother => if_neg (by simp [hother.symm])⟩

/-! ## 4. Names in namespaces -/

end Registry

end FatArrow
