import FatArrow.Proofs.Registry.Filled

/-!
# Names of types

A dotted name is looked up as it is, in default namespaces, and without its first pieces.  Whatever
type is found for it has the last of its pieces for a simple name.
-/

namespace FatArrow

/-! ## 1. Pieces -/

theorem dottedPieces_append (front back : String) :
    dottedPieces (front ++ "." ++ back) = dottedPieces front ++ dottedPieces back := by
  have htext : (front ++ "." ++ back).toList = front.toList ++ '.' :: back.toList := by simp
  rw [dottedPieces, htext, List.splitOnP_append_cons _ _ (by decide), List.map_append]
  rfl

theorem dottedPieces_eq_singleton {piece : String} (h : '.' ∉ piece.toList) :
    dottedPieces piece = [piece] := by
  have hsplit : piece.toList.splitOnP (· == '.') = [piece.toList] :=
    List.splitOnP_eq_singleton fun c hc => beq_false_of_ne fun he => h (he ▸ hc)
  rw [dottedPieces, hsplit, List.map_singleton, String.ofList_toList]

theorem dotted_cons_cons (piece next : String) (pieces : List String) :
    dotted (piece :: next :: pieces) = piece ++ "." ++ dotted (next :: pieces) := by
  apply String.toList_inj.mp
  simp [dotted, String.toList_intercalate]

/-- The last of the pieces of a name. -/
def lastPiece (name : String) : String := (dottedPieces name).getLastD ""

theorem dottedPieces_ne_nil (name : String) : dottedPieces name ≠ [] :=
  fun h => List.splitOnP_ne_nil _ _ (List.map_eq_nil_iff.mp h)

theorem lastPiece_append (front back : String) : lastPiece (front ++ "." ++ back) = lastPiece back := by
  rw [lastPiece, dottedPieces_append, List.getLastD_eq_getLast?, List.getLast?_append,
    Option.or_of_isSome (List.getLast?_isSome.mpr (dottedPieces_ne_nil back)),
    ← List.getLastD_eq_getLast?]
  rfl

/-- What is appended to a dotted name is appended to its last piece. -/
theorem lastPiece_dotted_append {pieces : List String} {tail : String}
    (hp : ∀ piece ∈ pieces, '.' ∉ piece.toList) (ht : '.' ∉ tail.toList) :
    lastPiece (dotted pieces ++ tail) = pieces.getLastD "" ++ tail := by
  induction pieces with
  | nil =>
    have htail : lastPiece tail = tail := by rw [lastPiece, dottedPieces_eq_singleton ht]; rfl
    simpa [dotted] using htail
  | cons piece pieces ih =>
    obtain ⟨hfirst, hrest⟩ := List.forall_mem_cons.mp hp
    cases pieces with
    | nil =>
      have hpiece : '.' ∉ (piece ++ tail).toList := by simp [hfirst, ht]
      rw [show dotted [piece] = piece from rfl, lastPiece, dottedPieces_eq_singleton hpiece]
      rfl
    | cons next pieces =>
      rw [dotted_cons_cons, String.append_assoc, lastPiece_append, ih hrest]
      rfl

/-- A dotted name is spelled by its pieces. -/
theorem dotted_dottedPieces (name : String) : dotted (dottedPieces name) = name := by
  have hchars : (dotted (dottedPieces name)).toList = name.toList := by
    -- splitting and joining at dots undo each other on lists of characters
    rw [dotted, String.toList_intercalate, dottedPieces, List.map_map]
    have hmap : (name.toList.splitOnP (· == '.')).map (String.toList ∘ String.ofList) =
        name.toList.splitOnP (· == '.') :=
      (List.map_congr_left fun cs _ => String.toList_ofList).trans (List.map_id _)
    rw [hmap]
    exact List.intercalate_splitOn '.'
  exact String.toList_inj.mp hchars

/-! ## 2. Types that are found -/

section

variable {es : List TypeEntry} {explicit : List String} {ns : Namespaces} {name : String}
  {type : HostType}

theorem TypeEntry.name_of_find? {e : TypeEntry} (h : es.find? (·.isCalled name) = some e) :
    e.name.name = lastPiece name := by
  have hcalled : e.isCalled name = true :=
    List.find?_some (p := fun e : TypeEntry => e.isCalled name) h
  exact congrArg Prod.snd (beq_iff_eq.mp hcalled)

/-- A host that answers for names answers with entries of that name. -/
theorem Host.exists_of_typeIn? {module : String}
    (h : (Host.ofEntries es explicit).typeIn? name module = some type) :
    ∃ e ∈ es, e.type = type ∧ e.name.name = lastPiece name := by
  obtain ⟨e, he, h⟩ := Option.bind_eq_some_iff.mp h
  refine ⟨e, List.mem_of_find?_eq_some he, ?_, TypeEntry.name_of_find? he⟩
  split at h
  · exact Option.some.inj h
  · cases h

theorem Host.exists_of_typeOf? (h : (Host.ofEntries es explicit).typeOf? name = some type) :
    ∃ e ∈ es, e.type = type ∧ e.name.name = lastPiece name := by
  obtain ⟨e, he, h⟩ := Option.bind_eq_some_iff.mp h
  refine ⟨e, List.mem_of_find?_eq_some he, ?_, TypeEntry.name_of_find? he⟩
  split at h
  · cases h
  · exact Option.some.inj h

namespace Namespaces

theorem exists_of_typeNamed? (h : typeNamed? (Host.ofEntries es explicit) ns name = some type) :
    ∃ e ∈ es, e.type = type ∧ e.name.name = lastPiece name := by
  rw [typeNamed?, Option.or_eq_some_iff] at h
  rcases h with h | ⟨-, h⟩
  · exact Host.exists_of_typeOf? h
  · obtain ⟨entry, -, h⟩ := List.exists_of_findSome?_eq_some h
    obtain ⟨module, -, h⟩ := Option.bind_eq_some_iff.mp h
    split at h
    · exact Host.exists_of_typeIn? h
    · cases h

theorem exists_of_typeUnder? {entry : NamespaceEntry}
    (h : typeUnder? (Host.ofEntries es explicit) entry name = some type) :
    ∃ e ∈ es, e.type = type ∧ e.name.name = lastPiece name := by
  rw [← lastPiece_append entry.name name]
  unfold typeUnder? at h
  dsimp only at h
  split at h
  · exact Host.exists_of_typeIn? h
  · exact Host.exists_of_typeOf? h

theorem exists_of_typeOfPieces? {pieces : List String}
    (h : typeOfPieces? (Host.ofEntries es explicit) ns pieces = some type) :
    ∃ e ∈ es, e.type = type ∧ e.name.name = lastPiece (dotted pieces) := by
  induction pieces with
  | nil => cases h
  | cons piece pieces ih =>
    unfold typeOfPieces? at h
    dsimp only at h
    split at h
    next found hfound =>
      cases h
      rcases Option.or_eq_some_iff.mp hfound with hfound | ⟨-, hfound⟩
      · exact exists_of_typeNamed? hfound
      · obtain ⟨entry, -, hfound⟩ := List.exists_of_findSome?_eq_some hfound
        exact exists_of_typeUnder? hfound
    next =>
      split at h
      · cases h
      next hne =>
        cases pieces with
        | nil => exact absurd rfl hne
        | cons next pieces =>
          -- the first piece is left out, which the last does not notice
          rw [dotted_cons_cons, lastPiece_append]
          exact ih h

/-- The type that is found for a name has its last piece for a simple name. -/
theorem exists_of_typeOf? (h : ns.typeOf? (Host.ofEntries es explicit) name = some type) :
    ∃ e ∈ es, e.type = type ∧ e.name.name = lastPiece name := by
  have hfound := exists_of_typeOfPieces? h
  rwa [dotted_dottedPieces] at hfound

end Namespaces

end

end FatArrow
