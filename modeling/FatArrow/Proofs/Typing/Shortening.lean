import FatArrow.Proofs.Registry.Names
import FatArrow.Proofs.Registry.Sound
import FatArrow.Tree.Printer
import Mathlib.Data.List.TakeWhile

/-!
# Names that are printed short

A type of a default namespace is printed by its simple name, whatever else has that name.  Looking
that name up asks for the name by itself first, and then in one default namespace after the other: so
the type comes back unless one that is asked for before it has the same simple name.
-/

namespace FatArrow

variable {r : Registry} {ns : Namespaces} {q : QualifiedName} {t : HostType}

/-! ## 1. What is printed -/

namespace QualifiedName

theorem displayName_eq (h : '`' ∉ q.name.toList) : q.displayName = q.name := by
  have hall : ∀ c ∈ q.name.toList, (c != '`') = true := fun c hc =>
    bne_iff_ne.mpr fun he => h (he ▸ hc)
  rw [displayName, stripArity, List.takeWhile_eq_self_iff.mpr hall, String.ofList_toList]

theorem text_of_path (h : q.isGlobal = false) : q.text = q.namespaceText ++ "." ++ q.name :=
  if_neg (by rw [← isGlobal, h]; exact Bool.false_ne_true)

end QualifiedName

/-- A name is printed without its namespaces. -/
def Namespaces.shortens (ns : Namespaces) (q : QualifiedName) : Bool :=
  !q.isGlobal && ns.isDefault q.namespaceText

/-- A type without arguments is printed by its simple name or by its full name. -/
theorem HostType.shortText_applied_nil (h : '`' ∉ q.name.toList) :
    (applied q []).shortText ns = if ns.shortens q then q.name else q.text := by
  have hshort : (applied q []).shortText ns =
      (if q.isGlobal || ns.isDefault q.namespaceText then "" else q.namespaceText ++ ".") ++
        q.displayName ++ "" := rfl
  rw [hshort, String.append_empty, QualifiedName.displayName_eq h, Namespaces.shortens]
  cases hglobal : q.isGlobal with
  | true =>
    have htext : q.text = q.name := if_pos hglobal
    simp [htext]
  | false =>
    rw [QualifiedName.text_of_path hglobal]
    cases ns.isDefault q.namespaceText <;> simp

/-! ## 2. What is found -/

namespace Namespaces

variable {h : Host} {name : String}

/-- A name that means something by itself or in a default namespace loses no pieces. -/
theorem typeOf?_of_some (ht : (typeNamed? h ns name).or
    (ns.findSome? fun entry => typeUnder? h entry name) = some t) : ns.typeOf? h name = some t := by
  have hname := dotted_dottedPieces name
  unfold typeOf?
  obtain ⟨piece, pieces, hpieces⟩ := List.exists_cons_of_ne_nil (dottedPieces_ne_nil name)
  rw [hpieces] at hname ⊢
  rw [typeOfPieces?, hname, ht]

/-- A name that is known by itself means that. -/
theorem typeOf?_of_named (ht : h.typeOf? name = some t) : ns.typeOf? h name = some t := by
  refine typeOf?_of_some ?_
  rw [typeNamed?, ht, Option.some_or, Option.some_or]

/-- The types that answer to the simple name of a type before the namespace of the type is asked, in
the order in which they do; none if the type is printed with its namespace. -/
def answersBefore (ns : Namespaces) (h : Host) (q : QualifiedName) : List HostType :=
  if ns.shortens q then
    (typeNamed? h ns q.name).toList ++
      (ns.takeWhile (·.name != q.namespaceText)).filterMap fun entry => typeUnder? h entry q.name
  else []

end Namespaces

theorem Registry.typeIn?_of_typeOf? {name : String} (h : r.typeOf? name = some t)
    (module : String) : r.typeIn? name module = some t := by
  obtain ⟨e, he, ht⟩ := Option.bind_eq_some_iff.mp h
  split at ht
  · cases ht
  next hseen => rw [typeIn?, he, Option.bind_some, if_pos (.inr hseen), ht]

/-- A type that its full name means is found in its own namespace. -/
theorem Registry.typeUnder?_of_typeOf? {entry : NamespaceEntry} (hq : q.isGlobal = false)
    (hentry : entry.name = q.namespaceText) (h : r.typeOf? q.text = some t) :
    Namespaces.typeUnder? r.host entry q.name = some t := by
  rw [QualifiedName.text_of_path hq, ← hentry] at h
  unfold Namespaces.typeUnder?
  split
  · exact r.typeIn?_of_typeOf? h _
  · exact h

/-- The default namespaces from the one of a type on begin with an entry of its name. -/
theorem Namespaces.findSome?_of_isDefault {f : NamespaceEntry → Option HostType} {name : String}
    (hdefault : ns.isDefault name = true) (hf : ∀ entry, entry.name = name → f entry = some t) :
    ns.findSome? f = ((ns.takeWhile (·.name != name)).findSome? f).or (some t) := by
  induction ns with
  | nil => cases hdefault
  | cons entry ns ih =>
    by_cases hname : entry.name = name
    · rw [List.takeWhile_cons_of_neg (by simp [hname]), List.findSome?_cons, hf entry hname]
      rfl
    · have hrest : isDefault ns name = true := by
        simpa [isDefault, hname] using hdefault
      rw [List.takeWhile_cons_of_pos (by simp [hname]), List.findSome?_cons, List.findSome?_cons,
        ih hrest]
      cases f entry <;> rfl

/-! ## 3. Reading what is printed short -/

/-- A type without parameters that its own full name means is printed as a name that means a type: the
first one that answers to the simple name before it, and the type itself if there is none. -/
theorem Registry.typeOf?_shortText (r : Registry) (ns : Namespaces) (q : QualifiedName)
    (hplain : '`' ∉ q.name.toList) (h : r.typeOf? q.text = some (.applied q [])) :
    ns.typeOf? r.host ((HostType.applied q []).shortText ns) =
      some ((ns.answersBefore r.host q).headD (.applied q [])) := by
  rw [HostType.shortText_applied_nil hplain]
  unfold Namespaces.answersBefore
  cases hshort : ns.shortens q with
  | false => exact Namespaces.typeOf?_of_named h
  | true =>
    obtain ⟨hglobal, hdefault⟩ := Bool.and_eq_true_iff.mp hshort
    have hq : q.isGlobal = false := Bool.not_eq_true' _ |>.mp hglobal
    rw [if_pos rfl, if_pos rfl]
    refine Namespaces.typeOf?_of_some ?_
    rw [Namespaces.findSome?_of_isDefault hdefault fun entry hentry =>
      r.typeUnder?_of_typeOf? hq hentry h]
    rw [← Option.or_assoc, Option.or_some, List.headD_eq_head?_getD, List.head?_append,
      List.head?_filterMap, Option.head?_toList]

/-- A simple name that no earlier default namespace has. -/
theorem Registry.typeOf?_shortText_second :
    let r := installed [.ofNamespace "A" [.ofName "Foo"], .ofNamespace "B" [.ofName "Bar"]]
    let ns : Namespaces := [⟨"A", none⟩, ⟨"B", none⟩]
    (HostType.named "B.Bar").shortText ns = "Bar" ∧
      r.typeOf? "B.Bar" = some (.named "B.Bar") ∧
      ns.typeOf? r.host "Bar" = some (.named "B.Bar") := by
  intro r ns
  have hfound : r.typeOf? "B.Bar" = some (.named "B.Bar") := by decide +kernel
  have hshort : (HostType.named "B.Bar").shortText ns = "Bar" := by decide +kernel
  have hbefore : ns.answersBefore r.host (.ofDotted "B.Bar") = [] := by decide +kernel
  have hread := r.typeOf?_shortText ns (.ofDotted "B.Bar") (by decide +kernel) hfound
  rw [hbefore] at hread
  exact ⟨hshort, hfound, hshort ▸ hread⟩

/-- A type of an earlier default namespace, or one outside any namespace, takes the simple name. -/
theorem Registry.typeOf?_shortText_ne :
    let r := installed [.ofNamespace "A" [.ofName "Foo"], .ofNamespace "B" [.ofName "Foo"]]
    let s := installed [.ofNamespace "" [.ofName "Foo"], .ofNamespace "B" [.ofName "Foo"]]
    let ns : Namespaces := [⟨"A", none⟩, ⟨"B", none⟩]
    (HostType.named "B.Foo").shortText ns = "Foo" ∧
      r.typeOf? "B.Foo" = some (.named "B.Foo") ∧ s.typeOf? "B.Foo" = some (.named "B.Foo") ∧
      ns.typeOf? r.host "Foo" = some (.named "A.Foo") ∧
      ns.typeOf? s.host "Foo" = some (.named "Foo") := by
  decide +kernel

end FatArrow
