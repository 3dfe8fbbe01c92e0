import FatArrow.Proofs.Tree.Binding
import FatArrow.Tree.Path

/-!
# Paths of members

Members that are read one from the other lead from a term down to what the first of them is read
from, and lambdas on the way are looked through.  A lambda follows a path where its body leads to a
parameter in this way, over one member at least.
-/

namespace FatArrow

namespace Term

variable {t u : Term} {scopes : List (List Param)} {names : List String}

/-! ## 1. Ways over members -/

/-- A term leads to another through lambdas with the given parameters, the outermost first, and over
members with the given names, the one next to the other term first.  The way ends at a term that is
neither a lambda nor a member of a term. -/
inductive LeadsTo : Term → List (List Param) → List String → Term → Prop where
  | here {t : Term} (lambda : t.isLambda = false) (member : ∀ target m, t ≠ .member target m) :
      LeadsTo t [] [] t
  | member {target u : Term} {scopes : List (List Param)} {names : List String} (m : Member)
      (rest : LeadsTo target scopes names u) :
      LeadsTo (.member target m) scopes (names ++ [m.name]) u
  | lambda {body u : Term} {scopes : List (List Param)} {names : List String} (params : List Param)
      (rest : LeadsTo body scopes names u) :
      LeadsTo (.lambda params body) (params :: scopes) names u

theorem exists_leadsTo (t : Term) : ∃ scopes names u, t.LeadsTo scopes names u := by
  induction t with
  | member target m ih =>
    obtain ⟨scopes, names, u, h⟩ := ih
    exact ⟨scopes, names ++ [m.name], u, .member m h⟩
  | lambda params body ih =>
    obtain ⟨scopes, names, u, h⟩ := ih
    exact ⟨params :: scopes, names, u, .lambda params h⟩
  | _ => exact ⟨[], [], _, .here rfl nofun⟩

/-- A way over members goes from child to child, under the lambdas that it looks through. -/
theorem LeadsTo.exists_way (h : t.LeadsTo scopes names u) :
    ∃ way, t.at? way = some u ∧ t.scopes way = scopes := by
  induction h with
  | here => exact ⟨[], rfl, rfl⟩
  | member m _ ih | lambda params _ ih =>
    obtain ⟨way, hat, hscopes⟩ := ih
    exact ⟨0 :: way, hat, by rw [scopes_cons rfl, hscopes]; rfl⟩

/-! ## 2. The names that are found -/

/-- The names on the way follow those that are found at its end. -/
theorem LeadsTo.memberNames_eq (h : t.LeadsTo scopes names u) :
    t.memberNames = (u.memberNames).map (· ++ names) := by
  induction h with
  | @here t =>
    cases t.memberNames with
    | error e => rfl
    | ok found => exact congrArg _ (List.append_nil _).symm
  | @member target u scopes names m _ ih =>
    rw [memberNames, ih]
    cases u.memberNames with
    | error e => rfl
    | ok found => exact congrArg _ (List.append_assoc ..)
  | lambda _ _ ih => exact ih

/-- A way ends at a term that is neither a lambda nor a member of a term. -/
theorem LeadsTo.ends (h : t.LeadsTo scopes names u) :
    u.isLambda = false ∧ ∀ target m, u ≠ .member target m := by
  induction h with
  | here lambda member => exact ⟨lambda, member⟩
  | member _ _ ih | lambda _ _ ih => exact ih

end Term

/-! ## 3. Paths -/

/-- The path with the given names from the term at which it begins.  A bare parameter has none, and
nothing else than a parameter or a static member begins one. -/
def Term.pathFrom (names : List String) : Term → Except PathError String
  | .param _ => if names = [] then .error .noMember else .ok (dotted names)
  | .staticMember m => .ok (dotted (m.name :: names))
  | other => .error (.unexpectedNode other.kindName)

namespace Function

variable {f : Function} {u : Term} {scopes : List (List Param)} {names : List String}

/-- The path of a lambda goes by where its body leads. -/
theorem path_eq (h : f.body.LeadsTo scopes names u) : f.path = u.pathFrom names := by
  rw [path, h.memberNames_eq]
  cases u with
  | lambda => cases h.ends.1
  | member target m => exact absurd rfl (h.ends.2 target m)
  | param p => cases names <;> rfl
  | _ => rfl

/-- Every reference inside the lambda is to a parameter that a lambda around it declares. -/
def DeclaresReferences (f : Function) : Prop :=
  ∀ way p, f.term.reference? way = some p → p ∈ (f.term.scopes way).flatten

/-- A lambda whose path does not begin at a static member follows a path exactly where its body leads
to a parameter over one member at least; the path is made of the names of the members.  If its
references are to declared parameters, that parameter is one of the lambda, or of a lambda that is
looked through. -/
theorem path_eq_ok_iff (hstatic : ∀ scopes names m, ¬f.body.LeadsTo scopes names (.staticMember m)) :
    (∀ text, f.path = .ok text ↔
      ∃ scopes names p, f.body.LeadsTo scopes names (.param p) ∧ names ≠ [] ∧ text = dotted names) ∧
    (f.DeclaresReferences → ∀ scopes names p, f.body.LeadsTo scopes names (.param p) →
      p ∈ f.params ∨ ∃ params ∈ scopes, p ∈ params) := by
  refine ⟨fun text => ⟨fun hok => ?_, ?_⟩, fun hscoped scopes names p h => ?_⟩
  · obtain ⟨scopes, names, u, h⟩ := f.body.exists_leadsTo
    rw [path_eq h] at hok
    cases u with
    | param p =>
      by_cases hne : names = []
      · rw [Term.pathFrom, if_pos hne] at hok
        cases hok
      · rw [Term.pathFrom, if_neg hne] at hok
        cases hok
        exact ⟨scopes, names, p, h, hne, rfl⟩
    | staticMember m => exact absurd h (hstatic scopes names m)
    | _ => cases hok
  · rintro ⟨scopes, names, p, h, hne, rfl⟩
    rw [path_eq h]
    exact if_neg hne
  · obtain ⟨way, hat, hscopes⟩ := h.exists_way
    have hdeclared := hscoped (0 :: way) p (Term.reference?_eq_some_iff.mpr hat)
    rw [Term.scopes_cons rfl, hscopes] at hdeclared
    exact (List.mem_append.mp hdeclared).imp_right List.mem_flatten.mp

/-- The length of a text, as a member. -/
def lengthOfText : Member := ⟨"Length", .string, .int32, false, false, none⟩

/-- Members of members, through a lambda inside. -/
theorem path_eq_ok_iff_nested :
    let text : Member := ⟨"Text", .named "Page", .string, false, false, none⟩
    let p : Param := ⟨"page", .named "Page"⟩
    let f : Function := ⟨[p], .lambda [⟨"x", .int32⟩] (.member (.member (.param p) text) lengthOfText)⟩
    f.path = .ok "Text.Length" := by
  intro text p f
  have hleads : f.body.LeadsTo [[⟨"x", .int32⟩]] ["Text", "Length"] (.param p) :=
    .lambda _ (.member _ (.member _ (.here rfl (by simp))))
  refine ((path_eq_ok_iff fun scopes names m h => ?_).1 _).mpr ⟨_, _, p, hleads, nofun, rfl⟩
  cases h with
  | lambda _ h =>
    cases h with
    | member _ h =>
      cases h with
      | member _ h => cases h

/-- A path is found that begins at a parameter of a lambda inside, and one that begins at a static
member, although the bodies do not lead to a parameter of the lambda over members alone. -/
theorem path_elsewhere :
    let x : Param := ⟨"x", .int32⟩
    let y : Param := ⟨"y", .string⟩
    let pi : Member := ⟨"PI", .named "System.Math", .double, true, false, none⟩
    let inner : Function := ⟨[x], .lambda [y] (.member (.param y) lengthOfText)⟩
    let plain : Function := ⟨[x], .staticMember pi⟩
    (inner.path = .ok "Length" ∧ ¬∃ names, ∃ p ∈ inner.params, inner.body.LeadsTo [] names (.param p)) ∧
    (plain.path = .ok "PI" ∧ ¬∃ names, ∃ p ∈ plain.params, plain.body.LeadsTo [] names (.param p)) := by
  refine ⟨⟨rfl, ?_⟩, rfl, ?_⟩
  · rintro ⟨names, p, -, h⟩
    cases h
  · rintro ⟨names, p, -, h⟩
    cases h

end Function

end FatArrow
