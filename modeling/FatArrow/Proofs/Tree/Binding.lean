import FatArrow.Proofs.Typing.Judgement
import FatArrow.Proofs.Tree.Nodes

/-!
# What references are bound by

A reference stands at the end of a way from a term down to one inside it, and is bound by the
innermost lambda on the way that declares its name.  In a well-typed term no lambda declares a name
again, so that nothing else declares it.
-/

namespace FatArrow

/-! ## 1. Names under lambdas -/

/-- Where a name is bound under lambdas with the given parameters, the outermost first: how many
lambdas are around the one that binds it, and the place among the parameters. -/
def binder? (name : String) : List (List Param) → Option (Nat × Nat)
  | [] => none
  | params :: inner =>
    match binder? name inner with
    | some (level, place) => some (level + 1, place)
    | none => (params.findIdx? (·.name == name)).map fun place => (0, place)

section

variable {name : String} {scopes : List (List Param)} {params : List Param} {p : Param}
  {level place : Nat}

theorem findIdx?_name_eq_none_iff :
    params.findIdx? (·.name == name) = none ↔ name ∉ params.map (·.name) := by
  simp only [List.findIdx?_eq_none_iff, List.mem_map, not_exists, not_and]
  exact forall₂_congr fun p _ => by simp

theorem binder?_eq_none_iff :
    binder? name scopes = none ↔ ∀ params ∈ scopes, name ∉ params.map (·.name) := by
  induction scopes with
  | nil => exact ⟨fun _ => nofun, fun _ => rfl⟩
  | cons params inner ih =>
    rw [List.forall_mem_cons, ← ih, ← findIdx?_name_eq_none_iff, binder?]
    cases binder? name inner with
    | none => simp
    | some at_ => simp

/-- A name that is bound is declared at the place. -/
theorem exists_of_binder? (h : binder? name scopes = some (level, place)) :
    ∃ params p, scopes[level]? = some params ∧ params[place]? = some p ∧ p.name = name := by
  induction scopes generalizing level with
  | nil => cases h
  | cons params inner ih =>
    unfold binder? at h
    split at h
    next hinner =>
      cases h
      exact ih hinner
    next =>
      obtain ⟨_, hfind, h⟩ := Option.map_eq_some_iff.mp h
      cases h
      obtain ⟨hlt, hname, -⟩ := List.findIdx?_eq_some_iff_getElem.mp hfind
      exact ⟨params, _, rfl, List.getElem?_eq_getElem hlt, beq_iff_eq.mp hname⟩

theorem isSome_binder? (hs : scopes[level]? = some params) (hp : p ∈ params) :
    (binder? p.name scopes).isSome := by
  rw [Option.isSome_iff_ne_none]
  exact fun h => binder?_eq_none_iff.mp h params (List.mem_of_getElem? hs) (List.mem_map_of_mem hp)

theorem findIdx?_name (hn : (params.map (·.name)).Nodup) (hp : params[place]? = some p) :
    params.findIdx? (·.name == p.name) = some place := by
  obtain ⟨hlt, rfl⟩ := List.getElem?_eq_some_iff.mp hp
  refine List.findIdx?_eq_some_iff_getElem.mpr ⟨hlt, beq_self_eq_true _, fun j hj he => ?_⟩
  -- another parameter of the name would be a repetition
  have hlength : (params.map (·.name)).length = params.length := List.length_map ..
  have hne := List.pairwise_iff_getElem.mp hn j place (by omega) (by omega) hj
  rw [List.getElem_map, List.getElem_map] at hne
  exact hne (beq_iff_eq.mp he)

/-- A name is bound by a lambda that declares it exactly where no lambda inside that one declares it
again. -/
theorem binder?_eq_some_iff (hs : scopes[level]? = some params) (hn : (params.map (·.name)).Nodup)
    (hp : params[place]? = some p) : binder? p.name scopes = some (level, place) ↔
      ∀ inner ∈ scopes.drop (level + 1), p.name ∉ inner.map (·.name) := by
  induction scopes generalizing level with
  | nil => cases hs
  | cons first scopes ih =>
    cases level with
    | zero =>
      cases hs
      rw [List.drop_succ_cons, List.drop_zero, ← binder?_eq_none_iff, binder?]
      cases binder? p.name scopes with
      | none => simp [findIdx?_name hn hp]
      | some at_ => simp
    | succ level =>
      rw [List.drop_succ_cons, ← ih hs, binder?]
      cases hinner : binder? p.name scopes with
      | none =>
        -- the lambda that declares the name is further inside
        have hinside : scopes[level]? = some params := hs
        have hsome := isSome_binder? hinside (List.mem_of_getElem? hp)
        rw [hinner] at hsome
        cases hsome
      | some at_ => simp [Prod.ext_iff]

end

/-! ## 2. Ways into terms -/

namespace Term

/-- The parameters that a term declares for the terms inside it. -/
def opened : Term → List (List Param)
  | .lambda params _ => [params]
  | _ => []

/-- The term at the end of a way that goes down from child to child. -/
def at? : List Nat → Term → Option Term
  | [], t => some t
  | i :: way, t => t.children[i]?.bind (at? way)

/-- The parameters of the lambdas that are passed on a way, the outermost first. -/
def scopes : List Nat → Term → List (List Param)
  | [], _ => []
  | i :: way, t => t.opened ++ (t.children[i]?.map (scopes way)).getD []

/-- The parameter that is referred to at the end of a way. -/
def reference? (way : List Nat) (t : Term) : Option Param :=
  match t.at? way with
  | some (.param p) => some p
  | _ => none

/-- A reference at the end of a way, and the parameter by which it is bound: how many lambdas are
around the one that declares it, and its place there. -/
structure RefersTo (t : Term) (way : List Nat) (p : Param) (level place : Nat) : Prop where
  found : t.reference? way = some p
  bound : binder? p.name (t.scopes way) = some (level, place)

instance (t : Term) (way : List Nat) (p : Param) (level place : Nat) :
    Decidable (t.RefersTo way p level place) :=
  decidable_of_iff (t.reference? way = some p ∧ binder? p.name (t.scopes way) = some (level, place))
    ⟨fun h => ⟨h.1, h.2⟩, fun h => ⟨h.found, h.bound⟩⟩

variable {t u : Term} {way : List Nat} {p : Param}

theorem reference?_eq_some_iff : t.reference? way = some p ↔ t.at? way = some (.param p) := by
  unfold reference?
  split
  next q hq =>
    rw [hq]
    exact ⟨fun h => by cases h; rfl, fun h => by cases h; rfl⟩
  next hne => exact ⟨nofun, fun h => absurd h (hne p)⟩

theorem at?_cons {i : Nat} (h : t.at? (i :: way) = some u) :
    ∃ c, t.children[i]? = some c ∧ c ∈ t.children ∧ c.at? way = some u := by
  obtain ⟨c, hc, hu⟩ := Option.bind_eq_some_iff.mp h
  exact ⟨c, hc, List.mem_of_getElem? hc, hu⟩

theorem scopes_cons {i : Nat} {c : Term} (h : t.children[i]? = some c) :
    t.scopes (i :: way) = t.opened ++ c.scopes way := by
  rw [scopes, h]
  rfl

end Term

/-! ## 3. Well-typed terms -/

namespace WellTyped

variable {Fits : List Term → List HostType → Prop} {scope : List Param} {t u : Term}
  {way : List Nat}

/-- What is inside a well-typed term is well typed under the parameters that the term declares. -/
theorem child (ht : WellTyped Fits scope t) (hn : (scope.map (·.name)).Nodup) :
    ((scope ++ t.opened.flatten).map (·.name)).Nodup ∧
      ∀ u ∈ t.children, WellTyped Fits (scope ++ t.opened.flatten) u := by
  cases ht with
  | lambda names inside =>
    -- only a lambda opens a scope
    have hopened : ∀ (params : List Param) (body : Term),
        (Term.lambda params body).opened.flatten = params := fun _ _ => List.append_nil _
    rw [hopened]
    exact ⟨names, List.forall_mem_singleton.mpr inside⟩
  | _ =>
    simp_all [Term.opened, Term.children]

/-- So is what is at the end of a way, under all parameters on the way; no name is declared twice. -/
theorem reach (ht : WellTyped Fits scope t) (hn : (scope.map (·.name)).Nodup)
    (h : t.at? way = some u) : ((scope ++ (t.scopes way).flatten).map (·.name)).Nodup ∧
      WellTyped Fits (scope ++ (t.scopes way).flatten) u := by
  induction way generalizing t scope with
  | nil =>
    cases h
    rw [Term.scopes, List.flatten_nil, List.append_nil]
    exact ⟨hn, ht⟩
  | cons i way ih =>
    obtain ⟨c, hc, hmem, hu⟩ := Term.at?_cons h
    obtain ⟨hn', hin⟩ := ht.child hn
    have hreach := ih (hin c hmem) hn' hu
    rw [Term.scopes_cons hc, List.flatten_append, ← List.append_assoc]
    exact hreach

/-- What holds of every well-typed term holds of all terms inside one. -/
theorem throughout {P : Term → Prop} (ht : WellTyped Fits scope t) (hn : (scope.map (·.name)).Nodup)
    (h : ∀ scope u, ((scope ++ u.opened.flatten).map (·.name)).Nodup → WellTyped Fits scope u → P u) :
    t.Throughout P := by
  induction t using Term.induction_children generalizing scope with
  | h t ih =>
    obtain ⟨hn', hin⟩ := ht.child hn
    exact Term.throughout_iff.mpr ⟨h scope t hn' ht, fun u hu => ih u hu (hin u hu) hn'⟩

end WellTyped

end FatArrow
