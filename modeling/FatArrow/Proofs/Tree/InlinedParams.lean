import FatArrow.Proofs.Meaning.Inlining

/-!
# Parameters of inlined lambdas

Where no lambda is inside another, inlining keeps lambdas closed: the new parameters have names of
their own and the types of those that they take the place of, and the new body refers to nothing
else.
-/

namespace FatArrow

/-! ## 1. Closed lambdas -/

/-- No lambda is in the term, and it refers to nothing but parameters of the scope, with their
types. -/
def Term.Within (scope : List Param) (t : Term) : Prop :=
  t.Throughout fun u => u.isLambda = false ∧ ∀ p, u = .param p → p ∈ scope

/-- Every array creation in the term has the type of the arrays of its items. -/
def Term.MakesArrays (t : Term) : Prop :=
  t.Throughout fun u => ∀ element items type, u = .array element items type →
    type = .arrayOf element

/-- A lambda without lambdas inside it, whose parameters have names of their own and whose body
refers to nothing but them. -/
structure Function.Closed (f : Function) : Prop where
  names : (f.params.map (·.name)).Nodup
  inside : f.body.Within f.params

/-- The types of the parameters that take the place of one. -/
def InlineResolver.types (resolver : InlineResolver) (p : Param) : List HostType :=
  match resolver p with
  | some g => g.paramTypes
  | none => [p.type]

namespace Term

variable {t : Term} {scope scope' : List Param} {skip : List Param → Bool} {f : Param → Term}

theorem Within.mono (ht : t.Within scope) (h : ∀ p ∈ scope, p ∈ scope') : t.Within scope' :=
  fun u hu => ⟨(ht u hu).1, fun p hp => h p ((ht u hu).2 p hp)⟩

theorem within_param {p : Param} (hp : p ∈ scope) : (Term.param p).Within scope := by
  intro u hu
  cases List.mem_singleton.mp hu
  refine ⟨rfl, fun q hq => ?_⟩
  cases hq
  exact hp

/-! ## 2. Replaced references -/

/-- Replacement goes on in the terms directly inside a term, but for references and for lambdas that
are left alone. -/
theorem children_replace (hl : ∀ params body, t = .lambda params body → skip params = false)
    (hp : ∀ p, t ≠ .param p) : (t.replace skip f).children = t.children.map (replace skip f) := by
  cases t with
  | lambda params body => simp [children, replace, hl params body rfl]
  | param p => exact absurd rfl (hp p)
  | _ => simp [children, replace, newArray]

theorem within_replace (ht : t.Within scope) (hf : ∀ p ∈ scope, (f p).Within scope') :
    (t.replace skip f).Within scope' := by
  induction t using induction_children with
  | h t ih =>
    obtain ⟨⟨hl, hscope⟩, hin⟩ := throughout_iff.mp ht
    by_cases hp : ∃ p, t = .param p
    · obtain ⟨p, rfl⟩ := hp
      exact hf p (hscope p rfl)
    have hp : ∀ p, t ≠ .param p := fun p he => hp ⟨p, he⟩
    have hchildren : (t.replace skip f).children = t.children.map (replace skip f) :=
      children_replace (fun params body he => by rw [he] at hl; cases hl) hp
    refine throughout_iff.mpr ⟨?_, ?_⟩
    · -- a term that is neither a lambda nor a reference does not become one
      cases t with
      | lambda => cases hl
      | param p => exact absurd rfl (hp p)
      | _ => exact ⟨rfl, nofun⟩
    · rw [hchildren, List.forall_mem_map]
      exact fun u hu => ih u hu (hin u hu)

theorem type?_replace_of_within (ht : t.Within scope) (ha : t.MakesArrays)
    (hf : ∀ p ∈ scope, (f p).type? = some p.type) : (t.replace skip f).type? = t.type? := by
  induction t with
  | lambda => cases (throughout_iff.mp ht).1.1
  | param p => exact hf p ((throughout_iff.mp ht).1.2 p rfl)
  | cond test ifTrue ifFalse _ ih _ =>
    exact ih ((throughout_iff.mp ht).2 _ (.tail _ (.head _)))
      ((throughout_iff.mp ha).2 _ (.tail _ (.head _)))
  | array element items type => exact congrArg some ((throughout_iff.mp ha).1 _ _ _ rfl).symm
  | _ => rfl

end Term

/-! ## 3. Spliced parameters -/

variable {resolver : InlineResolver} {taken : List String}

theorem types_renamed (taken : List String) (ps : List Param) :
    (renamed taken ps).1.map (·.type) = ps.map (·.type) := by
  induction ps generalizing taken with
  | nil => rfl
  | cons p ps ih => simp [renamed, ih]

theorem types_splice (p : Param) :
    (splice resolver taken p).1.map (·.type) = resolver.types p := by
  unfold splice InlineResolver.types
  cases resolver p with
  | some g => exact types_renamed taken g.params
  | none => rfl

theorem types_spliced (ps : List Param) :
    (spliced resolver taken ps).1.map (·.type) = ps.flatMap resolver.types := by
  induction ps generalizing taken with
  | nil => rfl
  | cons p ps ih => rw [spliced_cons, List.map_append, types_splice, ih, List.flatMap_cons]

/-- What a reference to a renamed parameter becomes is one of the new parameters, of its type. -/
theorem exists_renamed_term (taken : List String) {ps : List Param} (hn : (ps.map (·.name)).Nodup)
    {p : Param} (hp : p ∈ ps) : ∃ q ∈ (renamed taken ps).1,
      (renamed taken ps).2.term p = .param q ∧ q.type = p.type := by
  obtain ⟨q, _, hq, _, hm⟩ := exists_mem_zip (renamed_term hn taken) (rfl : ps.length = _) hp
  exact ⟨q, (List.of_mem_zip hm).1, hq⟩

/-- What stands for a parameter refers to the parameters that took its place. -/
theorem within_splice {p : Param} (hr : ∀ g, resolver p = some g → g.Closed) :
    (splice resolver taken p).2.Within (splice resolver taken p).1 := by
  unfold splice
  cases hp : resolver p with
  | none => exact Term.within_param (.head _)
  | some g =>
    obtain ⟨hn, hin⟩ := hr g hp
    dsimp only
    split
    next hempty =>
      -- where no name has changed, the parameters are those of the replacement
      refine hin.mono fun q hq => ?_
      obtain ⟨q', hq', hterm, -⟩ := exists_renamed_term taken hn hq
      rw [List.isEmpty_iff.mp hempty] at hterm
      cases hterm
      exact hq'
    next =>
      refine Term.within_replace hin fun q hq => ?_
      obtain ⟨q', hq', hterm, -⟩ := exists_renamed_term taken hn hq
      rw [hterm]
      exact Term.within_param hq'

/-- It has the type of the parameter, if the replacement returns that. -/
theorem type?_splice {p : Param} (hr : ∀ g, resolver p = some g →
    g.Closed ∧ g.body.MakesArrays ∧ g.returns? = some p.type) :
    (splice resolver taken p).2.type? = some p.type := by
  unfold splice
  cases hp : resolver p with
  | none => rfl
  | some g =>
    obtain ⟨⟨hn, hin⟩, harrays, hreturns⟩ := hr g hp
    dsimp only
    split
    next => exact hreturns
    next =>
      refine (Term.type?_replace_of_within hin harrays fun q hq => ?_).trans hreturns
      obtain ⟨q', -, hterm, htype⟩ := exists_renamed_term taken hn hq
      rw [hterm, ← htype]
      rfl

/-- What stands for the parameter at a place is what is spliced for it next to some taken names, and
the parameters that take its place follow those that take the places before it. -/
theorem spliced_at (resolver : InlineResolver) (taken : List String) {ps : List Param}
    (hn : (ps.map (·.name)).Nodup) {p : Param} {place : Nat} (hp : ps[place]? = some p) : ∃ taken',
      (spliced resolver taken ps).2.lookup p.name = some (splice resolver taken' p).2 ∧
        ∀ i q, (splice resolver taken' p).1[i]? = some q →
          (spliced resolver taken ps).1[((ps.take place).flatMap resolver.types).length + i]? = some q := by
  have hkeys : ((spliced resolver taken ps).2.map (·.1)).Nodup := by
    rw [spliced_names, List.nodup_reverse]
    exact hn
  obtain ⟨taken', hm, hplace⟩ : ∃ taken',
      (p.name, (splice resolver taken' p).2) ∈ (spliced resolver taken ps).2 ∧
        ∀ i q, (splice resolver taken' p).1[i]? = some q →
          (spliced resolver taken ps).1[((ps.take place).flatMap resolver.types).length + i]? = some q := by
    -- the taken names grow with each parameter, and the offset with what took its place
    clear hn hkeys
    induction ps generalizing taken place with
    | nil => cases hp
    | cons first ps ih =>
      rw [spliced_cons]
      cases place with
      | zero =>
        cases hp
        refine ⟨taken, List.mem_append_right _ (.head _), fun i q hq => ?_⟩
        rw [List.take_zero, List.flatMap_nil, List.length_nil, Nat.zero_add,
          List.getElem?_append_left (List.getElem?_eq_some_iff.mp hq).1]
        exact hq
      | succ place =>
        obtain ⟨taken', hm, hplace⟩ := ih (taken ++ _) hp
        refine ⟨taken', List.mem_append_left _ hm, fun i q hq => ?_⟩
        have hwidth : (splice resolver taken first).1.length = (resolver.types first).length := by
          rw [← List.length_map, types_splice]
        rw [List.take_succ_cons, List.flatMap_cons, List.length_append, ← hwidth, Nat.add_assoc,
          List.getElem?_append_right (Nat.le_add_right _ _), Nat.add_sub_cancel_left]
        exact hplace i q hq
  exact ⟨taken', lookup_of_mem hkeys hm, hplace⟩

theorem exists_splice (resolver : InlineResolver) (taken : List String) {ps : List Param}
    (hn : (ps.map (·.name)).Nodup) {p : Param} (hp : p ∈ ps) : ∃ taken',
    (spliced resolver taken ps).2.term p = (splice resolver taken' p).2 ∧
      ∀ q ∈ (splice resolver taken' p).1, q ∈ (spliced resolver taken ps).1 := by
  obtain ⟨place, hp⟩ := List.mem_iff_getElem?.mp hp
  obtain ⟨taken', hlookup, hplace⟩ := spliced_at resolver taken hn hp
  refine ⟨taken', by rw [Substitution.term, hlookup, Option.getD_some], fun q hq => ?_⟩
  obtain ⟨i, hq⟩ := List.mem_iff_getElem?.mp hq
  exact List.mem_of_getElem? (hplace i q hq)

/-! ## 4. Inlined lambdas -/

/-- Three times an integer. -/
def Function.tripled : Function :=
  let a : Param := ⟨"a", .int32⟩
  ⟨[a], .binary .multiply (.param a) (.const (.int32 3) .int32) .int32⟩

/-- A sum whose last parameter has the name that the second of the first two would get, if both were
replaced. -/
def Function.sumOfThree : Function :=
  let x : Param := ⟨"x", .int32⟩
  let y : Param := ⟨"y", .int32⟩
  let a : Param := ⟨"a1", .int32⟩
  ⟨[x, y, a], .binary .add (.param x) (.binary .add (.param y) (.param a) .int32) .int32⟩

end FatArrow
