import FatArrow.Proofs.Types.Induction

/-!
# Generic parameters of types

Replacement takes all generic parameters out of a type, where there are arguments for each of them and
the arguments have none themselves.
-/

namespace FatArrow.HostType

mutual
/-- Whether the generic parameters in the type are among the first `n`. -/
def paramsBelow (n : Nat) : HostType → Bool
  | ⟨.param i, args, _⟩ => i < n && paramsBelowList n args
  | ⟨_, args, _⟩ => paramsBelowList n args

/-- Whether the generic parameters in the types are among the first `n`. -/
def paramsBelowList (n : Nat) : List HostType → Bool
  | [] => true
  | t :: ts => t.paramsBelow n && paramsBelowList n ts
end

variable {t : HostType} {actual : List HostType} {m n : Nat}

@[simp] theorem paramsBelowList_eq_all (n : Nat) (ts : List HostType) :
    paramsBelowList n ts = ts.all (paramsBelow n) := by
  induction ts with
  | nil => rfl
  | cons t ts ih => simp [paramsBelowList, ih]

theorem paramsBelow_mono (h : m ≤ n) (ht : t.paramsBelow m = true) : t.paramsBelow n = true := by
  induction t with
  | mk shape args nullable ih =>
    cases shape with
    | param i =>
      simp only [paramsBelow, paramsBelowList_eq_all, Bool.and_eq_true, decide_eq_true_eq,
        List.all_eq_true] at ht ⊢
      exact ⟨Nat.lt_of_lt_of_le ht.1 h, fun a ha => ih a ha (ht.2 a ha)⟩
    | _ =>
      simp only [paramsBelow, paramsBelowList_eq_all, List.all_eq_true] at ht ⊢
      exact fun a ha => ih a ha (ht a ha)

theorem hasParam_of_paramsBelow_zero (ht : t.paramsBelow 0 = true) : t.hasParam = false := by
  induction t with
  | mk shape args nullable ih =>
    cases shape with
    | param i => simp [paramsBelow] at ht
    | _ =>
      simp only [paramsBelow, paramsBelowList_eq_all, List.all_eq_true] at ht
      simp only [hasParam, hasParamList_eq_any, List.any_eq_false, Bool.not_eq_true]
      exact fun a ha => ih a ha (ht a ha)

/-- Null added to a type or taken from it makes no difference to its parameters. -/
theorem hasParam_with_nullable (t : HostType) (nullable : Bool) :
    hasParam { t with nullable } = t.hasParam := by
  obtain ⟨shape, args, _⟩ := t
  cases shape <;> rfl

/-- A parameter that has an argument is replaced by it, and null is added. -/
theorem exists_subst_param {i : Nat} {args : List HostType} {nullable : Bool}
    (h : paramsBelow actual.length ⟨.param i, args, nullable⟩ = true) :
    ∃ hi : i < actual.length, subst actual ⟨.param i, args, nullable⟩ =
      { actual[i] with nullable := actual[i].nullable || nullable } := by
  simp only [paramsBelow, Bool.and_eq_true, decide_eq_true_eq] at h
  refine ⟨h.1, ?_⟩
  rw [subst, List.getElem?_eq_getElem h.1]

theorem hasParam_subst (ht : t.paramsBelow actual.length = true)
    (hactual : ∀ a ∈ actual, a.hasParam = false) : (t.subst actual).hasParam = false := by
  induction t with
  | mk shape args nullable ih =>
    cases shape with
    | param i =>
      obtain ⟨hi, heq⟩ := exists_subst_param ht
      rw [heq]
      exact (hasParam_with_nullable ..).trans (hactual _ (List.getElem_mem hi))
    | _ =>
      simp only [paramsBelow, paramsBelowList_eq_all, List.all_eq_true] at ht
      simp only [subst, substList_eq_map, hasParam, hasParamList_eq_any, List.any_map,
        List.any_eq_false, Function.comp_apply, Bool.not_eq_true]
      exact fun a ha => ih a ha (ht a ha)

end FatArrow.HostType
