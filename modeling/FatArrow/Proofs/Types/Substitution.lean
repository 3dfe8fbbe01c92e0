import FatArrow.Host.Member
import FatArrow.Proofs.Types.Params

/-!
# Replacing parameters twice

The parameters of a type are replaced twice as they are replaced once, by the arguments of the first
time with the parameters in them replaced.  A nullable parameter adds null to what stands for it, and
null that is added once is there to stay.
-/

namespace FatArrow

namespace HostType

variable {t : HostType} {a b : List HostType} {n : Nat}

/-- Null can be added before parameters are replaced, or after. -/
theorem subst_with_nullable (t : HostType) (b : List HostType) (added : Bool) :
    subst b { t with nullable := t.nullable || added } =
      { t.subst b with nullable := (t.subst b).nullable || added } := by
  obtain ⟨shape, args, nullable⟩ := t
  cases shape with
  | param i =>
    simp only [subst]
    cases b[i]? with
    | none => rfl
    | some u => simp only [Bool.or_assoc]
  | _ => rfl

theorem subst_subst (h : t.paramsBelow a.length = true) :
    (t.subst a).subst b = t.subst (a.map (·.subst b)) := by
  induction t with
  | mk shape args nullable ih =>
    cases shape with
    | param i =>
      -- the parameter has an argument, in which the others are replaced before null is added
      obtain ⟨hi, heq⟩ := exists_subst_param h
      rw [heq, subst, List.getElem?_map, List.getElem?_eq_getElem hi]
      exact subst_with_nullable ..
    | _ =>
      simp only [paramsBelow, paramsBelowList_eq_all, List.all_eq_true] at h
      simp only [subst, substList_eq_map, List.map_map, mk.injEq, true_and, and_true]
      exact List.map_congr_left fun u hu => ih u hu (h u hu)

/-- A type without parameters stays as it is. -/
theorem subst_of_closed (h : t.hasParam = false) (a : List HostType) : t.subst a = t := by
  induction t with
  | mk shape args nullable ih =>
    cases shape with
    | param i => cases h
    | _ =>
      simp only [hasParam, hasParamList_eq_any, List.any_eq_false, Bool.not_eq_true] at h
      simp only [subst, substList_eq_map, mk.injEq, true_and, and_true]
      exact (List.map_congr_left fun u hu => ih u hu (h u hu)).trans (List.map_id' _)

theorem paramsBelow_with_nullable (t : HostType) (nullable : Bool) :
    paramsBelow n { t with nullable } = t.paramsBelow n := by
  obtain ⟨shape, args, _⟩ := t
  cases shape <;> rfl

/-- The parameters that are left are those of the arguments. -/
theorem paramsBelow_subst (h : t.paramsBelow a.length = true) (ha : ∀ u ∈ a, u.paramsBelow n = true) :
    (t.subst a).paramsBelow n = true := by
  induction t with
  | mk shape args nullable ih =>
    cases shape with
    | param i =>
      obtain ⟨hi, heq⟩ := exists_subst_param h
      rw [heq]
      exact (paramsBelow_with_nullable ..).trans (ha _ (List.getElem_mem hi))
    | _ =>
      simp only [paramsBelow, paramsBelowList_eq_all, List.all_eq_true] at h
      simp only [subst, substList_eq_map, paramsBelow, paramsBelowList_eq_all, List.all_map,
        List.all_eq_true, Function.comp_apply]
      exact fun u hu => ih u hu (h u hu)

end HostType

namespace Method

variable {m : Method} {a : List HostType}

/-- The types of a method whose parameters are bound, with the parameters in those replaced, are those
of the method with the replaced types bound to its parameters. -/
theorem instantiate_subst (h : ∀ t ∈ m.returns :: m.params, t.paramsBelow a.length = true)
    (b : List HostType) :
    (m.instantiate a).params.map (·.subst b) = (m.instantiate (a.map (·.subst b))).params ∧
      (m.instantiate a).returns.subst b = (m.instantiate (a.map (·.subst b))).returns := by
  obtain ⟨hreturns, hparams⟩ := List.forall_mem_cons.mp h
  refine ⟨?_, HostType.subst_subst hreturns⟩
  rw [instantiate, instantiate, List.map_map]
  exact List.map_congr_left fun t ht => HostType.subst_subst (hparams t ht)

end Method

end FatArrow
