import FatArrow.Proofs.Binary.Order
import FatArrow.Proofs.Meaning.Comparison
import FatArrow.Proofs.Standard.Calls
import FatArrow.Standard.Sequences

/-!
# Least and greatest items

Of a sequence of integers of one type or of texts, an item is found that is no less, or no greater,
than the others.  Integers are compared by their nearest floats, however: an item that is not in the
order of its float is taken for an equal one.
-/

namespace FatArrow.Standard

/-! ## 1. The best item -/

section

variable {α : Type} [LinearOrder α] {rank : Value → α} {keep : Ordering} {best : Value}
  {seen items : List Value} {x y z : α}

theorem cmp_trans (h : cmp x y = keep) (h' : cmp y z = keep) : cmp x z = keep := by
  cases keep with
  | lt =>
    rw [cmp_eq_lt_iff] at *
    exact h.trans h'
  | eq =>
    rw [cmp_eq_eq_iff] at *
    exact h.trans h'
  | gt =>
    rw [cmp_eq_gt_iff] at *
    exact h'.trans h

/-- The best of items is one of them, and none of them is better. -/
structure IsBest (rank : Value → α) (keep : Ordering) (items : List Value) (best : Value) : Prop where
  mem : best ∈ items
  none (v : Value) (hv : v ∈ items) : cmp (rank v) (rank best) ≠ keep

theorem isBest_singleton (hkeep : keep ≠ .eq) (v : Value) : IsBest rank keep [v] v := by
  refine ⟨List.mem_singleton_self v, fun w hw => ?_⟩
  rw [List.mem_singleton.mp hw, cmp_self_eq_eq]
  exact hkeep.symm

/-- One more item is compared with the best one so far. -/
theorem IsBest.step (hkeep : keep ≠ .eq) (h : IsBest rank keep seen best) (v : Value) :
    IsBest rank keep (seen ++ [v]) (if cmp (rank v) (rank best) = keep then v else best) := by
  split
  next hbetter =>
    refine ⟨by simp, fun w hw => ?_⟩
    rcases List.mem_append.mp hw with hw | hw
    · -- what is better than the new best item is better than the old one, too
      exact fun hw' => h.none w hw (cmp_trans hw' hbetter)
    · exact (isBest_singleton hkeep v).none w hw
  next hworse =>
    refine ⟨List.mem_append_left _ h.mem, fun w hw => ?_⟩
    rcases List.mem_append.mp hw with hw | hw
    · exact h.none w hw
    · rw [List.mem_singleton.mp hw]
      exact hworse

/-- The best item is found where items are compared by their ranks. -/
theorem IsBest.run (hkeep : keep ≠ .eq)
    (hcompare : ∀ v ∈ seen ++ items, ∀ w ∈ seen ++ items,
      compareItems v w = .ok (cmp (rank v) (rank w)))
    (h : IsBest rank keep seen best) :
    ∃ b, bestFrom keep best items = .ok b ∧ IsBest rank keep (seen ++ items) b := by
  induction items generalizing seen best with
  | nil => exact ⟨best, rfl, by rwa [List.append_nil]⟩
  | cons v vs ih =>
    have hstep : bestFrom keep best (v :: vs) =
        bestFrom keep (if cmp (rank v) (rank best) = keep then v else best) vs := by
      rw [bestFrom, hcompare v (by simp) best (List.mem_append_left _ h.mem)]
      rfl
    rw [List.append_cons] at hcompare ⊢
    rw [hstep]
    exact ih hcompare (h.step hkeep v)

end

/-! ## 2. Items that are compared -/

section

variable {s : Scale} {a b : Value} {items : List Value}

/-- The scales of the items that are compared here: integers of one type, and texts. -/
def IsItemScale : Scale → Prop
  | .integer _ | .string => True
  | _ => False

/-- The place of an item where items are compared: that of the nearest float, or the text. -/
def itemPlace : Value → Place
  | .integer k w => toLex (.inl (floatRank (floatOfInt (k.denote w))))
  | v => v.place

theorem compareItems_place (hs : IsItemScale s) (ha : a.scale? = some s) (hb : b.scale? = some s) :
    compareItems a b = .ok (cmp (itemPlace a) (itemPlace b)) := by
  cases a <;> cases ha <;> cases b <;> cases hb
  case integer => exact congrArg _ (Value.compare_inl _ _)
  case string => exact congrArg _ (Value.compare_inr _ _)
  all_goals exact hs.elim

/-- Two integers of one type that have one nearest float, where one of them is larger than the
significand of a float has room for. -/
def Blurred (a b : Value) : Prop :=
  ∃ k v w, a = .integer k v ∧ b = .integer k w ∧
    floatOfInt (k.denote v) = floatOfInt (k.denote w) ∧
      (2 ^ 53 < (k.denote v).natAbs ∨ 2 ^ 53 < (k.denote w).natAbs)

theorem Blurred.symm (h : Blurred a b) : Blurred b a := by
  obtain ⟨k, v, w, rfl, rfl, heq, hlarge⟩ := h
  exact ⟨k, w, v, rfl, rfl, heq.symm, hlarge.symm⟩

/-- An item that is not behind another one where items are compared is not behind it, or is blurred
with it. -/
theorem place_le_or_blurred (ha : a.scale? = some s) (hb : b.scale? = some s)
    (h : itemPlace a ≤ itemPlace b) : a.place ≤ b.place ∨ Blurred a b := by
  cases a <;> cases ha <;> cases b <;> cases hb
  case integer k v w =>
    rcases le_or_gt (k.denote v) (k.denote w) with hle | hlt
    · exact .inl (Sum.Lex.inl_le_inl_iff.mpr hle)
    · have hrank : floatRank (floatOfInt (k.denote v)) ≤ floatRank (floatOfInt (k.denote w)) :=
        Sum.Lex.inl_le_inl_iff.mp h
      obtain ⟨heq, hlarge⟩ :=
        floatOfInt_eq_of_lt (k.natAbs_denote_lt w) (k.natAbs_denote_lt v) hlt hrank
      exact .inr ⟨k, v, w, rfl, rfl, heq.symm, hlarge.symm⟩
  all_goals exact .inl h

/-! ## 3. The answers -/

/-- Of a sequence, the items are found that no other one is greater or less than, as the comparisons of
the language say, but for integers that are blurred. -/
structure HasExtremes (items : List Value) : Prop where
  max (h : items ≠ []) : ∃ best ∈ items, extreme .gt items = .ok best ∧
    ∀ v ∈ items, BinaryOp.greaterThan.Yields v best false ∨ Blurred v best
  min (h : items ≠ []) : ∃ best ∈ items, extreme .lt items = .ok best ∧
    ∀ v ∈ items, BinaryOp.lessThan.Yields v best false ∨ Blurred v best
  /-- Of no items there is no best one. -/
  empty (h : items = []) (keep : Ordering) : extreme keep items = .error noElements
  /-- The operations on sequences answer with these items. -/
  called : Answers operations "Max" none [.array items] (extreme .gt items) ∧
    Answers operations "Min" none [.array items] (extreme .lt items)

theorem extreme_answers (items : List Value) :
    Answers operations "Max" none [.array items] (extreme .gt items) ∧
      Answers operations "Min" none [.array items] (extreme .lt items) :=
  ⟨⟨_, rfl, fun store => run_lift (extreme .gt items) store⟩,
    ⟨_, rfl, fun store => run_lift (extreme .lt items) store⟩⟩

/-- No item is better than the one that is found, where items are compared. -/
theorem exists_extreme (keep : Ordering) (hkeep : keep ≠ .eq) (hs : IsItemScale s)
    (hitems : ∀ v ∈ items, v.scale? = some s) (h : items ≠ []) :
    ∃ best, extreme keep items = .ok best ∧ IsBest itemPlace keep items best := by
  cases items with
  | nil => exact absurd rfl h
  | cons v vs =>
    exact (isBest_singleton hkeep v).run hkeep fun a ha b hb =>
      compareItems_place hs (hitems a ha) (hitems b hb)

theorem hasExtremes (hs : IsItemScale s) (hitems : ∀ v ∈ items, v.scale? = some s) :
    HasExtremes items where
  max h := by
    obtain ⟨best, hrun, hbest, hnone⟩ := exists_extreme .gt nofun hs hitems h
    refine ⟨best, hbest, hrun, fun v hv => ?_⟩
    have hle := not_lt.mp (mt (cmp_eq_gt_iff _ _).mpr (hnone v hv))
    refine (place_le_or_blurred (hitems v hv) (hitems best hbest) hle).imp_left fun hle => ?_
    rw [BinaryOp.yields_relational rfl (hitems v hv) (hitems best hbest)]
    exact ⟨nofun, fun hlt => absurd hlt hle.not_gt⟩
  min h := by
    obtain ⟨best, hrun, hbest, hnone⟩ := exists_extreme .lt nofun hs hitems h
    refine ⟨best, hbest, hrun, fun v hv => ?_⟩
    have hle := not_lt.mp (mt (cmp_eq_lt_iff _ _).mpr (hnone v hv))
    refine (place_le_or_blurred (hitems best hbest) (hitems v hv) hle).imp (fun hle => ?_) .symm
    rw [BinaryOp.yields_relational rfl (hitems v hv) (hitems best hbest)]
    exact ⟨nofun, fun hlt => absurd hlt hle.not_gt⟩
  empty h keep := by
    rw [h]
    rfl
  called := extreme_answers items

end

/-- The items at both ends of the widest type with a sign. -/
theorem hasExtremes_ends :
    let items : List Value := [.int64 IntegerKind.int64.least, .int64 IntegerKind.int64.greatest]
    (∀ v ∈ items, v.scale? = some (.integer .int64)) ∧ HasExtremes items := by
  have hitems : ∀ v ∈ [Value.int64 IntegerKind.int64.least, .int64 IntegerKind.int64.greatest],
      v.scale? = some (.integer .int64) := by simp [Value.int64, Value.scale?]
  exact ⟨hitems, hasExtremes (s := .integer .int64) trivial hitems⟩

/-- The first integer that a float has no room for is taken for the one before it. -/
theorem extreme_blurred :
    let below : Value := .int64 (2 ^ 53)
    let above : Value := .int64 (2 ^ 53 + 1)
    extreme .gt [below, above] = .ok below ∧ BinaryOp.greaterThan.Yields above below true :=
  ⟨rfl, (BinaryOp.yields_iff (.inl rfl) (fun _ => rfl) _).mpr (by decide)⟩

end FatArrow.Standard
