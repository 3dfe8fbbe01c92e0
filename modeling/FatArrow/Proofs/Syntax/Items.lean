import FatArrow.Proofs.Syntax.Trial
import Mathlib.Data.List.Forall2

/-!
# Lists that are read item by item

When every item of a list is read where it stands, so is the list with its commas.
-/

namespace FatArrow.Syntax

variable {α β : Type} {c d : Cursor} {s : Sign} {ss ts : List Sign}

theorem commas_cons (ss : List Sign) (lists : List (List Sign)) :
    commas (ss :: lists) = ss ++ lists.flatMap (Sign.comma :: ·) := by
  induction lists generalizing ss with
  | nil => simp [commas]
  | cons ts lists ih => rw [commas, ih, List.flatMap_cons, List.cons_append]

/-- A `>` is taken, be it one half of a `>>`. -/
theorem Reader.expectClosingAngle_of_sees (h : c.Sees (Sign.close :: ss)) :
    ∃ t d, expectClosingAngle c = .ok t d ∧ d.Sees ss := by
  by_cases hd : c.kind = .greaterGreater
  · obtain ⟨hsound, hsigns⟩ := h.1.split hd
    refine ⟨(Cursor.halves c.peek).1, c.split, ?_, hsound, ?_⟩
    · unfold expectClosingAngle
      rw [get_bind]
      exact run_if_pos hd
    · rw [h.2] at hsigns
      exact (List.cons.inj hsigns).2.symm
  · have hk : c.kind = .greater := h.kind_or.resolve_right fun hk => hd hk.1
    have hne : c.kind ≠ .eof := by rw [hk]; decide
    refine ⟨c.peek, c.skip, ?_, h.1.skip, ?_⟩
    · unfold expectClosingAngle
      rw [get_bind, run_if_neg hd]
      exact expect_of_eq hk
    · have hsigns := h.1.signs_eq hne
      rw [h.2, Token.signs_of_ne hd] at hsigns
      exact (List.cons.inj hsigns).2.symm

/-- An item that stands for something is read in front of a comma or a closing sign, where what is
left has a property. -/
def ReadsItem (Stands : β → α → Prop) (item : Reader α) (close : TokenKind)
    (Q : List Sign → Prop) (b : β) (ss : List Sign) : Prop :=
  ∀ c s ts, s.1 = .comma ∨ s.1 = close → c.Sees (ss ++ s :: ts) → Q (ss ++ s :: ts) →
    ∃ a d, item c = .ok a d ∧ d.Sees (s :: ts) ∧ Stands b a

namespace Reader

variable {Stands : β → α → Prop} {item : Reader α} {close : TokenKind} {Q : List Sign → Prop}
  {signs : β → List Sign} {bs : List β}

/-- An item is followed by a comma or by the sign that closes the list. -/
theorem exists_next (signs : β → List Sign) (bs : List β) (hs : s.1 = close) (ts : List Sign) :
    ∃ t us, bs.flatMap (fun b => Sign.comma :: signs b) ++ s :: ts = t :: us ∧
      (t.1 = .comma ∨ t.1 = close) := by
  cases bs with
  | nil => exact ⟨s, ts, rfl, .inr hs⟩
  | cons b bs => exact ⟨Sign.comma, _, rfl, .inl rfl⟩

theorem itemsAfter_reads (ends : TokenKind → Bool) {fuel : Nat} (hclose : close ≠ .comma)
    (hs : s.1 = close) (hitems : ∀ b ∈ bs, ReadsItem Stands item close Q b (signs b))
    (hQ : ∀ ss ts, Q (ss ++ ts) → Q ts)
    (hends : ∀ b ∈ bs, ∀ (d : Cursor) ts, d.Sees (signs b ++ ts) → ends d.kind = false)
    (h : c.Sees (bs.flatMap (fun b => Sign.comma :: signs b) ++ s :: ts))
    (hq : Q (bs.flatMap (fun b => Sign.comma :: signs b) ++ s :: ts))
    (hf : (bs.flatMap (fun b => Sign.comma :: signs b)).length < fuel) :
    ∃ as d, itemsAfter item ends fuel c = .ok as d ∧ d.Sees (s :: ts) ∧
      List.Forall₂ Stands bs as := by
  induction bs generalizing c fuel with
  | nil =>
    cases fuel with
    | zero => exact absurd hf (Nat.not_lt_zero _)
    | succ fuel =>
      have hk : c.kind ≠ .comma := by
        rcases h.kind_or with hk | ⟨hk, -⟩
        · rw [hk, hs]
          exact hclose
        · rw [hk]
          decide
      refine ⟨[], c, ?_, h, .nil⟩
      unfold itemsAfter
      rw [bind_of_ok (eat_of_ne hk)]
      rfl
  | cons b bs ih =>
    cases fuel with
    | zero => exact absurd hf (Nat.not_lt_zero _)
    | succ fuel =>
      obtain ⟨hfirst, hrest⟩ := List.forall_mem_cons.mp hitems
      rw [List.flatMap_cons, List.cons_append, List.cons_append, List.append_assoc] at h hq
      rw [List.flatMap_cons, List.cons_append, List.length_cons, List.length_append] at hf
      have hcomma : c.kind = .comma := h.kind (by decide)
      have hskip := h.skip (by decide) (by decide)
      have hq' := hQ [Sign.comma] _ hq
      have hend := hends b (List.mem_cons_self ..) c.skip _ hskip
      obtain ⟨t, us, hus, ht⟩ := exists_next signs bs hs ts
      have hfound := hfirst c.skip t us ht
      rw [← hus] at hfound
      obtain ⟨a, d, hitem, hd, ha⟩ := hfound hskip hq'
      have hf' : (bs.flatMap (fun b => Sign.comma :: signs b)).length < fuel := by omega
      obtain ⟨as, e, has, he, hall⟩ := ih hrest
        (fun b hb => hends b (List.mem_cons_of_mem _ hb)) hd (hQ _ _ hq') hf'
      refine ⟨a :: as, e, ?_, he, .cons ha hall⟩
      unfold itemsAfter
      rw [bind_of_ok (eat_of_eq hcomma), run_if_pos rfl, get_bind, hend,
        run_if_neg Bool.false_ne_true, bind_of_ok hitem, bind_of_ok has]
      rfl

/-- A list with its commas is read up to the sign that closes it. -/
theorem items_reads (trailing : Bool) {fuel : Nat} (hcomma : close ≠ .comma)
    (hangle : close ≠ .greater) (hs : s.1 = close)
    (hitems : ∀ b ∈ bs, ReadsItem Stands item close Q b (signs b))
    (hQ : ∀ ss ts, Q (ss ++ ts) → Q ts)
    (hends : ∀ b ∈ bs, ∀ (d : Cursor) ts, d.Sees (signs b ++ ts) → d.kind ≠ close)
    (h : c.Sees (commas (bs.map signs) ++ s :: ts)) (hq : Q (commas (bs.map signs) ++ s :: ts))
    (hf : (commas (bs.map signs)).length < fuel) :
    ∃ as d, items item close trailing fuel c = .ok as d ∧ d.Sees (s :: ts) ∧
      List.Forall₂ Stands bs as := by
  cases bs with
  | nil =>
    have hk : c.kind = close := by
      rw [h.kind (by rwa [hs]), hs]
    refine ⟨[], c, ?_, h, .nil⟩
    unfold items
    rw [bind_of_ok (check_of_eq hk)]
    rfl
  | cons b bs =>
    obtain ⟨hfirst, hrest⟩ := List.forall_mem_cons.mp hitems
    rw [List.map_cons, commas_cons, List.flatMap_map] at h hq hf
    rw [List.append_assoc] at h hq
    rw [List.length_append] at hf
    have hne : c.kind ≠ close := hends b (List.mem_cons_self ..) c _ h
    obtain ⟨t, us, hus, ht⟩ := exists_next signs bs hs ts
    have hfound := hfirst c t us ht
    rw [← hus] at hfound
    obtain ⟨a, d, hitem, hd, ha⟩ := hfound h hq
    have hf' : (bs.flatMap (fun b => Sign.comma :: signs b)).length < fuel := by omega
    have hends' : ∀ b ∈ bs, ∀ (d : Cursor) ts, d.Sees (signs b ++ ts) →
        (trailing && d.kind == close) = false := by
      intro b hb d ts hd
      rw [beq_false_of_ne (hends b (List.mem_cons_of_mem _ hb) d ts hd), Bool.and_false]
    obtain ⟨as, e, has, he, hall⟩ := itemsAfter_reads
      (fun kind => trailing && kind == close) hcomma hs hrest hQ hends' hd (hQ _ _ hq) hf'
    refine ⟨a :: as, e, ?_, he, .cons ha hall⟩
    unfold items
    rw [bind_of_ok (check_of_ne hne), run_if_neg Bool.false_ne_true, bind_of_ok hitem,
      bind_of_ok has]
    rfl

end Reader

end FatArrow.Syntax
