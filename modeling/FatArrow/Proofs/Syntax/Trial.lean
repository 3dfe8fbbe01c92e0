import FatArrow.Proofs.Printing.Signs
import FatArrow.Proofs.Syntax.Steady

/-!
# Trials that leave no trace

A parenthesis is tried as a cast, and a `<` after a name as the beginning of type arguments.  Before
text that does not close what it did not open, both trials fail and the cursor is back where it was.
-/

namespace FatArrow.Syntax

variable {c d : Cursor} {s : Sign} {ss ts : List Sign}

/-! ## 1. Upright signs -/

/-- As far as signs can be part of a type, they close no angle bracket that they did not open. -/
def Balanced (ss : List Sign) : Prop :=
  ∀ p q, ss = p ++ q → (∀ s ∈ p, s.inType = true) → 0 ≤ angles p

/-- Nothing behind a sign that is no part of a type matters. -/
theorem Balanced.append_cons (h : Balanced ss) (hs : s.inType = false) (ts : List Sign) :
    Balanced (ss ++ s :: ts) := by
  intro p q hpq hp
  rcases List.append_eq_append_iff.mp hpq with ⟨p', rfl, hrest⟩ | ⟨q', rfl, -⟩
  · cases p' with
    | nil =>
      rw [List.append_nil] at hp ⊢
      exact h ss [] (List.append_nil ss).symm hp
    | cons t p' =>
      have ht := hp t (List.mem_append_right _ (List.mem_cons_self ..))
      rw [← (List.cons.inj hrest).1, hs] at ht
      cases ht
  · exact h p q' rfl hp

/-- Where signs cannot be part of a type any further, no parenthesis closes. -/
def Guarded (ss : List Sign) : Prop :=
  ∀ p s q, ss = p ++ s :: q → (∀ t ∈ p, t.inType = true) → s.1 ≠ .rightParen

namespace Guarded

theorem cons (hs : s.1 ≠ .rightParen) (h : Guarded ss) : Guarded (s :: ss) := by
  intro p t q hpq hp
  cases p with
  | nil =>
    rw [← (List.cons.inj hpq).1]
    exact hs
  | cons u p =>
    exact h p t q (List.cons.inj hpq).2 fun t ht => hp t (List.mem_cons_of_mem _ ht)

theorem append (hs : Guarded ss) (ht : Guarded ts) : Guarded (ss ++ ts) := by
  intro p s q h hp
  rcases List.append_eq_append_iff.mp h with ⟨p', rfl, hrest⟩ | ⟨q', rfl, hrest⟩
  · exact ht p' s q hrest fun s hs => hp s (List.mem_append_right _ hs)
  · cases q' with
    | nil => exact ht [] s q hrest.symm nofun
    | cons t q' =>
      rw [(List.cons.inj hrest).1]
      exact hs p t q' rfl hp

end Guarded

/-- Signs that are balanced and guarded. -/
structure Upright (ss : List Sign) : Prop where
  angles : Balanced ss
  closes : Guarded ss

namespace Upright

theorem nil : Upright [] := by
  refine ⟨fun p q h _ => ?_, fun p s q h _ => ?_⟩
  · rw [(List.append_eq_nil_iff.mp h.symm).1]
    exact Int.le_refl 0
  · cases p <;> cases h

/-- Nothing behind a sign that is no part of a type matters. -/
theorem cons_of_not_inType (hs : s.inType = false) (hc : s.1 ≠ .rightParen) : Upright (s :: ss) := by
  refine ⟨fun p q h hp => ?_, fun p t q h hp => ?_⟩
  · cases p with
    | nil => exact Int.le_refl 0
    | cons t p =>
      have ht := hp t (List.mem_cons_self ..)
      rw [← (List.cons.inj h).1, hs] at ht
      cases ht
  · cases p with
    | nil =>
      rw [← (List.cons.inj h).1]
      exact hc
    | cons t p =>
      have ht := hp t (List.mem_cons_self ..)
      rw [← (List.cons.inj h).1, hs] at ht
      cases ht

theorem append (hs : Upright ss) (ht : Upright ts) : Upright (ss ++ ts) := by
  refine ⟨fun p q h hp => ?_, hs.closes.append ht.closes⟩
  rcases List.append_eq_append_iff.mp h with ⟨p', rfl, hrest⟩ | ⟨q', rfl, -⟩
  · rw [angles_append]
    have hfirst := hs.angles ss [] (List.append_nil ss).symm
      fun s hs => hp s (List.mem_append_left _ hs)
    have hsecond := ht.angles p' q hrest fun s hs => hp s (List.mem_append_right _ hs)
    omega
  · exact hs.angles p q' rfl hp

/-- A sign of a type that closes no angle bracket. -/
theorem cons (ht : s.inType = true) (hs : s.1 ≠ .greater) (h : Upright ss) : Upright (s :: ss) := by
  have hangle : 0 ≤ s.angle := by
    unfold Sign.angle
    split
    · decide
    · exact Int.le_refl 0
  have hsingle : Upright [s] := by
    refine ⟨fun p q hpq _ => ?_, fun p t q hpq _ => ?_⟩
    · rcases List.append_eq_singleton_iff.mp hpq.symm with ⟨rfl, -⟩ | ⟨rfl, -⟩
      · exact Int.le_refl 0
      · simpa using hangle
    · cases p with
      | nil =>
        rw [← (List.cons.inj hpq).1]
        intro hc
        rw [Sign.inType, hc] at ht
        cases ht
      | cons u p => exact absurd (List.cons.inj hpq).2 (by simp)
  exact hsingle.append h

/-- Signs of types in angle brackets. -/
theorem angled (ht : ∀ s ∈ ss, s.inType = true) (h : Upright ss) (lexeme : String) :
    Upright ((.less, lexeme) :: (ss ++ [Sign.close])) := by
  refine ⟨fun p q hpq hp => ?_, fun p s q hpq hp => ?_⟩
  · cases p with
    | nil => exact Int.le_refl 0
    | cons t p =>
      obtain ⟨rfl, hrest⟩ := List.cons.inj hpq
      have hopen : Sign.angle (.less, lexeme) = 1 := rfl
      have hclose : Sign.angle Sign.close = -1 := rfl
      rw [angles_cons, hopen]
      rcases List.append_eq_append_iff.mp hrest with ⟨p', rfl, hend⟩ | ⟨q', rfl, -⟩
      · have hss := h.angles ss [] (List.append_nil ss).symm ht
        rw [angles_append]
        rcases List.append_eq_singleton_iff.mp hend.symm with ⟨rfl, -⟩ | ⟨rfl, -⟩
        · rw [angles_nil]
          omega
        · rw [angles_cons, angles_nil, hclose]
          omega
      · have := h.angles p q' rfl fun s hs => hp s (List.mem_cons_of_mem _ hs)
        omega
  · intro hc
    have hmem : s ∈ (.less, lexeme) :: (ss ++ [Sign.close]) := by
      rw [hpq]
      exact List.mem_append_right _ (List.mem_cons_self ..)
    have hin : s.inType = true := by
      rcases List.mem_cons.mp hmem with rfl | hmem
      · rfl
      · rcases List.mem_append.mp hmem with hmem | hmem
        · exact ht s hmem
        · rw [List.mem_singleton.mp hmem]
          rfl
    rw [Sign.inType, hc] at hin
    cases hin

end Upright

/-! ## 2. Signs and cursors -/

namespace Cursor

/-- What a cursor at a token that is no `>>` sees. -/
theorem Sound.sees (h : c.Sound) (hd : c.kind ≠ .greaterGreater) :
    ∃ ss, c.Sees ((c.kind, c.peek.lexeme) :: ss) := by
  refine ⟨(c.buffer.toList.drop (c.position + 1)).flatMap Token.signs, h, ?_⟩
  rw [signs, h.left_eq, List.flatMap_cons, Token.signs_of_ne hd]
  rfl

/-- No token ahead of a cursor is of a kind that it does not see. -/
theorem Sees.peekAt_ne {kind : TokenKind} (h : c.Sees ss) (hs : ∀ s ∈ ss, s.1 ≠ kind)
    (hd : kind ≠ .greaterGreater) (n : Nat) : (c.peekAt n).kind ≠ kind := by
  obtain ⟨front, last, hb, hlast, hp⟩ := h.1
  have hsize : c.buffer.size = front.length + 1 := by
    rw [← Array.length_toList, hb, List.length_append, List.length_singleton]
  have hlt : min (c.position + n) (c.buffer.size - 1) < c.buffer.size := by omega
  have hget : c.peekAt n = c.buffer[min (c.position + n) (c.buffer.size - 1)] := by
    rw [peekAt, Array.getElem?_eq_getElem hlt]
    rfl
  have hmem : c.peekAt n ∈ c.left := by
    rw [hget, ← Array.getElem_toList, left, List.mem_drop_iff_getElem]
    exact ⟨min (c.position + n) (c.buffer.size - 1) - c.position, by
      rw [Array.length_toList]; omega, by congr 1; omega⟩
  intro hk
  refine hs ((c.peekAt n).kind, (c.peekAt n).lexeme) ?_ hk
  rw [← h.2, signs, List.mem_flatMap]
  refine ⟨_, hmem, ?_⟩
  rw [Token.signs_of_ne (by rwa [hk])]
  exact List.mem_singleton_self _

end Cursor

namespace Reader

/-! ## 3. Type arguments -/

/-- Before a comparison no type arguments are read. -/
theorem attemptTypeArgs_of_less {fuel : Nat} {lexeme : String} (h : c.Sees ((.less, lexeme) :: ss))
    (hb : Balanced ss) (hf : 2 * (ss.length + 1) + 2 ≤ fuel) :
    attemptTypeArgs fuel c = .ok none c := by
  have hk : c.kind = .less := h.kind (by simp)
  have hsteady := typeArgs_steady fuel h.1 (by rw [h.2, List.length_cons]; omega)
  unfold attemptTypeArgs
  rw [bind_of_ok (check_of_eq hk), run_if_pos rfl]
  refine attempt_of_none (fun a d hr => ?_) hsteady.refused hsteady.bounded
  obtain ⟨taken, hreach, hangles, hall⟩ := hsteady.taken a d hr
  refine ⟨hreach.undoes, ?_⟩
  have hsigns := hreach.signs
  rw [h.2] at hsigns
  cases taken with
  | nil =>
    -- nothing is taken, and type arguments are not followed by a `<`
    have hd : d.Sees ((.less, lexeme) :: ss) := ⟨hreach.sound, hsigns.symm⟩
    rw [hd.kind (by simp)]
    rfl
  | cons s taken =>
    -- the angle bracket that is opened is not closed
    obtain ⟨rfl, hrest⟩ := List.cons.inj hsigns
    have hle := hb taken d.signs hrest fun s hs => hall s (List.mem_cons_of_mem _ hs)
    have hopen : Sign.angle (.less, lexeme) = 1 := rfl
    rw [angles_cons, hopen] at hangles
    omega

theorem attemptTypeArgs_of_ne {fuel : Nat} (h : c.kind ≠ .less) :
    attemptTypeArgs fuel c = .ok none c := by
  unfold attemptTypeArgs
  rw [bind_of_ok (check_of_ne h)]
  exact run_if_neg Bool.false_ne_true

/-! ## 4. Lambdas -/

/-- Without an arrow ahead a parenthesis opens no lambda. -/
theorem opensLambda_eq_false (h : ∀ n, (c.peekAt n).kind ≠ .arrow) (fuel depth n : Nat) :
    opensLambda c fuel depth n = false := by
  induction fuel generalizing depth n with
  | zero => rfl
  | succ fuel ih =>
    unfold opensLambda
    split
    · exact ih _ _
    · split
      · exact beq_false_of_ne (h _)
      · exact ih _ _
    · rfl
    · exact ih _ _

/-! ## 5. Casts -/

/-- What follows a type in parentheses whatever the type is. -/
theorem startsCastOperand_eq_false {kind : TokenKind} {target : TypeNode}
    (ht : ∀ k, target ≠ .predefined k) (hk : kind ∉ [TokenKind.identifier, .typeKeyword, .leftParen,
      .newWord, .bang]) (hl : kind.isLiteral = false) : startsCastOperand target kind = false := by
  unfold startsCastOperand
  split
  case h_6 | h_7 =>
    split
    next k => exact absurd rfl (ht k)
    next => rfl
  case h_8 => exact hl
  all_goals exact absurd (by decide) hk

/-- A type that is no keyword. -/
def Compound (type : TypeNode) (_ : Cursor) : Prop := ∀ k, type ≠ .predefined k

theorem typeEndings_compound (fuel : Nat) {type : TypeNode} (h : Compound type c) :
    Yields Compound (typeEndings fuel type) c := by
  induction fuel generalizing c type with
  | zero => exact .exhausted
  | succ fuel ih =>
    unfold typeEndings
    refine Yields.congr ?_ (get_bind _)
    refine .ite (fun _ => ?_) fun _ => .ite (fun _ => ?_) fun _ => .pure h
    · exact fun a d hr => ih (fun k hk => by cases hk) a d hr
    · exact fun a d hr => ih (fun k hk => by cases hk) a d hr

/-- A type that does not begin with a keyword is none. -/
theorem type_compound (fuel : Nat) (hk : c.kind ≠ .typeKeyword) : Yields Compound (type fuel) c := by
  cases fuel with
  | zero => exact .exhausted
  | succ fuel =>
    rw [type]
    refine Yields.bind (P := Compound) ?_ fun base d h => typeEndings_compound fuel h
    cases fuel with
    | zero => exact .exhausted
    | succ fuel =>
      rw [typeBase]
      refine Yields.congr ?_ (get_bind _)
      split
      next hkind => exact absurd hkind hk
      next =>
        intro t d hr
        obtain ⟨_, _, _, hr⟩ := exists_of_bind hr
        obtain ⟨_, _, _, hr⟩ := exists_of_bind hr
        cases hr
        exact fun k hk => by cases hk
      next => exact .refuse _ _

/-- Parentheses around what is no type, or that are not followed by an operand, are no cast. -/
theorem attemptCast_eq_none {fuel : Nat} (h : c.Sees (Sign.leftParen :: (ss ++ Sign.rightParen ::
      s :: ts))) (hg : Guarded ss) (hk : ∀ s ∈ ss, s.1 ≠ .typeKeyword)
    (hs : s.1 ∉ [TokenKind.identifier, .typeKeyword, .leftParen, .newWord, .bang])
    (hl : s.1.isLiteral = false) (hf : 2 * (ss.length + ts.length) + 7 ≤ fuel) :
    attemptCast fuel c = .ok none c := by
  have hskip := h.skip (by decide) (by decide)
  have hundo := (h.1.reaches_skip (by rw [h.kind (by decide)]; decide)).undoes
  have hsteady := type_steady fuel hskip.1 (by
    rw [hskip.2, List.length_append, List.length_cons, List.length_cons]
    omega)
  have hrun : castTarget fuel c =
      (type fuel >>= fun target => expect .rightParen >>= fun _ => pure target) c.skip := rfl
  cases htype : type fuel c.skip with
  | error x d =>
    rw [bind_of_error htype] at hrun
    cases x with
    | refused x => exact attempt_of_refused _ hrun (hundo.trans (hsteady.refused _ _ htype))
    | exhausted => exact absurd htype (hsteady.bounded d)
  | ok target d =>
    obtain ⟨taken, hreach, -, hall⟩ := hsteady.taken _ _ htype
    have hundo := hundo.trans hreach.undoes
    rw [bind_of_ok htype] at hrun
    by_cases hclose : d.kind = .rightParen
    · rw [bind_of_ok (expect_of_eq hclose)] at hrun
      have hdouble : d.kind ≠ .greaterGreater := by rw [hclose]; decide
      have hend : d.kind ≠ .eof := by rw [hclose]; decide
      obtain ⟨rest, hsees⟩ := hreach.sound.sees hdouble
      have hsigns := hreach.signs
      rw [hskip.2, hsees.2] at hsigns
      -- the parenthesis after the type is the one that closes the group
      have hrest : rest = s :: ts := by
        rcases List.append_eq_append_iff.mp hsigns with ⟨p, htaken, hrest⟩ | ⟨q, hss, hrest⟩
        · cases p with
          | nil => exact (List.cons.inj hrest).2.symm
          | cons t p =>
            have ht := hall t (by rw [htaken]; exact List.mem_append_right _ (List.mem_cons_self ..))
            rw [← (List.cons.inj hrest).1] at ht
            cases ht
        · cases q with
          | nil => exact (List.cons.inj hrest).2
          | cons t q =>
            refine absurd ?_ (hg taken t q hss hall)
            rw [← (List.cons.inj hrest).1, hclose]
      rw [hrest] at hsees
      have hkey : c.skip.kind ≠ .typeKeyword := by
        intro hc
        cases ss with
        | nil =>
          rw [hskip.kind (by decide)] at hc
          cases hc
        | cons t ss =>
          rcases hskip.kind_or with hfirst | ⟨hfirst, -⟩
          · exact hk t (List.mem_cons_self ..) (hfirst ▸ hc)
          · rw [hfirst] at hc
            cases hc
      have hcompound := type_compound fuel hkey _ _ htype
      refine attempt_of_rejected hrun (hundo.trans (hreach.sound.reaches_skip hend).undoes) ?_
      rcases (hsees.skip (by simp [hclose]) (by simp [hclose])).kind_or with hnext | ⟨hnext, -⟩
      · rw [hnext]
        exact startsCastOperand_eq_false hcompound hs hl
      · rw [hnext]
        exact startsCastOperand_eq_false hcompound (by decide) rfl
    · rw [bind_of_error (expect_of_ne hclose)] at hrun
      exact attempt_of_refused _ hrun hundo

end Reader

end FatArrow.Syntax
