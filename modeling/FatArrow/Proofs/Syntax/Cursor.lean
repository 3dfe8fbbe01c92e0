import FatArrow.Syntax.ReadNode

/-!
# What a cursor has left to read

The tokens from the position of a cursor on, as signs: a `>>` counts as two `>`, because reading
may split it.  Taking a token and splitting one both take a sign off the front, and going back
undoes the splits, so a step that was tried leaves no trace.
-/

namespace FatArrow.Syntax

/-- A token by its kind and its lexeme. -/
abbrev Sign := TokenKind × String

namespace Sign

/-- A `>`. -/
def close : Sign := (.greater, ">")

/-- A sign that can be part of a type. -/
def inType (s : Sign) : Bool :=
  [TokenKind.identifier, .typeKeyword, .dot, .less, .greater, .comma, .question, .leftBracket,
    .rightBracket].contains s.1

/-- How much deeper in angle brackets the text is after a sign. -/
def angle (s : Sign) : Int :=
  if s.1 = .less then 1 else if s.1 = .greater then -1 else 0

end Sign

/-- How much deeper in angle brackets the text is after a list of signs. -/
def angles : List Sign → Int
  | [] => 0
  | s :: ss => s.angle + angles ss

@[simp] theorem angles_nil : angles [] = 0 := rfl

@[simp] theorem angles_cons (s : Sign) (ss : List Sign) : angles (s :: ss) = s.angle + angles ss :=
  rfl

@[simp] theorem angles_append (ss ts : List Sign) : angles (ss ++ ts) = angles ss + angles ts := by
  induction ss with
  | nil => simp
  | cons s ss ih => rw [List.cons_append, angles_cons, angles_cons, ih]; omega

/-- A token as signs. -/
def Token.signs (t : Token) : List Sign :=
  if t.kind = .greaterGreater then [Sign.close, Sign.close] else [(t.kind, t.lexeme)]

theorem Token.signs_of_ne {t : Token} (h : t.kind ≠ .greaterGreater) :
    t.signs = [(t.kind, t.lexeme)] :=
  if_neg h

theorem Token.signs_double {t : Token} (h : t.kind = .greaterGreater) :
    t.signs = [Sign.close, Sign.close] :=
  if_pos h

theorem Token.length_signs_le (t : Token) : t.signs.length ≤ 2 := by
  unfold Token.signs
  split <;> simp

theorem length_flatMap_signs (tokens : List Token) :
    (tokens.flatMap Token.signs).length ≤ 2 * tokens.length := by
  induction tokens with
  | nil => exact Nat.le_refl 0
  | cons t tokens ih =>
    have := t.length_signs_le
    rw [List.flatMap_cons, List.length_append, List.length_cons]
    omega

namespace Cursor

variable {c d e : Cursor} {s : Sign} {ss ts : List Sign}

/-! ## 1. What is left -/

/-- The tokens that are left. -/
def left (c : Cursor) : List Token := c.buffer.toList.drop c.position

/-- The signs that are left. -/
def signs (c : Cursor) : List Sign := c.left.flatMap Token.signs

/-- The buffer ends in the end of the text, and the cursor is not past it. -/
def Sound (c : Cursor) : Prop :=
  ∃ front last, c.buffer.toList = front ++ [last] ∧ last.kind = .eof ∧
    c.position ≤ front.length

/-- What is left to a cursor is a list of signs. -/
def Sees (c : Cursor) (ss : List Sign) : Prop := c.Sound ∧ c.signs = ss

theorem Sound.lt_size (h : c.Sound) : c.position < c.buffer.size := by
  obtain ⟨front, last, hb, -, hp⟩ := h
  have hsize : c.buffer.size = front.length + 1 := by
    rw [← Array.length_toList, hb, List.length_append, List.length_singleton]
  omega

theorem peek_eq_getElem (h : c.position < c.buffer.size) : c.peek = c.buffer[c.position] := by
  have hmin : min (c.position + 0) (c.buffer.size - 1) = c.position := by omega
  rw [peek, peekAt, hmin, Array.getElem?_eq_getElem h]
  rfl

/-- The token at the cursor is the first one left. -/
theorem Sound.left_eq (h : c.Sound) : c.left = c.peek :: c.buffer.toList.drop (c.position + 1) := by
  have hlt : c.position < c.buffer.toList.length := by
    rw [Array.length_toList]
    exact h.lt_size
  rw [left, peek_eq_getElem h.lt_size, ← Array.getElem_toList]
  exact List.drop_eq_getElem_cons hlt

theorem Sound.skip (h : c.Sound) : c.skip.Sound := by
  obtain ⟨front, last, hb, he, hp⟩ := h
  unfold Cursor.skip
  by_cases hk : c.kind = .eof
  · rw [if_pos hk]
    exact ⟨front, last, hb, he, hp⟩
  · rw [if_neg hk]
    refine ⟨front, last, hb, he, ?_⟩
    -- the cursor is not at the last token, which is the end of the text
    have hne : c.position ≠ front.length := by
      intro heq
      apply hk
      have hleft := (show c.Sound from ⟨front, last, hb, he, hp⟩).left_eq
      rw [left, hb, heq, List.drop_left] at hleft
      show c.peek.kind = _
      rw [← (List.cons.inj hleft).1, he]
    show c.position + 1 ≤ front.length
    omega

theorem left_skip (hk : c.kind ≠ .eof) : c.skip.left = c.buffer.toList.drop (c.position + 1) := by
  unfold Cursor.skip
  rw [if_neg hk]
  rfl

/-- A token that is no `>>` is taken as one sign. -/
theorem Sound.signs_eq (h : c.Sound) (hk : c.kind ≠ .eof) :
    c.signs = c.peek.signs ++ c.skip.signs := by
  rw [signs, h.left_eq, List.flatMap_cons, signs, left_skip hk]

theorem Token.length_signs_pos (t : Token) : 0 < t.signs.length := by
  by_cases h : t.kind = .greaterGreater
  · rw [Token.signs_double h]
    decide
  · rw [Token.signs_of_ne h]
    exact Nat.one_pos

theorem Sound.length_signs_pos (h : c.Sound) : 0 < c.signs.length := by
  rw [signs, h.left_eq, List.flatMap_cons, List.length_append]
  have := Token.length_signs_pos c.peek
  omega

theorem Sound.length_skip (h : c.Sound) (hk : c.kind ≠ .eof) :
    c.skip.signs.length < c.signs.length := by
  rw [h.signs_eq hk, List.length_append]
  have := Token.length_signs_pos c.peek
  omega

theorem Sees.sound (h : c.Sees ss) : c.Sound := h.1

/-- The token at a cursor that sees a sign other than `>` has the kind and lexeme of the sign. -/
theorem Sees.peek (h : c.Sees (s :: ss)) (hs : s.1 ≠ .greater) :
    c.peek.kind = s.1 ∧ c.peek.lexeme = s.2 := by
  have hsigns := h.2
  rw [signs, h.1.left_eq, List.flatMap_cons] at hsigns
  by_cases hd : c.peek.kind = .greaterGreater
  · rw [Token.signs_double hd] at hsigns
    exact absurd (congrArg Prod.fst (List.cons.inj hsigns).1).symm hs
  · rw [Token.signs_of_ne hd] at hsigns
    have := (List.cons.inj hsigns).1
    exact ⟨congrArg Prod.fst this, congrArg Prod.snd this⟩

theorem Sees.kind (h : c.Sees (s :: ss)) (hs : s.1 ≠ .greater) : c.kind = s.1 := (h.peek hs).1

/-- Taking a token that is no `>>` takes its sign. -/
theorem Sees.skip_of_kind (h : c.Sees (s :: ss)) (hd : c.kind ≠ .greaterGreater)
    (he : c.kind ≠ .eof) : c.skip.Sees ss := by
  have hsigns := h.2
  rw [h.1.signs_eq he, Token.signs_of_ne hd] at hsigns
  exact ⟨h.1.skip, (List.cons.inj hsigns).2⟩

/-- Taking a token takes its sign. -/
theorem Sees.skip (h : c.Sees (s :: ss)) (hs : s.1 ≠ .greater) (he : s.1 ≠ .eof) :
    c.skip.Sees ss := by
  have hk := h.kind hs
  refine h.skip_of_kind (fun hd => ?_) (by rwa [hk])
  have hsigns := h.2
  rw [signs, h.1.left_eq, List.flatMap_cons, Token.signs_double hd] at hsigns
  exact absurd (congrArg Prod.fst (List.cons.inj hsigns).1).symm hs

/-- The token at a cursor has the kind of the sign that is seen, or it is a `>>` and the sign one
half of it. -/
theorem Sees.kind_or (h : c.Sees (s :: ss)) :
    c.kind = s.1 ∨ c.kind = .greaterGreater ∧ s = Sign.close := by
  have hsigns := h.2
  rw [signs, h.1.left_eq, List.flatMap_cons] at hsigns
  by_cases hd : c.peek.kind = .greaterGreater
  · rw [Token.signs_double hd] at hsigns
    exact .inr ⟨hd, (List.cons.inj hsigns).1.symm⟩
  · rw [Token.signs_of_ne hd] at hsigns
    exact .inl (congrArg Prod.fst (List.cons.inj hsigns).1)

/-- A `>` in front of another sign is no half of a `>>`. -/
theorem Sees.kind_of_ne {t : Sign} (h : c.Sees (s :: t :: ss)) (ht : t ≠ Sign.close) :
    c.kind = s.1 := by
  rcases h.kind_or with hk | ⟨hk, -⟩
  · exact hk
  · have hsigns := h.2
    rw [signs, h.1.left_eq, List.flatMap_cons, Token.signs_double hk] at hsigns
    exact absurd (List.cons.inj (List.cons.inj hsigns).2).1.symm ht

/-- The second token left is at the cursor after the first one. -/
theorem Sound.peekAt_succ (h : c.Sound) (hk : c.kind ≠ .eof) (n : Nat) :
    c.peekAt (n + 1) = c.skip.peekAt n := by
  have := h.lt_size
  unfold Cursor.skip
  rw [if_neg hk, peekAt, peekAt]
  congr 3
  show c.position + (n + 1) = c.position + 1 + n
  omega

/-! ## 2. Splitting and going back -/

/-- After a split the second half of the `>>` is the first token left. -/
theorem Sound.left_split (h : c.Sound) :
    c.split.left = (halves c.peek).2 :: c.buffer.toList.drop (c.position + 1) := by
  have hlt : c.position < c.buffer.toList.length := by
    rw [Array.length_toList]
    exact h.lt_size
  have hbuffer : c.split.buffer.toList = c.buffer.toList.set c.position (halves c.peek).2 :=
    Array.toList_setIfInBounds ..
  show c.split.buffer.toList.drop c.position = _
  rw [hbuffer, List.drop_set, if_neg (Nat.lt_irrefl _), Nat.sub_self,
    List.drop_eq_getElem_cons hlt, List.set_cons_zero]

/-- The first half of a `>>` is taken as one sign. -/
theorem Sound.split (h : c.Sound) (hk : c.kind = .greaterGreater) :
    c.split.Sound ∧ c.signs = Sign.close :: c.split.signs := by
  obtain ⟨front, last, hb, he, hp⟩ := h
  have hsound : c.Sound := ⟨front, last, hb, he, hp⟩
  have hleft := hsound.left_eq
  -- a `>>` is not the last token, which is the end of the text
  have hlt : c.position < front.length := by
    rcases Nat.lt_or_eq_of_le hp with hlt | heq
    · exact hlt
    · rw [left, hb, heq, List.drop_left] at hleft
      have : c.kind = .eof := by rw [← he, (List.cons.inj hleft).1]; rfl
      rw [hk] at this
      cases this
  refine ⟨⟨front.set c.position (halves c.peek).2, last, ?_, he, ?_⟩, ?_⟩
  · show (c.buffer.setIfInBounds c.position (halves c.peek).2).toList = _
    rw [Array.toList_setIfInBounds, hb, List.set_append_left _ _ hlt]
  · rw [List.length_set]
    exact hp
  · rw [signs, hleft, signs, hsound.left_split, List.flatMap_cons, List.flatMap_cons,
      Token.signs_double hk]
    rfl

/-- Undoing some splits and then more of them. -/
theorem undo_add (buffer : Array Token) (n m : Nat) (splits : List (Nat × Token)) :
    undo buffer (n + m) splits = undo (undo buffer n splits).1 m (undo buffer n splits).2 := by
  induction n generalizing buffer splits with
  | zero => rw [Nat.zero_add]; cases m <;> rfl
  | succ n ih =>
    cases splits with
    | nil => rw [Nat.succ_add]; cases m <;> rfl
    | cons split splits => rw [Nat.succ_add]; exact ih _ _

/-- The splits made on the way from one cursor to another can be undone. -/
def Undoes (c d : Cursor) : Prop :=
  ∃ n, d.splits.length = c.splits.length + n ∧ undo d.buffer n d.splits = (c.buffer, c.splits)

/-- One cursor is reached from another by taking a list of signs. -/
structure Reaches (c : Cursor) (taken : List Sign) (d : Cursor) : Prop where
  sound : d.Sound
  signs : c.signs = taken ++ d.signs
  undoes : c.Undoes d

theorem Undoes.refl (c : Cursor) : c.Undoes c := ⟨0, rfl, rfl⟩

theorem Undoes.trans (h : c.Undoes d) (h' : d.Undoes e) : c.Undoes e := by
  obtain ⟨n, hn, hundo⟩ := h
  obtain ⟨m, hm, hundo'⟩ := h'
  refine ⟨m + n, by omega, ?_⟩
  rw [undo_add, hundo', hundo]

theorem Sound.reaches (h : c.Sound) : c.Reaches [] c := ⟨h, rfl, .refl c⟩

theorem Reaches.trans (h : c.Reaches ss d) (h' : d.Reaches ts e) : c.Reaches (ss ++ ts) e :=
  ⟨h'.sound, by rw [h.signs, h'.signs, List.append_assoc], h.undoes.trans h'.undoes⟩

theorem Reaches.length_le (h : c.Reaches ss d) : d.signs.length ≤ c.signs.length := by
  rw [h.signs, List.length_append]
  omega

theorem undoes_skip (c : Cursor) : c.Undoes c.skip := by
  unfold Cursor.skip
  split
  · exact .refl c
  · exact ⟨0, rfl, rfl⟩

/-- Writing the token back restores the buffer, be the cursor in it or past it. -/
theorem undoes_split (c : Cursor) : c.Undoes c.split := by
  refine ⟨1, rfl, ?_⟩
  show ((c.buffer.setIfInBounds c.position (halves c.peek).2).setIfInBounds c.position c.peek,
    c.splits) = _
  rw [Array.setIfInBounds_setIfInBounds]
  congr 1
  by_cases hlt : c.position < c.buffer.size
  · rw [peek_eq_getElem hlt, Array.setIfInBounds, dif_pos hlt, Array.set_getElem_self]
  · rw [Array.setIfInBounds, dif_neg hlt]

theorem Sound.reaches_skip (h : c.Sound) (hk : c.kind ≠ .eof) : c.Reaches c.peek.signs c.skip :=
  ⟨h.skip, h.signs_eq hk, c.undoes_skip⟩

theorem Sound.reaches_split (h : c.Sound) (hk : c.kind = .greaterGreater) :
    c.Reaches [Sign.close] c.split :=
  ⟨(h.split hk).1, (h.split hk).2, c.undoes_split⟩

/-- Going back along the way restores the cursor. -/
theorem Undoes.rewind (h : c.Undoes d) : d.rewind c.position c.splits.length = c := by
  obtain ⟨n, hn, hundo⟩ := h
  have : d.splits.length - c.splits.length = n := by omega
  simp only [Cursor.rewind, this, hundo]

end Cursor

end FatArrow.Syntax
