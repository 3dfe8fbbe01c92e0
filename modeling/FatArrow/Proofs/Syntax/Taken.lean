import FatArrow.Proofs.Syntax.Cursor

/-!
# The tokens that are taken

Reading takes tokens off the front of a list, whole or, where a `>>` is split, half by half.  The
tokens of a text stand in their order and lie where their spans say, and so do the halves.  What a
cursor calls the span of the token read last is that token's, unless it is the first half of a
`>>`: then it is the span of the token before.
-/

namespace FatArrow.Syntax

/-- A token as it is taken. -/
structure Taken where
  token : Token
  /-- The token is the first half of a `>>`. -/
  half : Bool

namespace Taken

/-- A token that is taken whole. -/
def whole (t : Token) : Taken := ⟨t, false⟩

/-- The first half of a `>>`. -/
def firstHalf (t : Token) : Taken := ⟨(Cursor.halves t).1, true⟩

end Taken

/-- Taking tokens off the front of a list.  Where the first half of a `>>` is taken, the second
half is the next token. -/
inductive Cut : List Token → List Taken → List Token → Prop
  | done (ts : List Token) : Cut ts [] ts
  | whole {t : Token} {ts : List Token} {us : List Taken} {rest : List Token} :
      Cut ts us rest → Cut (t :: ts) (.whole t :: us) rest
  | half {t : Token} {ts : List Token} {us : List Taken} {rest : List Token} :
      t.kind = .greaterGreater → Cut ((Cursor.halves t).2 :: ts) us rest →
      Cut (t :: ts) (.firstHalf t :: us) rest

theorem Cut.append {ts rest rest' : List Token} {us vs : List Taken} (h : Cut ts us rest)
    (h' : Cut rest vs rest') : Cut ts (us ++ vs) rest' := by
  induction h with
  | done ts => exact h'
  | whole _ ih => exact (ih h').whole
  | half hk _ ih => exact (ih h').half hk

/-! ## 1. Where tokens lie -/

/-- The token is written in the text where its span says. -/
def Token.LiesIn (t : Token) (text : List Char) : Prop :=
  ∃ front back, text = front ++ t.lexeme.toList ++ back ∧
    t.span = (Position.start.after front).spanTo ((Position.start.after front).after t.lexeme.toList)

/-- The tokens stand one after the other, and a `>>` is one. -/
structure Tidy (ts : List Token) : Prop where
  ordered : ts.Pairwise fun t u => t.span.stop ≤ u.span.offset
  double : ∀ t ∈ ts, t.kind = .greaterGreater → t.lexeme = ">>" ∧ t.span.len = 2

/-- Taking does not go back behind the first token. -/
theorem Cut.offset_le {ts rest : List Token} {us : List Taken} {n : Nat} (h : Cut ts us rest)
    (hts : ∀ t ∈ ts, n ≤ t.span.offset) : ∀ t ∈ us.map (·.token) ++ rest, n ≤ t.span.offset := by
  induction h with
  | done ts => exact hts
  | whole _ ih =>
    obtain ⟨hfirst, hrest⟩ := List.forall_mem_cons.mp hts
    exact List.forall_mem_cons.mpr ⟨hfirst, ih hrest⟩
  | @half t _ _ _ _ _ ih =>
    obtain ⟨hfirst, hrest⟩ := List.forall_mem_cons.mp hts
    have hsecond : n ≤ (Cursor.halves t).2.span.offset := Nat.le_succ_of_le hfirst
    exact List.forall_mem_cons.mpr ⟨hfirst, ih (List.forall_mem_cons.mpr ⟨hsecond, hrest⟩)⟩

/-- The second half of a `>>` stands where the `>>` stood. -/
theorem Tidy.split {t : Token} {ts : List Token} (h : Tidy (t :: ts))
    (hk : t.kind = .greaterGreater) : Tidy ((Cursor.halves t).2 :: ts) := by
  obtain ⟨hfirst, hrest⟩ := List.pairwise_cons.mp h.ordered
  have hlen := (h.double t (List.mem_cons_self ..) hk).2
  refine ⟨List.pairwise_cons.mpr ⟨fun u hu => ?_, hrest⟩, ?_⟩
  · have := hfirst u hu
    show t.span.offset + 1 + 1 ≤ _
    unfold Span.stop at this
    omega
  · intro u hu hd
    rcases List.mem_cons.mp hu with rfl | hu
    · cases hd
    · exact h.double u (List.mem_cons_of_mem _ hu) hd

/-- What is taken, and what is left, stands in order. -/
theorem Cut.tidy {ts rest : List Token} {us : List Taken} (h : Cut ts us rest) (hts : Tidy ts) :
    Tidy (us.map (·.token) ++ rest) := by
  induction h with
  | done ts => exact hts
  | @whole t ts us rest hcut ih =>
    obtain ⟨hfirst, hrest⟩ := List.pairwise_cons.mp hts.ordered
    obtain ⟨hordered, hdouble⟩ := ih ⟨hrest, fun u hu => hts.double u (List.mem_cons_of_mem _ hu)⟩
    exact ⟨List.pairwise_cons.mpr ⟨hcut.offset_le hfirst, hordered⟩,
      List.forall_mem_cons.mpr ⟨hts.double t (List.mem_cons_self ..), hdouble⟩⟩
  | @half t ts us rest hk hcut ih =>
    have hsplit := hts.split hk
    obtain ⟨hordered, hdouble⟩ := ih hsplit
    obtain ⟨hsecond, -⟩ := List.pairwise_cons.mp hsplit.ordered
    refine ⟨List.pairwise_cons.mpr ⟨?_, hordered⟩, List.forall_mem_cons.mpr ⟨nofun, hdouble⟩⟩
    -- whatever is taken later starts at the second half or behind it
    refine hcut.offset_le (List.forall_mem_cons.mpr ⟨Nat.le_refl _, fun u hu => ?_⟩)
    exact Nat.le_trans (Nat.le_add_right _ _) (hsecond u hu)

theorem Token.LiesIn.halves {t : Token} {text : List Char} (h : t.LiesIn text)
    (hl : t.lexeme = ">>") :
    (Cursor.halves t).1.LiesIn text ∧ (Cursor.halves t).2.LiesIn text := by
  obtain ⟨front, back, htext, hspan⟩ := h
  have hdouble : t.lexeme.toList = ['>', '>'] := by
    rw [hl]
    exact String.toList_ofList
  have hsingle : ">".toList = ['>'] := String.toList_ofList
  rw [hdouble] at htext hspan
  generalize hp : Position.start.after front = p at hspan
  have hnext : p.next '>' = ⟨p.line, p.col + 1, p.offset + 1⟩ := rfl
  refine ⟨⟨front, '>' :: back, ?_, ?_⟩, ⟨front ++ ['>'], back, ?_, ?_⟩⟩
  · show _ = front ++ ">".toList ++ _
    rw [htext, hsingle, List.append_assoc, List.append_assoc]
    rfl
  · show Span.mk t.span.line t.span.col t.span.offset 1 =
      (Position.start.after front).spanTo ((Position.start.after front).after ">".toList)
    have hlen : (p.next '>').offset - p.offset = 1 := by
      rw [hnext]
      exact Nat.add_sub_cancel_left ..
    rw [hspan, hsingle, hp]
    exact congrArg (Span.mk _ _ _) hlen.symm
  · show _ = front ++ ['>'] ++ ">".toList ++ _
    rw [htext, hsingle, List.append_assoc, List.append_assoc, List.append_assoc]
    rfl
  · show Span.mk t.span.line (t.span.col + 1) (t.span.offset + 1) 1 =
      (Position.start.after (front ++ ['>'])).spanTo
        ((Position.start.after (front ++ ['>'])).after ">".toList)
    have hlen : ((p.next '>').next '>').offset - (p.next '>').offset = 1 := by
      rw [hnext]
      exact Nat.add_sub_cancel_left ..
    rw [hspan, hsingle, Position.after_append, hp]
    exact congrArg (Span.mk _ _ _) hlen.symm

/-- The halves that are taken lie in the text, as the tokens do. -/
theorem Cut.liesIn {ts rest : List Token} {us : List Taken} {text : List Char} (h : Cut ts us rest)
    (hts : Tidy ts) (hin : ∀ t ∈ ts, t.LiesIn text) : ∀ u ∈ us, u.token.LiesIn text := by
  induction h with
  | done ts => exact nofun
  | @whole t ts us rest _ ih =>
    obtain ⟨hfirst, hrest⟩ := List.forall_mem_cons.mp hin
    have htail : Tidy ts :=
      ⟨(List.pairwise_cons.mp hts.ordered).2, fun u hu => hts.double u (List.mem_cons_of_mem _ hu)⟩
    exact List.forall_mem_cons.mpr ⟨hfirst, ih htail hrest⟩
  | @half t ts us rest hk _ ih =>
    obtain ⟨hfirst, hrest⟩ := List.forall_mem_cons.mp hin
    obtain ⟨hone, htwo⟩ := hfirst.halves (hts.double t (List.mem_cons_self ..) hk).1
    exact List.forall_mem_cons.mpr
      ⟨hone, ih (hts.split hk) (List.forall_mem_cons.mpr ⟨htwo, hrest⟩)⟩

/-! ## 2. The tokens of a text -/

theorem Position.offset_le_after (p : Position) (cs : List Char) :
    p.offset ≤ (p.after cs).offset := by
  induction cs generalizing p with
  | nil => exact Nat.le_refl _
  | cons c cs ih =>
    have hnext : p.offset ≤ (p.next c).offset := by
      unfold Position.next
      split <;> exact Nat.le_add_right _ _
    exact Nat.le_trans hnext (ih _)

theorem keyword?_ne_double (word : String) : keyword? word ≠ some .greaterGreater := by
  unfold keyword?
  repeat' split
  all_goals exact nofun

theorem oneCharOperator?_ne_double (c : Char) : oneCharOperator? c ≠ some .greaterGreater := by
  unfold oneCharOperator?
  split <;> exact nofun

theorem twoCharOperator?_double {c d : Char} (h : twoCharOperator? c d = some .greaterGreater) :
    c = '>' ∧ d = '>' := by
  unfold twoCharOperator? at h
  split at h
  all_goals first | cases h | skip
  · exact ⟨rfl, rfl⟩
  · split at h <;> cases h

/-- Only two `>` make a `>>`. -/
theorem piece_double {c : Char} {cs : List Char} {n : Nat}
    (h : piece c cs = .ok ⟨some .greaterGreater, n⟩) :
    String.ofList (c :: cs.take n) = ">>" := by
  have hliteral {kind : TokenKind} {cause : Cause} {skip : Nat} {scanned : Nat × Bool}
      (hk : kind ≠ .greaterGreater) :
      literalPiece kind cause skip scanned ≠ .ok ⟨some .greaterGreater, n⟩ := by
    unfold literalPiece
    split
    · rintro ⟨⟩
      exact hk rfl
    · exact nofun
  have hnumber : number c cs ≠ .ok ⟨some .greaterGreater, n⟩ := by
    unfold number decimalNumber
    dsimp only
    repeat' split
    all_goals exact nofun
  have hword : Except.ok (ε := BadPiece) (word c cs) ≠ .ok ⟨some .greaterGreater, n⟩ := by
    intro he
    have hkind := congrArg Piece.kind (Except.ok.inj he)
    rw [show (word c cs).kind = some ((keyword? _).getD .identifier) from rfl] at hkind
    cases hw : keyword? (String.ofList (c :: cs.takeWhile Text.isNamePart)) with
    | none =>
      rw [hw] at hkind
      cases hkind
    | some kind =>
      rw [hw] at hkind
      exact keyword?_ne_double _ (hw.trans hkind)
  have hoperator (h : operator c cs = .ok ⟨some .greaterGreater, n⟩) :
      String.ofList (c :: cs.take n) = ">>" := by
    unfold operator at h
    split at h
    next kind hk =>
      cases h
      obtain ⟨d, hd, hk⟩ := Option.bind_eq_some_iff.mp hk
      obtain ⟨rfl, rfl⟩ := twoCharOperator?_double hk
      cases cs with
      | nil => cases hd
      | cons d cs =>
        cases hd
        rfl
    next =>
      split at h
      next kind hk =>
        cases h
        exact absurd hk (oneCharOperator?_ne_double c)
      next => cases h
  unfold piece at h
  repeat' split at h
  all_goals first
    | exact absurd h (hliteral (by decide))
    | exact absurd h hnumber
    | exact absurd h hword
    | exact hoperator h
    | cases h

/-- The text behind a place is cut into tokens piece by piece. -/
inductive Pieces : Position → List Char → List Token → Prop
  | ends (p : Position) : Pieces p [] [⟨.eof, "", p.spanTo p⟩]
  | gap {p : Position} {c : Char} {cs : List Char} {n : Nat} {ts : List Token} :
      piece c cs = .ok ⟨none, n⟩ → Pieces (p.after (c :: cs.take n)) (cs.drop n) ts →
      Pieces p (c :: cs) ts
  | token {p : Position} {c : Char} {cs : List Char} {kind : TokenKind} {n : Nat} {ts : List Token} :
      piece c cs = .ok ⟨some kind, n⟩ → Pieces (p.after (c :: cs.take n)) (cs.drop n) ts →
      Pieces p (c :: cs)
        (⟨kind, String.ofList (c :: cs.take n), p.spanTo (p.after (c :: cs.take n))⟩ :: ts)

theorem pieces_of_tokensFrom {p : Position} {cs : List Char} {ts : List Token}
    (h : tokensFrom p cs = .ok ts) : Pieces p cs ts := by
  -- on the length of the text, of which each piece takes at least one character
  induction hn : cs.length using Nat.strongRecOn generalizing p cs ts with
  | _ n ih =>
  subst hn
  cases cs with
  | nil =>
    rw [tokensFrom] at h
    cases h
    exact .ends p
  | cons c cs =>
    rw [tokensFrom] at h
    cases hp : piece c cs with
    | error bad =>
      rw [hp] at h
      cases h
    | ok piece =>
      rw [hp] at h
      dsimp only at h
      have hlt : (cs.drop piece.more).length < (c :: cs).length := by
        rw [List.length_drop, List.length_cons]
        omega
      cases hrest : tokensFrom (p.after (c :: cs.take piece.more)) (cs.drop piece.more) with
      | error e =>
        rw [hrest] at h
        cases h
      | ok us =>
        rw [hrest] at h
        obtain ⟨kind, more⟩ := piece
        cases kind with
        | none =>
          cases h
          exact .gap hp (ih _ hlt hrest rfl)
        | some kind =>
          cases h
          exact .token hp (ih _ hlt hrest rfl)

/-- The tokens of a text behind a place: they start there, stand in order, lie in the text, and
the end of the text is the last of them. -/
structure Tokens (text front : List Char) (ts : List Token) : Prop where
  tidy : Tidy ts
  offset_le : ∀ t ∈ ts, (Position.start.after front).offset ≤ t.span.offset
  liesIn : ∀ t ∈ ts, t.LiesIn text
  ends : ∃ init last, ts = init ++ [last] ∧ last.kind = .eof

theorem Pieces.tokens {text front cs : List Char} {p : Position} {ts : List Token}
    (h : Pieces p cs ts) (hp : p = Position.start.after front) (hcs : text = front ++ cs) :
    Tokens text front ts := by
  induction h generalizing front with
  | ends p =>
    subst hp
    refine ⟨⟨List.pairwise_singleton .., ?_⟩, ?_, ?_, [], _, rfl, rfl⟩
    all_goals
      intro t ht
      rw [List.mem_singleton.mp ht]
    · rintro ⟨⟩
    · exact Nat.le_refl _
    · have hempty : "".toList = [] := String.toList_ofList
      refine ⟨front, [], ?_, ?_⟩
      · show _ = front ++ "".toList ++ []
        rw [hcs, hempty, List.append_nil, List.append_nil]
      · show (Position.start.after front).spanTo _ = (Position.start.after front).spanTo
          ((Position.start.after front).after "".toList)
        rw [hempty, Position.after_nil]
  | @gap p c cs n ts hpiece hts ih =>
    subst hp
    have htext : text = front ++ (c :: cs.take n) ++ cs.drop n := by
      rw [hcs, List.append_assoc, List.cons_append, List.take_append_drop]
    have hfar := Position.offset_le_after (Position.start.after front) (c :: cs.take n)
    rw [← Position.after_append] at hfar
    obtain ⟨htidy, hoffset, hin, hends⟩ := ih (Position.after_append ..).symm htext
    exact ⟨htidy, fun t ht => Nat.le_trans hfar (hoffset t ht), hin, hends⟩
  | @token p c cs kind n ts hpiece hts ih =>
    subst hp
    have htext : text = front ++ (c :: cs.take n) ++ cs.drop n := by
      rw [hcs, List.append_assoc, List.cons_append, List.take_append_drop]
    have hfar := Position.offset_le_after (Position.start.after front) (c :: cs.take n)
    rw [← Position.after_append] at hfar
    obtain ⟨htidy, hoffset, hin, init, last, hinit, hlast⟩ :=
      ih (Position.after_append ..).symm htext
    -- the token in front ends where the others start
    refine ⟨⟨List.pairwise_cons.mpr ⟨fun u hu => ?_, htidy.ordered⟩,
      List.forall_mem_cons.mpr ⟨fun hk => ?_, htidy.double⟩⟩,
      List.forall_mem_cons.mpr ⟨Nat.le_refl _, fun u hu => Nat.le_trans hfar (hoffset u hu)⟩,
      List.forall_mem_cons.mpr ⟨⟨front, cs.drop n, ?_, ?_⟩, hin⟩,
      _ :: init, last, by rw [hinit]; rfl, hlast⟩
    · have := hoffset u hu
      rw [Position.after_append] at this hfar
      show (Position.start.after front).offset +
        (((Position.start.after front).after (c :: cs.take n)).offset -
          (Position.start.after front).offset) ≤ _
      omega
    · have hlexeme : String.ofList (c :: cs.take n) = ">>" := by
        apply piece_double
        rw [hpiece, ← show kind = .greaterGreater from hk]
      refine ⟨hlexeme, ?_⟩
      have hchars : c :: cs.take n = ['>', '>'] := by
        rw [← String.toList_ofList (l := c :: cs.take n), hlexeme]
        rfl
      rw [hchars]
      show (Position.start.after front).offset + 1 + 1 - (Position.start.after front).offset = 2
      omega
    · rw [String.toList_ofList]
      exact htext
    · rw [String.toList_ofList]

/-- What holds of every token that a piece makes, and of the end of the text, holds of the tokens of a
text. -/
theorem tokensFrom_forall {P : Token → Prop} {p : Position} {cs : List Char} {ts : List Token}
    (heof : ∀ span, P ⟨.eof, "", span⟩)
    (hpiece : ∀ c cs kind n span, piece c cs = .ok ⟨some kind, n⟩ →
      P ⟨kind, String.ofList (c :: cs.take n), span⟩)
    (h : tokensFrom p cs = .ok ts) : ∀ t ∈ ts, P t := by
  have hts := pieces_of_tokensFrom h
  clear h
  induction hts with
  | ends p => exact List.forall_mem_singleton.mpr (heof _)
  | gap _ _ ih => exact ih
  | token hp _ ih => exact List.forall_mem_cons.mpr ⟨hpiece _ _ _ _ _ hp, ih⟩

theorem tokenize_tokens {text : String} {ts : List Token} (h : tokenize text = .ok ts) :
    Tokens text.toList [] ts :=
  (pieces_of_tokensFrom h).tokens rfl rfl

/-! ## 3. What a cursor takes -/

namespace Cursor

variable {c d e : Cursor} {ts us : List Taken}

/-- A cursor takes tokens on the way to another. -/
inductive Takes (c : Cursor) : List Taken → Cursor → Prop
  | none : Takes c [] c
  | skip {ts : List Taken} {d : Cursor} :
      Takes c ts d → d.kind ≠ .eof → Takes c (ts ++ [.whole d.peek]) d.skip
  | split {ts : List Taken} {d : Cursor} :
      Takes c ts d → d.kind = .greaterGreater → Takes c (ts ++ [.firstHalf d.peek]) d.split

theorem Takes.trans (h : c.Takes ts d) (h' : d.Takes us e) : c.Takes (ts ++ us) e := by
  induction h' with
  | none => rwa [List.append_nil]
  | skip _ hk ih =>
    rw [← List.append_assoc]
    exact ih.skip hk
  | split _ hk ih =>
    rw [← List.append_assoc]
    exact ih.split hk

theorem Takes.eq_of_nil (h : c.Takes [] d) : d = c := by
  generalize hts : ([] : List Taken) = ts at h
  cases h with
  | none => rfl
  | skip => exact absurd hts.symm (List.append_ne_nil_of_right_ne_nil _ (List.cons_ne_nil _ _))
  | split => exact absurd hts.symm (List.append_ne_nil_of_right_ne_nil _ (List.cons_ne_nil _ _))

theorem takes_skip (hk : c.kind ≠ .eof) : c.Takes [.whole c.peek] c.skip := Takes.none.skip hk

theorem takes_split (hk : c.kind = .greaterGreater) : c.Takes [.firstHalf c.peek] c.split :=
  Takes.none.split hk

theorem Takes.reaches (h : c.Takes ts d) (hc : c.Sound) : ∃ ss, c.Reaches ss d := by
  induction h with
  | none => exact ⟨[], hc.reaches⟩
  | skip _ hk ih =>
    obtain ⟨ss, hreaches⟩ := ih
    exact ⟨_, hreaches.trans (hreaches.sound.reaches_skip hk)⟩
  | split _ hk ih =>
    obtain ⟨ss, hreaches⟩ := ih
    exact ⟨_, hreaches.trans (hreaches.sound.reaches_split hk)⟩

theorem Takes.sound (h : c.Takes ts d) (hc : c.Sound) : d.Sound :=
  (h.reaches hc).elim fun _ hreaches => hreaches.sound

theorem Takes.undoes (h : c.Takes ts d) (hc : c.Sound) : c.Undoes d :=
  (h.reaches hc).elim fun _ hreaches => hreaches.undoes

/-- What is taken is cut off what is left. -/
theorem Takes.cut (h : c.Takes ts d) (hc : c.Sound) : Cut c.left ts d.left := by
  induction h with
  | none => exact .done _
  | @skip ts d hd hk ih =>
    have hsound := hd.sound hc
    refine ih.append ?_
    rw [hsound.left_eq, left_skip hk]
    exact (Cut.done _).whole
  | @split ts d hd hk ih =>
    have hsound := hd.sound hc
    refine ih.append ?_
    rw [hsound.left_eq, hsound.left_split]
    exact (Cut.done _).half hk

theorem Takes.tidy (h : c.Takes ts d) (hc : c.Sound) (htidy : Tidy c.left) : Tidy d.left := by
  have hall := (h.cut hc).tidy htidy
  exact ⟨(List.pairwise_append.mp hall.ordered).2.1,
    fun t ht => hall.double t (List.mem_append_right _ ht)⟩

/-- A token that is taken whole first is the one at the cursor. -/
theorem Takes.eq_peek {t : Token} (h : c.Takes (.whole t :: ts) d) (hc : c.Sound) : t = c.peek := by
  have hcut := h.cut hc
  rw [hc.left_eq] at hcut
  generalize hus : Taken.whole t :: ts = us at hcut
  generalize d.left = rest at hcut
  cases hcut with
  | done => cases hus
  | whole => exact congrArg Taken.token (List.cons.inj hus).1
  | half => cases (congrArg Taken.half (List.cons.inj hus).1 : false = true)

/-- After the first half of a `>>` comes the second. -/
theorem Sound.kind_split (h : c.Sound) : c.split.kind = .greater := by
  have hsize : c.split.buffer.size = c.buffer.size := Array.size_setIfInBounds ..
  have hlt := h.lt_size
  have hmin : min (c.split.position + 0) (c.split.buffer.size - 1) = c.position := by
    rw [hsize]
    show min (c.position + 0) _ = _
    omega
  show (c.split.peekAt 0).kind = _
  rw [peekAt, hmin]
  show ((c.buffer.setIfInBounds c.position (halves c.peek).2)[c.position]?.getD Token.none).kind = _
  rw [Array.getElem?_setIfInBounds_self_of_lt hlt]
  rfl

theorem Takes.kind_of_half {t : Taken} (h : c.Takes (ts ++ [t]) d) (hc : c.Sound)
    (ht : t.half = true) : d.kind = .greater := by
  generalize hus : ts ++ [t] = us at h
  cases h with
  | none => cases ts <;> cases hus
  | skip h hk =>
    obtain ⟨-, hlast⟩ := List.append_inj' hus rfl
    rw [(List.cons.inj hlast).1] at ht
    cases ht
  | split h hk => exact (h.sound hc).kind_split

/-- The span of the token read last, where it was taken whole. -/
theorem Takes.previousSpan {t : Taken} (h : c.Takes (ts ++ [t]) d) (hc : c.Sound)
    (ht : t.half = false) : d.previousSpan = t.token.span := by
  generalize hus : ts ++ [t] = us at h
  cases h with
  | none => cases ts <;> cases hus
  | @skip us d h hk =>
    obtain ⟨-, hlast⟩ := List.append_inj' hus rfl
    rw [(List.cons.inj hlast).1]
    have hsound := h.sound hc
    have hlt := hsound.lt_size
    have hget : d.buffer[d.position]? = some d.peek := by
      have hleft := hsound.left_eq
      rw [left] at hleft
      rw [← Array.getElem?_toList, ← List.head?_drop, hleft]
      rfl
    have hskip : d.skip = { d with position := d.position + 1 } := if_neg hk
    rw [hskip, Cursor.previousSpan, if_neg (Nat.succ_ne_zero _)]
    show ((d.buffer[d.position + 1 - 1]?).map _).getD _ = _
    rw [Nat.add_sub_cancel, hget]
    rfl
  | split h hk =>
    obtain ⟨-, hlast⟩ := List.append_inj' hus rfl
    rw [(List.cons.inj hlast).1] at ht
    cases ht

/-- After the first half of a `>>`, the token before it counts as read last. -/
theorem Takes.previousSpan_half {t u : Taken} (h : c.Takes (ts ++ [u] ++ [t]) d) (hc : c.Sound)
    (ht : t.half = true) : u.half = false ∧ d.previousSpan = u.token.span := by
  generalize hus : ts ++ [u] ++ [t] = us at h
  cases h with
  | none => cases ts <;> cases hus
  | skip h hk =>
    obtain ⟨-, hlast⟩ := List.append_inj' hus rfl
    rw [(List.cons.inj hlast).1] at ht
    cases ht
  | @split us d h hk =>
    obtain ⟨hinit, -⟩ := List.append_inj' hus rfl
    subst hinit
    have hu : u.half = false := by
      refine Bool.eq_false_iff.mpr fun hhalf => ?_
      have := h.kind_of_half hc hhalf
      rw [hk] at this
      cases this
    have hprevious := h.previousSpan hc hu
    refine ⟨hu, ?_⟩
    rw [← hprevious, Cursor.previousSpan, Cursor.previousSpan]
    show (if d.position = 0 then _ else
      (((d.buffer.setIfInBounds d.position _)[d.position - 1]?).map _).getD _) = _
    by_cases hzero : d.position = 0
    · rw [if_pos hzero, if_pos hzero]
    · rw [if_neg hzero, if_neg hzero, Array.getElem?_setIfInBounds_ne (by omega)]

end Cursor

end FatArrow.Syntax
