import FatArrow.Proofs.Syntax.Scan
import FatArrow.Proofs.Syntax.Slices
import Mathlib.Data.List.DropRight

/-!
# The tokens of a text cover it

A text that is cut into tokens is gaps and lexemes by turns.  A gap is made of blanks and whole
comments, every lexeme has a token of its own that says where it stands, and behind the last gap the
text ends.  So nothing of a text but its gaps is missing from its tokens.
-/

namespace FatArrow.Syntax

open Text
open Checked (size size_nil size_cons size_append size_toList offset_start bytesBetween?_run)

variable {c : Char} {cs rest front : List Char} {t : Token} {ts : List Token}

/-! ## 1. Gaps -/

/-- A run of blanks and whole comments in front of the rest of a text.  A comment after `//` goes on
to the end of its line, one after `/*` to the first `*/`. -/
inductive Gap : (gap rest : List Char) → Prop
  | none (rest : List Char) : Gap [] rest
  | blank {c : Char} {cs rest : List Char} : isBlank c = true → Gap cs rest → Gap (c :: cs) rest
  | line {body cs rest : List Char} : '\n' ∉ body → (∀ c ∈ (cs ++ rest).head?, c = '\n') →
      Gap cs rest → Gap ('/' :: '/' :: body ++ cs) rest
  | block {body cs rest : List Char} : ¬ ['*', '/'] <:+: body →
      Gap cs rest → Gap ('/' :: '*' :: body ++ ['*', '/'] ++ cs) rest

/-- A comment that is closed ends in the first `*/`. -/
theorem comment_closed {n : Nat} (h : comment cs = (n, true)) :
    ∃ body, cs.take n = body ++ ['*', '/'] ∧ ¬ ['*', '/'] <:+: body := by
  fun_induction comment cs generalizing n with
  | case1 => cases h
  | case2 cs =>
    obtain ⟨rfl, -⟩ := Prod.mk.inj h
    exact ⟨[], rfl, by simp⟩
  | case3 c cs hopen n' closed hscan ih =>
    obtain ⟨rfl, rfl⟩ := Prod.mk.inj h
    obtain ⟨body, hbody, hinfix⟩ := ih hscan
    refine ⟨c :: body, by rw [List.take_succ_cons, hbody]; rfl, fun hmem => ?_⟩
    rcases List.infix_cons_iff.mp hmem with hfirst | hlater
    · -- the `*/` would start at the first character, where the comment goes on
      obtain ⟨rfl, hslash⟩ := List.cons_prefix_cons.mp hfirst
      obtain ⟨tail, rfl⟩ := hslash
      have hcs := List.take_append_drop n' cs
      rw [hbody] at hcs
      exact hopen _ rfl hcs.symm
    · exact hinfix hlater

/-- A run of characters that pass a test ends in front of one that fails it. -/
theorem run_split (p : Char → Bool) (cs : List Char) : ∃ body back, cs = body ++ back ∧
    run p cs = body.length ∧ (∀ c ∈ body, p c = true) ∧ ∀ c ∈ back.head?, p c = false := by
  refine ⟨cs.takeWhile p, cs.dropWhile p, List.takeWhile_append_dropWhile.symm, rfl,
    fun c => List.mem_takeWhile_imp, fun c hc => ?_⟩
  have hhead := List.head?_dropWhile_not p cs
  rwa [Option.mem_def.mp hc] at hhead

/-- Behind its first character a piece is gap, whatever gap goes on with it. -/
def GapsOn (c : Char) (cs : List Char) (n : Nat) : Prop :=
  ∀ gap rest, cs.drop n = gap ++ rest → Gap gap rest → Gap (c :: cs.take n ++ gap) rest

theorem gapsOn_blank (h : isBlank c = true) : GapsOn c cs 0 :=
  fun _ _ _ hgap => hgap.blank h

theorem gapsOn_line (cs : List Char) : GapsOn '/' ('/' :: cs) (1 + run (· != '\n') cs) := by
  intro gap rest hcs hgap
  obtain ⟨body, back, rfl, hrun, hbody, hback⟩ := run_split (· != '\n') cs
  rw [hrun, Nat.add_comm, List.drop_succ_cons, List.drop_left] at hcs
  subst hcs
  rw [hrun, Nat.add_comm, List.take_succ_cons, List.take_left]
  refine hgap.line (fun hmem => ?_) fun c hc => bne_eq_false_iff_eq.mp (hback c hc)
  exact bne_iff_ne.mp (hbody _ hmem) rfl

theorem gapsOn_block {n : Nat} (h : comment cs = (n, true)) : GapsOn '/' ('*' :: cs) (1 + n) := by
  intro gap rest hcs hgap
  obtain ⟨body, hbody, hinfix⟩ := comment_closed h
  rw [Nat.add_comm, List.take_succ_cons, hbody]
  exact hgap.block hinfix

/-! ## 2. Pieces -/

/-- The piece is a token, and not the end of the text. -/
def Piece.IsToken (p : Piece) : Prop := ∃ kind, p.kind = some kind ∧ kind ≠ .eof

theorem literalPiece_isToken {kind : TokenKind} {cause : Cause} {skip : Nat} {scanned : Nat × Bool}
    {p : Piece} (h : literalPiece kind cause skip scanned = .ok p) (hk : kind ≠ .eof) :
    p.IsToken := by
  unfold literalPiece at h
  split at h
  · cases h
    exact ⟨kind, rfl, hk⟩
  · cases h

theorem number_isToken {p : Piece} (h : number c cs = .ok p) : p.IsToken := by
  unfold number decimalNumber at h
  dsimp only at h
  repeat' split at h
  all_goals
    cases h
    try exact ⟨_, rfl, by decide⟩

theorem word_isToken (c : Char) (cs : List Char) : (word c cs).IsToken := by
  refine ⟨_, rfl, ?_⟩
  unfold keyword?
  repeat' split
  all_goals decide

theorem oneCharOperator?_ne_eof (c : Char) : oneCharOperator? c ≠ some .eof := by
  unfold oneCharOperator?
  split <;> exact nofun

theorem twoCharOperator?_ne_eof (c d : Char) : twoCharOperator? c d ≠ some .eof := by
  unfold twoCharOperator?
  repeat' split
  all_goals exact nofun

theorem operator_isToken {p : Piece} (h : operator c cs = .ok p) : p.IsToken := by
  unfold operator at h
  split at h
  next kind hk =>
    cases h
    obtain ⟨d, -, hk⟩ := Option.bind_eq_some_iff.mp hk
    refine ⟨kind, rfl, ?_⟩
    rintro rfl
    exact twoCharOperator?_ne_eof _ _ hk
  next =>
    split at h
    next kind hk =>
      cases h
      refine ⟨kind, rfl, ?_⟩
      rintro rfl
      exact oneCharOperator?_ne_eof _ hk
    next => cases h

/-- A piece is a token, or a blank or a whole comment. -/
theorem piece_cases {p : Piece} (h : piece c cs = .ok p) :
    p.IsToken ∨ p.kind = none ∧ GapsOn c cs p.more := by
  unfold piece at h
  split at h
  next hblank =>
    cases h
    exact .inr ⟨rfl, gapsOn_blank hblank⟩
  split at h
  next hmark =>
    obtain ⟨rfl, hhead⟩ := hmark
    obtain ⟨cs, rfl⟩ := List.head?_eq_some_iff.mp hhead
    cases h
    exact .inr ⟨rfl, gapsOn_line cs⟩
  split at h
  next hmark =>
    obtain ⟨rfl, hhead⟩ := hmark
    obtain ⟨cs, rfl⟩ := List.head?_eq_some_iff.mp hhead
    cases hscan : comment cs with
    | mk n closed =>
    rw [List.drop_one, List.tail_cons, hscan] at h
    cases closed with
    | false => cases h
    | true =>
      cases h
      exact .inr ⟨rfl, gapsOn_block hscan⟩
  left
  split at h
  next => exact literalPiece_isToken h (by decide)
  split at h
  next => exact literalPiece_isToken h (by decide)
  split at h
  next => exact literalPiece_isToken h (by decide)
  split at h
  next => exact number_isToken h
  split at h
  next =>
    cases h
    exact word_isToken c cs
  exact operator_isToken h

/-! ## 3. Places -/

/-- The characters behind the last line feed. -/
def lastLine (cs : List Char) : List Char := cs.rtakeWhile (· != '\n')

/-- Lines are counted by line feeds, and columns by the bytes since the last one. -/
theorem line_col_start (cs : List Char) :
    (Position.start.after cs).line = 1 + cs.count '\n' ∧
      (Position.start.after cs).col = 1 + size (lastLine cs) := by
  induction cs using List.reverseRecOn with
  | nil => exact ⟨rfl, by rw [lastLine, List.rtakeWhile_nil, size_nil]; rfl⟩
  | append_singleton cs c ih =>
    obtain ⟨hline, hcol⟩ := ih
    rw [Position.after_append, Position.after_cons, Position.after_nil, lastLine,
      List.rtakeWhile_concat, List.count_append, List.count_singleton, Position.next]
    by_cases hc : c = '\n'
    · subst hc
      refine ⟨?_, ?_⟩
      · show (Position.start.after cs).line + 1 = _
        rw [hline]
        rfl
      · rw [if_pos rfl, if_neg (by decide), size_nil]
    · rw [if_neg hc, if_pos (bne_iff_ne.mpr hc), if_neg (by simpa using hc), size_append, size_cons,
        size_nil, Nat.add_zero, hline, hcol, ← Nat.add_assoc]
      exact ⟨rfl, rfl⟩

/-! ## 4. A text laid out -/

/-- The place behind the front of a text. -/
abbrev placeAfter (front : List Char) : Position := Position.start.after front

/-- Behind the front of a text, the rest of it laid out in tokens, each behind a gap. -/
inductive Laid : (front rest : List Char) → List Token → Prop
  | ends {front gap : List Char} : Gap gap [] → Laid front gap
      [⟨.eof, "", (placeAfter (front ++ gap)).spanTo (placeAfter (front ++ gap))⟩]
  | token {front gap lexeme rest : List Char} {kind : TokenKind} {ts : List Token} :
      Gap gap (lexeme ++ rest) → kind ≠ .eof → lexeme ≠ [] →
      Laid (front ++ gap ++ lexeme) rest ts →
      Laid front (gap ++ (lexeme ++ rest)) (⟨kind, String.ofList lexeme,
        (placeAfter (front ++ gap)).spanTo (placeAfter (front ++ gap ++ lexeme))⟩ :: ts)

/-- A stretch of gap in front is part of the first gap. -/
theorem Laid.behind {stretch : List Char} (h : Laid (front ++ stretch) rest ts)
    (hgap : ∀ gap back, rest = gap ++ back → Gap gap back → Gap (stretch ++ gap) back) :
    Laid front (stretch ++ rest) ts := by
  cases h with
  | ends h =>
    rw [List.append_assoc]
    exact .ends (hgap _ _ (List.append_nil _).symm h)
  | token h hkind hlexeme hts =>
    rw [List.append_assoc front stretch] at hts
    rw [List.append_assoc, ← List.append_assoc stretch]
    exact .token (hgap _ _ rfl h) hkind hlexeme hts

/-- What is cut piece by piece is laid out: gaps in a row make one gap. -/
theorem Laid.of_pieces {p : Position} (h : Pieces p cs ts) (hp : p = placeAfter front) :
    Laid front cs ts := by
  induction h generalizing front with
  | ends p =>
    subst hp
    have hends := @Laid.ends front [] (.none [])
    rwa [List.append_nil] at hends
  | @gap p c cs n ts hpiece _ ih =>
    subst hp
    have hrest := ih (Position.after_append ..).symm
    rcases piece_cases hpiece with ⟨kind, hkind, -⟩ | ⟨-, hgaps⟩
    · cases hkind
    · rw [← List.take_append_drop n cs, ← List.cons_append]
      exact hrest.behind hgaps
  | @token p c cs kind n ts hpiece _ ih =>
    subst hp
    have hne : kind ≠ .eof := by
      rcases piece_cases hpiece with ⟨kind', hkind, hne⟩ | ⟨hkind, -⟩
      · cases hkind
        exact hne
      · cases hkind
    have hrest := ih (Position.after_append ..).symm
    rw [← List.append_nil front] at hrest
    have htoken := Laid.token (.none _) hne (List.cons_ne_nil c _) hrest
    rw [List.append_nil, List.nil_append, List.cons_append, List.take_append_drop] at htoken
    rwa [← Position.after_append]

/-- No token of what is laid out starts before it. -/
theorem Laid.offset_le (h : Laid front rest ts) : ∀ t ∈ ts, size front ≤ t.span.offset := by
  induction h with
  | ends h =>
    refine List.forall_mem_singleton.mpr ?_
    show _ ≤ (placeAfter _).offset
    rw [offset_start, size_append]
    exact Nat.le_add_right ..
  | token _ _ _ _ ih =>
    refine List.forall_mem_cons.mpr ⟨?_, fun t ht => Nat.le_trans ?_ (ih t ht)⟩
    · show _ ≤ (placeAfter _).offset
      rw [offset_start, size_append]
      exact Nat.le_add_right ..
    · rw [List.append_assoc, size_append]
      exact Nat.le_add_right ..

theorem stop_spanTo (front lexeme : List Char) :
    ((placeAfter front).spanTo (placeAfter (front ++ lexeme))).stop = size (front ++ lexeme) := by
  have hle : size front ≤ size (front ++ lexeme) := by
    rw [size_append]
    exact Nat.le_add_right ..
  show (placeAfter front).offset + ((placeAfter (front ++ lexeme)).offset -
    (placeAfter front).offset) = _
  rw [offset_start, offset_start, Nat.add_sub_cancel' hle]

/-- A token that is laid out takes a byte at least, and the next one does not start before it
stops. -/
theorem Laid.ordered (h : Laid front rest ts) :
    ts.Pairwise fun t u => t.span.offset < u.span.offset ∧ t.span.stop ≤ u.span.offset := by
  induction h with
  | ends => exact List.pairwise_singleton ..
  | @token front gap lexeme rest kind ts _ _ hlexeme hts ih =>
    refine List.pairwise_cons.mpr ⟨fun u hu => ?_, ih⟩
    have hbehind := hts.offset_le u hu
    have hpos : 0 < size lexeme := by
      obtain ⟨c, cs, rfl⟩ := List.exists_cons_of_ne_nil hlexeme
      rw [size_cons]
      exact Nat.add_pos_left c.utf8Size_pos _
    refine ⟨?_, by rwa [stop_spanTo]⟩
    show (placeAfter _).offset < _
    rw [size_append] at hbehind
    rw [offset_start]
    omega

/-- The last token, and no other, is the end of the text. -/
theorem Laid.ends_at (h : Laid front rest ts) : ∃ init last, ts = init ++ [last] ∧
    (∀ t ∈ init, t.kind ≠ .eof) ∧ last.kind = .eof ∧ last.lexeme = "" ∧
    last.span.offset = size (front ++ rest) ∧ last.span.len = 0 := by
  induction h with
  | ends => exact ⟨[], _, rfl, nofun, rfl, rfl, offset_start _, Nat.sub_self _⟩
  | @token front gap lexeme rest _ ts _ hkind _ _ ih =>
    obtain ⟨init, last, rfl, hinit, hlast⟩ := ih
    rw [List.append_assoc, List.append_assoc] at hlast
    exact ⟨_ :: init, last, rfl, List.forall_mem_cons.mpr ⟨hkind, hinit⟩, hlast⟩

/-- From a byte on, each token of a text is behind a gap, which starts where the token before it
stops. -/
def Gapped (text : List Char) : (first : Nat) → List Token → Prop
  | _, [] => True
  | first, t :: ts =>
    (∃ gap rest, bytesBetween? first t.span.offset text = some gap ∧
      bytesBetween? t.span.offset (size text) text = some rest ∧ Gap gap rest) ∧
    Gapped text t.span.stop ts

theorem Laid.gapped (h : Laid front rest ts) : Gapped (front ++ rest) (size front) ts := by
  -- a gap is cut out by the bytes up to it, and the rest by those up to the end of the text
  have hcut {front gap rest : List Char} (hgap : Gap gap rest) : ∃ g r,
      bytesBetween? (size front) (placeAfter (front ++ gap)).offset (front ++ (gap ++ rest)) =
        some g ∧
      bytesBetween? (placeAfter (front ++ gap)).offset (size (front ++ (gap ++ rest)))
        (front ++ (gap ++ rest)) = some r ∧ Gap g r := by
    have hrest := bytesBetween?_run (front ++ gap) rest []
    rw [← size_append, List.append_nil, List.append_assoc] at hrest
    refine ⟨gap, rest, ?_, ?_, hgap⟩
    · rw [offset_start, size_append]
      exact bytesBetween?_run ..
    · rw [offset_start]
      exact hrest
  induction h with
  | @ends front gap hgap =>
    have hends := @hcut front gap [] hgap
    rw [List.append_nil] at hends
    exact ⟨hends, trivial⟩
  | @token front gap lexeme rest _ ts hgap _ _ _ ih =>
    refine ⟨hcut hgap, ?_⟩
    rw [List.append_assoc, List.append_assoc] at ih
    rwa [stop_spanTo]

/-! ## 5. Nothing is lost -/

/-- The tokens of a text that loses nothing but its gaps.  They stand in order and apart, each where
its span says and with the characters that stand there, and behind gaps; the last one alone is the
end of the text, and there is nothing behind it. -/
structure Lossless (text : String) (ts : List Token) : Prop where
  ordered : ts.Pairwise fun t u => t.span.offset < u.span.offset ∧ t.span.stop ≤ u.span.offset
  sliced : ∀ t ∈ ts, t.span.slice? text = some t.lexeme
  placed : ∀ t ∈ ts, ∃ front, bytesBetween? 0 t.span.offset text.toList = some front ∧
    t.span.line = 1 + front.count '\n' ∧ t.span.col = 1 + size (lastLine front)
  gapped : Gapped text.toList 0 ts
  ends : ∃ init last, ts = init ++ [last] ∧ (∀ t ∈ init, t.kind ≠ .eof) ∧ last.kind = .eof ∧
    last.lexeme = "" ∧ last.span.offset = text.utf8ByteSize ∧ last.span.len = 0

/-- A token that lies in a text is cut out by its span. -/
theorem Token.LiesIn.sliced {text : String} (h : t.LiesIn text.toList) :
    t.span.slice? text = some t.lexeme := by
  obtain ⟨front, back, htext, hspan⟩ := h
  rw [← Position.after_append] at hspan
  have hrun := bytesBetween?_run front t.lexeme.toList back
  rw [← size_append, ← List.append_assoc, ← htext] at hrun
  rw [Span.slice?, hspan, stop_spanTo]
  show (bytesBetween? (placeAfter front).offset _ _).map _ = _
  rw [offset_start, hrun, Option.map_some, String.ofList_toList]

/-- The line and the column of a token that lies in a text are those of the text before it. -/
theorem Token.LiesIn.placed {text : List Char} (h : t.LiesIn text) :
    ∃ front, bytesBetween? 0 t.span.offset text = some front ∧
      t.span.line = 1 + front.count '\n' ∧ t.span.col = 1 + size (lastLine front) := by
  obtain ⟨front, back, htext, hspan⟩ := h
  have hfront := Checked.bytesBetween?_front front (t.lexeme.toList ++ back)
  rw [← List.append_assoc, ← htext] at hfront
  obtain ⟨hline, hcol⟩ := line_col_start front
  rw [hspan]
  refine ⟨front, ?_, hline, hcol⟩
  show bytesBetween? 0 (placeAfter front).offset text = _
  rw [offset_start]
  exact hfront

end FatArrow.Syntax
