import FatArrow.Proofs.Printing.ReadPart
import FatArrow.Proofs.Syntax.Literals

/-!
# Texts that are one literal

A text that is cut into one token of a literal is the literal expression that its lexeme denotes.
What is printed of a string and of a character is such a text, and so is a string between verbatim
quotes: the scanner finds the quote that was put last, whatever stands in front of it, and what is
between the quotes is read as what was written there.
-/

namespace FatArrow.Syntax

open Text Reader

variable {c : Char} {cs : List Char} {kind : TokenKind} {text : String} {l : Literal}

/-! ## 1. Texts of one token -/

/-- Where a whole text stands. -/
def wholeSpan (text : String) : Span := Position.start.spanTo (Position.start.after text.toList)

/-- A text is one token of a kind, which is all of the text, and the end of the text. -/
def OneToken (kind : TokenKind) (text : String) : Prop :=
  ∃ there, tokenize text = .ok [⟨kind, text, wholeSpan text⟩, ⟨.eof, "", there⟩]

theorem OneToken.of_piece (htext : text.toList = c :: cs)
    (hp : piece c cs = .ok ⟨some kind, cs.length⟩) : OneToken kind text := by
  obtain ⟨q, hq⟩ : ∃ q, Position.start.after (c :: cs) = q := ⟨_, rfl⟩
  have hwhole : Position.start.after (c :: cs.take cs.length) = q := by
    rw [List.take_length, hq]
  have hend : tokensFrom q (cs.drop cs.length) = .ok [⟨.eof, "", q.spanTo q⟩] := by
    rw [List.drop_length, tokensFrom]
  refine ⟨q.spanTo q, ?_⟩
  rw [tokenize, htext, tokensFrom_token hp hwhole hend, List.take_length, ← htext,
    String.ofList_toList, wholeSpan, htext, hq]

/-- A text of one literal token is the literal that the token denotes, or is refused as the token
is. -/
theorem OneToken.parseNode_eq (h : OneToken kind text) (hk : kind.isLiteral = true) :
    parseNode text = (literalOf ⟨kind, text, wholeSpan text⟩).map (.literal · (wholeSpan text)) := by
  obtain ⟨there, htokens⟩ := h
  obtain ⟨fuel, hfuel⟩ : ∃ fuel, readingDepth [⟨kind, text, wholeSpan text⟩, ⟨.eof, "", there⟩] =
      fuel + 2 := ⟨46, rfl⟩
  unfold parseNode Syntax.read
  rw [htokens]
  dsimp only
  rw [hfuel]
  set c := Cursor.ofTokens [⟨kind, text, wholeSpan text⟩, ⟨.eof, "", there⟩] with hc
  have hpeek : c.peek = ⟨kind, text, wholeSpan text⟩ := rfl
  have hliteral : c.kind.isLiteral = true := hk
  have hend : c.skip.kind = .eof := by
    have hne : c.kind ≠ .eof := fun he => by rw [he] at hliteral; cases hliteral
    rw [Cursor.skip, if_neg hne]
    rfl
  cases hl : literalOf c.peek with
  | error e =>
    have hoperand : operand (fuel + 1) c = .error (.refused e) c.skip := by
      rw [operand_of_isLiteral hliteral, literalNode, hl]
      rfl
    have hnode : node (fuel + 2) 0 c = .error (.refused e) c.skip := by
      rw [node, bind_of_error hoperand]
    rw [hpeek] at hl
    rw [wholeNode, bind_of_error hnode, hl]
    rfl
  | ok l =>
    have hnode : node (fuel + 2) 0 c = .ok (.literal l (wholeSpan text)) c.skip := by
      rw [node, bind_of_ok (operand_literal hliteral hl (Nat.succ_pos _)),
        continued_of_closer (by rw [hend]; decide) (Nat.succ_pos _)]
      rfl
    have hatEnd : atEnd c.skip = .ok () c.skip := by
      unfold atEnd
      rw [get_bind]
      exact run_if_pos hend
    rw [hpeek] at hl
    rw [wholeNode, bind_of_ok hnode, bind_of_ok hatEnd, hl]
    rfl

/-- A text is one token of a literal, and is read as the literal. -/
structure IsLiteralText (kind : TokenKind) (text : String) (l : Literal) : Prop where
  token : OneToken kind text
  read : parseNode text = .ok (.literal l (wholeSpan text))

theorem OneToken.isLiteralText (h : OneToken kind text) (hk : kind.isLiteral = true)
    (hl : literalOf ⟨kind, text, wholeSpan text⟩ = .ok l) : IsLiteralText kind text l := by
  refine ⟨h, ?_⟩
  rw [h.parseNode_eq hk, hl]
  rfl

/-! ## 2. Quoted texts -/

/-- A text between quotes is one token, whatever is quoted. -/
theorem oneToken_quotedText {quote : Char} {cause : Cause} (hq : isQuote quote = true)
    (hpiece : ∀ cs, piece quote cs = literalPiece kind cause 0 (quoted quote cs)) (cs : List Char) :
    OneToken kind (quotedText quote cs) := by
  refine .of_piece (toList_quotedText quote cs) ?_
  rw [hpiece, quoted_escaped hq, List.length_append]
  simp [literalPiece]

theorem isLiteralText_quotedString (s : String) :
    IsLiteralText .stringLiteral (quotedText '"' s.toList) (.string s) := by
  refine (oneToken_quotedText rfl (fun _ => rfl) s.toList).isLiteralText rfl ?_
  rw [literalOf]
  dsimp only
  rw [stringLiteral_quotedText]

theorem isLiteralText_quotedChar (c : Char) :
    IsLiteralText .charLiteral (quotedText '\'' [c]) (.char c) := by
  refine (oneToken_quotedText rfl (fun _ => rfl) [c]).isLiteralText rfl ?_
  rw [literalOf]
  dsimp only
  rw [charLiteral_quotedText]

/-! ## 3. Verbatim texts -/

/-- A quote twice, any other character once. -/
def doubled (c : Char) : List Char := if c = '"' then ['"', '"'] else [c]

/-- A text between verbatim quotes. -/
def verbatimText (s : String) : String :=
  String.ofList ('@' :: '"' :: (s.toList.flatMap doubled ++ ['"']))

/-- The quote that closes a verbatim text is the last one, since all others are doubled. -/
theorem verbatim_doubled (cs : List Char) :
    verbatim (cs.flatMap doubled ++ ['"']) = ((cs.flatMap doubled).length + 1, true) := by
  induction cs with
  | nil => rfl
  | cons c cs ih =>
    rw [List.flatMap_cons, List.append_assoc]
    by_cases hc : c = '"'
    · rw [doubled, if_pos hc]
      show verbatim ('"' :: '"' :: (cs.flatMap doubled ++ ['"'])) = _
      rw [verbatim, ih]
      rfl
    · rw [doubled, if_neg hc]
      show verbatim (c :: (cs.flatMap doubled ++ ['"'])) = _
      rw [verbatim, ih]
      · rfl
      · exact fun _ h => absurd h hc
      · exact fun h => absurd h hc

theorem undouble_doubled (cs : List Char) : undouble (cs.flatMap doubled) = cs := by
  induction cs with
  | nil => rfl
  | cons c cs ih =>
    rw [List.flatMap_cons]
    by_cases hc : c = '"'
    · rw [doubled, if_pos hc, hc]
      show undouble ('"' :: '"' :: cs.flatMap doubled) = _
      rw [undouble, ih]
    · rw [doubled, if_neg hc]
      show undouble (c :: cs.flatMap doubled) = _
      rw [undouble, ih]
      exact fun _ h => absurd h hc

theorem toList_verbatimText (s : String) :
    (verbatimText s).toList = '@' :: '"' :: (s.toList.flatMap doubled ++ ['"']) := by
  rw [verbatimText, String.toList_ofList]

theorem stringLiteral_verbatimText (s : String) :
    stringLiteral (verbatimText s) = .ok (.string s) := by
  have hinside : unquoted ('"' :: (s.toList.flatMap doubled ++ ['"'])) = s.toList.flatMap doubled := by
    rw [unquoted, List.drop_succ_cons, List.drop_zero, List.dropLast_concat]
  unfold stringLiteral
  rw [toList_verbatimText]
  show Except.ok (Literal.string (String.ofList (undouble
    (unquoted ('"' :: (s.toList.flatMap doubled ++ ['"'])))))) = _
  rw [hinside, undouble_doubled, String.ofList_toList]

theorem isLiteralText_verbatimText (s : String) :
    IsLiteralText .stringLiteral (verbatimText s) (.string s) := by
  have hpiece : piece '@' ('"' :: (s.toList.flatMap doubled ++ ['"'])) =
      .ok ⟨some .stringLiteral, ('"' :: (s.toList.flatMap doubled ++ ['"'])).length⟩ := by
    show literalPiece .stringLiteral .openString 1 (verbatim (s.toList.flatMap doubled ++ ['"'])) = _
    rw [verbatim_doubled, List.length_cons, List.length_append]
    simp [literalPiece, Nat.add_comm]
  refine (OneToken.of_piece (toList_verbatimText s) hpiece).isLiteralText rfl ?_
  rw [literalOf]
  dsimp only
  rw [stringLiteral_verbatimText]

/-! ## 4. Printed constants -/

/-- Strings and characters round-trip: what is printed of a string, and the string between verbatim
quotes, is one token that is read as the string, and likewise what is printed of a character. -/
theorem isLiteralText_text (ns : Namespaces) (type : HostType) (s : String) (c : Char) :
    IsLiteralText .stringLiteral ((Term.const (.string s) type).text ns) (.string s) ∧
      IsLiteralText .stringLiteral (verbatimText s) (.string s) ∧
      IsLiteralText .charLiteral ((Term.const (.char c) type).text ns) (.char c) := by
  simp only [Term.text, Value.literalText]
  exact ⟨isLiteralText_quotedString s, isLiteralText_verbatimText s, isLiteralText_quotedChar c⟩

end FatArrow.Syntax
