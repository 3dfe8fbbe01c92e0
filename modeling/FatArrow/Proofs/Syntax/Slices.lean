import FatArrow.Proofs.Syntax.Checked
import FatArrow.Proofs.Syntax.Taken

/-!
# Cuts that succeed

A run of characters is cut out of a text by the number of bytes before it and after it.  The places that
scanning comes to are of this form, and so are the ends of a literal, which has a quote of one byte on
either side.  So a text is cut into tokens, and a literal into its parts, without a fault.
-/

namespace FatArrow.Syntax

namespace Checked

variable {front mid back cs ds : List Char} {p q : Position}

/-! ## 1. Bytes -/

@[simp] theorem size_nil : size [] = 0 := by
  rw [size, String.ofList_nil, String.utf8ByteSize_empty]

@[simp] theorem size_cons (c : Char) (cs : List Char) : size (c :: cs) = c.utf8Size + size cs := by
  rw [size, String.ofList_cons, String.utf8ByteSize_append, String.utf8ByteSize_singleton, size]

@[simp] theorem size_append (cs ds : List Char) : size (cs ++ ds) = size cs + size ds := by
  rw [size, String.ofList_append, String.utf8ByteSize_append, size, size]

theorem size_toList (s : String) : size s.toList = s.utf8ByteSize := by
  rw [size, String.ofList_toList]

theorem bytesBetween?_front (cs ds : List Char) : bytesBetween? 0 (size cs) (cs ++ ds) = some cs := by
  induction cs with
  | nil => cases ds <;> simp [bytesBetween?]
  | cons c cs ih =>
    have hpos := c.utf8Size_pos
    have hne : c.utf8Size + size cs ≠ 0 := by omega
    rw [size_cons, List.cons_append, bytesBetween?, if_pos rfl, if_neg hne,
      if_pos (Nat.le_add_right ..), Nat.add_sub_cancel_left, ih]
    rfl

theorem bytesBetween?_run (front mid back : List Char) :
    bytesBetween? (size front) (size front + size mid) (front ++ (mid ++ back)) = some mid := by
  induction front with
  | nil =>
    rw [size_nil, Nat.zero_add]
    exact bytesBetween?_front mid back
  | cons c front ih =>
    have hpos := c.utf8Size_pos
    have hne : c.utf8Size + size front ≠ 0 := by omega
    have hle : c.utf8Size ≤ c.utf8Size + size front ∧
        c.utf8Size + size front ≤ c.utf8Size + size front + size mid := by omega
    have hstop : c.utf8Size + size front + size mid - c.utf8Size = size front + size mid := by omega
    rw [size_cons, List.cons_append, bytesBetween?, if_neg hne, if_pos hle,
      Nat.add_sub_cancel_left, hstop, ih]

/-- A run of characters is cut out by the bytes before it and those up to its end. -/
theorem cut_run (front mid back : List Char) :
    cut (size front) (size front + size mid) (front ++ (mid ++ back)) = .ok mid := by
  rw [cut, bytesBetween?_run]

theorem ok_bind {α β : Type} (a : α) (f : α → Except Fault β) : (Except.ok a >>= f) = f a := rfl

theorem minus_of_le {m n : Nat} (h : n ≤ m) : minus m n = .ok (m - n) := if_pos h

/-! ## 2. Places -/

theorem offset_next (p : Position) (c : Char) : (p.next c).offset = p.offset + c.utf8Size := by
  unfold Position.next
  split <;> rfl

theorem offset_after (p : Position) (cs : List Char) : (p.after cs).offset = p.offset + size cs := by
  induction cs generalizing p with
  | nil => rw [Position.after_nil, size_nil, Nat.add_zero]
  | cons c cs ih => rw [Position.after_cons, ih, offset_next, size_cons, Nat.add_assoc]

theorem offset_start (cs : List Char) : (Position.start.after cs).offset = size cs := by
  rw [offset_after]
  exact Nat.zero_add _

theorem after_eq (h : p.offset + size cs < 2 ^ 32) : after p cs = .ok (p.after cs) := by
  induction cs generalizing p with
  | nil => rfl
  | cons c cs ih =>
    rw [size_cons] at h
    rw [after, if_pos (by omega), ih (by rw [offset_next]; omega), Position.after_cons]

/-- Any two places in a text have the characters between them, and their span. -/
theorem between_eq (front mid back : List Char) :
    between (front ++ (mid ++ back)) (Position.start.after front)
        (Position.start.after (front ++ mid)) =
      .ok (String.ofList mid,
        (Position.start.after front).spanTo (Position.start.after (front ++ mid))) := by
  have hle : size front ≤ size (front ++ mid) := by
    rw [size_append]
    exact Nat.le_add_right ..
  unfold between Position.spanTo
  rw [offset_start, offset_start, minus_of_le hle, size_append, cut_run]
  rfl

/-! ## 3. Tokens -/

theorem tokensFrom_eq {text front rest : List Char} (htext : text = front ++ rest)
    (hsize : size text < 2 ^ 32) :
    tokensFrom text (Position.start.after front) rest =
      .ok (Syntax.tokensFrom (Position.start.after front) rest) := by
  -- on the length of the rest, of which each piece takes at least one character
  induction hn : rest.length using Nat.strongRecOn generalizing front rest with
  | _ n ih =>
  subst hn
  cases rest with
  | nil =>
    have hempty := between_eq front [] []
    rw [List.append_nil, List.append_nil] at hempty
    rw [tokensFrom, Syntax.tokensFrom, htext, List.append_nil, hempty]
    rfl
  | cons c cs =>
    -- a piece of any number of characters ends at a place in the text
    have hpiece (n : Nat) :
        after (Position.start.after front) (c :: cs.take n) =
            .ok (Position.start.after (front ++ c :: cs.take n)) ∧
          between text (Position.start.after front) (Position.start.after (front ++ c :: cs.take n)) =
            .ok (String.ofList (c :: cs.take n), (Position.start.after front).spanTo
              (Position.start.after (front ++ c :: cs.take n))) := by
      have hsplit : text = front ++ (c :: cs.take n ++ cs.drop n) := by
        rw [htext, List.cons_append, List.take_append_drop]
      refine ⟨?_, by rw [hsplit]; exact between_eq ..⟩
      rw [Position.after_append]
      refine after_eq ?_
      rw [hsplit, size_append, size_append] at hsize
      rw [offset_start]
      omega
    rw [tokensFrom, Syntax.tokensFrom]
    cases hp : piece c cs with
    | error bad =>
      obtain ⟨hafter, hbetween⟩ := hpiece bad.more
      dsimp only
      rw [← Position.after_append, hafter, ok_bind, hbetween, ok_bind]
      rfl
    | ok piece =>
      obtain ⟨hafter, hbetween⟩ := hpiece piece.more
      have hlt : (cs.drop piece.more).length < (c :: cs).length := by
        rw [List.length_drop, List.length_cons]
        omega
      have hsplit : text = front ++ (c :: cs.take piece.more) ++ cs.drop piece.more := by
        rw [htext, List.append_assoc, List.cons_append, List.take_append_drop]
      have hrest := ih _ hlt hsplit rfl
      dsimp only
      rw [← Position.after_append, hafter, ok_bind, hbetween, ok_bind, hrest, ok_bind]
      cases Syntax.tokensFrom _ (cs.drop piece.more) with
      | error e => rfl
      | ok tokens => cases piece.kind <;> rfl

/-- A text of less than 4 GiB is cut into tokens without a fault. -/
theorem tokenize_eq {text : String} (h : text.utf8ByteSize < 2 ^ 32) :
    tokenize text = .ok (Syntax.tokenize text) :=
  @tokensFrom_eq text.toList [] _ rfl (by rwa [size_toList])

end Checked

/-! ## 4. Tokens in quotes -/

/-- A text between two quotes. -/
def IsQuoted (cs : List Char) : Prop :=
  ∃ quote inner, (quote = '"' ∨ quote = '\'') ∧ cs = quote :: (inner ++ [quote])

/-- The lexeme of a literal of text is in quotes, behind its mark if it has one. -/
structure Token.Quoted (t : Token) : Prop where
  string : t.kind = .stringLiteral →
    IsQuoted t.lexeme.toList ∨ ∃ cs, t.lexeme.toList = '@' :: cs ∧ IsQuoted cs
  char : t.kind = .charLiteral → IsQuoted t.lexeme.toList

/-- What is scanned up to a closing quote ends in it. -/
theorem quoted_closed {quote : Char} {cs : List Char} {n : Nat} (h : quoted quote cs = (n, true)) :
    ∃ inner, cs.take n = inner ++ [quote] := by
  fun_induction quoted quote cs generalizing n with
  | case1 => cases h
  | case2 => cases h
  | case3 d cs n' closed hscan ih =>
    obtain ⟨rfl, rfl⟩ := Prod.mk.inj h
    obtain ⟨inner, hinner⟩ := ih hscan
    exact ⟨'\\' :: d :: inner, by rw [List.take_succ_cons, List.take_succ_cons, hinner]; rfl⟩
  | case4 => cases h
  | case5 cs =>
    obtain ⟨rfl, -⟩ := Prod.mk.inj h
    exact ⟨[], rfl⟩
  | case6 d cs _ _ _ _ n' closed hscan ih =>
    obtain ⟨rfl, rfl⟩ := Prod.mk.inj h
    obtain ⟨inner, hinner⟩ := ih hscan
    exact ⟨d :: inner, by rw [List.take_succ_cons, hinner]; rfl⟩

theorem verbatim_closed {cs : List Char} {n : Nat} (h : verbatim cs = (n, true)) :
    ∃ inner, cs.take n = inner ++ ['"'] := by
  fun_induction verbatim cs generalizing n with
  | case1 => cases h
  | case2 cs n' closed hscan ih =>
    obtain ⟨rfl, rfl⟩ := Prod.mk.inj h
    obtain ⟨inner, hinner⟩ := ih hscan
    exact ⟨'"' :: '"' :: inner, by rw [List.take_succ_cons, List.take_succ_cons, hinner]; rfl⟩
  | case3 =>
    obtain ⟨rfl, -⟩ := Prod.mk.inj h
    exact ⟨[], rfl⟩
  | case4 d cs _ _ n' closed hscan ih =>
    obtain ⟨rfl, rfl⟩ := Prod.mk.inj h
    obtain ⟨inner, hinner⟩ := ih hscan
    exact ⟨d :: inner, by rw [List.take_succ_cons, hinner]; rfl⟩

/-- Literals of text. -/
def TokenKind.isText : TokenKind → Bool
  | .stringLiteral | .charLiteral => true
  | _ => false

theorem keyword?_plain {word : String} {kind : TokenKind} (h : keyword? word = some kind) :
    kind.isText = false := by
  unfold keyword? at h
  repeat' split at h
  all_goals
    cases h
    try rfl

theorem number_plain {c : Char} {cs : List Char} {kind : TokenKind} {n : Nat}
    (h : number c cs = .ok ⟨some kind, n⟩) : kind.isText = false := by
  unfold number decimalNumber at h
  dsimp only at h
  repeat' split at h
  all_goals
    cases h
    try rfl

theorem word_plain {c : Char} {cs : List Char} {kind : TokenKind}
    (h : (word c cs).kind = some kind) : kind.isText = false := by
  dsimp only [word] at h
  cases hk : keyword? (String.ofList (c :: cs.takeWhile Text.isNamePart)) with
  | none =>
    rw [hk] at h
    cases h
    rfl
  | some word =>
    rw [hk] at h
    cases h
    exact keyword?_plain hk

theorem operator_plain {c : Char} {cs : List Char} {kind : TokenKind} {n : Nat}
    (h : operator c cs = .ok ⟨some kind, n⟩) : kind.isText = false := by
  have hone {kind : TokenKind} (h : oneCharOperator? c = some kind) : kind.isText = false := by
    unfold oneCharOperator? at h
    split at h
    all_goals
      cases h
      try rfl
  have htwo {d : Char} {kind : TokenKind} (h : twoCharOperator? c d = some kind) :
      kind.isText = false := by
    unfold twoCharOperator? at h
    repeat' split at h
    all_goals
      cases h
      try rfl
  unfold operator at h
  split at h
  next kind hk =>
    cases h
    obtain ⟨d, -, hk⟩ := Option.bind_eq_some_iff.mp hk
    exact htwo hk
  next =>
    split at h
    next kind hk =>
      cases h
      exact hone hk
    next => cases h

theorem Token.Quoted.of_plain {t : Token} (h : t.kind.isText = false) : t.Quoted := by
  constructor
  all_goals
    intro hk
    rw [hk] at h
    cases h

/-- A piece that is a literal of text is in quotes. -/
theorem piece_quoted {c : Char} {cs : List Char} {kind : TokenKind} {n : Nat} {span : Span}
    (h : piece c cs = .ok ⟨some kind, n⟩) :
    Token.Quoted ⟨kind, String.ofList (c :: cs.take n), span⟩ := by
  have hliteral {k : TokenKind} {cause : Cause} {skip : Nat} {scanned : Nat × Bool}
      (h : literalPiece k cause skip scanned = .ok ⟨some kind, n⟩) :
      kind = k ∧ scanned = (n - skip, true) ∧ skip ≤ n := by
    unfold literalPiece at h
    split at h
    next hclosed =>
      cases h
      refine ⟨rfl, ?_, Nat.le_add_right ..⟩
      rw [Nat.add_sub_cancel_left, ← hclosed]
    next => cases h
  unfold piece at h
  split at h
  next => cases h
  next =>
  split at h
  next => cases h
  next =>
  split at h
  next =>
    dsimp only at h
    split at h <;> cases h
  next =>
  split at h
  next hc =>
    obtain ⟨rfl, hscan, -⟩ := hliteral h
    obtain ⟨inner, hinner⟩ := quoted_closed hscan
    refine ⟨fun _ => .inl ⟨'"', inner, .inl rfl, ?_⟩, nofun⟩
    rw [String.toList_ofList, hc, ← hinner]
    rfl
  next =>
  split at h
  next hc =>
    obtain ⟨rfl, hscan, hskip⟩ := hliteral h
    obtain ⟨inner, hinner⟩ := verbatim_closed hscan
    refine ⟨fun _ => .inr ⟨cs.take n, ?_, '"', inner, .inl rfl, ?_⟩, nofun⟩
    · rw [String.toList_ofList, hc.1]
    · obtain ⟨m, rfl⟩ := Nat.exists_eq_add_of_le hskip
      rw [Nat.add_sub_cancel_left] at hinner
      cases cs with
      | nil => cases hc.2
      | cons d cs =>
        cases hc.2
        rw [Nat.add_comm, List.take_succ_cons, ← hinner]
        rfl
  next =>
  split at h
  next hc =>
    obtain ⟨rfl, hscan, -⟩ := hliteral h
    obtain ⟨inner, hinner⟩ := quoted_closed hscan
    refine ⟨nofun, fun _ => ⟨'\'', inner, .inr rfl, ?_⟩⟩
    rw [String.toList_ofList, hc, ← hinner]
    rfl
  next =>
  split at h
  next => exact .of_plain (number_plain h)
  next =>
  split at h
  next => exact .of_plain (word_plain (congrArg Piece.kind (Except.ok.inj h)))
  next => exact .of_plain (operator_plain h)

/-- The literals among the tokens of a text are in quotes. -/
theorem tokenize_quoted {text : String} {ts : List Token} (h : tokenize text = .ok ts) :
    ∀ t ∈ ts, t.Quoted :=
  tokensFrom_forall (fun _ => .of_plain rfl) (fun _ _ _ _ _ => piece_quoted) h

/-! ## 5. Literals -/

namespace Checked

theorem splitEnd_eq (test : Char → Bool) (cs : List Char) :
    splitEnd test cs = .ok (Syntax.splitEnd test cs) := by
  obtain ⟨digits, letters, hsplit⟩ :
      ∃ digits letters, Syntax.splitEnd test cs = (digits, letters) := ⟨_, _, rfl⟩
  have happend : digits ++ letters = cs := by
    obtain ⟨rfl, rfl⟩ := Prod.mk.inj hsplit
    have hsuffix : (cs.reverse.takeWhile test).reverse <:+ cs := by
      have := List.reverse_suffix.mpr (List.takeWhile_prefix (l := cs.reverse) test)
      rwa [List.reverse_reverse] at this
    exact List.suffix_iff_eq_append.mp hsuffix
  have hdigits := cut_run [] digits letters
  have hletters := cut_run digits letters []
  rw [size_nil, Nat.zero_add, List.nil_append, happend] at hdigits
  rw [List.append_nil, ← size_append, happend] at hletters
  unfold splitEnd
  rw [hsplit]
  dsimp only
  rw [hdigits, hletters]
  rfl

theorem intLiteral_eq (lexeme : String) : intLiteral lexeme = .ok (Syntax.intLiteral lexeme) := by
  unfold intLiteral Syntax.intLiteral
  cases baseOf lexeme.toList
  dsimp only
  rw [splitEnd_eq]
  rfl

theorem realLiteral_eq (lexeme : String) : realLiteral lexeme = .ok (Syntax.realLiteral lexeme) := by
  unfold realLiteral
  rw [splitEnd_eq]
  rfl

theorem unquoted_eq {cs : List Char} (h : IsQuoted cs) : unquoted cs = .ok (Syntax.unquoted cs) := by
  obtain ⟨quote, inner, hquote, rfl⟩ := h
  have hsize : size [quote] = 1 := by rcases hquote with rfl | rfl <;> rfl
  have hinner := cut_run [quote] (inner ++ [quote]) []
  have htext := cut_run [] inner [quote]
  rw [List.append_nil, ← size_append, hsize] at hinner
  rw [size_nil, Nat.zero_add, List.nil_append] at htext
  have hminus : minus (size (inner ++ [quote])) 1 = .ok (size inner) := by
    rw [size_append, hsize, minus_of_le (Nat.le_add_left ..), Nat.add_sub_cancel]
  have hmodel : Syntax.unquoted (quote :: (inner ++ [quote])) = inner := by
    rw [Syntax.unquoted, List.drop_succ_cons, List.drop_zero, List.dropLast_concat]
  rw [hmodel]
  show (cut 1 (size ([quote] ++ (inner ++ [quote]))) ([quote] ++ (inner ++ [quote])) >>= _) = _
  rw [hinner, ok_bind, hminus, ok_bind, htext]

theorem stringLiteral_eq {lexeme : String}
    (h : IsQuoted lexeme.toList ∨ ∃ cs, lexeme.toList = '@' :: cs ∧ IsQuoted cs) :
    stringLiteral lexeme = .ok (Syntax.stringLiteral lexeme) := by
  unfold stringLiteral Syntax.stringLiteral
  generalize lexeme.toList = cs at h
  rcases h with h | ⟨cs, rfl, h⟩
  · have hunquoted := unquoted_eq h
    -- a quote is no mark
    obtain ⟨quote, inner, rfl | rfl, rfl⟩ := h
    all_goals
      show (unquoted _ >>= _) = _
      rw [hunquoted]
      rfl
  · show (unquoted cs >>= _) = _
    rw [unquoted_eq h]
    rfl

theorem charLiteral_eq {lexeme : String} (h : IsQuoted lexeme.toList) :
    charLiteral lexeme = .ok (Syntax.charLiteral lexeme) := by
  unfold charLiteral
  rw [unquoted_eq h]
  rfl

/-- A literal of a text is read without a fault. -/
theorem literalOf_eq {token : Token} (h : token.Quoted) :
    literalOf token = .ok (Syntax.literalOf token) := by
  unfold literalOf Syntax.literalOf
  cases hk : token.kind with
  | intLiteral => simp only [intLiteral_eq, ok_bind]; rfl
  | realLiteral => simp only [realLiteral_eq, ok_bind]; rfl
  | stringLiteral => simp only [stringLiteral_eq (h.string hk), ok_bind]; rfl
  | charLiteral => simp only [charLiteral_eq (h.char hk), ok_bind]; rfl
  | _ => rfl

end Checked

end FatArrow.Syntax
