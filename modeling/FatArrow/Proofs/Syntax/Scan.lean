import FatArrow.Proofs.Printing.Signs
import FatArrow.Proofs.Text.Letter
import FatArrow.Syntax.Scan

/-!
# Texts that are scanned sign by sign

What a text is scanned to, built up from its end: a piece in front of a text that is scanned to
some signs adds its own sign to them.  A `>` may merge with those before it into a `>>`, so a text
is required to be scanned as it is behind any number of them.
-/

namespace FatArrow.Syntax

open Text

variable {c : Char} {cs ds : List Char} {ss : List Sign} {p q : Position} {kind : TokenKind}

/-! ## 1. Pieces -/

theorem tokensFrom_token {n : Nat} {ts : List Token} (hp : piece c cs = .ok ⟨some kind, n⟩)
    (hq : p.after (c :: cs.take n) = q) (h : tokensFrom q (cs.drop n) = .ok ts) :
    tokensFrom p (c :: cs) = .ok (⟨kind, String.ofList (c :: cs.take n), p.spanTo q⟩ :: ts) := by
  subst hq
  rw [tokensFrom, hp]
  dsimp only
  rw [h]

theorem tokensFrom_gap {n : Nat} {ts : List Token} (hp : piece c cs = .ok ⟨none, n⟩)
    (hq : p.after (c :: cs.take n) = q) (h : tokensFrom q (cs.drop n) = .ok ts) :
    tokensFrom p (c :: cs) = .ok ts := by
  subst hq
  rw [tokensFrom, hp]
  dsimp only
  rw [h]

/-- A text is scanned to signs, wherever it stands and however many `>` stand before it. -/
def Scans (cs : List Char) (ss : List Sign) : Prop :=
  ∀ k p, ∃ ts, tokensFrom p (List.replicate k '>' ++ cs) = .ok ts ∧
    ts.flatMap Token.signs = List.replicate k Sign.close ++ ss

namespace Scans

/-- A text that does not go on from a `>` is only looked at by itself. -/
theorem of_head (hhead : cs.head?.all (fun c => c != '>' && c != '=') = true)
    (h : ∀ p, ∃ ts, tokensFrom p cs = .ok ts ∧ ts.flatMap Token.signs = ss) : Scans cs ss := by
  intro k
  induction k using Nat.strongRecOn with
  | _ k ih =>
    intro p
    match k with
    | 0 => exact h p
    | 1 =>
      obtain ⟨ts, hts, hsigns⟩ := h (p.after ['>'])
      have hpiece : piece '>' cs = .ok ⟨some .greater, 0⟩ := by
        cases cs with
        | nil => rfl
        | cons c cs =>
          simp only [List.head?_cons, Option.all_some, Bool.and_eq_true, bne_iff_ne, ne_eq] at hhead
          have htwo : twoCharOperator? '>' c = none := by
            unfold twoCharOperator?
            split <;> simp_all
          show operator '>' (c :: cs) = _
          unfold operator
          rw [List.head?_cons, Option.bind_some, htwo]
          rfl
      refine ⟨_, tokensFrom_token hpiece rfl hts, ?_⟩
      rw [List.flatMap_cons, hsigns]
      rfl
    | k + 2 =>
      obtain ⟨ts, hts, hsigns⟩ := ih k (by omega) (p.after ['>', '>'])
      have hpiece : piece '>' ('>' :: (List.replicate k '>' ++ cs)) =
          .ok ⟨some .greaterGreater, 1⟩ := rfl
      refine ⟨_, tokensFrom_token hpiece rfl hts, ?_⟩
      rw [List.flatMap_cons, hsigns]
      rfl

theorem nil : Scans [] [Sign.eof] :=
  of_head rfl fun _ => ⟨_, by rw [tokensFrom], rfl⟩

/-- A `>` in front. -/
theorem close (h : Scans cs ss) : Scans ('>' :: cs) (Sign.close :: ss) := by
  intro k p
  obtain ⟨ts, hts, hsigns⟩ := h (k + 1) p
  refine ⟨ts, ?_, ?_⟩
  · rw [← hts, List.replicate_succ', List.append_assoc]
    rfl
  · rw [hsigns, List.replicate_succ', List.append_assoc]
    rfl

theorem plain (h : Scans cs ss) (p : Position) :
    ∃ ts, tokensFrom p cs = .ok ts ∧ ts.flatMap Token.signs = ss := h 0 p

/-- A blank in front. -/
theorem blank (h : ∀ p, ∃ ts, tokensFrom p cs = .ok ts ∧ ts.flatMap Token.signs = ss) :
    Scans (' ' :: cs) ss := by
  refine of_head rfl fun p => ?_
  obtain ⟨ts, hts, hsigns⟩ := h (p.after [' '])
  exact ⟨ts, tokensFrom_gap rfl rfl hts, hsigns⟩

theorem plain_token (c : Char) (cs : List Char) (hp : piece c (cs ++ ds) = .ok ⟨some kind, cs.length⟩)
    (hk : kind ≠ .greaterGreater) (h : Scans ds ss) (p : Position) :
    ∃ ts, tokensFrom p (c :: (cs ++ ds)) = .ok ts ∧
      ts.flatMap Token.signs = (kind, String.ofList (c :: cs)) :: ss := by
  obtain ⟨ts, hts, hsigns⟩ := h.plain (p.after (c :: cs))
  have hq : p.after (c :: (cs ++ ds).take cs.length) = p.after (c :: cs) := by
    rw [List.take_left]
  refine ⟨_, tokensFrom_token hp hq (by rw [List.drop_left]; exact hts), ?_⟩
  rw [List.flatMap_cons, Token.signs_of_ne hk, hsigns, List.take_left]
  rfl

/-- A token in front. -/
theorem token (c : Char) (cs : List Char) (hp : piece c (cs ++ ds) = .ok ⟨some kind, cs.length⟩)
    (hk : kind ≠ .greaterGreater) (hc : (c != '>' && c != '=') = true) (h : Scans ds ss) :
    Scans (c :: (cs ++ ds)) ((kind, String.ofList (c :: cs)) :: ss) :=
  of_head (by simpa using hc) fun p => plain_token c cs hp hk h p

end Scans

/-! ## 2. Delimiters and operators -/

/-- The characters that are a token by themselves, whatever follows. -/
def delimiters : List Char := ['(', ')', '[', ']', '\x7b', '\x7d', ',', ':']

theorem operator_of_one (htwo : ∀ d, cs.head? = some d → twoCharOperator? c d = none)
    (hone : oneCharOperator? c = some kind) : operator c cs = .ok ⟨some kind, 0⟩ := by
  unfold operator
  have hnone : cs.head?.bind (twoCharOperator? c) = none := by
    cases cs with
    | nil => rfl
    | cons d cs => exact htwo d rfl
  rw [hnone, hone]

theorem piece_delimiter (hc : c ∈ delimiters) (hone : oneCharOperator? c = some kind) :
    piece c cs = .ok ⟨some kind, 0⟩ := by
  have hcases : (∀ d, twoCharOperator? c d = none) ∧ piece c cs = operator c cs := by
    simp only [delimiters, List.mem_cons, List.not_mem_nil, or_false] at hc
    rcases hc with rfl | rfl | rfl | rfl | rfl | rfl | rfl | rfl
    all_goals
      refine ⟨fun d => ?_, rfl⟩
      unfold twoCharOperator?
      split <;> simp_all
  rw [hcases.2]
  exact operator_of_one (fun d _ => hcases.1 d) hone

namespace Scans

theorem delimiter (hc : c ∈ delimiters) (hone : oneCharOperator? c = some kind)
    (hk : kind ≠ .greaterGreater) (h : Scans cs ss) :
    Scans (c :: cs) ((kind, String.ofList [c]) :: ss) := by
  refine token c [] (piece_delimiter hc hone) hk ?_ h
  simp only [delimiters, List.mem_cons, List.not_mem_nil, or_false] at hc
  rcases hc with rfl | rfl | rfl | rfl | rfl | rfl | rfl | rfl <;> rfl

theorem leftParen (h : Scans cs ss) : Scans ('(' :: cs) (Sign.leftParen :: ss) :=
  delimiter (by decide) rfl (by decide) h

theorem rightParen (h : Scans cs ss) : Scans (')' :: cs) (Sign.rightParen :: ss) :=
  delimiter (by decide) rfl (by decide) h

theorem leftBracket (h : Scans cs ss) : Scans ('[' :: cs) (Sign.leftBracket :: ss) :=
  delimiter (by decide) rfl (by decide) h

theorem rightBracket (h : Scans cs ss) : Scans (']' :: cs) (Sign.rightBracket :: ss) :=
  delimiter (by decide) rfl (by decide) h

theorem leftBrace (h : Scans cs ss) : Scans ('\x7b' :: cs) (Sign.leftBrace :: ss) :=
  delimiter (by decide) rfl (by decide) h

theorem rightBrace (h : Scans cs ss) : Scans ('\x7d' :: cs) (Sign.rightBrace :: ss) :=
  delimiter (by decide) rfl (by decide) h

theorem comma (h : Scans cs ss) : Scans (',' :: cs) (Sign.comma :: ss) :=
  delimiter (by decide) rfl (by decide) h

theorem colon (h : Scans cs ss) : Scans (':' :: cs) (Sign.colon :: ss) :=
  delimiter (by decide) rfl (by decide) h

/-- A question mark before a blank. -/
theorem question (h : Scans cs ss) : Scans ('?' :: ' ' :: cs) (Sign.question :: ss) :=
  token '?' [] rfl (by decide) rfl (blank h.plain)

/-- An operator between blanks. -/
theorem binary (op : BinaryOp) (hop : op ≠ .arrayIndex) (h : Scans cs ss) :
    Scans (' ' :: (op.symbol.toList ++ ' ' :: cs)) (op.sign :: ss) := by
  refine blank fun p => ?_
  have hrest := blank h.plain
  cases op
  case arrayIndex => exact absurd rfl hop
  case greaterThan => exact (close hrest).plain p
  case greaterThanOrEqual => exact plain_token '>' ['='] rfl (by decide) hrest p
  case add => exact plain_token '+' [] rfl (by decide) hrest p
  case subtract => exact plain_token '-' [] rfl (by decide) hrest p
  case multiply => exact plain_token '*' [] rfl (by decide) hrest p
  case divide => exact plain_token '/' [] rfl (by decide) hrest p
  case modulo => exact plain_token '%' [] rfl (by decide) hrest p
  case lessThan => exact plain_token '<' [] rfl (by decide) hrest p
  case lessThanOrEqual => exact plain_token '<' ['='] rfl (by decide) hrest p
  case equal => exact plain_token '=' ['='] rfl (by decide) hrest p
  case notEqual => exact plain_token '!' ['='] rfl (by decide) hrest p
  case andAlso => exact plain_token '&' ['&'] rfl (by decide) hrest p
  case orElse => exact plain_token '|' ['|'] rfl (by decide) hrest p
  case exclusiveOr | power => exact plain_token '^' [] rfl (by decide) hrest p

/-- The arrow between blanks. -/
theorem arrow (h : Scans cs ss) : Scans (' ' :: '=' :: '>' :: ' ' :: cs) (Sign.arrow :: ss) :=
  blank fun p => plain_token '=' ['>'] rfl (by decide) (blank h.plain) p

/-- What is printed before an operand in parentheses. -/
theorem before (op : UnaryOp) (h : Scans ('(' :: cs) ss) :
    Scans (op.before.toList ++ '(' :: cs) (op.signsBefore ++ ss) := by
  cases op
  case negate => exact token '-' [] rfl (by decide) rfl h
  case unaryPlus => exact token '+' [] rfl (by decide) rfl h
  case not => exact token '!' [] rfl (by decide) rfl h
  all_goals exact h

end Scans

/-! ## 3. Names -/

/-- The characters that end a name or a number. -/
def stops : List Char := ['(', ')', '[', ']', '<', '>', ',', '.', ' ']

/-- A text before which a name or a number ends. A point before a digit would go on a number. -/
def stopped (cs : List Char) : Bool :=
  cs.head?.all stops.contains && !(cs.head? == some '.' && startsWith isDigit cs.tail)

/-- A text that begins with a name. -/
def opensName (cs : List Char) : Bool := cs.head?.any isNameStart

theorem isName_iff {s : String} : isName s = true ↔ isWord s = true ∧ keyword? s = none := by
  simp [isName]

theorem opensName_append {s : String} (hs : isName s = true) :
    opensName (s.toList ++ cs) = true := by
  have hword := (isName_iff.mp hs).1
  cases hl : s.toList with
  | nil => simp [isWord, hl] at hword
  | cons c ds =>
    simp only [isWord, hl, List.head?_cons, Option.any_some, Bool.and_eq_true] at hword
    exact hword.1

/-- No word is a `>>`. -/
theorem keyword?_ne (s : String) : (keyword? s).getD .identifier ≠ .greaterGreater := by
  unfold keyword?
  repeat' split
  all_goals decide

theorem takeWhile_eq_nil_of_stopped {test : Char → Bool} (hs : stopped cs = true)
    (ht : stops.any test = false) : cs.takeWhile test = [] := by
  cases cs with
  | nil => rfl
  | cons c cs =>
    have hc : c ∈ stops := by
      simp only [stopped, List.head?_cons, Option.all_some, Bool.and_eq_true] at hs
      simpa using hs.1
    exact List.takeWhile_cons_of_neg (List.any_eq_false.mp ht c hc)

theorem piece_of_isNameStart (hc : isNameStart c = true) : piece c cs = .ok (word c cs) := by
  have hopen := not_mem_openers_of_isNameStart hc
  simp only [openers, List.mem_cons, List.not_mem_nil, or_false, not_or] at hopen
  simp [piece, hc, isBlank_of_isNameStart hc, isDigit_of_isNameStart hc, hopen]

namespace Scans

/-- A word in front. -/
theorem word {s : String} (hs : isWord s = true) (hd : stopped cs = true) (h : Scans cs ss) :
    Scans (s.toList ++ cs) (((keyword? s).getD .identifier, s) :: ss) := by
  obtain ⟨c, ds, hlist⟩ : ∃ c ds, s.toList = c :: ds := by
    cases hl : s.toList with
    | nil => simp [isWord, hl] at hs
    | cons c ds => exact ⟨c, ds, rfl⟩
  simp only [isWord, hlist, List.head?_cons, Option.any_some, List.tail_cons,
    Bool.and_eq_true] at hs
  obtain ⟨hstart, hpart⟩ := hs
  have hword : String.ofList (c :: ds) = s := by rw [← hlist, String.ofList_toList]
  have hopen := not_mem_openers_of_isNameStart hstart
  simp only [openers, List.mem_cons, List.not_mem_nil, or_false, not_or] at hopen
  have htake : (ds ++ cs).takeWhile isNamePart = ds := by
    rw [List.takeWhile_append_of_pos (by simpa using hpart),
      takeWhile_eq_nil_of_stopped hd (by decide), List.append_nil]
  have hpiece : piece c (ds ++ cs) = .ok ⟨some ((keyword? s).getD .identifier), ds.length⟩ := by
    rw [piece_of_isNameStart hstart, Syntax.word, htake, hword]
  rw [hlist, List.cons_append, ← hword]
  rw [← hword] at hpiece
  exact token c ds hpiece (keyword?_ne _) (by simp [hopen]) h

/-- A name in front. -/
theorem name {s : String} (hs : isName s = true) (hd : stopped cs = true) (h : Scans cs ss) :
    Scans (s.toList ++ cs) (Sign.name s :: ss) := by
  obtain ⟨hword, hkeyword⟩ := isName_iff.mp hs
  have := word hword hd h
  rwa [hkeyword] at this

/-- A point before a name. -/
theorem dot (hs : opensName cs = true) (h : Scans cs ss) : Scans ('.' :: cs) (Sign.dot :: ss) := by
  refine token '.' [] ?_ (by decide) rfl h
  have hdigit : startsWith isDigit cs = false := by
    cases cs with
    | nil => cases hs
    | cons c cs => exact isDigit_of_isNameStart hs
  have hpiece : piece '.' cs = if startsWith isDigit cs then number '.' cs else operator '.' cs := rfl
  rw [List.nil_append, hpiece, hdigit]
  refine operator_of_one (fun d _ => ?_) rfl
  unfold twoCharOperator?
  split <;> simp_all

/-- A `<` before a name. -/
theorem less (hs : opensName cs = true) (h : Scans cs ss) : Scans ('<' :: cs) (Sign.less :: ss) := by
  refine token '<' [] (operator_of_one (fun d hd => ?_) rfl) (by decide) rfl h
  have hopen := not_mem_openers_of_isNameStart (c := d) (by
    rw [List.nil_append] at hd
    simpa [opensName, hd] using hs)
  simp only [openers, List.mem_cons, List.not_mem_nil, or_false, not_or] at hopen
  unfold twoCharOperator?
  split <;> simp_all

end Scans

end FatArrow.Syntax
