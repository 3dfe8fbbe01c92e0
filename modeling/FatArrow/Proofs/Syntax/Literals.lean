import FatArrow.Proofs.Syntax.Scan

/-!
# Literals that are read back

A text between quotes, a numeral with a suffix and a float as they are printed are each scanned as
one literal, and the literal denotes what was printed.
-/

namespace FatArrow.Syntax

open Text

variable {c : Char} {cs ds : List Char} {ss : List Sign} {quote : Char}

/-! ## 1. Quoted texts -/

/-- One of the two quotes. -/
def isQuote (c : Char) : Bool := c == '"' || c == '\''

/-- What a character is written as between quotes: itself, or a backslash and a letter for it. -/
theorem escapeChar_cases (hq : isQuote quote = true) (c : Char) :
    (∃ d, escapeChar quote c = ['\\', d] ∧ d ≠ 'u' ∧ escaped? d = some c) ∨
      escapeChar quote c = [c] ∧ c ≠ '\\' ∧ c ≠ '\n' ∧ c ≠ '\r' ∧ c ≠ quote := by
  have hquote : quote ≠ 'u' ∧ escaped? quote = some quote := by
    simp only [isQuote, Bool.or_eq_true, beq_iff_eq] at hq
    rcases hq with rfl | rfl <;> exact ⟨by decide, rfl⟩
  unfold escapeChar
  split
  · next h => exact .inl ⟨'\\', rfl, by decide, by rw [h]; rfl⟩
  split
  · next h => exact .inl ⟨'n', rfl, by decide, by rw [h]; rfl⟩
  split
  · next h => exact .inl ⟨'t', rfl, by decide, by rw [h]; rfl⟩
  split
  · next h => exact .inl ⟨'r', rfl, by decide, by rw [h]; rfl⟩
  split
  · next h => exact .inl ⟨'0', rfl, by decide, by rw [h]; rfl⟩
  split
  · next h => exact .inl ⟨c, rfl, h ▸ hquote.1, h ▸ hquote.2⟩
  · next h1 h2 h3 h4 h5 h6 => exact .inr ⟨rfl, h1, h2, h4, h6⟩

theorem quoted_escaped (hq : isQuote quote = true) (cs ds : List Char) :
    quoted quote (cs.flatMap (escapeChar quote) ++ quote :: ds) =
      ((cs.flatMap (escapeChar quote)).length + 1, true) := by
  induction cs with
  | nil =>
    simp only [isQuote, Bool.or_eq_true, beq_iff_eq] at hq
    rcases hq with rfl | rfl <;> cases ds <;> rfl
  | cons c cs ih =>
    rw [List.flatMap_cons, List.append_assoc]
    rcases escapeChar_cases hq c with ⟨d, hd, -, -⟩ | ⟨hc, hback, hline, hreturn, hquote⟩
    · rw [hd]
      show quoted quote ('\\' :: d :: (cs.flatMap (escapeChar quote) ++ quote :: ds)) = _
      rw [quoted, ih]
      rfl
    · rw [hc]
      show quoted quote (c :: (cs.flatMap (escapeChar quote) ++ quote :: ds)) = _
      rw [quoted, ih]
      · simp [hline, hreturn, hquote]
      · exact fun h => absurd h hback
      · exact fun _ _ h => absurd h hback

theorem unescape_escaped (hq : isQuote quote = true) (cs : List Char) :
    unescape (cs.flatMap (escapeChar quote)) = .ok cs := by
  induction cs with
  | nil =>
    rw [List.flatMap_nil, unescape]
  | cons c cs ih =>
    rw [List.flatMap_cons]
    rcases escapeChar_cases hq c with ⟨d, hd, hu, hescaped⟩ | ⟨hc, hback, -⟩
    · rw [hd]
      show unescape ('\\' :: d :: cs.flatMap (escapeChar quote)) = _
      rw [unescape, hescaped]
      · dsimp only
        rw [ih]
        rfl
      · exact hu
    · rw [hc]
      show unescape (c :: cs.flatMap (escapeChar quote)) = _
      rw [unescape, ih]
      · rfl
      · exact fun h => absurd h hback
      · exact fun _ h => absurd h hback
      · exact fun _ _ h => absurd h hback

theorem toList_quotedText (quote : Char) (cs : List Char) :
    (quotedText quote cs).toList = quote :: (cs.flatMap (escapeChar quote) ++ [quote]) := by
  rw [quotedText, String.toList_ofList]

theorem unquoted_quotedText (quote : Char) (cs : List Char) :
    unquoted (quotedText quote cs).toList = cs.flatMap (escapeChar quote) := by
  rw [unquoted, toList_quotedText, List.drop_succ_cons, List.drop_zero, List.dropLast_concat]

/-- A text between quotes is scanned as one token. -/
theorem Scans.quoted {kind : TokenKind} {cause : Cause} (hq : isQuote quote = true)
    (hpiece : ∀ cs, piece quote cs = literalPiece kind cause 0 (Syntax.quoted quote cs))
    (hk : kind ≠ .greaterGreater) (text : List Char) (h : Scans cs ss) :
    Scans ((quotedText quote text).toList ++ cs) ((kind, quotedText quote text) :: ss) := by
  have hscan : Syntax.piece quote ((text.flatMap (escapeChar quote) ++ [quote]) ++ cs) =
      .ok ⟨some kind, (text.flatMap (escapeChar quote) ++ [quote]).length⟩ := by
    rw [hpiece, List.append_assoc, List.singleton_append, quoted_escaped hq, List.length_append]
    simp [literalPiece]
  have hhead : (quote != '>' && quote != '=') = true := by
    simp only [isQuote, Bool.or_eq_true, beq_iff_eq] at hq
    rcases hq with rfl | rfl <;> rfl
  have htext : quotedText quote text =
      String.ofList (quote :: (text.flatMap (escapeChar quote) ++ [quote])) := rfl
  rw [toList_quotedText, htext]
  exact .token _ _ hscan hk hhead h

theorem stringLiteral_quotedText (s : String) :
    stringLiteral (quotedText '"' s.toList) = .ok (.string s) := by
  have hlist := toList_quotedText '"' s.toList
  unfold stringLiteral
  split
  · next h =>
    rw [hlist] at h
    cases h
  · rw [unquoted_quotedText, unescape_escaped rfl]
    simp [Except.map]

theorem charLiteral_quotedText (c : Char) : charLiteral (quotedText '\'' [c]) = .ok (.char c) := by
  unfold charLiteral
  rw [unquoted_quotedText, unescape_escaped rfl]

/-! ## 2. Runs of digits -/

/-- A text that is not empty and has digits only. -/
def isDigits (cs : List Char) : Bool := !cs.isEmpty && cs.all isDigit

theorem isDigits_toDigits (n : Nat) : isDigits (Nat.toDigits 10 n) = true := by
  have hne : (Nat.toDigits 10 n).isEmpty = false := by
    rw [List.isEmpty_eq_false_iff]
    exact Nat.toDigits_ne_nil
  simp only [isDigits, hne, Bool.not_false, Bool.true_and, List.all_eq_true]
  exact fun c hc => Nat.isDigit_of_mem_toDigits (by decide) (by decide) hc

/-- Digits of a base are read as the number that their values spell in it. -/
theorem natOfDigits?_foldl {base : Nat} {value : Char → Nat} (hne : cs ≠ [])
    (h : ∀ c ∈ cs, digitValue? c = some (value c) ∧ value c < base) :
    Decimal.natOfDigits? base cs = some (cs.foldl (fun n c => base * n + value c) 0) := by
  unfold Decimal.natOfDigits?
  rw [List.isEmpty_eq_false_iff.mpr hne, if_neg Bool.false_ne_true]
  clear hne
  -- whatever number stands in front of the digits
  generalize (0 : Nat) = start
  induction cs generalizing start with
  | nil => rfl
  | cons c cs ih =>
    obtain ⟨⟨hvalue, hlt⟩, hrest⟩ := List.forall_mem_cons.mp h
    rw [List.foldl_cons, List.foldl_cons, hvalue]
    simp only [Option.bind_eq_bind, Option.bind_some, hlt, ↓reduceIte]
    rw [Nat.mul_comm start base]
    exact ih hrest _

/-- Digits are read as the number that they spell. -/
theorem natOfDigits?_eq {cs : List Char} (h : isDigits cs = true) :
    Decimal.natOfDigits? 10 cs = some (Nat.ofDigitChars 10 cs 0) := by
  rw [isDigits, Bool.and_eq_true, Bool.not_eq_true', List.all_eq_true] at h
  obtain ⟨hne, hall⟩ := h
  refine natOfDigits?_foldl (List.isEmpty_eq_false_iff.mp hne) fun c hc => ?_
  have hdigit := hall c hc
  refine ⟨if_pos hdigit, ?_⟩
  have hle : '0'.toNat ≤ c.toNat ∧ c.toNat ≤ '9'.toNat := by
    unfold isDigit at hdigit
    rw [Bool.and_eq_true, decide_eq_true_iff, decide_eq_true_iff] at hdigit
    exact hdigit
  have : '9'.toNat = '0'.toNat + 9 := rfl
  omega

theorem natOfDigits?_toDigits (n : Nat) : Decimal.natOfDigits? 10 (Nat.toDigits 10 n) = some n := by
  rw [natOfDigits?_eq (isDigits_toDigits n), Nat.ofDigitChars_ten_toDigits]

/-! ## 3. Numbers -/

/-- A point and digits, or nothing. -/
inductive IsFraction : List Char → Prop where
  | none : IsFraction []
  | some {ds : List Char} (h : isDigits ds = true) : IsFraction ('.' :: ds)

/-- A power of ten, or nothing. -/
inductive IsExponent : List Char → Prop where
  | none : IsExponent []
  | plus {ds : List Char} (h : isDigits ds = true) : IsExponent ('e' :: ds)
  | minus {ds : List Char} (h : isDigits ds = true) : IsExponent ('e' :: '-' :: ds)

/-- What is printed after the digits of a number. -/
def suffixes : List (List Char) := [[], ['L'], ['U'], ['U', 'L'], ['F']]

/-- A text before which a number ends. -/
structure Ends (cs : List Char) : Prop where
  digits : digitRun cs = 0
  fraction : fractionRun cs = 0
  exponent : exponentRun cs = 0
  mark : startsWith (fun c => c == 'x' || c == 'X') cs = false

theorem Ends.of_stopped (h : stopped cs = true) : Ends cs := by
  cases cs with
  | nil => exact ⟨rfl, rfl, rfl, rfl⟩
  | cons c cs =>
    have hc : c ∈ stops := by
      simp only [stopped, List.head?_cons, Option.all_some, Bool.and_eq_true] at h
      simpa using h.1
    by_cases hdot : c = '.'
    · subst hdot
      have hdigit : startsWith isDigit cs = false := by
        simpa [stopped, stops] using h
      refine ⟨rfl, ?_, rfl, rfl⟩
      rw [fractionRun, hdigit]
      rfl
    · simp only [stops, List.mem_cons, List.not_mem_nil, or_false] at hc
      rcases hc with rfl | rfl | rfl | rfl | rfl | rfl | rfl | rfl | rfl
      all_goals first | exact absurd rfl hdot | exact ⟨rfl, rfl, rfl, rfl⟩

theorem Ends.suffix {suffix : List Char} (hs : suffix ∈ suffixes) (h : stopped cs = true) :
    Ends (suffix ++ cs) := by
  simp only [suffixes, List.mem_cons, List.not_mem_nil, or_false] at hs
  rcases hs with rfl | rfl | rfl | rfl | rfl
  · exact .of_stopped h
  all_goals exact ⟨rfl, rfl, rfl, rfl⟩

theorem isDigits_iff {ds : List Char} :
    isDigits ds = true ↔ ds ≠ [] ∧ ∀ d ∈ ds, isDigit d = true := by
  simp [isDigits, List.isEmpty_eq_false_iff]

theorem digitRun_append (h : isDigits ds = true) (cs : List Char) :
    digitRun (ds ++ cs) = ds.length + digitRun cs := by
  unfold digitRun run
  rw [List.takeWhile_append_of_pos, List.length_append]
  intro d hd
  rw [(isDigits_iff.mp h).2 d hd, Bool.true_or]

theorem startsWith_digits {test : Char → Bool} (h : isDigits ds = true) {b : Bool}
    (ht : ∀ d, isDigit d = true → test d = b) (cs : List Char) :
    startsWith test (ds ++ cs) = b := by
  obtain ⟨hne, hall⟩ := isDigits_iff.mp h
  cases ds with
  | nil => exact absurd rfl hne
  | cons d ds => exact ht d (hall d (List.mem_cons_self ..))

theorem fractionRun_append (h : IsFraction ds) (hd : digitRun cs = 0) (hf : fractionRun cs = 0) :
    fractionRun (ds ++ cs) = ds.length := by
  cases h with
  | none => exact hf
  | some h =>
    rw [List.cons_append, fractionRun, startsWith_digits h (fun _ hd => hd), if_pos rfl,
      digitRun_append h, hd, List.length_cons]
    omega

theorem beq_of_isDigit {d : Char} (hd : isDigit d = true) (hc : isDigit c = false) :
    (d == c) = false := by
  rw [beq_eq_false_iff_ne]
  rintro rfl
  rw [hd] at hc
  cases hc

theorem exponentRun_append (h : IsExponent ds) (hd : digitRun cs = 0) (he : exponentRun cs = 0) :
    exponentRun (ds ++ cs) = ds.length := by
  cases h with
  | none => exact he
  | plus h =>
    have hsign : ∀ d, isDigit d = true → (d == '+' || d == '-') = false := fun d hd => by
      rw [beq_of_isDigit hd rfl, beq_of_isDigit hd rfl, Bool.or_false]
    rw [List.cons_append, exponentRun, if_pos (.inl rfl), startsWith_digits h hsign]
    dsimp only
    rw [if_neg Bool.false_ne_true, List.drop_zero, startsWith_digits h (fun _ hd => hd), if_pos rfl,
      digitRun_append h, hd, List.length_cons]
    omega
  | @minus ds h =>
    have hsign : startsWith (fun c => c == '+' || c == '-') ('-' :: (ds ++ cs)) = true := rfl
    rw [List.cons_append, exponentRun, if_pos (.inl rfl), List.cons_append, hsign]
    dsimp only
    rw [if_pos rfl, List.drop_succ_cons, List.drop_zero, startsWith_digits h (fun _ hd => hd),
      if_pos rfl, digitRun_append h, hd, List.length_cons, List.length_cons]
    omega

/-- What stands behind the whole digits of a number does not go on with digits, an underscore or
the mark of another base. -/
theorem digitRun_parts {frac exp suffix : List Char} (hf : IsFraction frac) (he : IsExponent exp)
    (hs : suffix ∈ suffixes) (h : stopped cs = true) :
    digitRun (exp ++ (suffix ++ cs)) = 0 ∧ fractionRun (exp ++ (suffix ++ cs)) = 0 ∧
      digitRun (frac ++ (exp ++ (suffix ++ cs))) = 0 ∧
      startsWith (fun c => c == 'x' || c == 'X') (frac ++ (exp ++ (suffix ++ cs))) = false := by
  have hends := Ends.suffix hs h
  cases hf with
  | some _ => cases he with
    | none => exact ⟨hends.digits, hends.fraction, rfl, rfl⟩
    | plus _ => exact ⟨rfl, rfl, rfl, rfl⟩
    | minus _ => exact ⟨rfl, rfl, rfl, rfl⟩
  | none => cases he with
    | none => exact ⟨hends.digits, hends.fraction, hends.digits, hends.mark⟩
    | plus _ => exact ⟨rfl, rfl, rfl, rfl⟩
    | minus _ => exact ⟨rfl, rfl, rfl, rfl⟩

theorem decimalNumber_eq {frac exp suffix : List Char} (hd : isDigits ds = true)
    (hf : IsFraction frac) (he : IsExponent exp) (hs : suffix ∈ suffixes)
    (h : stopped cs = true) :
    decimalNumber (ds ++ (frac ++ (exp ++ (suffix ++ cs)))) =
      (if frac.length > 0 || exp.length > 0 || suffix.any isRealSuffix then .realLiteral
        else .intLiteral, ds.length + frac.length + exp.length + suffix.length) := by
  obtain ⟨hdigits, hfraction, hdigits', -⟩ := digitRun_parts hf he hs h
  have hends := Ends.suffix hs h
  have hletters : (suffix ++ cs).takeWhile isAsciiLetter = suffix := by
    rw [List.takeWhile_append_of_pos, takeWhile_eq_nil_of_stopped h (by decide), List.append_nil]
    simp only [suffixes, List.mem_cons, List.not_mem_nil, or_false] at hs
    rcases hs with rfl | rfl | rfl | rfl | rfl <;> exact List.all_eq_true.mp (by decide)
  unfold decimalNumber
  rw [digitRun_append hd, hdigits']
  simp only [Nat.add_zero, List.drop_left, fractionRun_append hf hdigits hfraction]
  rw [← List.drop_drop]
  simp only [List.drop_left, exponentRun_append he hends.digits hends.exponent]
  rw [← List.drop_drop, ← List.drop_drop]
  simp only [List.drop_left, hletters]

theorem piece_of_isDigit (hd : isDigit c = true) : piece c cs = number c cs := by
  have hall : openers.any isBlank = false := by decide
  have hblank := Bool.eq_false_iff.mpr (List.any_eq_false.mp hall c (mem_openers_of_isDigit hd))
  have hne : ∀ d, isDigit d = false → c ≠ d := fun d hd' =>
    beq_eq_false_iff_ne.mp (beq_of_isDigit hd hd')
  simp [piece, hd, hblank, hne '/' rfl, hne '"' rfl, hne '@' rfl,
    hne '\'' rfl]

/-- A number is scanned as one token. -/
theorem Scans.number {frac exp suffix : List Char} {text : String} {kind : TokenKind}
    (hd : isDigits ds = true) (hf : IsFraction frac) (he : IsExponent exp)
    (hs : suffix ∈ suffixes)
    (hk : kind = if frac.length > 0 || exp.length > 0 || suffix.any isRealSuffix then .realLiteral
        else .intLiteral)
    (htext : text.toList = ds ++ (frac ++ (exp ++ suffix))) (hc : stopped cs = true)
    (h : Scans cs ss) : Scans (text.toList ++ cs) ((kind, text) :: ss) := by
  obtain ⟨hne, hall⟩ := isDigits_iff.mp hd
  obtain ⟨-, -, -, hmark⟩ := digitRun_parts hf he hs hc
  cases ds with
  | nil => exact absurd rfl hne
  | cons d ds =>
    have hdigit := hall d (List.mem_cons_self ..)
    have hpiece : piece d ((ds ++ (frac ++ (exp ++ suffix))) ++ cs) =
        .ok ⟨some kind, (ds ++ (frac ++ (exp ++ suffix))).length⟩ := by
      have hhex : (d == '0' && startsWith (fun c => c == 'x' || c == 'X')
          ((ds ++ (frac ++ (exp ++ suffix))) ++ cs)) = false := by
        have hstart : startsWith (fun c => c == 'x' || c == 'X')
            ((ds ++ (frac ++ (exp ++ suffix))) ++ cs) = false := by
          simp only [List.append_assoc]
          cases ds with
          | nil => exact hmark
          | cons e ds =>
            have he := hall e (List.mem_cons_of_mem _ (List.mem_cons_self ..))
            show (e == 'x' || e == 'X') = false
            rw [beq_of_isDigit he rfl, beq_of_isDigit he rfl, Bool.or_false]
        rw [hstart, Bool.and_false]
      have hnumber := decimalNumber_eq hd hf he hs hc
      rw [piece_of_isDigit hdigit, Syntax.number]
      dsimp only
      rw [hhex, if_neg Bool.false_ne_true]
      simp only [List.append_assoc, List.cons_append] at hnumber ⊢
      rw [hnumber, ← hk]
      simp only [List.length_append, List.length_cons]
      congr 2
      omega
    have hlexeme : text = String.ofList (d :: (ds ++ (frac ++ (exp ++ suffix)))) := by
      rw [← List.cons_append, ← htext, String.ofList_toList]
    rw [htext, hlexeme]
    refine .token _ _ hpiece ?_ ?_ h
    · rw [hk]
      split <;> decide
    · rw [bne, bne, beq_of_isDigit hdigit rfl, beq_of_isDigit hdigit rfl]
      rfl

/-! ## 4. Integers -/

theorem splitEnd_append {test : Char → Bool} (hc : ∀ c, cs.getLast? = some c → test c = false)
    (hd : ∀ d ∈ ds, test d = true) : splitEnd test (cs ++ ds) = (cs, ds) := by
  have hrun : (cs ++ ds).reverse.takeWhile test = ds.reverse := by
    rw [List.reverse_append, List.takeWhile_append_of_pos (by simpa using hd)]
    have hnil : cs.reverse.takeWhile test = [] := by
      cases hr : cs.reverse with
      | nil => rfl
      | cons c rest =>
        rw [List.takeWhile_cons_of_neg]
        rw [hc c (by rw [List.getLast?_eq_head?_reverse, hr]; rfl)]
        exact Bool.false_ne_true
    rw [hnil, List.append_nil]
  unfold splitEnd
  rw [hrun, List.reverse_reverse, List.length_append]
  dsimp only
  rw [Nat.add_sub_cancel, List.take_left]

theorem baseOf_digits (hd : isDigits ds = true)
    (h : startsWith (fun c => c == 'x' || c == 'X') cs = false) :
    baseOf (ds ++ cs) = (10, ds ++ cs) := by
  obtain ⟨hne, hall⟩ := isDigits_iff.mp hd
  -- behind a zero there is another digit, or what does not mark a base
  have hmark : ∀ rest, ds ++ cs ≠ '0' :: 'x' :: rest ∧ ds ++ cs ≠ '0' :: 'X' :: rest := by
    intro rest
    match ds with
    | [] => exact absurd rfl hne
    | [d] =>
      constructor
      all_goals
        intro he
        have htail : cs = _ := (List.cons.inj he).2
        rw [htail] at h
        cases h
    | d :: e :: ds =>
      have he := hall e (List.mem_cons_of_mem _ (List.mem_cons_self ..))
      constructor
      all_goals
        intro heq
        rw [(List.cons.inj (List.cons.inj heq).2).1] at he
        cases he
  unfold baseOf
  split
  · next h => exact absurd h (hmark _).1
  · next h => exact absurd h (hmark _).2
  · rfl

theorem bare_digits (hd : isDigits ds = true) : bare ds = ds := by
  refine List.filter_eq_self.mpr fun d hmem => ?_
  rw [bne, beq_of_isDigit ((isDigits_iff.mp hd).2 d hmem) rfl]
  rfl

theorem isAsciiLetter_of_isDigit (h : isDigit c = true) : isAsciiLetter c = false := by
  have hall : openers.any isAsciiLetter = false := by decide
  exact Bool.eq_false_iff.mpr (List.any_eq_false.mp hall c (mem_openers_of_isDigit h))

/-- The suffixes that integers are printed with, and what is read for them. -/
def printedSuffixes : List (List Char × IntSuffix) :=
  [([], .none), (['L'], .long), (['U'], .unsigned), (['U', 'L'], .unsignedLong)]

/-- A natural number with a suffix denotes the number. -/
theorem intLiteral_toDigits {n : Nat} {suffix : List Char} {text : String} {kind : IntSuffix}
    (hn : n < UInt64.size) (hs : (suffix, kind) ∈ printedSuffixes)
    (htext : text.toList = Nat.toDigits 10 n ++ suffix) :
    intLiteral text = .ok (.int n kind) := by
  have hdigits := isDigits_toDigits n
  have hfacts : startsWith (fun c => c == 'x' || c == 'X') suffix = false ∧
      (∀ c ∈ suffix, isAsciiLetter c = true) ∧ intSuffix? suffix = some kind := by
    simp only [printedSuffixes, List.mem_cons, Prod.mk.injEq, List.not_mem_nil, or_false] at hs
    rcases hs with ⟨rfl, rfl⟩ | ⟨rfl, rfl⟩ | ⟨rfl, rfl⟩ | ⟨rfl, rfl⟩
    all_goals exact ⟨rfl, List.all_eq_true.mp (by decide), by decide⟩
  obtain ⟨hmark, hletters, hkind⟩ := hfacts
  have hlast : ∀ c, (Nat.toDigits 10 n).getLast? = some c → isAsciiLetter c = false := fun c hc =>
    isAsciiLetter_of_isDigit ((isDigits_iff.mp hdigits).2 c (List.mem_of_getLast? hc))
  unfold intLiteral
  rw [htext, baseOf_digits hdigits hmark]
  dsimp only
  have hsplit := splitEnd_append hlast hletters
  simp only [show (10 : Nat) ≠ 16 from by decide, ↓reduceIte]
  rw [hsplit]
  dsimp only
  rw [hkind, bare_digits hdigits, natOfDigits?_toDigits]
  dsimp only
  rw [if_pos hn]

end FatArrow.Syntax
