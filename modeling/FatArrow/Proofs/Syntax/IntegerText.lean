import FatArrow.Proofs.Syntax.LiteralText
import FatArrow.Proofs.Typing.Constant
import FatArrow.Typing.Elaborate
import Mathlib.Data.Nat.Digits.Defs

/-!
# Integer literals are exact

An integer can be written with decimal or hexadecimal digits, with underscores among them and with
the letters of a suffix behind them.  The scanner, the reader and the typing each split such a text
anew; here they are shown to agree on where the numeral ends, on what it denotes and on the type
that it gets, up to the four limits where the type changes.
-/

namespace FatArrow.Syntax

open Text

/-! ## 1. How integers are written -/

/-- How the base of an integer is marked. -/
inductive Radix where
  | decimal
  | hexadecimal (capital : Bool)
deriving DecidableEq, Repr

/-- The ten digits. -/
def tenDigits : List Char := ['0', '1', '2', '3', '4', '5', '6', '7', '8', '9']

/-- The letters that are digits as well, small ones. -/
def smallDigits : List Char := ['a', 'b', 'c', 'd', 'e', 'f']

/-- The letters that are digits as well, capital ones. -/
def capitalDigits : List Char := ['A', 'B', 'C', 'D', 'E', 'F']

/-- The value of a digit is its place among the digits. -/
def digitValue (c : Char) : Nat :=
  if c ∈ capitalDigits then 10 + capitalDigits.idxOf c else (tenDigits ++ smallDigits).idxOf c

namespace Radix

/-- What stands in front of the digits. -/
def mark : Radix → List Char
  | .decimal => []
  | .hexadecimal capital => ['0', if capital then 'X' else 'x']

/-- The number of digits. -/
def base : Radix → Nat
  | .decimal => 10
  | .hexadecimal _ => 16

/-- The digits, letters in either case. -/
def digits : Radix → List Char
  | .decimal => tenDigits
  | .hexadecimal _ => tenDigits ++ (smallDigits ++ capitalDigits)

end Radix

/-- The letters of a suffix that ask for a type without a sign. -/
def unsignedMarks : List Char := ['u', 'U']

/-- The letters of a suffix that ask for a type of 64 bits. -/
def longMarks : List Char := ['l', 'L']

/-- The suffixes of integers: none, one mark, or two different ones in either order. -/
def integerSuffixes : List (List Char) :=
  [] :: (unsignedMarks ++ longMarks).map ([·]) ++
    unsignedMarks.flatMap fun u => longMarks.flatMap fun l => [[u, l], [l, u]]

/-- An integer literal as it can be written: the mark of its base, a digit, further digits and
underscores, and a suffix. -/
structure IntegerText where
  radix : Radix
  first : Char
  rest : List Char
  suffix : List Char
  first_mem : first ∈ radix.digits
  rest_mem : ∀ c ∈ rest, c ∈ radix.digits ∨ c = '_'
  suffix_mem : suffix ∈ integerSuffixes

namespace IntegerText

/-- The digits and underscores. -/
def numeral (t : IntegerText) : List Char := t.first :: t.rest

/-- The literal. -/
def text (t : IntegerText) : String :=
  String.ofList (t.radix.mark ++ (t.numeral ++ t.suffix))

/-- The number that the digits spell in their base. -/
def value (t : IntegerText) : Nat :=
  Nat.ofDigits t.radix.base ((bare t.numeral).map digitValue).reverse

/-- The types of integers that a suffix allows, in the order in which they are tried. -/
def kindsOf (suffix : List Char) : List IntegerKind :=
  [.int32, .uint32, .int64, .uint64].filter fun kind =>
    (suffix.any unsignedMarks.contains → kind.signed = false) ∧
      (suffix.any longMarks.contains → kind.width = 64)

/-- The first type that the suffix allows and that holds the number. -/
def kind? (t : IntegerText) : Option IntegerKind :=
  (kindsOf t.suffix).find? fun kind => (t.value : Int) ≤ kind.greatest

end IntegerText

/-! ## 2. Digits and suffixes -/

theorem Radix.digits_facts (r : Radix) : ∀ c ∈ r.digits,
    digitValue? c = some (digitValue c) ∧ digitValue c < r.base ∧ c ≠ '_' ∧ isIntSuffix c = false := by
  have hall : r.digits.all (fun c => digitValue? c = some (digitValue c) ∧ digitValue c < r.base ∧
      c ≠ '_' ∧ isIntSuffix c = false) = true := by
    cases r with
    | decimal => decide
    | hexadecimal capital => cases capital <;> decide
  exact fun c hc => of_decide_eq_true (List.all_eq_true.mp hall c hc)

theorem isDigit_of_mem_tenDigits {c : Char} (h : c ∈ tenDigits) :
    isDigit c = true ∧ isAsciiLetter c = false := by
  have hall : tenDigits.all (fun c => isDigit c = true ∧ isAsciiLetter c = false) = true := by decide
  exact of_decide_eq_true (List.all_eq_true.mp hall c h)

theorem isHexDigit_of_mem_digits {capital : Bool} {c : Char}
    (h : c ∈ (Radix.hexadecimal capital).digits) : isHexDigit c = true := by
  have hall : (tenDigits ++ (smallDigits ++ capitalDigits)).all isHexDigit = true := by decide
  exact List.all_eq_true.mp hall c h

/-- A suffix has no digit, point or exponent in it, and nothing that makes a real number. -/
theorem integerSuffixes_facts : ∀ suffix ∈ integerSuffixes,
    digitRun suffix = 0 ∧ fractionRun suffix = 0 ∧ exponentRun suffix = 0 ∧
      suffix.any isRealSuffix = false ∧ run (fun c => isHexDigit c || c == '_') suffix = 0 ∧
      startsWith (fun c => c == 'x' || c == 'X') suffix = false ∧
      suffix.all isIntSuffix = true ∧ suffix.all isAsciiLetter = true := by
  decide

theorem run_append {test : Char → Bool} {front back : List Char} (h : ∀ c ∈ front, test c = true) :
    run test (front ++ back) = front.length + run test back := by
  unfold run
  rw [List.takeWhile_append_of_pos h, List.length_append]

theorem ofDigits_foldl (base : Nat) (cs : List Char) :
    cs.foldl (fun n c => base * n + digitValue c) 0 =
      Nat.ofDigits base (cs.map digitValue).reverse := by
  rw [Nat.ofDigits_eq_foldr, List.foldr_reverse, List.foldl_map]
  simp only [Nat.cast_id, Nat.add_comm]

namespace IntegerText

variable (t : IntegerText)

theorem toList_text : t.text.toList = t.radix.mark ++ (t.numeral ++ t.suffix) := by
  rw [text, String.toList_ofList]

theorem numeral_mem {c : Char} (h : c ∈ t.numeral) : c ∈ t.radix.digits ∨ c = '_' := by
  rcases List.mem_cons.mp h with rfl | h
  · exact .inl t.first_mem
  · exact t.rest_mem c h

/-! ## 3. The scanner -/

/-- A numeral of ten digits ends where its suffix begins, and the suffix ends the number. -/
theorem decimalNumber_eq {ds suffix : List Char} (hd : ∀ c ∈ ds, (isDigit c || c == '_') = true)
    (hs : suffix ∈ integerSuffixes) :
    decimalNumber (ds ++ suffix) = (.intLiteral, ds.length + suffix.length) := by
  obtain ⟨hdigits, hfraction, hexponent, hreal, -, -, -, hletters⟩ := integerSuffixes_facts suffix hs
  have hrun : digitRun (ds ++ suffix) = ds.length := by
    rw [digitRun, run_append hd]
    exact congrArg (ds.length + ·) hdigits
  have hall : suffix.takeWhile isAsciiLetter = suffix :=
    List.takeWhile_eq_self_iff.mpr (List.all_eq_true.mp hletters)
  unfold decimalNumber
  simp only [hrun, List.drop_left, hfraction, Nat.add_zero, hexponent, hall, hreal]
  rfl

theorem isDigit_or_underscore {c : Char} (h : c ∈ tenDigits ∨ c = '_') :
    (isDigit c || c == '_') = true := by
  rcases h with h | rfl
  · rw [(isDigit_of_mem_tenDigits h).1, Bool.true_or]
  · rfl

/-- No mark of another base stands behind the first digit. -/
theorem startsWith_mark {rest suffix : List Char} (hrest : ∀ d ∈ rest, d ∈ tenDigits ∨ d = '_')
    (hs : suffix ∈ integerSuffixes) :
    startsWith (fun c => c == 'x' || c == 'X') (rest ++ suffix) = false := by
  cases rest with
  | nil => exact (integerSuffixes_facts suffix hs).2.2.2.2.2.1
  | cons d rest =>
    have hd := isDigit_or_underscore (hrest d (List.mem_cons_self ..))
    show (d == 'x' || d == 'X') = false
    refine Bool.eq_false_iff.mpr fun hx => ?_
    simp only [Bool.or_eq_true, beq_iff_eq] at hx
    rcases hx with rfl | rfl <;> cases hd

theorem piece_decimal {c : Char} {rest suffix : List Char} (hc : c ∈ tenDigits)
    (hrest : ∀ d ∈ rest, d ∈ tenDigits ∨ d = '_') (hs : suffix ∈ integerSuffixes) :
    piece c (rest ++ suffix) = .ok ⟨some .intLiteral, (rest ++ suffix).length⟩ := by
  have htest : ∀ d ∈ c :: rest, (isDigit d || d == '_') = true :=
    List.forall_mem_cons.mpr ⟨isDigit_or_underscore (.inl hc), fun d hd =>
      isDigit_or_underscore (hrest d hd)⟩
  have hnumber := decimalNumber_eq htest hs
  rw [List.cons_append] at hnumber
  rw [piece_of_isDigit (isDigit_of_mem_tenDigits hc).1, number]
  dsimp only
  rw [startsWith_mark hrest hs, Bool.and_false, if_neg Bool.false_ne_true, hnumber]
  simp only [List.length_append, List.length_cons]
  congr 2
  omega

theorem piece_hexadecimal {capital : Bool} {digits suffix : List Char} (hne : digits ≠ [])
    (hdigits : ∀ d ∈ digits, d ∈ (Radix.hexadecimal capital).digits ∨ d = '_')
    (hs : suffix ∈ integerSuffixes) :
    piece '0' ((if capital then 'X' else 'x') :: (digits ++ suffix)) =
      .ok ⟨some .intLiteral, (digits ++ suffix).length + 1⟩ := by
  have htest : ∀ d ∈ digits, (isHexDigit d || d == '_') = true := by
    intro d hd
    rcases hdigits d hd with hd | rfl
    · rw [isHexDigit_of_mem_digits hd, Bool.true_or]
    · rfl
  obtain ⟨-, -, -, -, hend, -, hletters, -⟩ := integerSuffixes_facts suffix hs
  have hrun : run (fun c => isHexDigit c || c == '_') (digits ++ suffix) = digits.length := by
    rw [run_append htest]
    exact congrArg (digits.length + ·) hend
  have hsuffix : run isIntSuffix suffix = suffix.length := by
    rw [run, List.takeWhile_eq_self_iff.mpr (List.all_eq_true.mp hletters)]
  have hpos : digits.length ≠ 0 := fun h => hne (List.length_eq_zero_iff.mp h)
  have hmark : (('0' : Char) == '0' && startsWith (fun c => c == 'x' || c == 'X')
      ((if capital then 'X' else 'x') :: (digits ++ suffix))) = true := by
    cases capital <;> rfl
  rw [piece_of_isDigit rfl, number]
  dsimp only
  rw [hmark, if_pos rfl, List.drop_succ_cons, List.drop_zero, hrun, if_neg hpos,
    Nat.add_comm 1, List.drop_succ_cons, List.drop_left, hsuffix, List.length_append]
  congr 2
  omega

theorem oneToken : OneToken .intLiteral t.text := by
  obtain ⟨radix, first, rest, suffix, hfirst, hrest, hsuffix⟩ := t
  cases radix with
  | decimal => exact .of_piece (toList_text _) (piece_decimal hfirst hrest hsuffix)
  | hexadecimal capital =>
    have hne : first :: rest ≠ [] := List.cons_ne_nil _ _
    have hdigits : ∀ d ∈ first :: rest, d ∈ (Radix.hexadecimal capital).digits ∨ d = '_' :=
      List.forall_mem_cons.mpr ⟨.inl hfirst, hrest⟩
    have hpiece := piece_hexadecimal hne hdigits hsuffix
    exact .of_piece (toList_text _) hpiece

/-! ## 4. The reader -/

theorem baseOf_text : baseOf t.text.toList = (t.radix.base, t.numeral ++ t.suffix) := by
  rw [toList_text]
  obtain ⟨radix, first, rest, suffix, hfirst, hrest, hsuffix⟩ := t
  cases radix with
  | decimal =>
    have hdigit : isDigits [first] = true :=
      isDigits_iff.mpr ⟨List.cons_ne_nil _ _, fun d hd => by
        rw [List.mem_singleton.mp hd]
        exact (isDigit_of_mem_tenDigits hfirst).1⟩
    have hbase : baseOf ([first] ++ (rest ++ suffix)) = (10, [first] ++ (rest ++ suffix)) :=
      baseOf_digits hdigit (startsWith_mark hrest hsuffix)
    exact hbase
  | hexadecimal capital => cases capital <;> rfl

/-- The letters that are cut off the end of a numeral are its suffix, also where digits are
letters. -/
theorem splitEnd_text :
    splitEnd (fun c => if t.radix.base = 16 then ['u', 'U', 'l', 'L'].contains c
      else isAsciiLetter c) (t.numeral ++ t.suffix) = (t.numeral, t.suffix) := by
  obtain ⟨-, -, -, -, -, -, hmarks, hletters⟩ := integerSuffixes_facts t.suffix t.suffix_mem
  refine splitEnd_append (fun c hc => ?_) fun c hc => ?_
  · rcases t.numeral_mem (List.mem_of_getLast? hc) with hdigit | rfl
    · have hmark := (t.radix.digits_facts c hdigit).2.2.2
      split
      · exact hmark
      next hbase =>
        cases hr : t.radix with
        | decimal =>
          rw [hr] at hdigit
          exact (isDigit_of_mem_tenDigits hdigit).2
        | hexadecimal capital => exact absurd (by rw [hr]; rfl) hbase
    · split <;> rfl
  · split
    · exact List.all_eq_true.mp hmarks c hc
    · exact List.all_eq_true.mp hletters c hc

theorem natOfDigits?_numeral : Decimal.natOfDigits? t.radix.base (bare t.numeral) = some t.value := by
  have hfirst : t.first ∈ bare t.numeral :=
    List.mem_filter.mpr ⟨List.mem_cons_self .., bne_iff_ne.mpr (t.radix.digits_facts _ t.first_mem).2.2.1⟩
  have hdigits : ∀ c ∈ bare t.numeral,
      digitValue? c = some (digitValue c) ∧ digitValue c < t.radix.base := by
    intro c hc
    obtain ⟨hmem, hne⟩ := List.mem_filter.mp hc
    obtain ⟨hvalue, hlt, -⟩ := t.radix.digits_facts c
      ((t.numeral_mem hmem).resolve_right (bne_iff_ne.mp hne))
    exact ⟨hvalue, hlt⟩
  rw [natOfDigits?_foldl (List.ne_nil_of_mem hfirst) hdigits, ofDigits_foldl, value]

/-- What the text denotes, unless the number takes more than 64 bits. -/
theorem intLiteral_text {suffix : IntSuffix} (hs : intSuffix? t.suffix = some suffix) :
    intLiteral t.text = if t.value < UInt64.size then .ok (.int t.value suffix)
      else .error (.integerRange t.text) := by
  unfold intLiteral
  rw [t.baseOf_text]
  dsimp only
  rw [t.splitEnd_text]
  dsimp only
  rw [hs, t.natOfDigits?_numeral]

/-! ## 5. The type -/

/-- The types that the read suffix allows, in the order in which they are tried. -/
def allowed : IntSuffix → List IntegerKind
  | .none => [.int32, .uint32, .int64, .uint64]
  | .unsigned => [.uint32, .uint64]
  | .long => [.int64, .uint64]
  | .unsignedLong => [.uint64]

theorem kindsOf_eq : ∀ suffix ∈ integerSuffixes,
    (intSuffix? suffix).map allowed = some (kindsOf suffix) := by
  decide

/-- The type of a literal is the first allowed one that holds its number. -/
theorem find?_allowed {n : Nat} (h : n < UInt64.size) (suffix : IntSuffix) :
    (allowed suffix).find? (fun kind => (n : Int) ≤ kind.greatest) = some (intKind n suffix) := by
  have hlast : (n : Int) ≤ IntegerKind.uint64.greatest := by
    have hsize : IntegerKind.uint64.greatest = UInt64.size - 1 := by decide
    omega
  cases suffix <;> simp only [allowed, List.find?, intKind, hlast, decide_true]
  all_goals grind

/-- An integer literal is exact.  Its text is one token; where its number fits into 64 bits, it is
read as an expression that means, wherever it stands, the constant of just that number, typed by the
first of the types that its suffix allows and that holds it; any other is refused as a number. -/
theorem means_value :
    OneToken .intLiteral t.text ∧
      if t.value ≤ 2 ^ 64 - 1 then
        ∃ node kind, parseNode t.text = .ok node ∧ t.kind? = some kind ∧
          kind.denote (kind.wrap t.value) = t.value ∧
          ∀ (s : Surface) (scope : List Param) (site : Option CallSite),
            s.resolve scope site node =
              .ok (.value (.const (.integer kind (kind.wrap t.value)) (.integer kind)))
      else
        ∃ e, parseNode t.text = .error e ∧ e.cause = .integerRange t.text ∧
          e.cause.errorClass = .invalidNumber := by
  have hsize : UInt64.size = 2 ^ 64 - 1 + 1 := rfl
  obtain ⟨suffix, hsuffix, hkinds⟩ := Option.map_eq_some_iff.mp (kindsOf_eq t.suffix t.suffix_mem)
  have hliteral : literalOf ⟨.intLiteral, t.text, wholeSpan t.text⟩ =
      if t.value < UInt64.size then .ok (.int t.value suffix)
      else .error ⟨.integerRange t.text, wholeSpan t.text⟩ := by
    rw [literalOf]
    dsimp only
    rw [t.intLiteral_text hsuffix]
    by_cases hlt : t.value < UInt64.size
    · rw [if_pos hlt, if_pos hlt]
    · rw [if_neg hlt, if_neg hlt]
  have hread := t.oneToken.parseNode_eq rfl
  rw [hliteral] at hread
  refine ⟨t.oneToken, ?_⟩
  split
  · next hfits =>
    have hlt : t.value < UInt64.size := by omega
    rw [if_pos hlt] at hread
    have hfound := find?_allowed hlt suffix
    have hkind : t.kind? = some (intKind t.value suffix) := by
      rw [kind?, ← hkinds, hfound]
    have hholds : (t.value : Int) ≤ (intKind t.value suffix).greatest := by
      have := List.find?_some hfound
      exact of_decide_eq_true this
    refine ⟨_, _, hread, hkind, IntegerKind.denote_wrap (Int.natCast_nonneg _) hholds, ?_⟩
    intro s scope site
    rw [Surface.resolve, literalTerm]
    rfl
  · next hlarge =>
    have hle : ¬ t.value < UInt64.size := by omega
    rw [if_neg hle] at hread
    exact ⟨_, hread, rfl, rfl⟩

/-- `0XFf_fFu` -/
example : ∃ t : IntegerText, t.text = "0XFf_fFu" ∧ t.value = 65535 ∧ t.kind? = some .uint32 :=
  ⟨⟨.hexadecimal true, 'F', ['f', '_', 'f', 'F'], ['u'], by decide, by simp; decide, by decide⟩,
    by decide, by decide, by decide⟩

end IntegerText

end FatArrow.Syntax
