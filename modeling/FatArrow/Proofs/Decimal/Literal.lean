import FatArrow.Proofs.Binary.Order
import FatArrow.Proofs.Decimal.Nearest
import FatArrow.Proofs.Decimal.Shortest
import FatArrow.Proofs.Syntax.Literals

/-!
# Floats as literals

A finite float without a sign is printed as a literal.  One of 64 bits reads back as itself, and one of
32 bits as the float of 64 bits that is nearest to its shortest decimal.
-/

namespace FatArrow.Decimal

open Binary Syntax Text

variable {cs ds frac exp text : List Char} {p leading q : Int} {m : Nat} {v w : ℚ}

/-! ## 1. Texts that denote a number -/

/-- The text of a power of ten, or nothing for the power zero. -/
inductive IsPower : List Char → Int → Prop where
  | none : IsPower [] 0
  | some (p : Int) : IsPower ('e' :: (toString p).toList) p

/-- The number that digits spell. -/
def digitsValue (cs : List Char) : Nat := Nat.ofDigitChars 10 cs 0

/-- Digits, a fraction or none, and a power of ten or none denote a number. -/
structure Parts (text ds frac exp : List Char) (p : Int) (v : ℚ) : Prop where
  digits : isDigits ds = true
  fraction : IsFraction frac
  power : IsPower exp p
  real : frac ≠ [] ∨ exp ≠ []
  text_eq : text = ds ++ (frac ++ exp)
  value : (digitsValue (ds ++ frac.drop 1) : ℚ) * 10 ^ (p - (frac.drop 1).length) = v

theorem toList_toString_nat (n : Nat) : (toString (n : Int)).toList = Nat.toDigits 10 n := by
  show (Nat.repr n).toList = _
  rw [Nat.toList_repr]

theorem toList_toString_neg (n : Nat) :
    (toString (Int.negSucc n)).toList = '-' :: Nat.toDigits 10 (n + 1) := by
  show ("-" ++ Nat.repr (n + 1)).toList = _
  rw [String.toList_append, Nat.toList_repr]
  rfl

theorem IsPower.isExponent (h : IsPower exp p) : IsExponent exp := by
  cases h with
  | none => exact .none
  | some =>
    cases p with
    | ofNat n =>
      rw [Int.ofNat_eq_natCast, toList_toString_nat]
      exact .plus (isDigits_toDigits n)
    | negSucc n =>
      rw [toList_toString_neg]
      exact .minus (isDigits_toDigits (n + 1))

theorem intOfSigned?_toString (p : Int) : intOfSigned? 10 (toString p).toList = some p := by
  cases p with
  | ofNat n =>
    rw [Int.ofNat_eq_natCast, toList_toString_nat]
    obtain ⟨hne, hall⟩ := isDigits_iff.mp (isDigits_toDigits n)
    have hread := natOfDigits?_toDigits n
    generalize Nat.toDigits 10 n = cs at *
    cases cs with
    | nil => exact absurd rfl hne
    | cons c cs =>
      have hc := hall c (List.mem_cons_self ..)
      have hminus : c ≠ '-' := by
        rintro rfl
        cases hc
      have hplus : c ≠ '+' := by
        rintro rfl
        cases hc
      unfold intOfSigned? natOfSigned?
      split
      · next heq => exact absurd (List.cons.inj heq).1 hminus
      · split
        · next heq => exact absurd (List.cons.inj heq).1 hplus
        · rw [hread]
          rfl
  | negSucc n =>
    rw [toList_toString_neg]
    simp only [intOfSigned?, natOfDigits?_toDigits]
    rfl

theorem not_mark_of_mem (hd : isDigits ds = true) (hf : IsFraction frac) {c : Char}
    (hc : c ∈ ds ++ frac) : isDigit c = true ∨ c = '.' := by
  rcases List.mem_append.mp hc with hc | hc
  · exact .inl ((isDigits_iff.mp hd).2 c hc)
  · cases hf with
    | none => cases hc
    | some h =>
      rcases List.mem_cons.mp hc with rfl | hc
      · exact .inr rfl
      · exact .inl ((isDigits_iff.mp h).2 c hc)

/-- What denotes a number is read as the float nearest to a decimal with its value. -/
theorem Parts.float? (h : Parts text ds frac exp p v) :
    ∃ d e, Decimal.float? text = some (nearest d e) ∧ (d : ℚ) * 10 ^ e = v := by
  refine ⟨_, _, ?_, h.value⟩
  have hmark (c : Char) (hc : c ∈ ds ++ frac) : (!(c == 'e' || c == 'E')) = true := by
    rcases not_mark_of_mem h.digits h.fraction hc with hc | rfl
    · rw [beq_of_isDigit hc rfl, beq_of_isDigit hc rfl]
      rfl
    · rfl
  have hmantissa : text.takeWhile (fun c => !(c == 'e' || c == 'E')) = ds ++ frac := by
    rw [h.text_eq, ← List.append_assoc, List.takeWhile_append_of_pos hmark]
    cases h.power with
    | none => rw [List.takeWhile_nil, List.append_nil]
    | some => rw [List.takeWhile_cons_of_neg (by decide), List.append_nil]
  have hrest : text.drop (ds ++ frac).length = exp := by
    rw [h.text_eq, ← List.append_assoc, List.drop_left]
  have hpoint (c : Char) (hc : c ∈ ds) : (c != '.') = true := by
    rw [bne, beq_of_isDigit ((isDigits_iff.mp h.digits).2 c hc) rfl]
    rfl
  have hwhole : (ds ++ frac).takeWhile (· != '.') = ds := by
    rw [List.takeWhile_append_of_pos hpoint]
    cases h.fraction with
    | none => rw [List.takeWhile_nil, List.append_nil]
    | some => rw [List.takeWhile_cons_of_neg (by decide), List.append_nil]
  have hfraction : ((ds ++ frac).drop ds.length).drop 1 = frac.drop 1 := by
    rw [List.drop_left]
  have hall : isDigits (ds ++ frac.drop 1) = true := by
    obtain ⟨hne, hds⟩ := isDigits_iff.mp h.digits
    refine isDigits_iff.mpr ⟨List.append_ne_nil_of_left_ne_nil hne _, fun c hc => ?_⟩
    rcases List.mem_append.mp hc with hc | hc
    · exact hds c hc
    · cases h.fraction with
      | none => cases hc
      | some hf => exact (isDigits_iff.mp hf).2 c hc
  unfold Decimal.float?
  simp only [hmantissa, hrest, hwhole, hfraction, natOfDigits?_eq hall]
  cases h.power with
  | none => rfl
  | some =>
    simp only [intOfSigned?_toString]
    rfl

/-! ## 2. Layouts -/

theorem isDigits_append_replicate {n : Nat} (hc : ∀ d ∈ cs, isDigit d = true)
    (hn : 0 < cs.length + n) : isDigits (cs ++ List.replicate n '0') = true := by
  refine isDigits_iff.mpr ⟨fun he => ?_, fun d hd => ?_⟩
  · have hlength := congrArg List.length he
    rw [List.length_append, List.length_replicate, List.length_nil] at hlength
    omega
  · rcases List.mem_append.mp hd with hd | hd
    · exact hc d hd
    · rw [List.eq_of_mem_replicate hd]
      rfl

theorem digitsValue_append_zeros (cs : List Char) (n : Nat) :
    digitsValue (cs ++ List.replicate n '0') = digitsValue cs * 10 ^ n := by
  unfold digitsValue
  rw [Nat.ofDigitChars_append, Nat.ofDigitChars_replicate_zero, Nat.mul_comm]

theorem digitsValue_zeros_append (cs : List Char) (n : Nat) :
    digitsValue (List.replicate n '0' ++ cs) = digitsValue cs := by
  unfold digitsValue
  rw [Nat.ofDigitChars_append, Nat.ofDigitChars_replicate_zero, Nat.mul_zero]

theorem ten_pow_mul_zpow (n : Nat) (e : Int) : (10 : ℚ) ^ n * 10 ^ e = 10 ^ (n + e) := by
  rw [zpow_add₀ (by norm_num), zpow_natCast]

/-- Digits with the point after the digit of exponent zero. -/
theorem parts_positional (hc : isDigits cs = true) (leading : Int) :
    ∃ ds frac, Parts (positional 1 cs leading).toList ds frac [] 0
      (digitsValue cs * 10 ^ (leading + 1 - cs.length)) := by
  obtain ⟨hne, hall⟩ := isDigits_iff.mp hc
  have hlength := List.length_pos_of_ne_nil hne
  -- the digits before the point and those behind it, before a zero fills them up
  obtain ⟨whole, rest, hwhole, hrest, hvalue, htext⟩ : ∃ whole rest, isDigits whole = true ∧
      (∀ d ∈ rest, isDigit d = true) ∧
      (digitsValue (whole ++ rest) : ℚ) * 10 ^ (-(rest.length : Int)) =
        digitsValue cs * 10 ^ (leading + 1 - cs.length) ∧
      positional 1 cs leading =
        (let rest := rest ++ List.replicate (1 - rest.length) '0'
         String.ofList (if rest.isEmpty then whole else whole ++ '.' :: rest)) := by
    by_cases h : leading < 0
    · refine ⟨['0'], List.replicate ((-leading).toNat - 1) '0' ++ cs, rfl, fun d hd => ?_, ?_, ?_⟩
      · rcases List.mem_append.mp hd with hd | hd
        · rw [List.eq_of_mem_replicate hd]
          rfl
        · exact hall d hd
      · rw [show ['0'] = List.replicate 1 '0' from rfl, digitsValue_zeros_append,
          digitsValue_zeros_append, List.length_append, List.length_replicate]
        congr 2
        omega
      · simp [positional, h]
    · refine ⟨cs.take (leading.toNat + 1) ++
        List.replicate (leading.toNat + 1 - cs.length) '0', cs.drop (leading.toNat + 1),
        isDigits_append_replicate (fun d hd => hall d (List.mem_of_mem_take hd)) ?_,
        fun d hd => hall d (List.mem_of_mem_drop hd), ?_, ?_⟩
      · rw [List.length_take]
        omega
      · rcases Nat.lt_or_ge cs.length (leading.toNat + 1) with hlt | hge
        · rw [List.take_of_length_le hlt.le, List.drop_of_length_le hlt.le, List.append_nil,
            digitsValue_append_zeros]
          push_cast
          rw [mul_assoc, ten_pow_mul_zpow]
          congr 2
          rw [List.length_nil]
          omega
        · rw [Nat.sub_eq_zero_of_le hge, List.replicate_zero, List.append_nil,
            List.take_append_drop, List.length_drop]
          congr 2
          omega
      · simp [positional, h]
  have hfull := isDigits_append_replicate (n := 1 - rest.length) hrest (by omega)
  have hempty : (rest ++ List.replicate (1 - rest.length) '0').isEmpty = false := by
    rw [List.isEmpty_eq_false_iff]
    exact (isDigits_iff.mp hfull).1
  refine ⟨whole, '.' :: (rest ++ List.replicate (1 - rest.length) '0'), hwhole, .some hfull,
    .none, .inl (List.cons_ne_nil _ _), ?_, ?_⟩
  · rw [htext]
    dsimp only
    rw [hempty, if_neg Bool.false_ne_true, String.toList_ofList, List.append_nil]
  · rw [List.drop_one, List.tail_cons, ← List.append_assoc, digitsValue_append_zeros, ← hvalue,
      List.length_append, List.length_replicate]
    push_cast
    rw [mul_assoc, ten_pow_mul_zpow]
    congr 2
    omega

/-- One digit before the point and a power of ten. -/
theorem parts_scientific (hc : isDigits cs = true) (leading : Int) :
    ∃ ds frac exp, Parts (scientific cs leading).toList ds frac exp leading
      (digitsValue cs * 10 ^ (leading + 1 - cs.length)) := by
  obtain ⟨hne, hall⟩ := isDigits_iff.mp hc
  cases cs with
  | nil => exact absurd rfl hne
  | cons d cs =>
    have hd : isDigits [d] = true := isDigits_iff.mpr ⟨List.cons_ne_nil _ _, fun e he =>
      hall e (List.mem_of_mem_head? (by rw [List.mem_singleton.mp he]; rfl))⟩
    cases cs with
    | nil =>
      refine ⟨[d], [], _, hd, .none, .some leading, .inr (List.cons_ne_nil _ _), ?_, ?_⟩
      · simp [scientific]
      · simp
    | cons e cs =>
      have hrest : isDigits (e :: cs) = true := isDigits_iff.mpr ⟨List.cons_ne_nil _ _, fun f hf =>
        hall f (List.mem_cons_of_mem _ hf)⟩
      refine ⟨[d], '.' :: e :: cs, _, hd, .some hrest, .some leading, .inl (List.cons_ne_nil _ _),
        ?_, ?_⟩
      · simp [scientific]
      · simp only [List.drop_one, List.tail_cons, List.singleton_append, List.length_cons]
        congr 2
        push_cast
        omega

/-- The digits of a decimal and their value. -/
theorem significant_spec {d : Numeral} (hd : 0 < d.digits) :
    isDigits d.significant = true ∧
      (digitsValue d.significant : ℚ) * 10 ^ (d.leading + 1 - d.significant.length) =
        d.digits * 10 ^ d.exponent := by
  -- the digits are the significant ones and zeros
  obtain ⟨n, hn⟩ : ∃ n, Nat.toDigits 10 d.digits = d.significant ++ List.replicate n '0' := by
    have hsplit := congrArg List.reverse (List.takeWhile_append_dropWhile (p := (· == '0'))
      (l := (Nat.toDigits 10 d.digits).reverse))
    rw [List.reverse_append, List.reverse_reverse] at hsplit
    refine ⟨((Nat.toDigits 10 d.digits).reverse.takeWhile (· == '0')).length, ?_⟩
    rw [← hsplit]
    unfold Numeral.significant
    congr 1
    refine List.eq_replicate_iff.mpr ⟨?_, fun c hc => ?_⟩
    · rw [List.length_reverse, hsplit]
    · have := List.all_takeWhile (p := (· == '0')) (l := (Nat.toDigits 10 d.digits).reverse)
      exact beq_iff_eq.mp (List.all_eq_true.mp this c (List.mem_reverse.mp hc))
  have hvalue : d.digits = digitsValue d.significant * 10 ^ n := by
    rw [← digitsValue_append_zeros, ← hn]
    exact Nat.ofDigitChars_ten_toDigits.symm
  have hlength := congrArg List.length hn
  rw [List.length_append, List.length_replicate] at hlength
  constructor
  · refine isDigits_iff.mpr ⟨fun hnil => ?_, fun c hc => ?_⟩
    · rw [hnil] at hvalue
      have hzero : digitsValue [] = 0 := rfl
      rw [hzero, Nat.zero_mul] at hvalue
      omega
    · refine (isDigits_iff.mp (isDigits_toDigits d.digits)).2 c ?_
      rw [hn]
      exact List.mem_append_left _ hc
  · have hexponent : d.leading + 1 - d.significant.length = n + d.exponent := by
      unfold Numeral.leading
      rw [hlength]
      push_cast
      omega
    conv_rhs => rw [hvalue]
    push_cast
    rw [hexponent, ← ten_pow_mul_zpow, mul_assoc]

/-- The text of a positive decimal denotes its value. -/
theorem parts_write {d : Numeral} (hd : 0 < d.digits) :
    ∃ ds frac exp p, Parts (Layout.literal.write d).toList ds frac exp p
      (d.digits * 10 ^ d.exponent) := by
  obtain ⟨hdigits, hvalue⟩ := significant_spec hd
  unfold Layout.write
  dsimp only
  rw [← hvalue]
  split
  · obtain ⟨ds, frac, exp, h⟩ := parts_scientific hdigits d.leading
    exact ⟨ds, frac, exp, _, h⟩
  · obtain ⟨ds, frac, h⟩ := parts_positional hdigits d.leading
    exact ⟨ds, frac, [], 0, h⟩

/-! ## 3. Literals -/

/-- The suffixes of printed floats. -/
def realSuffixes : List (String × RealSuffix) := [("", .none), ("F", .float)]

/-- A text ends in a digit. -/
def EndsInDigit (cs : List Char) : Prop := ∀ c, cs.getLast? = some c → isDigit c = true

theorem EndsInDigit.append (h : EndsInDigit cs) (hne : cs ≠ []) (front : List Char) :
    EndsInDigit (front ++ cs) := by
  intro c hc
  rw [List.getLast?_append_of_ne_nil _ hne] at hc
  exact h c hc

theorem EndsInDigit.of_isDigits (h : isDigits cs = true) : EndsInDigit cs :=
  fun c hc => (isDigits_iff.mp h).2 c (List.mem_of_getLast? hc)

theorem Parts.endsInDigit (h : Parts text ds frac exp p v) : EndsInDigit text := by
  have hfront : EndsInDigit (ds ++ frac) := by
    cases h.fraction with
    | none =>
      rw [List.append_nil]
      exact .of_isDigits h.digits
    | some hf =>
      rw [List.append_cons]
      exact (EndsInDigit.of_isDigits hf).append (isDigits_iff.mp hf).1 _
  rw [h.text_eq, ← List.append_assoc]
  cases h.power.isExponent with
  | none => rwa [List.append_nil]
  | plus he =>
    rw [List.append_cons]
    exact (EndsInDigit.of_isDigits he).append (isDigits_iff.mp he).1 _
  | minus he =>
    rw [List.append_cons, List.append_cons]
    exact (EndsInDigit.of_isDigits he).append (isDigits_iff.mp he).1 _

/-- No underscores stand between the digits. -/
theorem Parts.bare_text (h : Parts text ds frac exp p v) : bare text = text := by
  refine List.filter_eq_self.mpr fun c hc => ?_
  have hdigit (hc : isDigit c = true) : (c != '_') = true := by
    rw [bne, beq_of_isDigit hc rfl]
    rfl
  rw [h.text_eq, ← List.append_assoc] at hc
  rcases List.mem_append.mp hc with hc | hc
  · rcases not_mark_of_mem h.digits h.fraction hc with hc | rfl
    · exact hdigit hc
    · rfl
  · cases h.power.isExponent with
    | none => cases hc
    | plus he =>
      rcases List.mem_cons.mp hc with rfl | hc
      · rfl
      · exact hdigit ((isDigits_iff.mp he).2 c hc)
    | minus he =>
      rcases List.mem_cons.mp hc with rfl | hc
      · rfl
      · rcases List.mem_cons.mp hc with rfl | hc
        · rfl
        · exact hdigit ((isDigits_iff.mp he).2 c hc)

/-- A literal whose number is not too large is the float nearest to the number. -/
theorem Parts.realLiteral {text : String} (h : Parts text.toList ds frac exp p v)
    {suffix : String} {kind : RealSuffix} (hs : (suffix, kind) ∈ realSuffixes) :
    ∃ (d : Nat) (e : Int), (d : ℚ) * 10 ^ e = v ∧ (IsFiniteWord (nearest d e).toBits →
      realLiteral (text ++ suffix) = .ok (.real (nearest d e) kind)) := by
  obtain ⟨d, e, hread, hvalue⟩ := h.float?
  have hfacts : (∀ c ∈ suffix.toList, isAsciiLetter c = true) ∧
      realSuffix? suffix.toList = some kind := by
    simp only [realSuffixes, List.mem_cons, Prod.mk.injEq, List.not_mem_nil, or_false] at hs
    rcases hs with ⟨rfl, rfl⟩ | ⟨rfl, rfl⟩ <;>
      exact ⟨List.all_eq_true.mp (by decide), by decide⟩
  have hsplit := splitEnd_append
    (fun c hc => isAsciiLetter_of_isDigit (h.endsInDigit c hc)) hfacts.1
  refine ⟨d, e, hvalue, fun hfinite => ?_⟩
  unfold Syntax.realLiteral
  rw [String.toList_append, hsplit]
  dsimp only
  rw [hfacts.2, h.bare_text, hread]
  dsimp only
  rw [if_pos (isFinite_of_word hfinite)]

/-! ## 4. Floats -/

/-- The float nearest to a decimal. -/
def Numeral.nearest (d : Numeral) : Float := Decimal.nearest d.digits d.exponent

/-- The shortest decimal of zero is zero. -/
theorem shortest_zero (f : Format) (q : Int) : (shortest f 0 q).digits = 0 := by
  have hnum : (Format.scaled 0 1 (-q)).1 = 0 := scaledBy_zero (-q) 2 1
  have hden : 0 < (Format.scaled 0 1 (-q)).2 := Format.scaled_den_pos 0 (-q) Nat.one_pos
  have hholds (e : Int) : (interval f 0 q).holds 0 e = true := by
    rw [holds_iff, Nat.cast_zero, zero_mul]
    have hpos := two_zpow_pos (q - 2)
    unfold Interval.Contains
    have hclosed : (interval f 0 q).closed = true := rfl
    have hlow : (interval f 0 q).low = 0 := by
      simp only [interval]
      omega
    have hhigh : (interval f 0 q).high = 2 := rfl
    have hunit : (interval f 0 q).unit = q - 2 := rfl
    rw [hclosed, if_pos rfl, hlow, hhigh, hunit, Nat.cast_zero, zero_mul]
    exact ⟨le_refl _, by positivity⟩
  unfold shortest
  generalize Format.scaled 0 1 (-q) = p at *
  obtain ⟨num, den⟩ := p
  subst hnum
  dsimp only
  -- the point zero of the first grid is picked
  have hpick (e : Int) : (interval f 0 q).pick? 0 den e = some 0 := by
    have hn : (scaledTen 0 den e).1 = 0 := scaledBy_zero e 10 den
    have hd : 0 < (scaledTen 0 den e).2 := scaledBy_den_pos 0 e (by decide) hden
    unfold Interval.pick?
    dsimp only
    rw [hn, Nat.zero_div, Nat.zero_mod, hholds, Nat.mul_zero, if_pos hd]
    cases (interval f 0 q).holds (0 + 1) e <;> rfl
  unfold firstHit
  simp only [hpick]

theorem digits_pos_of_contains {f : Format} {d : Nat} {e : Int} (hm : 0 < m)
    (h : (interval f m q).Contains (d * 10 ^ e)) : 0 < d := by
  have hlow := (interval_bounds hm h).1
  have hpos := two_zpow_pos q
  have hmone : (1 : ℚ) ≤ m := by exact_mod_cast hm
  rw [Nat.pos_iff_ne_zero]
  rintro rfl
  rw [Nat.cast_zero, zero_mul] at hlow
  nlinarith

/-- The text of a finite datum without a sign denotes the value of its shortest decimal. -/
theorem parts_datumText {f : Format} (hq : f.Canonical m q) (hf : f.fraction ≤ 52)
    (hlow : -1100 ≤ q) (hhigh : q ≤ 1100) :
    ∃ ds frac exp p, Parts (Layout.literal.datumText f (.finite false m q)).toList ds frac exp p
      ((shortest f m q).digits * 10 ^ (shortest f m q).exponent) := by
  have htext : Layout.literal.datumText f (.finite false m q) =
    if m = 0 then positional 1 ['0'] 0 else Layout.literal.write (shortest f m q) := rfl
  rw [htext]
  split
  · next hz =>
    subst hz
    obtain ⟨ds, frac, h⟩ := @parts_positional ['0'] rfl 0
    have hzero : digitsValue ['0'] = 0 := rfl
    rw [hzero, Nat.cast_zero, zero_mul] at h
    rw [shortest_zero, Nat.cast_zero, zero_mul]
    exact ⟨ds, frac, [], 0, h⟩
  · next hz =>
    have hm := Nat.pos_of_ne_zero hz
    exact parts_write (digits_pos_of_contains hm (shortest_contains hq hm hf hlow hhigh))

/-- A finite float of 64 bits is the one nearest to its shortest decimal. -/
theorem nearest_shortest {x : Float} (h : datumOf x = .finite false m q) :
    (shortest .double m q).nearest = x := by
  obtain ⟨hq, hbits, hfinite, hsign⟩ := Format.decode_eq_finite h
  obtain ⟨hlow, hhigh⟩ := double_exponent h
  rw [Nat.mod_eq_of_lt (not_le.mp (of_decide_eq_false hsign.symm))] at hbits hfinite
  unfold Numeral.nearest
  rcases Nat.eq_zero_or_pos m with rfl | hm
  · have hzero : x.toBits = 0 := by
      rw [hq.eq_minExponent, Int.sub_self, Int.toNat_zero, Nat.zero_mul] at hbits
      rw [← UInt64.toNat_inj, hbits]
      rfl
    rw [shortest_zero, ← Float.ofBits_toBits x, hzero]
    rfl
  · have hcontains := shortest_contains hq hm (by decide) (by omega) (by omega)
    rw [nearest_of_contains hq hm (by omega) hcontains, ← hbits,
      Nat.min_eq_right hfinite.le, UInt64.ofNat_toNat, Float.ofBits_toBits]

/-- The text of a finite float of 64 bits without a sign denotes the value of its shortest decimal. -/
theorem parts_floatText {x : Float} (h : datumOf x = .finite false m q) :
    ∃ ds frac exp p, Parts (Layout.literal.floatText x).toList ds frac exp p
      ((shortest .double m q).digits * 10 ^ (shortest .double m q).exponent) := by
  obtain ⟨hlow, hhigh⟩ := double_exponent h
  unfold Layout.floatText
  rw [h]
  exact parts_datumText (Format.decode_eq_finite h).1 (by decide) (by omega) (by omega)

/-- The text of a finite float of 32 bits without a sign denotes the value of its shortest decimal. -/
theorem parts_float32Text {x : Float32} (h : datumOf32 x = .finite false m q) :
    ∃ ds frac exp p, Parts (Layout.literal.float32Text x).toList ds frac exp p
      ((shortest .single m q).digits * 10 ^ (shortest .single m q).exponent) := by
  obtain ⟨hlow, hhigh⟩ := single_exponent h
  unfold Layout.float32Text
  rw [h]
  exact parts_datumText (Format.decode_eq_finite h).1 (by decide) (by omega) (by omega)

/-- A finite float of 64 bits without a sign is printed as a literal that reads back as itself. -/
theorem realLiteral_floatText {x : Float} (h : datumOf x = .finite false m q) :
    Syntax.realLiteral (Layout.literal.floatText x) = .ok (.real x .none) := by
  obtain ⟨ds, frac, exp, p, hparts⟩ := parts_floatText h
  obtain ⟨d, e, hvalue, hread⟩ := hparts.realLiteral (List.mem_cons_self ..)
  have hx : Decimal.nearest d e = x := (nearest_congr hvalue).trans (nearest_shortest h)
  rw [hx, String.append_empty] at hread
  exact hread (Format.decode_eq_finite h).2.2.1

/-- A datum of 32 bits and half a unit more are far from the largest float of 64 bits. -/
theorem single_lt {x : Float32} (h : datumOf32 x = .finite false m q) :
    ((m : ℚ) + 1 / 2) * 2 ^ q < 2 ^ (500 : Int) := by
  obtain ⟨hlow, hhigh⟩ := single_exponent h
  have hroom : (m : ℚ) + 1 ≤ 2 ^ (24 : Int) := by
    have hlt : m < 2 * Format.single.leadingBit := (Format.decode_eq_finite h).1.room
    have : m + 1 ≤ 2 ^ 24 := hlt
    exact_mod_cast this
  calc ((m : ℚ) + 1 / 2) * 2 ^ q ≤ 2 ^ (24 : Int) * 2 ^ q :=
        mul_le_mul_of_nonneg_right (by linarith) (two_zpow_pos q).le
    _ = 2 ^ (24 + q) := (zpow_add₀ (by norm_num) _ _).symm
    _ < 2 ^ (500 : Int) := zpow_lt_zpow_right₀ (by norm_num) (by omega)

/-- The shortest decimal of a datum of 32 bits is far from the largest float. -/
theorem value_shortest_lt {x : Float32} (h : datumOf32 x = .finite false m q) :
    ((shortest .single m q).digits : ℚ) * 10 ^ (shortest .single m q).exponent <
      2 ^ (500 : Int) := by
  have hq := (Format.decode_eq_finite h).1
  obtain ⟨hlow, hhigh⟩ := single_exponent h
  rcases Nat.eq_zero_or_pos m with rfl | hm
  · rw [shortest_zero, Nat.cast_zero, zero_mul]
    exact two_zpow_pos _
  · have hcontains := shortest_contains hq hm (by decide) (by omega) (by omega)
    exact (interval_bounds hm hcontains).2.1.trans_lt (single_lt h)

/-- A finite float of 32 bits without a sign is printed as a literal for the float of 64 bits that is
nearest to its shortest decimal. -/
theorem realLiteral_float32Text {x : Float32} (h : datumOf32 x = .finite false m q) :
    Syntax.realLiteral (Layout.literal.float32Text x ++ "F") =
      .ok (.real (shortest .single m q).nearest .float) := by
  obtain ⟨ds, frac, exp, p, hparts⟩ := parts_float32Text h
  obtain ⟨d, e, hvalue, hread⟩ :=
    hparts.realLiteral (List.mem_cons_of_mem _ (List.mem_cons_self ..))
  have hx : Decimal.nearest d e = (shortest .single m q).nearest := nearest_congr hvalue
  rw [hx] at hread
  exact hread (isFinite_nearest (value_shortest_lt h))

/-! ## 5. Printed floats -/

/-- A finite float of 32 bits is finite among those of 64 bits. -/
theorem isFinite_widenFloat {x : Float32} (h : datumOf32 x = .finite false m q) :
    IsFiniteWord (widenFloat x).toBits := by
  unfold widenFloat floatOf
  rw [h]
  exact isFinite_ofNat (encodeRatio_single_lt h)

theorem literalText_double {x : Float} (h : datumOf x = .finite false m q) :
    (Value.double x).literalText = Layout.literal.floatText x := by
  simp only [Value.literalText, floatName?_of_word (Format.decode_eq_finite h).2.2.1]

theorem literalText_single {x : Float32} (h : datumOf32 x = .finite false m q) :
    (Value.single x).literalText = Layout.literal.float32Text x ++ "F" := by
  simp only [Value.literalText, floatName?_of_word (isFinite_widenFloat h)]

end FatArrow.Decimal
