import FatArrow.Proofs.Standard.Calls
import FatArrow.Standard.Text
import Mathlib.Algebra.Group.Nat.Defs
import Mathlib.Algebra.Ring.Int.Defs
import Mathlib.Data.List.Infix

/-!
# Positions in texts

Slices of a text and the search for another text count positions alike, by characters.  A slice is found
exactly where it lies in the text.  Start and length are added as words of 64 bits, however: where the
sum is too large for a word, it seems to lie before the text, and the slice is the rest of the text.
-/

namespace FatArrow.Standard

variable {cs needle rest : List Char} {start length : Int64} {i : Nat}

/-! ## 1. Slices -/

theorem negative_iff : start < 0 ↔ start.toInt < 0 := Int64.lt_iff_toInt_lt

theorem substringFrom_of_within (hlow : 0 ≤ start.toInt) (hhigh : start.toInt ≤ cs.length) :
    substringFrom cs start = .ok (cs.drop start.toInt.toNat) :=
  if_neg (by rw [negative_iff]; omega)

theorem substringFrom_of_outside (h : start.toInt < 0 ∨ cs.length < start.toInt) :
    substringFrom cs start = .error (.indexOutOfRange start.toInt cs.length) :=
  if_pos (by rwa [negative_iff])

/-- A slice is cut from the rest of the text. -/
theorem substring_of_within (hlow : 0 ≤ start.toInt) (hhigh : start.toInt ≤ cs.length) :
    substring cs start length =
      if length < 0 ∨ cs.length < (start + length).toInt then
        .error (.indexOutOfRange (start + length).toInt cs.length)
      else .ok ((cs.drop start.toInt.toNat).take length.toInt.toNat) := by
  rw [substring, substringFrom_of_within hlow hhigh]
  by_cases h : length < 0 ∨ cs.length < (start + length).toInt
  · rw [if_pos h]
    exact if_pos h
  · rw [if_neg h]
    exact if_neg h

theorem substring_of_outside (h : start.toInt < 0 ∨ cs.length < start.toInt) :
    substring cs start length = .error (.indexOutOfRange start.toInt cs.length) := by
  rw [substring, substringFrom_of_outside h]
  rfl

/-- A slice is found where it begins in the text, has no length below zero and does not end, as a word,
behind the text. -/
theorem substring_eq_ok_iff : substring cs start length = .ok rest ↔
    (0 ≤ start.toInt ∧ start.toInt ≤ cs.length) ∧ 0 ≤ length.toInt ∧
      (start + length).toInt ≤ cs.length ∧
        rest = (cs.drop start.toInt.toNat).take length.toInt.toNat := by
  by_cases h : 0 ≤ start.toInt ∧ start.toInt ≤ cs.length
  · rw [substring_of_within h.1 h.2]
    split
    next hout =>
      rw [negative_iff] at hout
      exact ⟨nofun, fun ⟨_, _, _, _⟩ => by omega⟩
    next hin =>
      rw [negative_iff] at hin
      constructor
      · intro hok
        cases hok
        exact ⟨h, by omega, by omega, rfl⟩
      · rintro ⟨-, -, -, rfl⟩
        rfl
  · rw [substring_of_outside (by omega)]
    exact ⟨nofun, fun hslice => absurd hslice.1 h⟩

/-- The sum of start and length is a word that is no less than zero, or is too large for a word. -/
theorem toInt_add_of_lt (hlow : 0 ≤ start.toInt) (hlength : 0 ≤ length.toInt)
    (hsum : start.toInt + length.toInt < 2 ^ 63) :
    (start + length).toInt = start.toInt + length.toInt := by
  rw [Int64.toInt_add]
  exact Int.bmod_eq_of_le (by omega) (by omega)

theorem toInt_add_of_ge (hsum : 2 ^ 63 ≤ start.toInt + length.toInt) :
    (start + length).toInt = start.toInt + length.toInt - 2 ^ 64 := by
  have hstart := start.toInt_lt
  have hlength := length.toInt_lt
  rw [Int64.toInt_add, ← Int.sub_bmod_right]
  exact Int.bmod_eq_of_le (by omega) (by omega)

/-- Where start and length have a sum that is a word, a slice is found exactly where it lies in the
text. -/
theorem substring_of_lt (hsum : start.toInt + length.toInt < 2 ^ 63) :
    substring cs start length = .ok rest ↔
      (0 ≤ start.toInt ∧ 0 ≤ length.toInt ∧ start.toInt + length.toInt ≤ cs.length) ∧
        rest = (cs.drop start.toInt.toNat).take length.toInt.toNat := by
  rw [substring_eq_ok_iff]
  constructor
  · rintro ⟨⟨hlow, -⟩, hlength, hstop, rfl⟩
    rw [toInt_add_of_lt hlow hlength hsum] at hstop
    exact ⟨⟨hlow, hlength, hstop⟩, rfl⟩
  · rintro ⟨⟨hlow, hlength, hstop⟩, rfl⟩
    exact ⟨⟨hlow, by omega⟩, hlength, by rwa [toInt_add_of_lt hlow hlength hsum], rfl⟩

/-- Where the sum is too large for a word, the slice is the rest of the text. -/
theorem substring_of_ge (hcs : cs.length < 2 ^ 31) (hsum : 2 ^ 63 ≤ start.toInt + length.toInt) :
    substring cs start length = substringFrom cs start := by
  have hlength := length.toInt_lt
  by_cases h : 0 ≤ start.toInt ∧ start.toInt ≤ cs.length
  · rw [substringFrom_of_within h.1 h.2, substring_eq_ok_iff, toInt_add_of_ge hsum]
    have hall : (cs.drop start.toInt.toNat).length ≤ length.toInt.toNat := by
      rw [List.length_drop]
      omega
    exact ⟨h, by omega, by omega, (List.take_of_length_le hall).symm⟩
  · rw [substring_of_outside (by omega), substringFrom_of_outside (by omega)]

/-! ## 2. The search -/

/-- A text that is found stands at the position, and nowhere before it. -/
theorem prefix_of_indexOf? (h : indexOf? needle cs = some i) :
    i ≤ cs.length ∧ needle <+: cs.drop i ∧ ∀ j < i, ¬needle <+: cs.drop j := by
  induction cs generalizing i with
  | nil =>
    unfold indexOf? at h
    split at h
    next hempty =>
      cases h
      exact ⟨Nat.le_refl _, by simpa using hempty, nofun⟩
    next => cases h
  | cons c cs ih =>
    unfold indexOf? at h
    split at h
    next hprefix =>
      cases h
      exact ⟨Nat.zero_le _, List.isPrefixOf_iff_prefix.mp hprefix, nofun⟩
    next hprefix =>
      obtain ⟨k, hk, rfl⟩ := Option.map_eq_some_iff.mp h
      obtain ⟨hle, hat, hbefore⟩ := ih hk
      refine ⟨Nat.succ_le_succ hle, hat, fun j hj => ?_⟩
      cases j with
      | zero => exact fun hat => hprefix (List.isPrefixOf_iff_prefix.mpr hat)
      | succ j => exact hbefore j (Nat.lt_of_succ_lt_succ hj)

/-- A text that is not found stands at no position. -/
theorem not_prefix_of_indexOf? (h : indexOf? needle cs = none) (i : Nat) (hi : i ≤ cs.length) :
    ¬needle <+: cs.drop i := by
  induction cs generalizing i with
  | nil =>
    unfold indexOf? at h
    split at h
    next => cases h
    next hne => simpa using hne
  | cons c cs ih =>
    unfold indexOf? at h
    split at h
    next => cases h
    next hprefix =>
      cases i with
      | zero => exact fun hat => hprefix (List.isPrefixOf_iff_prefix.mpr hat)
      | succ i => exact ih (Option.map_eq_none_iff.mp h) i (Nat.le_of_succ_le_succ hi)

/-- A text stands in another at a position: the slice of its length is the text. -/
def IsSliceAt (cs needle : List Char) (start : Int64) : Prop :=
  ∃ length : Int64, length.toInt = needle.length ∧ substring cs start length = .ok needle

theorem isSliceAt_iff (hcs : cs.length < 2 ^ 31) : IsSliceAt cs needle start ↔
    (0 ≤ start.toInt ∧ start.toInt ≤ cs.length) ∧ needle <+: cs.drop start.toInt.toNat := by
  constructor
  · rintro ⟨length, -, hslice⟩
    obtain ⟨hstart, -, -, hneedle⟩ := substring_eq_ok_iff.mp hslice
    exact ⟨hstart, hneedle ▸ List.take_prefix ..⟩
  · rintro ⟨hstart, hprefix⟩
    have hlength := hprefix.length_le
    rw [List.length_drop] at hlength
    have hword : (Int64.ofInt needle.length).toInt = needle.length :=
      Int64.toInt_ofInt_of_le (by omega) (by omega)
    refine ⟨Int64.ofInt needle.length, hword, (substring_of_lt (by omega)).mpr ⟨by omega, ?_⟩⟩
    rw [hword, Int.toNat_natCast]
    exact List.prefix_iff_eq_take.mp hprefix

/-! ## 3. One way of counting -/

/-- Slices of a text and the search in it count positions by characters. -/
structure CountsCharacters (s : String) : Prop where
  /-- A slice is found exactly where it lies in the text, if start and length have a sum that is a
  word. -/
  slice (start length : Int64) (hsum : start.toInt + length.toInt < 2 ^ 63) (r : List Char) :
    substring s.toList start length = .ok r ↔
      (0 ≤ start.toInt ∧ 0 ≤ length.toInt ∧ start.toInt + length.toInt ≤ s.toList.length) ∧
        r = (s.toList.drop start.toInt.toNat).take length.toInt.toNat
  /-- If they have none, the slice is the rest of the text. -/
  past (start length : Int64) (hsum : 2 ^ 63 ≤ start.toInt + length.toInt) :
    substring s.toList start length = substringFrom s.toList start
  /-- The rest of the text is a slice, and makes up the text with the characters before it. -/
  rest (start : Int64) (hlow : 0 ≤ start.toInt) (hhigh : start.toInt ≤ s.toList.length) :
    ∃ r, substringFrom s.toList start = .ok r ∧
      substring s.toList start (Int64.ofInt (s.toList.length - start.toInt)) = .ok r ∧
        s.toList.take start.toInt.toNat ++ r = s.toList
  /-- The methods of texts answer with the slices. -/
  called (a b : Value) (start length : Int64) (ha : a.int64? = some start)
    (hb : b.int64? = some length) :
    Answers text.methods "Substring" (some (.string s)) [a]
        ((substringFrom s.toList start).map fun r => .string (.ofList r)) ∧
      Answers text.methods "Substring" (some (.string s)) [a, b]
        ((substring s.toList start length).map fun r => .string (.ofList r))
  /-- A search answers with the first position at which the other text stands, or with minus one if it
  stands nowhere. -/
  found (needle : String) : ∃ v k, v.whole? = some k ∧
    Answers text.methods "IndexOf" (some (.string s)) [.string needle] (.ok v) ∧
      ((k = -1 ∧ ∀ i, ¬IsSliceAt s.toList needle.toList i) ∨
        ∃ i : Int64, i.toInt = k ∧ IsSliceAt s.toList needle.toList i ∧
          ∀ j, IsSliceAt s.toList needle.toList j → k ≤ j.toInt)

section

variable {s needle : String} {a b : Value}

theorem argInt_eq {c : Call} {n : Int64} (ha : c.args[i]? = some a) (hn : a.int64? = some n) :
    c.argInt i = .ok n := by
  simp only [Call.argInt, Call.argAs, Call.arg, ha, bind, Except.bind, hn]

theorem substringFrom_answers (ha : a.int64? = some start) :
    Answers text.methods "Substring" (some (.string s)) [a]
      ((substringFrom s.toList start).map fun r => .string (.ofList r)) := by
  refine ⟨_, rfl, fun store => ?_⟩
  show (liftM ((⟨some (.string s), [a], []⟩ : Call).argInt 0) >>= fun i =>
    liftM (substringFrom s.toList i) >>= fun r => pure (.string (.ofList r)) : Eval Value) store = _
  rw [argInt_eq rfl ha]
  show (liftM (substringFrom s.toList start) >>= fun r => pure (.string (.ofList r)) :
    Eval Value) store = _
  cases substringFrom s.toList start <;> rfl

theorem substring_answers (ha : a.int64? = some start) (hb : b.int64? = some length) :
    Answers text.methods "Substring" (some (.string s)) [a, b]
      ((substring s.toList start length).map fun r => .string (.ofList r)) := by
  refine ⟨_, rfl, fun store => ?_⟩
  show (liftM ((⟨some (.string s), [a, b], []⟩ : Call).argInt 0) >>= fun i =>
    liftM ((⟨some (.string s), [a, b], []⟩ : Call).argInt 1) >>= fun n =>
      liftM (substring s.toList i n) >>= fun r => pure (.string (.ofList r)) : Eval Value) store = _
  rw [argInt_eq rfl ha, argInt_eq rfl hb]
  show (liftM (substring s.toList start length) >>= fun r => pure (.string (.ofList r)) :
    Eval Value) store = _
  cases substring s.toList start length <;> rfl

theorem indexOf_answers : Answers text.methods "IndexOf" (some (.string s)) [.string needle]
    (.ok (.int32 (((indexOf? needle.toList s.toList).map Int.ofNat).getD (-1)))) :=
  ⟨_, rfl, fun _ => rfl⟩

end

theorem whole?_int32 {n : Int} (hlow : -2 ^ 31 ≤ n) (hhigh : n < 2 ^ 31) :
    (Value.int32 n).whole? = some n := by
  show some (BitVec.ofInt 32 n).toInt = some n
  rw [BitVec.toInt_ofInt]
  exact congrArg some (Int.bmod_eq_of_le (by omega) (by omega))

theorem countsCharacters (s : String) (hs : s.toList.length < 2 ^ 31) : CountsCharacters s where
  slice _ _ hsum _ := substring_of_lt hsum
  past _ _ hsum := substring_of_ge hs hsum
  rest start hlow hhigh := by
    have hword : (Int64.ofInt (s.toList.length - start.toInt)).toInt =
        s.toList.length - start.toInt := Int64.toInt_ofInt_of_le (by omega) (by omega)
    refine ⟨_, substringFrom_of_within hlow hhigh, ?_, ?_⟩
    · refine (substring_of_lt (by omega)).mpr ⟨by omega, (List.take_of_length_le ?_).symm⟩
      rw [List.length_drop]
      omega
    · exact List.take_append_drop ..
  called _ _ _ _ ha hb := ⟨substringFrom_answers ha, substring_answers ha hb⟩
  found needle := by
    cases h : indexOf? needle.toList s.toList with
    | none =>
      have hanswers : Answers text.methods "IndexOf" (some (.string s)) [.string needle]
          (.ok (.int32 (-1))) := by
        rw [show (-1 : Int) = (((none : Option Nat).map Int.ofNat).getD (-1)) from rfl, ← h]
        exact indexOf_answers
      refine ⟨_, -1, whole?_int32 (by omega) (by omega), hanswers, .inl ⟨rfl, fun i hi => ?_⟩⟩
      obtain ⟨hstart, hprefix⟩ := (isSliceAt_iff hs).mp hi
      exact not_prefix_of_indexOf? h _ (by omega) hprefix
    | some k =>
      obtain ⟨hle, hat, hbefore⟩ := prefix_of_indexOf? h
      have hanswers : Answers text.methods "IndexOf" (some (.string s)) [.string needle]
          (.ok (.int32 k)) := by
        rw [show (k : Int) = (((some k).map Int.ofNat).getD (-1)) from rfl, ← h]
        exact indexOf_answers
      have hword : (Int64.ofInt k).toInt = k := Int64.toInt_ofInt_of_le (by omega) (by omega)
      refine ⟨_, k, whole?_int32 (by omega) (by omega), hanswers,
        .inr ⟨Int64.ofInt k, hword, (isSliceAt_iff hs).mpr ⟨by omega, ?_⟩, fun j hj => ?_⟩⟩
      · rwa [hword, Int.toNat_natCast]
      · obtain ⟨hstart, hprefix⟩ := (isSliceAt_iff hs).mp hj
        by_contra hlt
        exact hbefore _ (by omega) hprefix

/-- A character of several bytes takes one position. -/
theorem countsCharacters_accent :
    "h\u00e9llo".toList.length < 2 ^ 31 ∧ CountsCharacters "h\u00e9llo" :=
  ⟨by decide, countsCharacters _ (by decide)⟩

/-- A slice that ends far behind the text is found, if start and length have a sum that is too large
for a word. -/
theorem substring_past_words :
    let length : Int64 := Int64.ofInt (2 ^ 63 - 1)
    "abc".toList.length < 1 + length.toInt ∧ substring "abc".toList 1 length = .ok "bc".toList := by
  decide

end FatArrow.Standard
