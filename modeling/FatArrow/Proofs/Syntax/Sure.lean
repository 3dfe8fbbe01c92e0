import FatArrow.Proofs.Syntax.Slices
import FatArrow.Proofs.Syntax.Traced

/-!
# Steps with checks

A step with checks goes the way of the step without them, and neither a check nor the bound on the depth
ever fails.  What carries this along is that the cursor stands in tokens that can be cut, that the splits
made so far are inside of the buffer, and that no step adds to the signs that are left.
-/

namespace FatArrow.Syntax

open Cursor (Takes)

/-! ## 1. Cursors -/

/-- The cursor stands in tokens that can be cut, and its splits can be undone inside of the buffer. -/
structure Cursor.Proper (c : Cursor) : Prop where
  ready : c.Ready
  quoted : ∀ t ∈ c.left, t.Quoted
  inside : ∀ split ∈ c.splits, split.1 < c.buffer.size

namespace Cursor

variable {c d : Cursor} {ts : List Taken}

theorem Proper.sound (h : c.Proper) : c.Sound := h.ready.sound

theorem Proper.skip (h : c.Proper) (hk : c.kind ≠ .eof) : c.skip.Proper := by
  refine ⟨(takes_skip hk).ready h.ready, fun t ht => h.quoted t ?_, ?_⟩
  · rw [left_skip hk] at ht
    rw [h.sound.left_eq]
    exact List.mem_cons_of_mem _ ht
  · unfold Cursor.skip
    rw [if_neg hk]
    exact h.inside

theorem Proper.split (h : c.Proper) (hk : c.kind = .greaterGreater) : c.split.Proper := by
  have hsize : c.split.buffer.size = c.buffer.size := Array.size_setIfInBounds ..
  refine ⟨(takes_split hk).ready h.ready, fun t ht => ?_, fun split hs => ?_⟩
  · rw [h.sound.left_split] at ht
    rcases List.mem_cons.mp ht with rfl | ht
    · exact .of_plain rfl
    · refine h.quoted t ?_
      rw [h.sound.left_eq]
      exact List.mem_cons_of_mem _ ht
  · rw [hsize]
    rcases List.mem_cons.mp hs with rfl | hs
    · exact h.sound.lt_size
    · exact h.inside split hs

theorem Takes.proper (h : c.Takes ts d) (hc : c.Proper) : d.Proper := by
  induction h with
  | none => exact hc
  | skip _ hk ih => exact ih.skip hk
  | split _ hk ih => exact ih.split hk

theorem Takes.length_le (h : c.Takes ts d) (hc : c.Sound) : d.signs.length ≤ c.signs.length :=
  (h.reaches hc).elim fun _ hreaches => hreaches.length_le

/-- The token at the cursor is in quotes where it should be. -/
theorem Proper.quoted_peek (h : c.Proper) : c.peek.Quoted := by
  refine h.quoted _ ?_
  rw [h.sound.left_eq]
  exact List.mem_cons_self ..

/-- A `>>` at the cursor is one. -/
theorem Proper.lexeme_double (h : c.Proper) (hk : c.kind = .greaterGreater) :
    c.peek.lexeme = ">>" := by
  refine (h.ready.tidy.double _ ?_ hk).1
  rw [h.sound.left_eq]
  exact List.mem_cons_self ..

/-- The tokens from the cursor to the end of the buffer are there. -/
theorem Sound.peekAt_eq (h : c.Sound) (n : Nat) :
    c.buffer[min (c.position + n) (c.buffer.size - 1)]? = some (c.peekAt n) := by
  have hlt := h.lt_size
  have hin : min (c.position + n) (c.buffer.size - 1) < c.buffer.size := by omega
  rw [peekAt, Array.getElem?_eq_getElem hin]
  rfl

/-- Before the end of the text there is a next token. -/
theorem Sound.succ_lt_size {n : Nat} (h : c.Sound) (hk : (c.peekAt n).kind ≠ .eof) :
    c.position + n + 1 < c.buffer.size := by
  refine Nat.lt_of_not_le fun hle => hk ?_
  have hget := h.peekAt_eq n
  obtain ⟨front, last, hb, he, -⟩ := h
  have hsize : c.buffer.size = front.length + 1 := by
    rw [← Array.length_toList, hb, List.length_append, List.length_singleton]
  have hmin : min (c.position + n) (c.buffer.size - 1) = front.length := by omega
  rw [hmin, ← Array.getElem?_toList, hb, List.getElem?_concat_length] at hget
  rw [← Option.some.inj hget, he]

end Cursor

namespace Checked

open Reader (bind_of_ok bind_of_error run_if_pos run_if_neg get_bind)

variable {α β : Type} {s s' : Step α} {r r' : Reader α} {f : α → Step β} {g : α → Reader β}
  {c d : Cursor} {a : α} {n m : Nat} {kind : TokenKind}

/-! ## 2. Single steps -/

theorem verify_of_ok {x : Except Fault α} (h : x = .ok a) : verify x c = .ok a c := by
  rw [h]
  rfl

theorem tokenAt_of_some {i : Nat} {t : Token} (h : c.buffer[i]? = some t) :
    tokenAt i c = .ok t c := by
  unfold tokenAt
  rw [get_bind, h]
  rfl

theorem peekAt_eq (hc : c.Sound) (n : Nat) : peekAt n c = .ok (c.peekAt n) c := by
  have hlt := hc.lt_size
  unfold peekAt
  rw [get_bind, bind_of_ok (verify_of_ok (minus_of_le (by omega)))]
  exact tokenAt_of_some (hc.peekAt_eq n)

theorem peek_eq (hc : c.Sound) : peek c = .ok c.peek c := peekAt_eq hc 0

theorem merge_eq (a b : Span) : merge a b c = .ok (a.merge b) c := by
  have hle : (if a.offset ≤ b.offset then a else b).offset ≤ max a.stop b.stop := by
    unfold Span.stop
    split <;> omega
  unfold merge
  rw [bind_of_ok (verify_of_ok (minus_of_le hle))]
  rfl

theorem write_of_lt {i : Nat} {t : Token} (h : i < c.buffer.size) :
    write i t c = .ok () { c with buffer := c.buffer.setIfInBounds i t } := by
  unfold write
  rw [get_bind, run_if_pos h]
  rfl

theorem advance_eq (hc : c.Sound) : advance c = .ok c.peek c.skip := by
  unfold advance
  rw [bind_of_ok (peek_eq hc)]
  unfold Cursor.skip
  by_cases hk : c.kind = .eof
  · rw [if_pos hk]
    exact run_if_pos hk
  · rw [if_neg hk]
    exact run_if_neg hk

theorem check_eq (hc : c.Sound) : check kind c = .ok (c.kind == kind) c := by
  unfold check
  rw [bind_of_ok (peek_eq hc)]
  rfl

theorem eat_eq (hc : c.Sound) :
    eat kind c = .ok (c.kind == kind) (if c.kind = kind then c.skip else c) := by
  unfold eat
  rw [bind_of_ok (check_eq hc)]
  by_cases hk : c.kind = kind
  · rw [beq_iff_eq.mpr hk, run_if_pos rfl, bind_of_ok (advance_eq hc), if_pos hk]
    rfl
  · rw [beq_false_of_ne hk, run_if_neg Bool.false_ne_true, if_neg hk]
    rfl

theorem expect_of_eq (hc : c.Sound) (h : c.kind = kind) : expect kind c = .ok c.peek c.skip := by
  unfold expect
  rw [bind_of_ok (peek_eq hc)]
  exact (run_if_pos h).trans (advance_eq hc)

theorem expect_of_ne (hc : c.Sound) (h : c.kind ≠ kind) :
    expect kind c = .error (.refused ⟨.expectedToken kind c.kind, c.peek.span⟩) c := by
  unfold expect
  rw [bind_of_ok (peek_eq hc)]
  exact run_if_neg h

/-- A `>>` is cut after its first byte, and the second half is written back. -/
theorem expectClosingAngle_of_double (hc : c.Proper) (hk : c.kind = .greaterGreater) :
    expectClosingAngle c = .ok (Cursor.halves c.peek).1 c.split := by
  have hlexeme := hc.lexeme_double hk
  have hfirst : cut 0 1 c.peek.lexeme.toList = .ok ['>'] := by rw [hlexeme]; rfl
  have hsecond : cut 1 c.peek.lexeme.utf8ByteSize c.peek.lexeme.toList = .ok ['>'] := by
    rw [hlexeme]
    rfl
  unfold expectClosingAngle
  rw [bind_of_ok (peek_eq hc.sound)]
  refine (run_if_pos hk).trans ?_
  rw [bind_of_ok (verify_of_ok hfirst), bind_of_ok (verify_of_ok hsecond)]
  have hwrite := write_of_lt (c := { c with splits := (c.position, c.peek) :: c.splits })
    (t := (Cursor.halves c.peek).2) hc.sound.lt_size
  exact bind_of_ok hwrite

/-- Splits inside of the buffer are undone. -/
theorem undo_eq (n : Nat) (h : ∀ split ∈ c.splits, split.1 < c.buffer.size) :
    undo n c = .ok () ⟨(Cursor.undo c.buffer n c.splits).1, c.position,
      (Cursor.undo c.buffer n c.splits).2⟩ := by
  induction n generalizing c with
  | zero => rfl
  | succ n ih =>
    obtain ⟨buffer, position, splits⟩ := c
    cases splits with
    | nil => rfl
    | cons split splits =>
      obtain ⟨hfirst, hrest⟩ := List.forall_mem_cons.mp h
      have hwrite := write_of_lt (c := ⟨buffer, position, splits⟩) (t := split.2) hfirst
      show (write split.1 split.2 >>= fun _ => undo n) ⟨buffer, position, splits⟩ = _
      rw [bind_of_ok hwrite]
      refine ih fun other hother => ?_
      rw [Array.size_setIfInBounds]
      exact hrest other hother

theorem rewind_eq (position count : Nat) (h : ∀ split ∈ c.splits, split.1 < c.buffer.size) :
    rewind position count c = .ok () (c.rewind position count) := by
  unfold rewind
  rw [get_bind, bind_of_ok (undo_eq _ h)]
  rfl

/-! ## 3. Steps that are sure -/

/-- A step with checks ends as the step without them does: with the same result or the same refusal, at
the same cursor, which was reached by taking tokens and leaves at most `n` signs. -/
inductive Sure (s : Step α) (r : Reader α) (c : Cursor) (n : Nat) : Prop
  | yields {a : α} {d : Cursor} {ts : List Taken} (hs : s c = .ok a d) (hr : r c = .ok a d)
      (ht : c.Takes ts d) (hn : d.signs.length ≤ n)
  | refuses {e : SyntaxError} {d : Cursor} {ts : List Taken} (hs : s c = .error (.refused e) d)
      (hr : r c = .error (.refused e) d) (ht : c.Takes ts d)

namespace Sure

/-- What goes on as something sure, after tokens were taken, is sure. -/
theorem step {s' : Step β} {s : Step β} {r r' : Reader β} {ts : List Taken} (h : Sure s' r' d n)
    (ht : c.Takes ts d) (hs : s c = s' d) (hr : r c = r' d) : Sure s r c n := by
  cases h with
  | yields hs' hr' ht' hn => exact .yields (hs.trans hs') (hr.trans hr') (ht.trans ht') hn
  | refuses hs' hr' ht' => exact .refuses (hs.trans hs') (hr.trans hr') (ht.trans ht')

theorem congr (h : Sure s r c n) (hs : s' c = s c) (hr : r' c = r c) : Sure s' r' c n :=
  h.step .none hs hr

/-- One step after another. -/
theorem bind (h : Sure s r c m) (hc : c.Proper)
    (hf : ∀ a d, d.Proper → d.signs.length ≤ m → Sure (f a) (g a) d n) :
    Sure (s >>= f) (r >>= g) c n := by
  cases h with
  | yields hs hr ht hm =>
    exact (hf _ _ (ht.proper hc) hm).step ht (bind_of_ok hs) (bind_of_ok hr)
  | refuses hs hr ht => exact .refuses (bind_of_error hs) (bind_of_error hr) ht

theorem pure (a : α) (hn : c.signs.length ≤ n) : Sure (Pure.pure a) (Pure.pure a) c n :=
  .yields rfl rfl .none hn

theorem refuse (cause : Cause) (span : Span) :
    Sure (Checked.refuse cause span : Step α) (Reader.refuse cause span) c n :=
  .refuses rfl rfl .none

theorem refuse_bind (cause : Cause) (span : Span) :
    Sure (Checked.refuse cause span >>= f) (Reader.refuse cause span >>= g) c n :=
  .refuses rfl rfl .none

theorem ite {p : Prop} [Decidable p] (h : p → Sure s r c n) (h' : ¬ p → Sure s' r' c n) :
    Sure (if p then s else s') (if p then r else r') c n := by
  by_cases hp : p
  · rw [if_pos hp, if_pos hp]
    exact h hp
  · rw [if_neg hp, if_neg hp]
    exact h' hp

theorem map {k : α → β} (h : Sure s r c n) : Sure (k <$> s) (k <$> r) c n := by
  cases h with
  | yields hs hr ht hn =>
    exact .yields (bind_of_ok (f := fun a => Pure.pure (k a)) hs)
      (bind_of_ok (f := fun a => Pure.pure (k a)) hr) ht hn
  | refuses hs hr ht =>
    exact .refuses (bind_of_error (f := fun a => Pure.pure (k a)) hs)
      (bind_of_error (f := fun a => Pure.pure (k a)) hr) ht

/-! Where only one of the two looks at the cursor, or checks a number, the other waits. -/

theorem look {g : Cursor → Reader α} (h : Sure s (g c) c n) : Sure s (get >>= g) c n :=
  h.congr rfl (get_bind g)

theorem look_here {f : Cursor → Step α} (h : Sure (f c) r c n) : Sure (get >>= f) r c n :=
  h.congr (get_bind f) rfl

theorem peekAt {f : Token → Step α} {k : Nat} (hc : c.Proper) (h : Sure (f (c.peekAt k)) r c n) :
    Sure (Checked.peekAt k >>= f) r c n :=
  h.congr (bind_of_ok (peekAt_eq hc.sound k)) rfl

theorem peek {f : Token → Step α} (hc : c.Proper) (h : Sure (f c.peek) r c n) :
    Sure (Checked.peek >>= f) r c n :=
  peekAt hc h

theorem previousSpan {f : Span → Step α} (h : Sure (f c.previousSpan) r c n) :
    Sure (Checked.previousSpan >>= f) r c n :=
  h.congr rfl rfl

theorem merge {f : Span → Step α} {x y : Span} (h : Sure (f (x.merge y)) r c n) :
    Sure (Checked.merge x y >>= f) r c n :=
  h.congr (bind_of_ok (merge_eq x y)) rfl

theorem verify {f : β → Step α} {x : Except Fault β} {b : β} (hx : x = .ok b)
    (h : Sure (f b) r c n) : Sure (Checked.verify x >>= f) r c n :=
  h.congr (bind_of_ok (verify_of_ok hx)) rfl

theorem check {f : Bool → Step β} {g : Bool → Reader β} (hc : c.Proper)
    (h : Sure (f (c.kind == kind)) (g (c.kind == kind)) c n) :
    Sure (Checked.check kind >>= f) (Reader.check kind >>= g) c n :=
  h.congr (bind_of_ok (check_eq hc.sound)) (bind_of_ok Reader.check_eq)

/-- A token is taken, and with it a sign. -/
theorem advance {f : Token → Step β} {g : Token → Reader β} (hk : c.kind ≠ .eof) (hc : c.Proper)
    (hf : c.skip.Proper → c.skip.signs.length < c.signs.length →
      Sure (f c.peek) (g c.peek) c.skip n) :
    Sure (Checked.advance >>= f) (Reader.advance >>= g) c n :=
  (hf (hc.skip hk) (hc.sound.length_skip hk)).step (Cursor.takes_skip hk)
    (bind_of_ok (advance_eq hc.sound)) (bind_of_ok Reader.advance_eq)

/-- A token of a kind is taken. -/
theorem expect {f : Token → Step β} {g : Token → Reader β} (hne : kind ≠ .eof) (hc : c.Proper)
    (hf : c.kind = kind → c.skip.Proper → c.skip.signs.length < c.signs.length →
      Sure (f c.peek) (g c.peek) c.skip n) :
    Sure (Checked.expect kind >>= f) (Reader.expect kind >>= g) c n := by
  by_cases hk : c.kind = kind
  · refine (advance (hk ▸ hne) hc (hf hk)).congr ?_ ?_
    · rw [bind_of_ok (expect_of_eq hc.sound hk), bind_of_ok (advance_eq hc.sound)]
    · rw [bind_of_ok (Reader.expect_of_eq hk), bind_of_ok Reader.advance_eq]
  · exact .refuses (bind_of_error (expect_of_ne hc.sound hk))
      (bind_of_error (Reader.expect_of_ne hk)) .none

/-- A token is taken if it has a kind. -/
theorem eat {f : Bool → Step β} {g : Bool → Reader β} (hne : kind ≠ .eof) (hc : c.Proper)
    (htrue : c.kind = kind → c.skip.Proper → c.skip.signs.length < c.signs.length →
      Sure (f true) (g true) c.skip n)
    (hfalse : c.kind ≠ kind → Sure (f false) (g false) c n) :
    Sure (Checked.eat kind >>= f) (Reader.eat kind >>= g) c n := by
  have heat : Checked.eat kind c = .ok (c.kind == kind) (if c.kind = kind then c.skip else c) :=
    eat_eq hc.sound
  by_cases hk : c.kind = kind
  · rw [beq_iff_eq.mpr hk, if_pos hk] at heat
    have htake : Sure (Checked.advance >>= fun _ => f true) (Reader.advance >>= fun _ => g true) c n :=
      advance (hk ▸ hne) hc (htrue hk)
    refine htake.congr ?_ ?_
    · rw [bind_of_ok heat, bind_of_ok (advance_eq hc.sound)]
    · rw [bind_of_ok (Reader.eat_of_eq hk), bind_of_ok Reader.advance_eq]
  · rw [beq_false_of_ne hk, if_neg hk] at heat
    exact (hfalse hk).congr (bind_of_ok heat) (bind_of_ok (Reader.eat_of_ne hk))

/-- A `>` is taken, be it the first half of a `>>`. -/
theorem expectClosingAngle (hc : c.Proper) (hn : c.signs.length ≤ n) :
    Sure Checked.expectClosingAngle Reader.expectClosingAngle c n := by
  by_cases hk : c.kind = .greaterGreater
  · have hrun : Reader.expectClosingAngle c = .ok (Cursor.halves c.peek).1 c.split := by
      unfold Reader.expectClosingAngle
      rw [get_bind]
      exact run_if_pos hk
    have htake := Cursor.takes_split hk
    exact .yields (expectClosingAngle_of_double hc hk) hrun htake
      (Nat.le_trans (htake.length_le hc.sound) hn)
  · have hrun : Reader.expectClosingAngle c = Reader.expect .greater c := by
      unfold Reader.expectClosingAngle
      rw [get_bind]
      exact run_if_neg hk
    have hrun' : Checked.expectClosingAngle c = Checked.expect .greater c := by
      unfold Checked.expectClosingAngle
      rw [bind_of_ok (peek_eq hc.sound)]
      exact run_if_neg hk
    by_cases hg : c.kind = .greater
    · have htake := Cursor.takes_skip (c := c) (by rw [hg]; decide)
      exact .yields (hrun'.trans (expect_of_eq hc.sound hg)) (hrun.trans (Reader.expect_of_eq hg))
        htake (Nat.le_trans (htake.length_le hc.sound) hn)
    · exact .refuses (hrun'.trans (expect_of_ne hc.sound hg)) (hrun.trans (Reader.expect_of_ne hg))
        .none

/-- A trial of a sure step takes what the step takes, or nothing: the splits made on the way are undone
inside of the buffer. -/
theorem attempt {accepts : α → TokenKind → Bool} {f : Option α → Step β} {g : Option α → Reader β}
    (h : Sure s r c m) (hc : c.Proper)
    (hsome : ∀ a d, d.Proper → d.signs.length ≤ m → Sure (f (some a)) (g (some a)) d n)
    (hnone : Sure (f none) (g none) c n) :
    Sure (Checked.attempt s accepts >>= f) (Reader.attempt r (fun a d => accepts a d.kind) >>= g) c n := by
  cases h with
  | @yields a d ts hs hr ht hm =>
    have hd := ht.proper hc
    have hobserve : Checked.observe s c = .ok (.ok a) d := by
      unfold Checked.observe
      rw [hs]
    have hrun : Checked.attempt s accepts c = (if accepts a d.kind then Pure.pure (some a) else
        Checked.rewind c.position c.splits.length >>= fun _ => Pure.pure none) d := by
      unfold Checked.attempt
      rw [get_bind, bind_of_ok hobserve]
      dsimp only
      rw [bind_of_ok (peek_eq hd.sound)]
      rfl
    cases ha : accepts a d.kind with
    | true =>
      rw [run_if_pos ha] at hrun
      have hrun' : Reader.attempt r (fun a d => accepts a d.kind) c = .ok (some a) d :=
        Reader.attempt_of_ok hr ha
      exact (hsome a d hd hm).step ht (bind_of_ok hrun) (bind_of_ok hrun')
    | false =>
      rw [run_if_neg (by rw [ha]; decide), bind_of_ok (rewind_eq _ _ hd.inside),
        (ht.undoes hc.sound).rewind] at hrun
      exact hnone.congr (bind_of_ok hrun)
        (bind_of_ok (Reader.attempt_of_rejected hr (ht.undoes hc.sound) ha))
  | @refuses e d ts hs hr ht =>
    have hd := ht.proper hc
    have hobserve : Checked.observe s c = .ok (.error (.refused e)) d := by
      unfold Checked.observe
      rw [hs]
    have hrun : Checked.attempt s accepts c = .ok none c := by
      unfold Checked.attempt
      rw [get_bind, bind_of_ok hobserve]
      dsimp only
      rw [bind_of_ok (rewind_eq _ _ hd.inside), (ht.undoes hc.sound).rewind]
      rfl
    exact hnone.congr (bind_of_ok hrun)
      (bind_of_ok (Reader.attempt_of_refused _ hr (ht.undoes hc.sound)))

end Sure

/-! ## 4. Lists -/

/-- Further items are read in steps as deep as one item. -/
theorem itemsAfter_sure {item : Step α} {item' : Reader α} {ends : TokenKind → Bool} {limit : Nat}
    (hitem : ∀ c, c.Proper → c.signs.length < limit → Sure item item' c c.signs.length) (fuel : Nat)
    {c : Cursor} (hc : c.Proper) (hl : c.signs.length ≤ limit) (hf : c.signs.length ≤ fuel)
    (hn : c.signs.length ≤ n) : Sure (itemsAfter item ends fuel) (Reader.itemsAfter item' ends fuel) c n := by
  induction fuel generalizing c n with
  | zero =>
    have := hc.sound.length_signs_pos
    omega
  | succ fuel ih =>
    unfold itemsAfter Reader.itemsAfter
    refine .eat (by decide) hc (fun _ hd hlt => ?_) fun _ => .pure _ hn
    refine .peek hd (.look (.ite (fun _ => .pure _ (by omega)) fun _ => ?_))
    refine (hitem _ hd (by omega)).bind hd fun first e he hle => ?_
    exact (ih he (by omega) (by omega) (by omega)).bind he fun rest e' _ hle' => .pure _ hle'

theorem items_sure {item : Step α} {item' : Reader α} {close : TokenKind} {trailing : Bool}
    (fuel : Nat) {c : Cursor}
    (hitem : ∀ d, d.Proper → d.signs.length ≤ c.signs.length → Sure item item' d d.signs.length)
    (hc : c.Proper) (hf : c.signs.length ≤ fuel) (hn : c.signs.length ≤ n) :
    Sure (items item close trailing fuel) (Reader.items item' close trailing fuel) c n := by
  unfold items Reader.items
  refine .check hc (.ite (fun _ => .pure _ hn) fun _ => ?_)
  refine (hitem c hc (Nat.le_refl _)).bind hc fun first d hd hle => ?_
  have hitem' (e : Cursor) (he : e.Proper) (hlt : e.signs.length < d.signs.length + 1) :
      Sure item item' e e.signs.length :=
    hitem e he (by omega)
  refine (itemsAfter_sure hitem' fuel hd (by omega) (by omega) (by omega)).bind hd
    fun rest e _ hle' => .pure _ hle'

/-! ## 5. Looking ahead -/

/-- Behind an opening parenthesis the depth is never counted below zero, and the end of the text is
found in time. -/
theorem opensLambda_eq (hc : c.Proper) (fuel : Nat) {depth n : Nat}
    (hopen : 0 < depth ∨ (c.peekAt n).kind = .leftParen) (hin : c.position + n < c.buffer.size)
    (hf : c.buffer.size ≤ c.position + n + fuel) :
    opensLambda fuel depth n c = .ok (Reader.opensLambda c fuel depth n) c := by
  induction fuel generalizing depth n with
  | zero => omega
  | succ fuel ih =>
    have hnext (hk : (c.peekAt n).kind ≠ .eof) {depth : Nat} (hpos : 0 < depth) :
        opensLambda fuel depth (n + 1) c = .ok (Reader.opensLambda c fuel depth (n + 1)) c := by
      have := hc.sound.succ_lt_size hk
      exact ih (.inl hpos) (by omega) (by omega)
    unfold opensLambda Reader.opensLambda
    rw [bind_of_ok (peekAt_eq hc.sound n)]
    generalize (c.peekAt n).kind = k at hopen hnext
    cases k with
    | leftParen => exact hnext (by decide) (Nat.succ_pos _)
    | rightParen =>
      have hpos : 0 < depth := hopen.resolve_right (by decide)
      dsimp only
      rw [bind_of_ok (verify_of_ok (minus_of_le hpos))]
      by_cases hd : depth = 1
      · rw [if_pos hd]
        refine (run_if_pos (by omega)).trans ?_
        rw [bind_of_ok (peekAt_eq hc.sound _)]
        rfl
      · rw [if_neg hd]
        exact (run_if_neg (by omega)).trans (hnext (by decide) (by omega))
    | eof => rfl
    | _ => exact hnext (by decide) (hopen.resolve_right (by decide))

end Checked

end FatArrow.Syntax
