import FatArrow.Proofs.Syntax.Reader

/-!
# Reading a type is steady

Whatever the tokens are, reading a type ends within its bound.  It takes signs that can be part of
a type, closes as many angle brackets as it opens, and makes splits that can be undone.
-/

namespace FatArrow.Syntax.Reader

variable {α β : Type} {r : Reader α} {f : α → Reader β} {c d : Cursor} {m n : Int}

/-! ## 1. Steady steps -/

/-- A step ends within its bound.  If it succeeds, it has taken signs of types that lead a number
of angle brackets deeper; if it is refused, its splits can be undone. -/
structure Steady (r : Reader α) (c : Cursor) (depth : Int) : Prop where
  taken : ∀ a d, r c = .ok a d →
    ∃ ss, c.Reaches ss d ∧ angles ss = depth ∧ ∀ s ∈ ss, s.inType = true
  refused : ∀ e d, r c = .error (.refused e) d → c.Undoes d
  bounded : ∀ d, r c ≠ .error .exhausted d

namespace Steady

/-- A step that runs like a steady one is steady. -/
theorem congr {r r' : Reader α} (h : Steady r c n) (he : r' c = r c) : Steady r' c n :=
  ⟨fun a d hr => h.taken a d (he ▸ hr), fun e d hr => h.refused e d (he ▸ hr),
    fun d hr => h.bounded d (he ▸ hr)⟩

/-- Two steady steps one after the other. -/
theorem bind (h : Steady r c m)
    (hf : ∀ a d ss, r c = .ok a d → c.Reaches ss d → Steady (f a) d n) :
    Steady (r >>= f) c (m + n) := by
  cases hr : r c with
  | ok a d =>
    obtain ⟨ss, hreaches, hdepth, hall⟩ := h.taken a d hr
    have hrest := hf a d ss hr hreaches
    refine ⟨fun b e hb => ?_, fun x e hx => ?_, fun e => ?_⟩
    · rw [bind_of_ok hr] at hb
      obtain ⟨ts, hreaches', hdepth', hall'⟩ := hrest.taken b e hb
      refine ⟨ss ++ ts, hreaches.trans hreaches', by rw [angles_append, hdepth, hdepth'], ?_⟩
      intro s hs
      exact (List.mem_append.mp hs).elim (hall s) (hall' s)
    · rw [bind_of_ok hr] at hx
      exact hreaches.undoes.trans (hrest.refused x e hx)
    · rw [bind_of_ok hr]
      exact hrest.bounded e
  | error x d =>
    refine ⟨fun b e hb => ?_, fun y e hy => ?_, fun e he => ?_⟩
    · rw [bind_of_error hr] at hb
      cases hb
    · rw [bind_of_error hr] at hy
      cases hy
      exact h.refused y d hr
    · rw [bind_of_error hr] at he
      cases he
      exact h.bounded d hr

/-- A steady step after one that stays at the same depth. -/
theorem flat (h : Steady r c 0)
    (hf : ∀ a d ss, r c = .ok a d → c.Reaches ss d → Steady (f a) d n) : Steady (r >>= f) c n := by
  have := h.bind hf
  rwa [Int.zero_add] at this

theorem pure (a : α) (hc : c.Sound) : Steady (Pure.pure a) c 0 := by
  refine ⟨fun b d h => ?_, fun e d h => ?_, fun d h => ?_⟩
  all_goals cases h
  exact ⟨[], hc.reaches, rfl, nofun⟩

theorem refuse (cause : Cause) (span : Span) : Steady (Reader.refuse cause span : Reader α) c n := by
  refine ⟨fun a d h => ?_, fun e d h => ?_, fun d h => ?_⟩
  all_goals cases h
  exact .refl c

/-- A token of a type is taken. -/
theorem advance (hc : c.Sound) (hk : Sign.inType (c.kind, c.peek.lexeme) = true)
    (hd : c.kind ≠ .greaterGreater) :
    Steady Reader.advance c (Sign.angle (c.kind, c.peek.lexeme)) := by
  have hne : c.kind ≠ .eof := by
    intro he
    rw [he] at hk
    cases hk
  have hreaches := hc.reaches_skip hne
  rw [Token.signs_of_ne hd] at hreaches
  refine ⟨fun a d h => ?_, fun e d h => ?_, fun d h => ?_⟩
  all_goals cases h
  refine ⟨_, hreaches, Int.add_zero _, fun s hs => ?_⟩
  rw [List.mem_singleton.mp hs]
  exact hk

theorem expect {kind : TokenKind} (hc : c.Sound)
    (hk : ∀ lexeme, Sign.inType (kind, lexeme) = true) (hd : kind ≠ .greaterGreater) :
    Steady (Reader.expect kind) c (Sign.angle (kind, "")) := by
  by_cases h : c.kind = kind
  · subst h
    exact (advance hc (hk _) hd).congr (expect_of_eq rfl)
  · refine ⟨fun a d hr => ?_, fun e d hr => ?_, fun d hr => ?_⟩
    all_goals rw [expect_of_ne h] at hr
    all_goals cases hr
    exact .refl c

/-- A `>` is closed, be it the first half of a `>>`. -/
theorem expectClosingAngle (hc : c.Sound) : Steady Reader.expectClosingAngle c (-1) := by
  by_cases h : c.kind = .greaterGreater
  · have hrun : Reader.expectClosingAngle c = .ok (Cursor.halves c.peek).1 c.split := by
      unfold Reader.expectClosingAngle
      rw [get_bind]
      exact run_if_pos h
    refine ⟨fun a d hr => ?_, fun e d hr => ?_, fun d hr => ?_⟩
    all_goals rw [hrun] at hr
    all_goals cases hr
    refine ⟨_, hc.reaches_split h, rfl, fun s hs => ?_⟩
    rw [List.mem_singleton.mp hs]
    rfl
  · have hrun : Reader.expectClosingAngle c = Reader.expect .greater c := by
      unfold Reader.expectClosingAngle
      rw [get_bind]
      exact run_if_neg h
    exact congr (expect hc (fun _ => rfl) (by decide)) hrun

theorem ite {p : Prop} [Decidable p] {r r' : Reader α} (h : p → Steady r c n)
    (h' : ¬ p → Steady r' c n) : Steady (if p then r else r') c n := by
  by_cases hp : p
  · rw [if_pos hp]
    exact h hp
  · rw [if_neg hp]
    exact h' hp

/-- What follows a comma is only read after one. -/
theorem eat_comma {f : Bool → Reader β} (hc : c.Sound)
    (htrue : c.kind = .comma → Steady (f true) c.skip n) (hfalse : Steady (f false) c n) :
    Steady (Reader.eat .comma >>= f) c n := by
  by_cases h : c.kind = .comma
  · have htake := advance hc (by rw [h]; rfl) (by rw [h]; decide)
    rw [h] at htake
    have hrest : Steady (Reader.advance >>= fun _ => f true) c n :=
      htake.flat fun a d ss hr _ => by cases hr; exact htrue h
    exact hrest.congr (by rw [bind_of_ok (eat_of_eq h), bind_of_ok advance_eq])
  · exact hfalse.congr (bind_of_ok (eat_of_ne h))

end Steady

/-! ## 2. Types -/

/-- Further items are read in steps as deep as one item. -/
theorem itemsAfter_steady {item : Reader α} {limit : Nat}
    (hitem : ∀ c, c.Sound → c.signs.length < limit → Steady item c 0) (fuel : Nat) {c : Cursor}
    (hc : c.Sound) (hl : c.signs.length ≤ limit) (hf : c.signs.length ≤ fuel) :
    Steady (itemsAfter item (fun _ => false) fuel) c 0 := by
  induction fuel generalizing c with
  | zero =>
    have := hc.length_signs_pos
    omega
  | succ fuel ih =>
    unfold itemsAfter
    refine Steady.eat_comma hc (fun hk => ?_) (.pure _ hc)
    have hne : c.kind ≠ .eof := by rw [hk]; decide
    have hlt := hc.length_skip hne
    have hfirst := hitem c.skip hc.skip (by omega)
    have hall : Steady (item >>= fun first => itemsAfter item (fun _ => false) fuel >>= fun rest =>
        pure (first :: rest)) c.skip 0 := by
      refine hfirst.flat fun first d ss _ hd => ?_
      have := hd.length_le
      exact (ih hd.sound (by omega) (by omega)).flat fun _ _ _ _ he => .pure _ he.sound
    exact hall.congr rfl

theorem typeEndings_steady (fuel : Nat) {c : Cursor} {type : TypeNode} (hc : c.Sound)
    (hf : c.signs.length ≤ fuel) : Steady (typeEndings fuel type) c 0 := by
  induction fuel generalizing c type with
  | zero =>
    have := hc.length_signs_pos
    omega
  | succ fuel ih =>
    unfold typeEndings
    refine Steady.congr ?_ (get_bind _)
    refine .ite (fun hk => ?_) fun _ => .ite (fun hk => ?_) fun _ => .pure _ hc
    · have hne : c.kind ≠ .eof := by rw [hk]; decide
      have hlt := hc.length_skip hne
      have htake := Steady.advance hc (by rw [hk]; rfl) (by rw [hk]; decide)
      rw [hk] at htake
      exact htake.flat fun last d ss hr hd => by
        cases hr
        exact ih hd.sound (by omega)
    · obtain ⟨hk, hk'⟩ := hk
      have hne : c.kind ≠ .eof := by rw [hk]; decide
      have hlt := hc.length_skip hne
      have htake := Steady.advance hc (by rw [hk]; rfl) (by rw [hk]; decide)
      rw [hk] at htake
      refine htake.flat fun first d ss hr hd => ?_
      cases hr
      -- the bracket that closes is the next token
      rw [hc.peekAt_succ hne] at hk'
      have hne' : c.skip.kind ≠ .eof := by
        rw [show c.skip.kind = _ from hk']
        decide
      have hlt' := hc.skip.length_skip hne'
      have htake' := Steady.advance hc.skip (by rw [show c.skip.kind = _ from hk']; rfl)
        (by rw [show c.skip.kind = _ from hk']; decide)
      rw [show c.skip.kind = _ from hk'] at htake'
      exact htake'.flat fun last d ss hr hd => by
        cases hr
        exact ih hd.sound (by omega)

/-- Where a token is expected, it is the one that is taken. -/
theorem expect_eq_ok {kind : TokenKind} {t : Token} {d : Cursor} (h : expect kind c = .ok t d) :
    c.kind = kind ∧ d = c.skip := by
  by_cases hk : c.kind = kind
  · rw [expect_of_eq hk] at h
    cases h
    exact ⟨hk, rfl⟩
  · rw [expect_of_ne hk] at h
    cases h

mutual

theorem type_steady (fuel : Nat) {c : Cursor} (hc : c.Sound) (hf : 2 * c.signs.length + 3 ≤ fuel) :
    Steady (type fuel) c 0 := by
  cases fuel with
  | zero => omega
  | succ fuel =>
    rw [type]
    refine (typeBase_steady fuel hc (by omega)).flat fun base d ss _ hd => ?_
    have := hd.length_le
    exact typeEndings_steady fuel hd.sound (by omega)

theorem typeBase_steady (fuel : Nat) {c : Cursor} (hc : c.Sound)
    (hf : 2 * c.signs.length + 2 ≤ fuel) : Steady (typeBase fuel) c 0 := by
  cases fuel with
  | zero => omega
  | succ fuel =>
    rw [typeBase]
    refine Steady.congr ?_ (get_bind _)
    split
    next hk =>
      have htake := Steady.advance hc (by rw [show c.kind = _ from hk]; rfl)
        (by rw [show c.kind = _ from hk]; decide)
      rw [show c.kind = _ from hk] at htake
      exact htake.flat fun _ _ _ _ hd => .pure _ hd.sound
    next hk =>
      refine (segment_steady fuel hc (by omega)).flat fun first d ss _ hd => ?_
      have := hd.length_le
      refine (segments_steady fuel hd.sound (by omega)).flat fun rest e ss _ he => ?_
      exact (Steady.pure _ he.sound).congr rfl
    next => exact .refuse _ _

theorem segments_steady (fuel : Nat) {c : Cursor} (hc : c.Sound)
    (hf : 2 * c.signs.length + 1 ≤ fuel) : Steady (segments fuel) c 0 := by
  cases fuel with
  | zero => omega
  | succ fuel =>
    rw [segments]
    refine Steady.congr ?_ (get_bind _)
    refine .ite (fun hk => ?_) fun _ => .pure _ hc
    have hne : c.kind ≠ .eof := by rw [hk.1]; decide
    have hlt := hc.length_skip hne
    have htake := Steady.advance hc (by rw [hk.1]; rfl) (by rw [hk.1]; decide)
    rw [hk.1] at htake
    refine htake.flat fun dot d ss hr hd => ?_
    cases hr
    refine (segment_steady fuel hd.sound (by omega)).flat fun first d ss hr he => ?_
    have := he.length_le
    exact (segments_steady fuel he.sound (by omega)).flat fun _ _ _ _ he => .pure _ he.sound

theorem segment_steady (fuel : Nat) {c : Cursor} (hc : c.Sound)
    (hf : 2 * c.signs.length + 1 ≤ fuel) : Steady (segment fuel) c 0 := by
  cases fuel with
  | zero => omega
  | succ fuel =>
    rw [segment]
    have hname : Steady (expect .identifier) c 0 := Steady.expect hc (fun _ => rfl) (by decide)
    refine hname.flat fun token d ss hr hd => ?_
    obtain ⟨hk, rfl⟩ := expect_eq_ok hr
    have hlt := hc.length_skip (by rw [hk]; decide)
    have hargs := typeArgs_steady fuel hd.sound (by omega)
    refine Steady.congr ?_ (bind_of_ok check_eq)
    refine .ite (fun _ => hargs.flat fun _ _ _ _ he => .pure _ he.sound) fun _ => ?_
    exact (Steady.pure _ hd.sound).flat fun _ _ _ _ he => .pure _ he.sound

theorem typeArgs_steady (fuel : Nat) {c : Cursor} (hc : c.Sound)
    (hf : 2 * c.signs.length + 2 ≤ fuel) : Steady (typeArgs fuel) c 0 := by
  cases fuel with
  | zero => omega
  | succ fuel =>
    rw [typeArgs]
    have hopen : Steady (expect .less) c 1 := Steady.expect hc (fun _ => rfl) (by decide)
    refine hopen.bind (n := -1) fun token d ss hr hd => ?_
    obtain ⟨hk, rfl⟩ := expect_eq_ok hr
    have hlt := hc.length_skip (by rw [hk]; decide)
    refine (type_steady fuel hd.sound (by omega)).flat fun first d ss _ hd' => ?_
    have := hd'.length_le
    have hitem (e : Cursor) (he : e.Sound) (hl : e.signs.length < d.signs.length) :
        Steady (type fuel) e 0 :=
      type_steady fuel he (by omega)
    have hrest := itemsAfter_steady hitem fuel hd'.sound (Nat.le_refl _) (by omega)
    refine hrest.flat fun rest e ss _ he => ?_
    exact (Steady.expectClosingAngle he.sound).bind (n := 0) fun _ _ _ _ hd => .pure _ hd.sound

end

end FatArrow.Syntax.Reader
