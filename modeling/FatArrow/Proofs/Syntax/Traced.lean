import FatArrow.Proofs.Syntax.Reader
import FatArrow.Proofs.Syntax.Written

/-!
# Steps and the tokens they take

A step is traced when what it yields is tied to the tokens it takes, and when the splits it has
made before it is refused can be undone.  Traced steps are put together one after the other.  Every
type that is read is written as the tokens that were taken for it.
-/

namespace FatArrow.Syntax

open Cursor (Takes)

/-- The cursor stands in tokens that are in order and end with the end of the text. -/
structure Cursor.Ready (c : Cursor) : Prop where
  sound : c.Sound
  tidy : Tidy c.left

namespace Cursor.Takes

variable {c d : Cursor} {ts : List Taken} {t : Taken}

theorem ready (h : c.Takes ts d) (hc : c.Ready) : d.Ready :=
  ⟨h.sound hc.sound, h.tidy hc.sound hc.tidy⟩

/-- What is taken stands in order. -/
theorem ordered (h : c.Takes ts d) (hc : c.Ready) : Ordered ts :=
  List.pairwise_map.mp (List.pairwise_append.mp ((h.cut hc.sound).tidy hc.tidy).ordered).1

end Cursor.Takes

namespace Reader

variable {α β : Type} {r : Reader α} {f : α → Reader β} {c d : Cursor} {a : α} {kind : TokenKind}
  {P : α → List Taken → Cursor → Prop} {Q : β → List Taken → Cursor → Prop}

/-! ## 1. Traced steps -/

/-- What a step yields, the tokens it takes and the cursor it leads to have a property; where it
is refused, its splits can be undone. -/
structure Traced (r : Reader α) (c : Cursor) (P : α → List Taken → Cursor → Prop) : Prop where
  taken : ∀ a d, r c = .ok a d → ∃ ts, c.Takes ts d ∧ P a ts d
  refused : ∀ e d, r c = .error (.refused e) d → c.Undoes d

namespace Traced

theorem congr {r' : Reader α} (h : Traced r c P) (he : r' c = r c) : Traced r' c P :=
  ⟨fun a d hr => h.taken a d (he ▸ hr), fun e d hr => h.refused e d (he ▸ hr)⟩

theorem mono {P' : α → List Taken → Cursor → Prop} (h : Traced r c P)
    (hP : ∀ a ts d, c.Takes ts d → P a ts d → P' a ts d) : Traced r c P' := by
  refine ⟨fun a d hr => ?_, h.refused⟩
  obtain ⟨ts, hts, ha⟩ := h.taken a d hr
  exact ⟨ts, hts, hP a ts d hts ha⟩

/-- One step after another takes the tokens of both. -/
theorem bind (h : Traced r c P) (hc : c.Ready)
    (hf : ∀ a ts d, c.Takes ts d → P a ts d →
      Traced (f a) d fun b us e => Q b (ts ++ us) e) : Traced (r >>= f) c Q := by
  refine ⟨fun b e hb => ?_, fun x e hx => ?_⟩
  · obtain ⟨a, d, hr, hb⟩ := exists_of_bind hb
    obtain ⟨ts, hts, ha⟩ := h.taken a d hr
    obtain ⟨us, hus, hQ⟩ := (hf a ts d hts ha).taken b e hb
    exact ⟨ts ++ us, hts.trans hus, hQ⟩
  · cases hr : r c with
    | ok a d =>
      rw [bind_of_ok hr] at hx
      obtain ⟨ts, hts, ha⟩ := h.taken a d hr
      exact (hts.undoes hc.sound).trans ((hf a ts d hts ha).refused x e hx)
    | error y d =>
      rw [bind_of_error hr] at hx
      cases hx
      exact h.refused x e hr

theorem pure (h : P a [] c) : Traced (Pure.pure a) c P := by
  refine ⟨fun b d hr => ?_, fun e d hr => ?_⟩
  all_goals cases hr
  exact ⟨[], .none, h⟩

theorem refuse (cause : Cause) (span : Span) : Traced (Reader.refuse cause span) c P := by
  refine ⟨fun b d hr => ?_, fun e d hr => ?_⟩
  all_goals cases hr
  exact .refl c

theorem exhausted : Traced (throw .exhausted) c P := by
  refine ⟨fun b d hr => ?_, fun e d hr => ?_⟩
  all_goals cases hr

theorem ite {p : Prop} [Decidable p] {r' : Reader α} (h : p → Traced r c P)
    (h' : ¬ p → Traced r' c P) : Traced (if p then r else r') c P := by
  by_cases hp : p
  · rw [if_pos hp]
    exact h hp
  · rw [if_neg hp]
    exact h' hp

theorem map {g : α → β} (h : Traced r c P) :
    Traced (g <$> r) c fun b ts d => ∃ a, b = g a ∧ P a ts d := by
  have hmap : (g <$> r) c = (r >>= fun a => Pure.pure (g a)) c := rfl
  refine ⟨fun b d hr => ?_, fun e d hr => ?_⟩
  all_goals rw [hmap] at hr
  · obtain ⟨a, d, hr, hb⟩ := exists_of_bind hr
    obtain ⟨ts, hts, ha⟩ := h.taken a d hr
    cases hb
    exact ⟨ts, hts, a, rfl, ha⟩
  · cases hrun : r c with
    | ok a d =>
      rw [bind_of_ok hrun] at hr
      cases hr
    | error x d =>
      rw [bind_of_error hrun] at hr
      cases hr
      exact h.refused e d hrun

/-- What comes after a refusal does not matter. -/
theorem refuse_bind {f : α → Reader β} (cause : Cause) (span : Span) (hc : c.Ready) :
    Traced (Reader.refuse cause span >>= f) c Q :=
  (refuse (P := fun _ _ _ => False) cause span).bind hc fun _ _ _ _ h => h.elim

/-- Looking at the cursor takes nothing. -/
theorem look {f : Cursor → Reader β} (h : Traced (f c) c Q) : Traced (get >>= f) c Q :=
  h.congr (get_bind f)

/-- The token at the cursor is taken. -/
theorem advance {f : Token → Reader β} (hk : c.kind ≠ .eof)
    (hf : c.Takes [.whole c.peek] c.skip →
      Traced (f c.peek) c.skip fun b us e => Q b (.whole c.peek :: us) e) (hc : c.Ready) :
    Traced (Reader.advance >>= f) c Q := by
  have hadvance : Traced Reader.advance c fun t ts d => t = c.peek ∧ ts = [.whole c.peek] ∧
      d = c.skip := by
    refine ⟨fun b d hr => ?_, fun e d hr => ?_⟩
    all_goals cases hr
    exact ⟨_, Cursor.takes_skip hk, rfl, rfl, rfl⟩
  refine hadvance.bind hc fun t ts d hts ht => ?_
  obtain ⟨rfl, rfl, rfl⟩ := ht
  exact hf hts

/-- A token of a kind is taken. -/
theorem expect {f : Token → Reader β} (hne : kind ≠ .eof)
    (hf : ∀ t d, t.kind = kind → c.Takes [.whole t] d →
      Traced (f t) d fun b us e => Q b (.whole t :: us) e) (hc : c.Ready) :
    Traced (Reader.expect kind >>= f) c Q := by
  have hexpect : Traced (Reader.expect kind) c fun t ts _ => t.kind = kind ∧ ts = [.whole t] := by
    by_cases hk : c.kind = kind
    · refine ⟨fun t d hr => ?_, fun e d hr => ?_⟩
      all_goals
        rw [expect_of_eq hk] at hr
        cases hr
      exact ⟨_, Cursor.takes_skip (hk ▸ hne), hk, rfl⟩
    · refine ⟨fun t d hr => ?_, fun e d hr => ?_⟩
      all_goals
        rw [expect_of_ne hk] at hr
        cases hr
      exact .refl c
  refine hexpect.bind hc fun t ts d hts ht => ?_
  obtain ⟨hk, rfl⟩ := ht
  exact hf t d hk hts

/-- A token may be taken if it has a kind. -/
theorem eat {f : Bool → Reader β} (hne : kind ≠ .eof)
    (htrue : c.peek.kind = kind → c.Takes [.whole c.peek] c.skip →
      Traced (f true) c.skip fun b us e => Q b (.whole c.peek :: us) e)
    (hfalse : c.peek.kind ≠ kind → Traced (f false) c Q) (hc : c.Ready) :
    Traced (Reader.eat kind >>= f) c Q := by
  by_cases hk : c.kind = kind
  · have htake : Traced (Reader.advance >>= fun _ => f true) c Q :=
      advance (hk ▸ hne) (htrue hk) hc
    exact htake.congr (by rw [bind_of_ok (eat_of_eq hk), bind_of_ok advance_eq])
  · exact (hfalse hk).congr (bind_of_ok (eat_of_ne hk))

theorem check {f : Bool → Reader β} (h : Traced (f (c.kind == kind)) c Q) :
    Traced (Reader.check kind >>= f) c Q :=
  h.congr (bind_of_ok check_eq)

/-- A `>` is taken, whole or as the first half of a `>>`. -/
theorem expectClosingAngle {f : Token → Reader β}
    (hf : ∀ t u d, u.token.kind = .greater → c.Takes [u] d →
      Traced (f t) d fun b us e => Q b (u :: us) e) (hc : c.Ready) :
    Traced (Reader.expectClosingAngle >>= f) c Q := by
  by_cases hk : c.kind = .greaterGreater
  · have hrun : Reader.expectClosingAngle c = .ok (Cursor.halves c.peek).1 c.split := by
      unfold Reader.expectClosingAngle
      rw [get_bind]
      exact run_if_pos hk
    have hsplit : Traced Reader.expectClosingAngle c fun _ ts _ => ts = [.firstHalf c.peek] := by
      refine ⟨fun t d hr => ?_, fun e d hr => ?_⟩
      all_goals
        rw [hrun] at hr
        cases hr
      exact ⟨_, Cursor.takes_split hk, rfl⟩
    refine hsplit.bind hc fun t ts d hts ht => ?_
    subst ht
    exact hf t _ d rfl hts
  · have hrun : Reader.expectClosingAngle c = Reader.expect .greater c := by
      unfold Reader.expectClosingAngle
      rw [get_bind]
      exact run_if_neg hk
    have hwhole : Traced (Reader.expect .greater >>= f) c Q :=
      expect (by decide) (fun t d ht hd => hf t _ d ht hd) hc
    refine hwhole.congr ?_
    show EStateM.bind _ f c = EStateM.bind _ f c
    unfold EStateM.bind
    rw [hrun]

/-- A trial takes the tokens of the step where it succeeds, and none where it does not. -/
theorem attempt {accepts : α → Cursor → Bool} (h : Traced r c P) (hc : c.Ready) :
    Traced (Reader.attempt r accepts) c fun found ts d =>
      match found with
      | some a => P a ts d ∧ accepts a d = true
      | none => ts = [] := by
  cases hr : r c with
  | ok a d =>
    obtain ⟨ts, hts, ha⟩ := h.taken a d hr
    cases haccepts : accepts a d with
    | true =>
      have hrun := attempt_of_ok hr haccepts
      refine ⟨fun b e hb => ?_, fun x e hx => ?_⟩
      · rw [hrun] at hb
        cases hb
        exact ⟨ts, hts, ha, haccepts⟩
      · rw [hrun] at hx
        cases hx
    | false =>
      have hrun := attempt_of_rejected hr (hts.undoes hc.sound) haccepts
      exact (pure (P := fun found ts d => match found with
        | some a => P a ts d ∧ accepts a d = true
        | none => ts = []) rfl).congr hrun
  | error e d =>
    cases e with
    | refused e =>
      have hrun := attempt_of_refused accepts hr (h.refused e d hr)
      exact (pure (P := fun found ts d => match found with
        | some a => P a ts d ∧ accepts a d = true
        | none => ts = []) rfl).congr hrun
    | exhausted =>
      have hrun : Reader.attempt r accepts c = .error .exhausted d := by
        have hobserve : observe r c = .ok (.error .exhausted) d := by
          unfold observe
          rw [hr]
        unfold Reader.attempt
        rw [get_bind, bind_of_ok hobserve]
        rfl
      refine ⟨fun b e hb => ?_, fun x e hx => ?_⟩
      · rw [hrun] at hb
        cases hb
      · rw [hrun] at hx
        cases hx

end Traced

/-! ## 2. Lists -/

theorem itemsAfter_traced {P : α → List Taken → Prop} {item : Reader α} (trailing : Bool)
    (close : TokenKind) (hitem : ∀ c, c.Ready → Traced item c fun a ts _ => P a ts) (fuel : Nat)
    {c : Cursor} (hc : c.Ready) :
    Traced (itemsAfter item (fun kind => trailing && kind == close) fuel) c
      fun as ts _ => After P trailing as ts := by
  induction fuel generalizing c with
  | zero => exact .exhausted
  | succ fuel ih =>
    unfold itemsAfter
    refine .eat (by decide) (fun hk hskip => ?_) (fun _ => .pure .nil) hc
    have hd := hskip.ready hc
    refine Traced.look (.ite (fun hend => .pure ?_) fun _ => ?_)
    · exact .comma (Bool.and_eq_true_iff.mp hend).1 hk
    · refine (hitem _ hd).bind hd fun a ts e hts ha => ?_
      have he := hts.ready hd
      refine (ih he).bind he fun as us _ _ has => .pure ?_
      rw [List.append_nil]
      exact .cons hk ha has

theorem items_traced {P : α → List Taken → Prop} {item : Reader α} (trailing : Bool)
    (close : TokenKind) (hitem : ∀ c, c.Ready → Traced item c fun a ts _ => P a ts) (fuel : Nat)
    {c : Cursor} (hc : c.Ready) :
    Traced (items item close trailing fuel) c fun as ts _ => Separated P trailing as ts := by
  unfold items
  refine .check (.ite (fun _ => .pure .nil) fun _ => ?_)
  refine (hitem c hc).bind hc fun a ts d hts ha => ?_
  have hd := hts.ready hc
  refine (itemsAfter_traced _ _ hitem fuel hd).bind hd fun as us _ _ has => .pure ?_
  rw [List.append_nil]
  exact .cons ha has

/-! ## 3. Types -/

theorem typeEndings_traced (fuel : Nat) {c₀ c : Cursor} {type : TypeNode} {ts : List Taken}
    (h₀ : c₀.Ready) (hts : c₀.Takes ts c) (htype : type.Written ts) :
    Traced (typeEndings fuel type) c fun ended us _ => ended.Written (ts ++ us) := by
  induction fuel generalizing c type ts with
  | zero => exact .exhausted
  | succ fuel ih =>
    have hc := hts.ready h₀
    unfold typeEndings
    refine Traced.look (.ite (fun hk => ?_) fun _ => .ite (fun hk => ?_) fun _ => .pure ?_)
    · refine Traced.advance (by rw [hk]; decide) (fun hskip => ?_) hc
      have htaken := hts.trans hskip
      have ho := htaken.ordered h₀
      have hspan := ((htype.within ho.of_append_left).append _ ho).merge_last
        (List.getLast?_concat ..) ho
      refine (ih htaken (.nullable htype hk hspan)).mono fun ended us _ _ hended => ?_
      rwa [List.append_assoc] at hended
    · obtain ⟨hk, hk'⟩ := hk
      have hne : c.kind ≠ .eof := by rw [hk]; decide
      refine Traced.advance hne (fun hskip => ?_) hc
      -- the bracket that closes is the next token
      rw [hc.sound.peekAt_succ hne] at hk'
      have hne' : c.skip.kind ≠ .eof := by
        rw [show c.skip.kind = _ from hk']
        decide
      refine Traced.advance hne' (fun hskip' => ?_) (hskip.ready hc)
      have htaken := hts.trans (hskip.trans hskip')
      have ho := htaken.ordered h₀
      have hspan := ((htype.within ho.of_append_left).append _ ho).merge_last
        (t := .whole c.skip.peek) (by rw [List.getLast?_append]; rfl) ho
      refine (ih htaken (.array htype hk hk' hspan)).mono fun ended us _ _ hended => ?_
      rwa [List.append_assoc] at hended
    · rwa [List.append_nil]

/-- The span of a dotted name covers its tokens, but for the first half of a `>>` at their end. -/
theorem covers_closed {c d : Cursor} {t : Token} {ts : List Taken} (hc : c.Ready)
    (hts : c.Takes (.whole t :: ts) d) :
    (t.span.merge d.previousSpan).Covers (Taken.closed (.whole t :: ts)) := by
  have ho := hts.ordered hc
  have hfirst (us : List Taken) (h : Ordered (.whole t :: us)) : t.span.Within (.whole t :: us) :=
    (Span.covers_token (.whole t)).within.append us h
  rcases List.eq_nil_or_concat ts with rfl | ⟨us, u, rfl⟩
  · have hprevious := Takes.previousSpan (show c.Takes ([] ++ [.whole t]) d from hts) hc.sound rfl
    rw [hprevious]
    exact (hfirst [] ho).merge_last rfl ho
  · rw [List.concat_eq_append, ← List.cons_append] at hts ho ⊢
    rw [Taken.closed_concat]
    by_cases hu : u.half = true
    · rw [if_pos hu]
      have ho' := ho.of_append_left
      obtain ⟨last, hlast⟩ : ∃ last, (.whole t :: us).getLast? = some last :=
        ⟨_, List.getLast?_eq_some_getLast (List.cons_ne_nil _ _)⟩
      obtain ⟨vs, hvs⟩ := List.getLast?_eq_some_iff.mp hlast
      rw [hvs] at hts
      rw [(hts.previousSpan_half hc.sound hu).2]
      exact (hfirst us ho').merge_last hlast ho'
    · rw [if_neg hu, hts.previousSpan hc.sound (Bool.eq_false_iff.mpr hu)]
      exact (hfirst (us ++ [u]) ho).merge_last (by rw [← List.cons_append, List.getLast?_concat]) ho

mutual

theorem type_traced (fuel : Nat) {c : Cursor} (hc : c.Ready) :
    Traced (type fuel) c fun type ts _ => type.Written ts := by
  cases fuel with
  | zero => exact .exhausted
  | succ fuel =>
    rw [type]
    exact (typeBase_traced fuel hc).bind hc fun base ts d hts hbase =>
      typeEndings_traced fuel hc hts hbase

theorem typeBase_traced (fuel : Nat) {c : Cursor} (hc : c.Ready) :
    Traced (typeBase fuel) c fun type ts _ => type.Written ts := by
  cases fuel with
  | zero => exact .exhausted
  | succ fuel =>
    rw [typeBase]
    refine Traced.look ?_
    dsimp only
    split
    next hk =>
      exact .advance (by rw [show c.kind = _ from hk]; decide)
        (fun _ => .pure (.predefined hk)) hc
    next hk =>
      refine (segment_traced fuel hc).bind hc fun first ts d hts hfirst => ?_
      have hd := hts.ready hc
      refine (segments_traced fuel hd).bind hd fun rest us e hus hrest => Traced.look (.pure ?_)
      rw [List.append_nil]
      refine .named hfirst hrest ?_
      have htaken := hts.trans hus
      -- the first token of the first segment is the one at the cursor
      cases hfirst with
      | mk _ _ =>
        rw [List.cons_append] at htaken ⊢
        rw [← htaken.eq_peek hc.sound]
        exact covers_closed hc htaken
    next => exact .refuse _ _

theorem segments_traced (fuel : Nat) {c : Cursor} (hc : c.Ready) :
    Traced (segments fuel) c fun segments ts _ => SegmentsWritten segments ts := by
  cases fuel with
  | zero => exact .exhausted
  | succ fuel =>
    rw [segments]
    refine Traced.look (.ite (fun hk => ?_) fun _ => .pure .nil)
    refine .advance (by rw [hk.1]; decide) (fun hskip => ?_) hc
    have hd := hskip.ready hc
    refine (segment_traced fuel hd).bind hd fun first ts e hts hfirst => ?_
    have he := hts.ready hd
    refine (segments_traced fuel he).bind he fun rest us _ _ hrest => .pure ?_
    rw [List.append_nil]
    exact .cons hk.1 hfirst hrest

theorem segment_traced (fuel : Nat) {c : Cursor} (hc : c.Ready) :
    Traced (segment fuel) c fun segment ts _ => segment.Written ts := by
  cases fuel with
  | zero => exact .exhausted
  | succ fuel =>
    rw [segment]
    refine .expect (by decide) (fun token d hk hd => ?_) hc
    have hd := hd.ready hc
    refine .check (.ite (fun _ => ?_) fun _ => .pure (.mk hk .nil))
    refine (typeArgs_traced fuel hd).bind hd fun args ts _ _ hargs => .pure ?_
    rw [List.append_nil]
    exact .mk hk hargs

theorem typeArgs_traced (fuel : Nat) {c : Cursor} (hc : c.Ready) :
    Traced (typeArgs fuel) c fun args ts _ => TypeArgsWritten args ts := by
  cases fuel with
  | zero => exact .exhausted
  | succ fuel =>
    rw [typeArgs]
    refine .expect (by decide) (fun token d hk hd => ?_) hc
    have hd := hd.ready hc
    refine (type_traced fuel hd).bind hd fun first ts e hts hfirst => ?_
    have he := hts.ready hd
    refine (itemsAfter_traced (P := TypeNode.Written) false .greater
      (fun _ h => type_traced fuel h) fuel he).bind he fun rest us c hus hrest => ?_
    refine .expectClosingAngle (fun _ u _ hu _ => .pure ?_) (hus.ready he)
    rw [← List.append_assoc]
    exact .some (List.cons_ne_nil _ _) hk (.cons hfirst hrest) hu

end

end Reader

end FatArrow.Syntax
