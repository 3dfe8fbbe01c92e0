import FatArrow.Proofs.Syntax.Trial

/-!
# The shape of printed signs

Printed types and terms are upright: they open before they close.  Neither has a keyword of a type,
and no arrow stands in a printed term.
-/

namespace FatArrow

open Syntax

variable {ns : Namespaces}

/-! ## 1. Lists -/

namespace Syntax

theorem Upright.name (name : String) {ss : List Sign} (h : Upright ss) :
    Upright (Sign.name name :: ss) :=
  .cons rfl (fun hk => by cases hk) h

theorem Upright.commas {lists : List (List Sign)} (h : ∀ ss ∈ lists, Upright ss) :
    Upright (commas lists) := by
  induction lists with
  | nil => exact .nil
  | cons ss lists ih =>
    obtain ⟨hfirst, hrest⟩ := List.forall_mem_cons.mp h
    cases lists with
    | nil => exact hfirst
    | cons ts lists => exact hfirst.append (.cons rfl (by decide) (ih hrest))

theorem mem_commas {lists : List (List Sign)} {s : Sign} (h : s ∈ commas lists) :
    s = Sign.comma ∨ ∃ ss ∈ lists, s ∈ ss := by
  induction lists with
  | nil => cases h
  | cons ss lists ih =>
    cases lists with
    | nil => exact .inr ⟨ss, List.mem_singleton_self _, h⟩
    | cons ts lists =>
      rcases List.mem_append.mp h with h | h
      · exact .inr ⟨ss, List.mem_cons_self .., h⟩
      · rcases List.mem_cons.mp h with rfl | h
        · exact .inl rfl
        · exact (ih h).imp_right fun ⟨us, hus, hs⟩ => ⟨us, List.mem_cons_of_mem _ hus, hs⟩

theorem mem_angled {lists : List (List Sign)} {s : Sign} (h : s ∈ angled lists) :
    s = Sign.less ∨ s = Sign.close ∨ s = Sign.comma ∨ ∃ ss ∈ lists, s ∈ ss := by
  unfold angled at h
  split at h
  · cases h
  · rcases List.mem_cons.mp h with rfl | h
    · exact .inl rfl
    · rcases List.mem_append.mp h with h | h
      · exact .inr (.inr (mem_commas h))
      · exact .inr (.inl (List.mem_singleton.mp h))

theorem mem_dots {names : List String} {s : Sign} (h : s ∈ dots names) :
    s = Sign.dot ∨ ∃ name ∈ names, s = Sign.name name := by
  induction names with
  | nil => cases h
  | cons name names ih =>
    cases names with
    | nil => exact .inr ⟨name, List.mem_singleton_self _, List.mem_singleton.mp h⟩
    | cons t names =>
      rcases List.mem_cons.mp h with rfl | h
      · exact .inr ⟨name, List.mem_cons_self .., rfl⟩
      · rcases List.mem_cons.mp h with rfl | h
        · exact .inl rfl
        · exact (ih h).imp_right fun ⟨u, hu, hs⟩ => ⟨u, List.mem_cons_of_mem _ hu, hs⟩

theorem Upright.dots (names : List String) : Upright (dots names) := by
  induction names with
  | nil => exact .nil
  | cons name names ih =>
    cases names with
    | nil => exact .name name .nil
    | cons t names => exact .name name (.cons rfl (by decide) ih)

end Syntax

/-! ## 2. Types -/

/-- The kinds of the signs of printed types. -/
def typeKinds : List TokenKind :=
  [.identifier, .dot, .less, .greater, .comma, .leftBracket, .rightBracket]

theorem inType_of_mem_typeKinds {s : Sign} (h : s.1 ∈ typeKinds) : s.inType = true := by
  simp only [typeKinds, List.mem_cons, List.not_mem_nil, or_false] at h
  unfold Sign.inType
  rcases h with h | h | h | h | h | h | h <;> rw [h] <;> rfl

namespace HostType

theorem angled_kinds {lists : List (List Sign)} (h : ∀ ss ∈ lists, ∀ s ∈ ss, s.1 ∈ typeKinds) :
    ∀ s ∈ angled lists, s.1 ∈ typeKinds := by
  intro s hs
  rcases mem_angled hs with rfl | rfl | rfl | ⟨ss, hss, hs⟩
  · decide
  · decide
  · decide
  · exact h ss hss s hs

theorem angled_upright {lists : List (List Sign)} (h : ∀ ss ∈ lists, ∀ s ∈ ss, s.1 ∈ typeKinds)
    (hu : ∀ ss ∈ lists, Upright ss) : Upright (angled lists) := by
  unfold angled
  split
  · exact .nil
  · refine .angled (fun s hs => ?_) (.commas hu) _
    rcases mem_commas hs with rfl | ⟨ss, hss, hs⟩
    · rfl
    · exact inType_of_mem_typeKinds (h ss hss s hs)

/-- The signs of a printed type are names, points, brackets and commas, and upright. -/
theorem signs_kinds_upright (t : HostType) :
    (∀ s ∈ t.signs ns, s.1 ∈ typeKinds) ∧ Upright (t.signs ns) := by
  induction t with
  | mk shape args nullable ih =>
    have hbase : ∀ bs : List Sign, (∀ s ∈ bs, s.1 ∈ typeKinds) ∧ Upright bs →
        (∀ s ∈ if nullable then Sign.name "Nullable" :: angled [bs] else bs, s.1 ∈ typeKinds) ∧
          Upright (if nullable then Sign.name "Nullable" :: angled [bs] else bs) := by
      intro bs h
      cases nullable with
      | false => exact h
      | true =>
        refine ⟨List.forall_mem_cons.mpr ⟨by decide, angled_kinds ?_⟩,
          .name _ (angled_upright ?_ ?_)⟩
        · exact fun ss hss => List.mem_singleton.mp hss ▸ h.1
        · exact fun ss hss => List.mem_singleton.mp hss ▸ h.1
        · exact fun ss hss => List.mem_singleton.mp hss ▸ h.2
    unfold signs
    refine hbase _ ?_
    have hsingle (name : String) : (∀ s ∈ [Sign.name name], s.1 ∈ typeKinds) ∧
        Upright [Sign.name name] :=
      ⟨List.forall_mem_singleton.mpr (List.mem_cons_self ..), .name name .nil⟩
    have hbrackets : (∀ s ∈ [Sign.leftBracket, Sign.rightBracket], s.1 ∈ typeKinds) ∧
        Upright [Sign.leftBracket, Sign.rightBracket] :=
      ⟨by decide, .cons rfl (by decide) (.cons rfl (by decide) .nil)⟩
    cases shape with
    | primitive p => exact hsingle _
    | param i => exact hsingle _
    | array =>
      cases args with
      | nil => exact hbrackets
      | cons a args =>
        obtain ⟨hkinds, hup⟩ := ih a (List.mem_cons_self ..)
        refine ⟨fun s hs => ?_, hup.append hbrackets.2⟩
        rcases List.mem_append.mp hs with hs | hs
        · exact hkinds s hs
        · exact hbrackets.1 s hs
    | named q =>
      have hlists : ∀ ss ∈ signsList ns args, (∀ s ∈ ss, s.1 ∈ typeKinds) ∧ Upright ss := by
        rw [signsList_eq_map]
        exact List.forall_mem_map.mpr ih
      refine ⟨fun s hs => ?_, (Upright.dots _).append
        (angled_upright (fun ss hss => (hlists ss hss).1) fun ss hss => (hlists ss hss).2)⟩
      rcases List.mem_append.mp hs with hs | hs
      · rcases mem_dots hs with rfl | ⟨name, -, rfl⟩
        · decide
        · exact (hsingle name).1 _ (List.mem_singleton_self _)
      · exact angled_kinds (fun ss hss => (hlists ss hss).1) s hs

theorem upright_signs (t : HostType) : Upright (t.signs ns) := t.signs_kinds_upright.2

end HostType

/-! ## 3. Terms -/

namespace Syntax

/-- A sign that is no arrow and no keyword of a type. -/
def Sign.isQuiet (s : Sign) : Bool := s.1 != .arrow && s.1 != .typeKeyword

/-- Signs without an arrow and without a keyword of a type. -/
def quiet (ss : List Sign) : Bool := ss.all Sign.isQuiet

theorem quiet_iff {ss : List Sign} :
    quiet ss = true ↔ ∀ s ∈ ss, s.1 ≠ .arrow ∧ s.1 ≠ .typeKeyword := by
  simp [quiet, Sign.isQuiet]

@[simp] theorem quiet_nil : quiet [] = true := rfl

@[simp] theorem quiet_append (ss ts : List Sign) : quiet (ss ++ ts) = (quiet ss && quiet ts) :=
  List.all_append

@[simp] theorem quiet_cons (s : Sign) (ss : List Sign) :
    quiet (s :: ss) = (s.isQuiet && quiet ss) := rfl

theorem quiet_commas {lists : List (List Sign)} (h : ∀ ss ∈ lists, quiet ss = true) :
    quiet (commas lists) = true := by
  refine quiet_iff.mpr fun s hs => ?_
  rcases mem_commas hs with rfl | ⟨ss, hss, hs⟩
  · decide
  · exact quiet_iff.mp (h ss hss) s hs

theorem quiet_of_typeKinds {ss : List Sign} (h : ∀ s ∈ ss, s.1 ∈ typeKinds) : quiet ss = true := by
  refine quiet_iff.mpr fun s hs => ⟨fun hk => ?_, fun hk => ?_⟩
  all_goals
    have := h s hs
    rw [hk] at this
    revert this
    decide

end Syntax

theorem HostType.quiet_signs (t : HostType) : quiet (t.signs ns) = true :=
  quiet_of_typeKinds t.signs_kinds_upright.1

theorem HostType.quiet_angled (types : List HostType) :
    quiet (angled (types.map (HostType.signs ns))) = true := by
  refine quiet_of_typeKinds (HostType.angled_kinds ?_)
  exact List.forall_mem_map.mpr fun t _ => t.signs_kinds_upright.1

theorem HostType.upright_angled (types : List HostType) :
    Upright (angled (types.map (HostType.signs ns))) :=
  HostType.angled_upright (List.forall_mem_map.mpr fun t _ => t.signs_kinds_upright.1)
    (List.forall_mem_map.mpr fun t _ => t.upright_signs)

theorem quiet_upright_literal {kind : TokenKind} (hk : kind.isLiteral = true) (text : String) :
    quiet [(kind, text)] = true ∧ Upright [(kind, text)] := by
  refine ⟨?_, .cons_of_not_inType ?_ ?_⟩
  · cases kind <;> first | rfl | cases hk
  · cases kind <;> first | rfl | cases hk
  · rintro rfl
    cases hk

theorem quiet_upright_number {kind : TokenKind} (hk : kind.isLiteral = true) (text : String) :
    quiet (numberSigns kind text) = true ∧ Upright (numberSigns kind text) := by
  unfold numberSigns
  split
  next rest _ =>
    refine ⟨?_, .cons_of_not_inType rfl (by decide)⟩
    rw [quiet_cons, (quiet_upright_literal hk _).1]
    rfl
  next => exact quiet_upright_literal hk text

theorem Value.quiet_upright (v : Value) : quiet v.signs = true ∧ Upright v.signs := by
  cases v with
  | bool b => cases b <;> exact quiet_upright_literal rfl _
  | integer kind w =>
    have hnumber := quiet_upright_number (show TokenKind.isLiteral .intLiteral = true from rfl)
    cases hsuffix : kind.suffix? with
    | some suffix =>
      simp only [signs, hsuffix]
      exact hnumber _
    | none =>
      simp only [signs, hsuffix]
      refine ⟨?_, .cons_of_not_inType rfl (by decide)⟩
      simp only [quiet_cons, quiet_append, (hnumber _).1]
      rfl
  | single x | double x =>
    simp only [signs]
    split
    · exact ⟨rfl, .name _ (.cons rfl (by decide) (.name _ .nil))⟩
    · exact quiet_upright_number rfl _
  | null | string s | char c => exact quiet_upright_literal rfl _
  | _ => exact ⟨rfl, .nil⟩

namespace Term

theorem upright_args (lists : List (List Sign)) : Upright (argsSigns lists) :=
  .cons_of_not_inType rfl (by decide)

theorem upright_freeCall (m : Method) (lists : List (List Sign)) :
    Upright (freeCallSigns ns m lists) :=
  .name _ ((HostType.upright_angled _).append (upright_args _))

theorem upright_call {receiver : List Sign} (m : Method) {lists : List (List Sign)}
    (hr : Upright receiver) : Upright (callSigns ns receiver m lists) :=
  hr.append (.cons rfl (by decide) (upright_freeCall m lists))

theorem quiet_freeCall (m : Method) {lists : List (List Sign)} (h : ∀ ss ∈ lists, quiet ss = true) :
    quiet (freeCallSigns ns m lists) = true := by
  have hname : (Sign.name m.name).isQuiet = true := rfl
  have hrest : quiet [Sign.rightParen] = true ∧ Sign.leftParen.isQuiet = true := by decide
  simp only [freeCallSigns, argsSigns, quiet_append, quiet_cons, quiet_commas h,
    HostType.quiet_angled, hname, hrest, Bool.and_self]

theorem quiet_call {receiver : List Sign} (m : Method) {lists : List (List Sign)}
    (hr : quiet receiver = true) (h : ∀ ss ∈ lists, quiet ss = true) :
    quiet (callSigns ns receiver m lists) = true := by
  have hdot : Sign.dot.isQuiet = true := rfl
  rw [callSigns, quiet_append, quiet_cons, hr, hdot, quiet_freeCall m h]
  rfl

/-- A point and a name behind signs. -/
theorem quiet_upright_member {object : List Sign} (h : quiet object = true ∧ Upright object)
    (name : String) : quiet (object ++ [Sign.dot, Sign.name name]) = true ∧
      Upright (object ++ [Sign.dot, Sign.name name]) := by
  refine ⟨?_, h.2.append (.cons rfl (by decide) (.name _ .nil))⟩
  rw [quiet_append, h.1]
  rfl

/-- The signs of a printed term have no arrow and no keyword of a type, and are upright. -/
theorem quiet_upright (t : Term) (ns : Namespaces) : quiet (t.signs ns) = true ∧ Upright (t.signs ns) := by
  induction t with
  | lambda => exact ⟨rfl, .nil⟩
  | staticMember m =>
    exact quiet_upright_member ⟨m.declaring.quiet_signs, m.declaring.upright_signs⟩ m.name
  | param p => exact ⟨rfl, .name _ .nil⟩
  | const value type => exact value.quiet_upright
  | member target m ih => exact quiet_upright_member ih m.name
  | call target m args ih ihs =>
    rw [signs, signsList_eq_map]
    exact ⟨quiet_call m ih.1 (List.forall_mem_map.mpr fun a ha => (ihs a ha).1),
      upright_call m ih.2⟩
  | staticCall m args ihs =>
    have hall : ∀ ss ∈ args.map (signs ns), quiet ss = true :=
      List.forall_mem_map.mpr fun a ha => (ihs a ha).1
    rw [signs, signsList_eq_map]
    split
    · next hfirst =>
      obtain ⟨-, first, rest, rfl⟩ := exists_first hfirst
      obtain ⟨hfirst, hrest⟩ := List.forall_mem_cons.mp ihs
      exact ⟨quiet_call m hfirst.1 (List.forall_mem_map.mpr fun a ha => (hrest a ha).1),
        upright_call m hfirst.2⟩
    · unfold staticSigns
      cases m.declaring with
      | some type => exact ⟨quiet_call m type.quiet_signs hall, upright_call m type.upright_signs⟩
      | none => exact ⟨quiet_freeCall m hall, upright_freeCall m _⟩
  | binary op left right type ih ih' =>
    have hop : op.sign.isQuiet = true := by cases op <;> rfl
    rw [signs]
    split
    · refine ⟨?_, ih.2.append (.cons rfl (by decide) (ih'.2.append (.cons rfl (by decide) .nil)))⟩
      simp only [quiet_append, quiet_cons, ih.1, ih'.1]
      rfl
    · refine ⟨?_, .cons_of_not_inType rfl (by decide)⟩
      simp only [quiet_append, quiet_cons, ih.1, ih'.1, hop]
      rfl
  | unary op operand type ih =>
    have hop : quiet op.signsBefore = true ∧ quiet op.signsAfter = true := by cases op <;> decide
    refine ⟨?_, .cons_of_not_inType rfl (by decide)⟩
    simp only [signs, quiet_append, quiet_cons, ih.1, hop]
    rfl
  | cond test ifTrue ifFalse ih ih' ih'' =>
    refine ⟨?_, .cons_of_not_inType rfl (by decide)⟩
    simp only [signs, quiet_append, quiet_cons, ih.1, ih'.1, ih''.1]
    rfl
  | new c args ihs =>
    refine ⟨?_, .cons_of_not_inType rfl (by decide)⟩
    have hargs := quiet_commas (List.forall_mem_map.mpr fun a ha => (ihs a ha).1)
    simp only [signs, argsSigns, signsList_eq_map, quiet_append, quiet_cons,
      HostType.quiet_signs, hargs]
    rfl
  | array element items type ihs =>
    refine ⟨?_, .cons_of_not_inType rfl (by decide)⟩
    have hitems := quiet_commas (List.forall_mem_map.mpr fun a ha => (ihs a ha).1)
    simp only [signs, signsList_eq_map, quiet_append, quiet_cons, HostType.quiet_signs, hitems]
    rfl
  | cast operand type ih =>
    refine ⟨?_, .cons_of_not_inType rfl (by decide)⟩
    simp only [signs, quiet_append, quiet_cons, HostType.quiet_signs, ih.1]
    rfl
  | index target m args ih ihs =>
    have hargs := quiet_commas (List.forall_mem_map.mpr fun a ha => (ihs a ha).1)
    have hup := Upright.commas (List.forall_mem_map.mpr fun a ha => (ihs a ha).2)
    rw [signs, signsList_eq_map]
    refine ⟨?_, ih.2.append (.cons rfl (by decide) (hup.append (.cons rfl (by decide) .nil)))⟩
    simp only [quiet_append, quiet_cons, ih.1, hargs]
    rfl

end Term

end FatArrow
