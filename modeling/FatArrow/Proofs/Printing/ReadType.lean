import FatArrow.Proofs.Printing.Mirror
import FatArrow.Proofs.Printing.Shape
import FatArrow.Proofs.Syntax.Items

/-!
# Printed types are read back

Where a legible type is printed, a type is read that has its parts, up to the sign that follows.
The bound on the depth is twice the number of signs that are left.
-/

namespace FatArrow

open Syntax Syntax.Reader

variable {ns : Namespaces} {c d : Cursor} {s : Sign} {ss : List Sign} {fuel : Nat}

/-! ## 1. Names -/

namespace Syntax.Reader

theorem segments_of_ne (h : c.kind ≠ .dot) (hf : 0 < fuel) : segments fuel c = .ok [] c := by
  cases fuel with
  | zero => exact absurd hf (Nat.lt_irrefl _)
  | succ fuel =>
    rw [segments, get_bind]
    exact run_if_neg fun hk => h hk.1

/-- A name without type arguments. -/
theorem segment_of_name {name : String} (fuel : Nat) (h : c.Sees (Sign.name name :: s :: ss))
    (hs : s.1 ≠ .less) : ∃ span, segment (fuel + 1) c = .ok (.mk ⟨name, span⟩ []) c.skip := by
  have hk : c.kind = .identifier := h.kind (fun hk => by cases hk)
  have hlexeme : c.peek.lexeme = name := (h.peek (fun hk => by cases hk)).2
  have hskip := h.skip (fun hk => by cases hk) (fun hk => by cases hk)
  have hne : c.skip.kind ≠ .less := by
    rcases hskip.kind_or with hk | ⟨hk, -⟩
    · rwa [hk]
    · rw [hk]
      decide
  refine ⟨c.peek.span, ?_⟩
  rw [segment, bind_of_ok (expect_of_eq hk), bind_of_ok (check_of_ne hne), hlexeme]
  rfl

theorem typeEndings_of_ne {type : TypeNode} (hq : c.kind ≠ .question) (hb : c.kind ≠ .leftBracket)
    (hf : 0 < fuel) : typeEndings fuel type c = .ok type c := by
  cases fuel with
  | zero => exact absurd hf (Nat.lt_irrefl _)
  | succ fuel =>
    rw [typeEndings, get_bind, run_if_neg hq]
    exact run_if_neg fun h => hb h.1

end Syntax.Reader

/-! ## 2. Types -/

namespace HostType

/-- Where the type is printed, its base is read and then the brackets behind it. -/
def Reads (ns : Namespaces) (t : HostType) : Prop :=
  ∀ (c : Cursor) (s : Sign) (ss : List Sign) (fuel : Nat), s.1 ≠ .less → s.1 ≠ .dot →
    c.Sees (t.signs ns ++ s :: ss) → 2 * ((t.signs ns).length + ss.length) + 5 ≤ fuel →
    ∃ node d g, type fuel c = typeEndings g node d ∧ d.Sees (s :: ss) ∧ t.Mirrors ns node ∧
      ss.length < g

/-- What follows a type. -/
def followers : List TokenKind := [.leftParen, .rightParen, .leftBrace, .comma, .greater]

/-- A type is read up to a sign that can follow it. -/
theorem Reads.type_eq {t : HostType} (h : t.Reads ns) (hs : s.1 ∈ followers)
    (hc : c.Sees (t.signs ns ++ s :: ss))
    (hf : 2 * ((t.signs ns).length + ss.length) + 5 ≤ fuel) :
    ∃ node d, type fuel c = .ok node d ∧ d.Sees (s :: ss) ∧ t.Mirrors ns node := by
  have hne : s.1 ≠ .less ∧ s.1 ≠ .dot ∧ s.1 ≠ .question ∧ s.1 ≠ .leftBracket := by
    simp only [followers, List.mem_cons, List.not_mem_nil, or_false] at hs
    rcases hs with hs | hs | hs | hs | hs <;> rw [hs] <;> decide
  obtain ⟨node, d, g, hread, hd, hm, hg⟩ := h c s ss fuel hne.1 hne.2.1 hc hf
  have hk : d.kind ≠ .question ∧ d.kind ≠ .leftBracket := by
    rcases hd.kind_or with hk | ⟨hk, -⟩
    · rw [hk]
      exact ⟨hne.2.2.1, hne.2.2.2⟩
    · rw [hk]
      decide
  exact ⟨node, d, by rw [hread, typeEndings_of_ne hk.1 hk.2 (Nat.zero_lt_of_lt hg)], hd, hm⟩

/-- Type arguments are read when each of them is. -/
theorem typeArgs_reads {a : HostType} {args : List HostType} (h : ∀ b ∈ a :: args, b.Reads ns)
    (hc : c.Sees (angled ((a :: args).map (signs ns)) ++ ss))
    (hf : 2 * ((angled ((a :: args).map (signs ns))).length + ss.length) + 2 ≤ fuel) :
    ∃ nodes d, typeArgs fuel c = .ok nodes d ∧ d.Sees ss ∧
      List.Forall₂ (Mirrors ns) (a :: args) nodes := by
  have hangled : angled ((a :: args).map (signs ns)) = Sign.less ::
      (signs ns a ++ (args.flatMap (fun b => Sign.comma :: signs ns b) ++ [Sign.close])) := by
    rw [angled, List.map_cons, commas_cons, List.flatMap_map, List.append_assoc]
    rfl
  rw [hangled] at hc hf
  simp only [List.length_cons, List.length_append, List.length_nil] at hf
  simp only [List.cons_append, List.append_assoc] at hc
  cases fuel with
  | zero => omega
  | succ fuel =>
    -- what is left fits the depth that is left
    let Q (ts : List Sign) : Prop := 2 * ts.length + 3 ≤ fuel
    have hQ (us ts : List Sign) (h : Q (us ++ ts)) : Q ts := by
      simp only [Q, List.length_append] at h ⊢
      omega
    have hitem (b : HostType) (hb : b ∈ a :: args) :
        ReadsItem (Mirrors ns) (type fuel) .greater Q b (signs ns b) := by
      intro d s ts hs hd hl
      have hmem : s.1 ∈ followers := by
        rcases hs with hs | hs <;> rw [hs] <;> decide
      simp only [Q, List.length_append, List.length_cons] at hl
      have hlen : 2 * ((signs ns b).length + ts.length) + 5 ≤ fuel := by omega
      exact (h b hb).type_eq hmem hd hlen
    have hless : c.kind = .less := hc.kind (by decide)
    have hskip := hc.skip (by decide) (by decide)
    rw [List.nil_append] at hskip
    have hq : Q (signs ns a ++ (args.flatMap (fun b => Sign.comma :: signs ns b) ++
        Sign.close :: ss)) := by
      simp only [Q, List.length_append, List.length_cons]
      omega
    obtain ⟨t, us, hus, ht⟩ := exists_next (signs ns) args (rfl : Sign.close.1 = .greater) ss
    have hfound := hitem a (List.mem_cons_self ..) c.skip t us ht
    rw [← hus] at hfound
    obtain ⟨first, d, hfirst, hd, hm⟩ := hfound hskip hq
    have hf' : (args.flatMap fun b => Sign.comma :: signs ns b).length < fuel := by omega
    obtain ⟨rest, e, hrest, he, hall⟩ := itemsAfter_reads (fun _ => false) (by decide) rfl
      (fun b hb => hitem b (List.mem_cons_of_mem _ hb)) hQ (fun _ _ _ _ _ => rfl) hd (hQ _ _ hq) hf'
    obtain ⟨close, e', hclose, he'⟩ := expectClosingAngle_of_sees he
    refine ⟨first :: rest, e', ?_, he', .cons hm hall⟩
    rw [typeArgs, bind_of_ok (expect_of_eq hless), bind_of_ok hfirst, bind_of_ok hrest,
      bind_of_ok hclose]
    rfl

/-- The last name of a type and its type arguments. -/
theorem segment_reads {name : String} {args : List HostType} (h : ∀ b ∈ args, b.Reads ns)
    (hs : s.1 ≠ .less)
    (hc : c.Sees (Sign.name name :: (angled (args.map (signs ns)) ++ s :: ss)))
    (hf : 2 * ((angled (args.map (signs ns))).length + ss.length) + 5 ≤ fuel) :
    ∃ span nodes d, segment fuel c = .ok (.mk ⟨name, span⟩ nodes) d ∧ d.Sees (s :: ss) ∧
      List.Forall₂ (Mirrors ns) args nodes := by
  cases fuel with
  | zero => omega
  | succ fuel =>
    cases args with
    | nil =>
      obtain ⟨span, hsegment⟩ := segment_of_name fuel hc hs
      exact ⟨span, [], c.skip, hsegment, hc.skip (fun hk => by cases hk) (fun hk => by cases hk),
        .nil⟩
    | cons a args =>
      have hk : c.kind = .identifier := hc.kind (fun hk => by cases hk)
      have hlexeme : c.peek.lexeme = name := (hc.peek (fun hk => by cases hk)).2
      have hskip := hc.skip (fun hk => by cases hk) (fun hk => by cases hk)
      have hless : c.skip.kind = .less := hskip.kind (fun hk => by cases hk)
      have hlen : 2 * ((angled ((a :: args).map (signs ns))).length + (s :: ss).length) + 2 ≤ fuel :=
        by rw [List.length_cons]; omega
      obtain ⟨nodes, d, hargs, hd, hall⟩ := typeArgs_reads h hskip hlen
      refine ⟨c.peek.span, nodes, d, ?_, hd, hall⟩
      rw [Reader.segment, bind_of_ok (expect_of_eq hk), bind_of_ok (check_of_eq hless), run_if_pos rfl,
        bind_of_ok hargs, hlexeme]
      rfl

/-- The names of a type, the last one with type arguments. -/
theorem segments_reads {name : String} {names : List String} {args : List HostType}
    (h : ∀ b ∈ args, b.Reads ns) (hs : s.1 ≠ .less) (hdot : s.1 ≠ .dot)
    (hc : c.Sees (dots (name :: names) ++ (angled (args.map (signs ns)) ++ s :: ss)))
    (hf : 2 * ((dots (name :: names)).length + (angled (args.map (signs ns))).length + ss.length) + 3
      ≤ fuel) :
    ∃ first rest d e, segment fuel c = .ok first d ∧ segments fuel d = .ok rest e ∧
      e.Sees (s :: ss) ∧ (first :: rest).map (·.name.text) = name :: names ∧
      (∀ s ∈ (first :: rest).dropLast, s.args = []) ∧
      List.Forall₂ (Mirrors ns) args (TypeNode.lastArgs (first :: rest)) := by
  induction names generalizing name c fuel with
  | nil =>
    have hlen : 2 * ((angled (args.map (signs ns))).length + ss.length) + 5 ≤ fuel := by
      simp only [dots, List.length_singleton] at hf
      omega
    obtain ⟨span, nodes, d, hsegment, hd, hall⟩ := segment_reads h hs hc hlen
    have hk : d.kind ≠ .dot := by
      rcases hd.kind_or with hk | ⟨hk, -⟩
      · rwa [hk]
      · rw [hk]
        decide
    exact ⟨_, [], d, d, hsegment, segments_of_ne hk (by omega), hd, rfl, nofun, hall⟩
  | cons next names ih =>
    cases fuel with
    | zero => omega
    | succ fuel =>
      simp only [dots, List.length_cons] at hf
      obtain ⟨span, hsegment⟩ := segment_of_name fuel hc (fun hk => by cases hk)
      have hskip := hc.skip (fun hk => by cases hk) (fun hk => by cases hk)
      have hskip' := hskip.skip (fun hk => by cases hk) (fun hk => by cases hk)
      have hlen : 2 * ((dots (next :: names)).length + (angled (args.map (signs ns))).length +
          ss.length) + 3 ≤ fuel := by omega
      obtain ⟨first, rest, d, e, hfirst, hrest, he, hnames, hargs, hall⟩ := ih hskip' hlen
      have hkind : c.skip.kind = .dot := hskip.kind (fun hk => by cases hk)
      have hname : c.skip.skip.kind = .identifier := by
        cases names with
        | nil => exact hskip'.kind (fun hk => by cases hk)
        | cons _ _ => exact hskip'.kind (fun hk => by cases hk)
      have hat : (c.skip.peekAt 1).kind = .identifier := by
        rw [hskip.1.peekAt_succ (by rw [hkind]; decide)]
        exact hname
      refine ⟨.mk ⟨name, span⟩ [], first :: rest, c.skip, e, hsegment, ?_, he, ?_, ?_, ?_⟩
      · rw [segments, get_bind, run_if_pos ⟨hkind, hat⟩, bind_of_ok advance_eq, bind_of_ok hfirst,
          bind_of_ok hrest]
        rfl
      · rw [List.map_cons, hnames]
        rfl
      · rw [List.dropLast_cons_of_ne_nil (List.cons_ne_nil _ _)]
        exact List.forall_mem_cons.mpr ⟨rfl, hargs⟩
      · exact hall

/-- A name with its type arguments is read as the base of a type. -/
theorem typeBase_reads {name : String} {names : List String} {args : List HostType}
    (h : ∀ b ∈ args, b.Reads ns) (hs : s.1 ≠ .less) (hdot : s.1 ≠ .dot)
    (hc : c.Sees (dots (name :: names) ++ (angled (args.map (signs ns)) ++ s :: ss)))
    (hf : 2 * ((dots (name :: names)).length + (angled (args.map (signs ns))).length + ss.length) + 4
      ≤ fuel) :
    ∃ segments span d, typeBase fuel c = .ok (.named segments span) d ∧ d.Sees (s :: ss) ∧
      segments.map (·.name.text) = name :: names ∧ (∀ s ∈ segments.dropLast, s.args = []) ∧
      List.Forall₂ (Mirrors ns) args (TypeNode.lastArgs segments) := by
  cases fuel with
  | zero => omega
  | succ fuel =>
    have hk : c.peek.kind = .identifier := by
      cases names with
      | nil => exact hc.kind (fun hk => by cases hk)
      | cons _ _ => exact hc.kind (fun hk => by cases hk)
    have hlen : 2 * ((dots (name :: names)).length + (angled (args.map (signs ns))).length +
        ss.length) + 3 ≤ fuel := by omega
    obtain ⟨first, rest, d, e, hfirst, hrest, he, hnames, hargs, hall⟩ :=
      segments_reads h hs hdot hc hlen
    refine ⟨first :: rest, c.peek.span.merge e.previousSpan, e, ?_, he, hnames, hargs, hall⟩
    rw [typeBase, get_bind]
    simp only [hk]
    rw [bind_of_ok hfirst, bind_of_ok hrest]
    rfl

/-- A name without points is one segment. -/
theorem eq_singleton_of_names {segments : List Segment} {name : String}
    (hnames : segments.map (·.name.text) = [name]) :
    ∃ n args, segments = [.mk n args] ∧ n.text = name := by
  obtain ⟨segment, rfl⟩ := List.length_eq_one_iff.mp
    (by rw [← List.length_map, hnames]; rfl : segments.length = 1)
  obtain ⟨n, args⟩ := segment
  exact ⟨n, args, rfl, (List.cons.inj hnames).1⟩

/-- A type is printed as a dotted name with type arguments, and a written type with these pieces has
its parts. -/
structure NamedBy (ns : Namespaces) (t : HostType) (name : String) (names : List String)
    (args : List HostType) : Prop where
  signs_eq : t.signs ns = dots (name :: names) ++ angled (args.map (signs ns))
  mirrors : ∀ segments span, segments.map (·.name.text) = name :: names →
    (∀ s ∈ segments.dropLast, s.args = []) →
    List.Forall₂ (Mirrors ns) args (TypeNode.lastArgs segments) →
    t.Mirrors ns (.named segments span)

/-- A type that is no array is printed by its name. -/
theorem exists_namedBy {shape : Shape} {args : List HostType}
    (h : Legible ns ⟨shape, args, false⟩) (ha : shape ≠ .array) :
    ∃ name names, NamedBy ns ⟨shape, args, false⟩ name names args := by
  cases shape with
  | primitive p =>
    have hargs : args = [] := h
    subst hargs
    refine ⟨p.hostName, [], rfl, fun segments span hnames _ hall => ?_⟩
    obtain ⟨n, nodes, rfl, hn⟩ := eq_singleton_of_names hnames
    have hnil : nodes = [] := List.forall₂_nil_left_iff.mp hall
    exact ⟨n, span, by rw [hnil], hn⟩
  | param i => exact h.elim
  | array => exact absurd rfl ha
  | named q =>
    obtain ⟨name, names, hpieces⟩ := List.exists_cons_of_ne_nil (ns.pieces_ne_nil q)
    refine ⟨name, names, ?_, fun segments span hnames hargs hall => ?_⟩
    · rw [← hpieces, ← signsList_eq_map]
      rfl
    · exact ⟨segments, span, rfl, hnames.trans hpieces.symm, hargs, mirrorsList_iff.mpr hall⟩

/-- A type with the mark of null is printed as a name with the type without it. -/
theorem namedBy_nullable (shape : Shape) (args : List HostType) :
    NamedBy ns ⟨shape, args, true⟩ "Nullable" [] [⟨shape, args, false⟩] := by
  refine ⟨rfl, fun segments span hnames _ hall => ?_⟩
  obtain ⟨n, nodes, rfl, hn⟩ := eq_singleton_of_names hnames
  obtain ⟨inner, hnodes, hinner⟩ : ∃ inner, nodes = [inner] ∧
      (⟨shape, args, false⟩ : HostType).Mirrors ns inner := by
    cases hall with
    | cons h h' =>
      rw [List.forall₂_nil_left_iff.mp h']
      exact ⟨_, rfl, h⟩
  exact ⟨n, inner, span, by rw [hnodes], hn, hinner⟩

/-- A type that is printed as a name with type arguments is read when they are. -/
theorem NamedBy.reads {t : HostType} {name : String} {names : List String} {args : List HostType}
    (ht : NamedBy ns t name names args) (h : ∀ b ∈ args, b.Reads ns) : t.Reads ns := by
  intro c s ss fuel hs hdot hc hf
  rw [ht.signs_eq, List.append_assoc] at hc
  rw [ht.signs_eq, List.length_append] at hf
  cases fuel with
  | zero => omega
  | succ fuel =>
    have hlen : 2 * ((dots (name :: names)).length + (angled (args.map (signs ns))).length +
        ss.length) + 4 ≤ fuel := by omega
    obtain ⟨segments, span, d, hbase, hd, hnames, hargs, hall⟩ := typeBase_reads h hs hdot hc hlen
    refine ⟨_, d, fuel, ?_, hd, ht.mirrors segments span hnames hargs hall, by omega⟩
    rw [type, bind_of_ok hbase]

/-- An array type is read when the type of its items is. -/
theorem reads_of_array {a t : HostType} (h : a.Reads ns)
    (ht : t.signs ns = a.signs ns ++ [Sign.leftBracket, Sign.rightBracket])
    (hm : ∀ element span, a.Mirrors ns element → t.Mirrors ns (.array element span)) :
    t.Reads ns := by
  intro c s ss fuel hs hdot hc hf
  rw [ht, List.append_assoc] at hc
  rw [ht, List.length_append] at hf
  have hlen : 2 * ((a.signs ns).length + (Sign.rightBracket :: s :: ss).length) + 5 ≤ fuel := by
    simp only [List.length_cons, List.length_nil] at hf ⊢
    omega
  obtain ⟨element, d, g, hread, hd, hmirrors, hg⟩ := h c Sign.leftBracket _ fuel (by decide)
    (by decide) hc hlen
  cases g with
  | zero => exact absurd hg (Nat.not_lt_zero _)
  | succ g =>
    have hopen : d.kind = .leftBracket := hd.kind (by decide)
    have hskip := hd.skip (by decide) (by decide)
    have hclose : (d.peekAt 1).kind = .rightBracket := by
      rw [hd.1.peekAt_succ (by rw [hopen]; decide)]
      exact hskip.kind (by decide)
    have hskip' := hskip.skip (by decide) (by decide)
    refine ⟨.array element (element.span.merge d.skip.peek.span), d.skip.skip, g, ?_, hskip',
      hm element _ hmirrors, ?_⟩
    · rw [hread, typeEndings, get_bind, run_if_neg (by rw [hopen]; decide),
        run_if_pos ⟨hopen, hclose⟩, bind_of_ok advance_eq, bind_of_ok advance_eq]
    · have hlength : ([Sign.rightBracket].append (s :: ss)).length = ss.length + 2 := rfl
      omega

/-- A legible type is read where it is printed. -/
theorem reads (t : HostType) (ht : t.Legible ns) : t.Reads ns := by
  induction t with
  | mk shape args nullable ih =>
    -- the type without the mark of null
    have hbase : (⟨shape, args, false⟩ : HostType).Reads ns := by
      by_cases harray : shape = .array
      · subst harray
        obtain ⟨a, rfl⟩ := List.length_eq_one_iff.mp ht.1
        have ha := List.mem_singleton_self a
        exact reads_of_array (ih a ha (legible_arg ht ha)) rfl
          fun element span hm => ⟨element, span, rfl, mirrorsList_iff.mpr (.cons hm .nil)⟩
      · obtain ⟨name, names, hnamed⟩ := exists_namedBy (legible_plain ht) harray
        exact hnamed.reads fun b hb => ih b hb (legible_arg ht hb)
    cases nullable with
    | false => exact hbase
    | true => exact (namedBy_nullable shape args).reads (List.forall_mem_singleton.mpr hbase)

end HostType

end FatArrow
