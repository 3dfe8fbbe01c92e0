import FatArrow.Proofs.Printing.ReadTerm

/-!
# Printed lambdas are read back

A lambda is told from an expression in parentheses by the arrow behind its parameters.  The text of a
legible lambda is read as a lambda that has its parts.
-/

namespace FatArrow

open Syntax Syntax.Reader

variable {ns : Namespaces} {c d : Cursor} {s : Sign} {is ss ts : List Sign} {fuel power : Nat}

/-! ## 1. Parameters -/

namespace Syntax.Reader

/-- Looking ahead from a later token is looking ahead from the token after this one. -/
theorem opensLambda_succ (h : c.Sound) (hk : c.kind ≠ .eof) (fuel depth n : Nat) :
    opensLambda c fuel depth (n + 1) = opensLambda c.skip fuel depth n := by
  induction fuel generalizing depth n with
  | zero => rfl
  | succ fuel ih =>
    unfold opensLambda
    simp only [h.peekAt_succ hk, ih]

/-- Names and commas up to a `)` and an arrow are parameters. -/
theorem opensLambda_names (hall : ∀ s ∈ is, s.1 = .identifier ∨ s.1 = .comma)
    (h : c.Sees (is ++ Sign.rightParen :: Sign.arrow :: ss)) (hf : c.left.length < fuel) :
    opensLambda c fuel 1 0 = true := by
  induction is generalizing c fuel with
  | nil =>
    cases fuel with
    | zero => omega
    | succ fuel =>
      have hk : (c.peekAt 0).kind = .rightParen := h.kind (by decide)
      have hend : c.kind ≠ .eof := by
        rw [h.kind (by decide)]
        decide
      have harrow : (c.peekAt 1).kind = .arrow := by
        rw [h.1.peekAt_succ hend]
        exact (h.skip (by decide) (by decide)).kind (by decide)
      unfold opensLambda
      simp only [hk, harrow]
      rfl
  | cons s is ih =>
    obtain ⟨hs, hrest⟩ := List.forall_mem_cons.mp hall
    cases fuel with
    | zero => omega
    | succ fuel =>
      have hne : s.1 ≠ .greater ∧ s.1 ≠ .eof := by
        rcases hs with hs | hs <;> rw [hs] <;> decide
      have hkind := h.kind hne.1
      have hend : c.kind ≠ .eof := by
        rw [hkind]
        exact hne.2
      have hleft : c.skip.left.length < fuel := by
        rw [h.1.left_eq, ← Cursor.left_skip hend, List.length_cons] at hf
        omega
      have hnext := ih hrest (h.skip hne.1 hne.2) hleft
      rw [← opensLambda_succ h.1 hend] at hnext
      have hk : (c.peekAt 0).kind = s.1 := hkind
      unfold opensLambda
      rcases hs with hs | hs
      · rw [hs] at hk
        simp only [hk]
        exact hnext
      · rw [hs] at hk
        simp only [hk]
        exact hnext

/-- A name before a comma or a `)` is a parameter without a type. -/
theorem parameter_of_name {name : String} (hs : s.1 = .comma ∨ s.1 = .rightParen)
    (h : c.Sees (Sign.name name :: s :: ss)) :
    ∃ span span', parameter fuel c = .ok ⟨none, ⟨name, span⟩, span'⟩ c.skip := by
  have hk : c.kind = .identifier := h.kind (fun hk => by cases hk)
  have hlexeme : c.peek.lexeme = name := (h.peek (fun hk => by cases hk)).2
  have hne : s.1 ≠ .greater := by rcases hs with hs | hs <;> rw [hs] <;> decide
  have hnext : (c.peekAt 1).kind = s.1 := by
    rw [h.1.peekAt_succ (by rw [hk]; decide)]
    exact (h.skip (fun hk => by cases hk) (fun hk => by cases hk)).kind hne
  refine ⟨c.peek.span, c.peek.span.merge c.peek.span, ?_⟩
  unfold parameter
  have huntyped : c.kind = .identifier ∧
      ((c.peekAt 1).kind = .comma ∨ (c.peekAt 1).kind = .rightParen) := by
    rw [hnext]
    exact ⟨hk, hs⟩
  rw [get_bind]
  dsimp only
  rw [run_if_pos huntyped, bind_of_ok (pure_eq none c), bind_of_ok (expect_of_eq hk), hlexeme]
  rfl

/-! ## 2. Lambdas -/

variable {P : Node → Prop}

/-- A lambda with one parameter. -/
theorem node_lambda {name : String} (h : c.Sees (Sign.name name :: Sign.arrow :: ss))
    (hn : ∀ e : Cursor, e.Sees ss → ∃ n d, node fuel 0 e = .ok n d ∧ d.kind = .eof ∧ P n) :
    ∃ param n span d, node (fuel + 2) 0 c = .ok (.lambda false [param] n span) d ∧ d.kind = .eof ∧
      param.type = none ∧ param.name.text = name ∧ P n := by
  have hk : c.peek.kind = .identifier := h.kind (fun hk => by cases hk)
  have hlexeme : c.peek.lexeme = name := (h.peek (fun hk => by cases hk)).2
  have hnext := h.skip (fun hk => by cases hk) (fun hk => by cases hk)
  have harrow : c.skip.kind = .arrow := hnext.kind (by decide)
  have hahead : (c.peekAt 1).kind = .arrow := by
    rw [h.1.peekAt_succ (by rw [Cursor.kind, hk]; decide)]
    exact harrow
  obtain ⟨n, d, hn, hd, hprop⟩ := hn _ (hnext.skip (by decide) (by decide))
  have hcloser : d.kind ∈ closers := by
    rw [hd]
    decide
  have hlambda : operand (fuel + 1) c = .ok (.lambda false [⟨none, ⟨name, c.peek.span⟩,
      c.peek.span⟩] n (c.peek.span.merge n.span)) d := by
    rw [operand, get_bind]
    simp only [hk]
    rw [bind_of_ok advance_eq, run_if_pos hahead, bind_of_ok (expect_of_eq harrow), bind_of_ok hn,
      hlexeme]
    rfl
  refine ⟨⟨none, ⟨name, c.peek.span⟩, c.peek.span⟩, n, c.peek.span.merge n.span, d, ?_, hd, rfl,
    rfl, hprop⟩
  rw [node, bind_of_ok hlambda, continued_of_closer hcloser (Nat.succ_pos _)]

/-- A lambda with its parameters in parentheses. -/
theorem node_parenthesizedLambda {params : List Param}
    (h : c.Sees (Term.argsSigns (params.map fun p => [Sign.name p.name]) ++ Sign.arrow :: ss))
    (hf : (Term.argsSigns (params.map fun p => [Sign.name p.name])).length ≤ fuel)
    (hn : ∀ e : Cursor, e.Sees ss → ∃ n d, node fuel 0 e = .ok n d ∧ d.kind = .eof ∧ P n) :
    ∃ written n span d, node (fuel + 3) 0 c = .ok (.lambda true written n span) d ∧
      d.kind = .eof ∧ List.Forall₂ Param.Mirrors params written ∧ P n := by
  simp only [Term.argsSigns, List.cons_append, List.append_assoc, List.nil_append,
    List.length_cons, List.length_append, List.length_nil] at h hf
  have hk : c.peek.kind = .leftParen := h.kind (by decide)
  have hskip := h.skip (by decide) (by decide)
  have hnames : ∀ s ∈ commas (params.map fun p => [Sign.name p.name]),
      s.1 = .identifier ∨ s.1 = .comma := by
    intro s hs
    rcases mem_commas hs with rfl | ⟨ss, hss, hs⟩
    · exact .inr rfl
    · obtain ⟨p, -, rfl⟩ := List.mem_map.mp hss
      rw [List.mem_singleton.mp hs]
      exact .inl rfl
  have hopens : opensLambda c (c.buffer.size + 1) 0 0 = true := by
    have hend : c.kind ≠ .eof := by
      rw [h.kind (by decide)]
      decide
    have hleft : c.skip.left.length < c.buffer.size := by
      have hlt := h.1.lt_size
      rw [Cursor.left_skip hend, List.length_drop, Array.length_toList]
      omega
    have hrest := opensLambda_names hnames hskip hleft
    rw [← opensLambda_succ h.1 hend] at hrest
    have hk : (c.peekAt 0).kind = .leftParen := hk
    unfold opensLambda
    simp only [hk]
    exact hrest
  -- the parameters, each before a comma or the parenthesis
  have hitem : ∀ p ∈ params, ReadsItem Param.Mirrors (parameter fuel) .rightParen (fun _ => True) p
      [Sign.name p.name] := by
    intro p _ e s ts hs he _
    obtain ⟨span, span', hparam⟩ := parameter_of_name hs he
    exact ⟨_, _, hparam, he.skip (fun hk => by cases hk) (fun hk => by cases hk), rfl, rfl⟩
  have hends : ∀ p ∈ params, ∀ (e : Cursor) ts, e.Sees ([Sign.name p.name] ++ ts) →
      e.kind ≠ .rightParen := by
    intro p _ e ts he hk
    rw [he.kind (fun hk => by cases hk)] at hk
    cases hk
  have hlen : (commas (params.map fun p => [Sign.name p.name])).length < fuel := by omega
  have hparen : Sign.rightParen.1 = TokenKind.rightParen := rfl
  obtain ⟨written, e, hitems, he, hall⟩ := items_reads false (by decide) (by decide) hparen hitem
    (fun _ _ _ => trivial) hends hskip trivial hlen
  have hclose : e.kind = .rightParen := he.kind (by decide)
  have hnext := he.skip (by decide) (by decide)
  have harrow : e.skip.kind = .arrow := hnext.kind (by decide)
  obtain ⟨n, d, hn, hd, hprop⟩ := hn _ (hnext.skip (by decide) (by decide))
  have hcloser : d.kind ∈ closers := by
    rw [hd]
    decide
  have hlambda : operand (fuel + 2) c =
      .ok (.lambda true written n (c.peek.span.merge n.span)) d := by
    rw [operand, get_bind]
    simp only [hk]
    rw [hopens, run_if_pos rfl, parenthesizedLambda, bind_of_ok (expect_of_eq hk),
      bind_of_ok hitems, bind_of_ok (expect_of_eq hclose), bind_of_ok (expect_of_eq harrow),
      bind_of_ok hn]
    rfl
  refine ⟨written, n, c.peek.span.merge n.span, d, ?_, hd, hall, hprop⟩
  rw [node, bind_of_ok hlambda, continued_of_closer hcloser (Nat.succ_pos _)]

end Syntax.Reader

/-! ## 3. The whole text -/

namespace Syntax

/-- Tokens up to the end of the text are seen from their beginning. -/
theorem Cursor.sees_ofTokens (ss : List Sign) {tokens : List Token}
    (h : tokens.flatMap Token.signs = ss ++ [Sign.eof]) :
    (Cursor.ofTokens tokens).Sees (ss ++ [Sign.eof]) := by
  obtain ⟨front, last, rfl⟩ : ∃ front last, tokens = front ++ [last] := by
    rcases List.eq_nil_or_concat' tokens with rfl | ⟨front, last, rfl⟩
    · simp at h
    · exact ⟨front, last, rfl⟩
  refine ⟨⟨front, last, rfl, ?_, Nat.zero_le _⟩, h⟩
  rw [List.flatMap_append, List.flatMap_singleton] at h
  by_cases hd : last.kind = .greaterGreater
  · have hlast := congrArg List.getLast? h
    rw [Token.signs_double hd, List.getLast?_append, List.getLast?_append] at hlast
    cases hlast
  · rw [Token.signs_of_ne hd] at h
    exact congrArg Prod.fst (List.cons.inj (List.append_inj' h rfl).2).1

/-- Where a lambda is read up to the end of the text, that is what the text spells. -/
theorem Reader.wholeLambda_of_node {parenthesized : Bool} {params : List Parameter}
    {body n : Node} {span : Span} (h : node fuel 0 c = .ok n d)
    (hn : n.bare = .lambda parenthesized params body span) (hd : d.kind = .eof) :
    wholeLambda fuel c = .ok ⟨parenthesized, params, body, span⟩ d := by
  have hne : d.kind ≠ .semicolon := by
    rw [hd]
    decide
  unfold wholeLambda
  rw [bind_of_ok h]
  simp only [hn]
  rw [bind_of_ok (eat_of_ne hne)]
  have hend : atEnd d = .ok () d := by
    unfold atEnd
    rw [get_bind]
    exact run_if_pos hd
  rw [bind_of_ok hend]
  rfl

/-- Whether an expression is a literal. -/
def Node.isLiteral : Node → Bool
  | .literal _ _ => true
  | _ => false

end Syntax

/-- A single parameter stands without parentheses, others in them. -/
theorem Term.paramsSigns_cases (params : List Param) :
    (∃ p, params = [p]) ∨ paramsSigns params = argsSigns (params.map fun p => [Sign.name p.name]) := by
  rcases params with _ | ⟨p, _ | ⟨q, rest⟩⟩
  · exact .inr rfl
  · exact .inl ⟨p, rfl⟩
  · exact .inr rfl

variable {C : Value → Prop} {L : Value → Node → Prop}

/-- Lambdas inside lambdas are read up to the end of the text, if the constants in them are read. -/
theorem Term.curried_reads (hC : ∀ v, C v → v.IsRead (L v))
    (hL : ∀ v n span, L v n → L v (.paren n span)) {t : Term} (h : t.CurriedBy C ns)
    (hf : 2 * (t.curriedSigns ns).length + 6 ≤ fuel)
    (hc : c.Sees (t.curriedSigns ns ++ [Sign.eof])) :
    ∃ n d, node fuel 0 c = .ok n d ∧ d.kind = .eof ∧ t.MirrorsBy L ns n := by
  have hpower : 0 ≤ postfixPower := Nat.zero_le _
  induction t generalizing fuel c with
  | lambda params body ih =>
    obtain ⟨hnames, hbody⟩ := h
    rw [curriedSigns, List.append_assoc, List.cons_append] at hc
    rw [curriedSigns, List.length_append, List.length_cons] at hf
    have hinner (depth : Nat) (hdepth : 2 * (curriedSigns ns body).length + 6 ≤ depth) (e : Cursor)
        (he : e.Sees (curriedSigns ns body ++ [Sign.eof])) := ih hbody hdepth he
    rcases paramsSigns_cases params with ⟨p, rfl⟩ | hp
    · have hlen : (paramsSigns [p]).length = 1 := rfl
      obtain ⟨depth, rfl⟩ := Nat.exists_eq_add_of_le' (show 2 ≤ fuel by omega)
      obtain ⟨param, n, span, d, hn, hd, htype, hname, hm⟩ :=
        node_lambda hc (hinner depth (by omega))
      exact ⟨_, d, hn, hd, _, _, _, span, rfl, .cons ⟨htype, hname⟩ .nil, hm⟩
    · have hlen : 2 ≤ (argsSigns (params.map fun p => [Sign.name p.name])).length := by
        rw [argsSigns, List.length_cons, List.length_append, List.length_singleton]
        omega
      rw [hp] at hc hf
      obtain ⟨depth, rfl⟩ := Nat.exists_eq_add_of_le' (show 3 ≤ fuel by omega)
      obtain ⟨written, n, span, d, hn, hd, hall, hm⟩ :=
        node_parenthesizedLambda hc (by omega) (hinner depth (by omega))
      exact ⟨_, d, hn, hd, _, _, _, span, rfl, hall, hm⟩
  | _ =>
    -- the innermost body, which is no lambda
    obtain ⟨n, d, hn, hd, hm⟩ := (readsBy hC hL h).apart.node_eq hpower (by decide) rfl hc hf
    exact ⟨n, d, hn, hd.kind (by decide), hm⟩

namespace Function

/-- The text of a legible lambda is read as a lambda with its parts, if the constants in it are
read. -/
theorem parseLambda_text (hS : ∀ v, C v → Spells v.literalText v.signs)
    (hC : ∀ v, C v → v.IsRead (L v)) (hL : ∀ v n span, L v n → L v (.paren n span)) {f : Function}
    (h : f.term.CurriedBy C ns) :
    ∃ written, parseLambda (f.text ns) = .ok written ∧
      List.Forall₂ Param.Mirrors f.params written.params ∧ f.body.MirrorsBy L ns written.body := by
  obtain ⟨tokens, htokens, hsigns⟩ := f.tokenize_text hS h
  have hlength := length_flatMap_signs tokens
  rw [hsigns] at hlength
  unfold signs at hsigns hlength
  rw [List.length_append, List.length_singleton] at hlength
  have hdepth : 2 * (f.term.curriedSigns ns).length + 6 ≤ readingDepth tokens := by
    unfold readingDepth
    omega
  obtain ⟨n, d, hn, hd, parenthesized, params, body, span, hbare, hparams, hm⟩ :=
    Term.curried_reads hC hL h hdepth (Cursor.sees_ofTokens _ hsigns)
  refine ⟨⟨parenthesized, params, body, span⟩, ?_, hparams, hm⟩
  unfold parseLambda Syntax.read
  rw [htokens]
  dsimp only
  rw [wholeLambda_of_node hn hbare hd]

/-- The text of a lambda is read as a lambda with its parts. -/
def ReadsBack (f : Function) (ns : Namespaces) : Prop :=
  ∃ written, parseLambda (f.text ns) = .ok written ∧ f.Mirrors ns written

/-- The reader inverts the printer: what a legible lambda is printed as is read as a lambda with its
parts. -/
theorem readsBack_of_legible {f : Function} (h : f.Legible ns) : f.ReadsBack ns := by
  have hbody := h.2.legibleBy
  obtain ⟨written, hread, hparams, hm⟩ := f.parseLambda_text (fun v => v.spells_literalText)
    (fun v hv => hv.isRead) (fun _ _ _ hm => hm) ⟨h.1, hbody.curriedBy⟩
  exact ⟨written, hread, hparams, (Term.mirrors_iff hbody).mp hm⟩

/-- `(x, i) => (x[i] > 0.1 ? x.Max() : Double.Parse("2", x))`, with a cast to a nullable type. -/
def scaling : Function :=
  let doubles := HostType.arrayOf .double
  let largest : Method := ⟨"Max", some ⟨.named ⟨["System", "Linq"], "Enumerable"⟩, [], false⟩,
    [doubles], .double, true, true, 0, [.double], none⟩
  let parse : Method := ⟨"Parse", some .double, [.string, doubles], .double, true, false, 0, [], none⟩
  let x : Term := .param ⟨"x", doubles⟩
  { params := [⟨"x", doubles⟩, ⟨"i", .int32⟩]
    body := .cast
      (.cond
        (.binary .greaterThan (.binary .arrayIndex x (.param ⟨"i", .int32⟩) .double)
          (.const (.double (Float.ofBits 0x3FB999999999999A)) .double) .boolean)
        (.staticCall largest [x])
        (.staticCall parse [.const (.string "2") .string, x]))
      ⟨HostType.double.shape, [], true⟩ }

theorem readsBack_scaling : scaling.Legible .system ∧ scaling.ReadsBack .system := by
  have hname : ∀ s ∈ ["x", "i", "Max", "Parse"], isName s = true := by decide +kernel
  have htext : (Value.string "2").Legible := trivial
  have hreal : (Value.double (Float.ofBits 0x3FB999999999999A)).Legible := by
    refine ⟨7205759403792794, -56, ?_⟩
    rw [datumOf, Binary.toBits_ofBits (by decide)]
    decide +kernel
  have hlegible : scaling.Legible .system := by
    simp [Legible, scaling, Term.Legible, Term.LegibleList, HostType.Legible, HostType.LegibleList,
      HostType.LegibleOwner, Term.onFirst, HostType.double, HostType.primitive, HostType.arrayOf,
      hname, hreal, htext]
  exact ⟨hlegible, readsBack_of_legible hlegible⟩

/-- The members of an array type, what is created as an array of another type, and the negative zero
are not read back. -/
theorem not_readsBack :
    (∀ member : Member, member.declaring = .arrayOf .int32 → member.name = "Foo" →
      ¬ (⟨[⟨"x", .int32⟩], .staticMember member⟩ : Function).ReadsBack .system) ∧
    ¬ (⟨[⟨"x", .int32⟩], .array .int32 [] .int32⟩ : Function).ReadsBack .system ∧
    ¬ (⟨[⟨"x", .int32⟩], .const (.double (Float.ofBits 0x8000000000000000)) .double⟩ :
      Function).ReadsBack .system := by
  have herror : (parseLambda "x => Int32[].Foo").toOption = none ∧
      (parseLambda "x => new Int32 \x7b \x7d").toOption = none := by
    decide +kernel
  refine ⟨?_, ?_, ?_⟩
  · rintro member hdeclaring hname ⟨written, hread, -⟩
    have htext : (⟨[⟨"x", .int32⟩], .staticMember member⟩ : Function).text .system =
        "x => Int32[].Foo" := by
      simp only [text, term, Term.text, hdeclaring, hname]
      decide +kernel
    rw [htext] at hread
    rw [hread] at herror
    cases herror.1
  · rintro ⟨written, hread, -⟩
    have htext : (⟨[⟨"x", .int32⟩], .array .int32 [] .int32⟩ : Function).text .system =
        "x => new Int32 \x7b \x7d" := by decide +kernel
    rw [htext] at hread
    rw [hread] at herror
    cases herror.2
  · rintro ⟨written, hread, hm⟩
    have htext : (⟨[⟨"x", .int32⟩], .const (.double (Float.ofBits 0x8000000000000000)) .double⟩ :
        Function).text .system = "x => -0.0" := by decide +kernel
    rw [htext] at hread
    have hbody : (parseLambda "x => -0.0").toOption.any (·.body.bare.isLiteral) = false := by
      decide +kernel
    obtain ⟨l, span, hbare, -⟩ := hm.2
    rw [hread, Except.toOption, Option.any_some, hbare] at hbody
    cases hbody

end Function

end FatArrow
