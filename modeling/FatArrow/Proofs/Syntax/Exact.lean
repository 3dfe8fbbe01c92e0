import FatArrow.Proofs.Syntax.Traced

/-!
# Spans are exact

Every expression that is read is written as the tokens that were taken for it, with the spans that
go with them.
-/

namespace FatArrow.Syntax

open Cursor (Takes)

theorem TypeNode.Written.exists_first {type : TypeNode} {ts : List Taken} (h : type.Written ts) :
    ∃ t us, ts = .whole t :: us := by
  match h with
  | .predefined _ => exact ⟨_, [], rfl⟩
  | .named (.mk _ _) _ _ => exact ⟨_, _, List.cons_append ..⟩
  | .array helement _ _ _ =>
    obtain ⟨t, us, rfl⟩ := helement.exists_first
    exact ⟨t, _, List.cons_append ..⟩
  | .nullable hinner _ _ =>
    obtain ⟨t, us, rfl⟩ := hinner.exists_first
    exact ⟨t, _, List.cons_append ..⟩

/-- The span of the token at a cursor starts what is taken from there. -/
theorem Cursor.Takes.within_peek {c d : Cursor} {t : Token} {ts : List Taken}
    (h : c.Takes (.whole t :: ts) d) (hc : c.Ready) : c.peek.span.Within (.whole t :: ts) := by
  rw [← h.eq_peek hc.sound]
  exact (Span.covers_token (.whole t)).within.append ts (h.ordered hc)

/-- The last token is not the first half of a `>>`. -/
def EndsWhole (ts : List Taken) : Prop := ∀ t, ts.getLast? = some t → t.half = false

theorem EndsWhole.append {ts us : List Taken} (h : EndsWhole ts) (h' : EndsWhole us) :
    EndsWhole (ts ++ us) := by
  rcases List.eq_nil_or_concat us with rfl | ⟨us, u, rfl⟩
  · rwa [List.append_nil]
  · intro t ht
    apply h' t
    rw [List.concat_eq_append, List.getLast?_concat]
    rwa [List.concat_eq_append, ← List.append_assoc, List.getLast?_concat] at ht

theorem EndsWhole.concat (ts : List Taken) (t : Token) : EndsWhole (ts ++ [.whole t]) := by
  intro u hu
  rw [List.getLast?_concat] at hu
  cases hu
  rfl

theorem Enclosed.endsWhole {α : Type} {P : α → List Taken → Prop} {trailing : Bool}
    {opening closing : TokenKind} {as : List α} {ts : List Taken}
    (h : Enclosed P trailing opening closing as ts) (us : List Taken) : EndsWhole (us ++ ts) := by
  cases h with
  | @mk t u as ts _ _ _ =>
    rw [← List.append_assoc]
    exact .concat _ u

/-- The span of the token read last ends what was taken. -/
theorem Cursor.Takes.covers_previous {c d : Cursor} {s : Span} {ts : List Taken}
    (h : c.Takes ts d) (hc : c.Ready) (hs : s.Within ts) (hlast : EndsWhole ts) :
    (s.merge d.previousSpan).Covers ts := by
  have ⟨_, t, _, ht, _⟩ := hs
  obtain ⟨us, rfl⟩ := List.getLast?_eq_some_iff.mp ht
  rw [h.previousSpan hc.sound (hlast t ht)]
  exact hs.merge_last ht (h.ordered hc)

namespace Reader

variable {c d : Cursor}

/-- Where type arguments are read in an expression, they do not end with the first half of a
`>>`. -/
theorem attemptTypeArgs_traced (fuel : Nat) (hc : c.Ready) :
    Traced (attemptTypeArgs fuel) c fun args ts _ =>
      TypeArgsWritten (args.getD []) ts ∧ EndsWhole ts := by
  unfold attemptTypeArgs
  refine .check (.ite (fun _ => ?_) fun _ => .pure ⟨.nil, nofun⟩)
  refine (Traced.attempt (typeArgs_traced fuel hc) hc).mono fun args ts d hts hargs => ?_
  cases args with
  | none =>
    subst hargs
    exact ⟨.nil, nofun⟩
  | some args =>
    obtain ⟨hargs, hfollows⟩ := hargs
    refine ⟨hargs, fun t ht => Bool.eq_false_iff.mpr fun hhalf => ?_⟩
    obtain ⟨us, rfl⟩ := List.getLast?_eq_some_iff.mp ht
    -- the second half of a `>>` cannot follow type arguments
    rw [hts.kind_of_half hc.sound hhalf] at hfollows
    cases hfollows

theorem parameter_traced (fuel : Nat) (hc : c.Ready) :
    Traced (parameter fuel) c fun parameter ts _ => parameter.Written ts := by
  unfold parameter
  refine Traced.look ?_
  dsimp only
  refine .ite (fun _ => ?_) fun _ => ?_
  · refine .expect (by decide) (fun name d hname hd => .pure ?_) hc
    exact .untyped hname ((hd.within_peek hc).merge_last rfl (hd.ordered hc))
  · refine (Traced.map (type_traced fuel hc)).bind hc fun written ts d hts hwritten => ?_
    obtain ⟨type, rfl, htype⟩ := hwritten
    refine .expect (by decide) (fun name e hname he => .pure ?_) (hts.ready hc)
    have htaken := hts.trans he
    refine .typed htype hname ?_
    obtain ⟨t, us, rfl⟩ := htype.exists_first
    have hlast : (.whole t :: (us ++ [.whole name])).getLast? = some (.whole name) := by
      rw [← List.cons_append, List.getLast?_concat]
    exact (htaken.within_peek hc).merge_last hlast (htaken.ordered hc)

/-- The opening parenthesis, the type and the closing parenthesis of a cast. -/
def CastTarget (target : TypeNode) (ts : List Taken) : Prop :=
  ∃ t u us, ts = .whole t :: us ++ [.whole u] ∧ t.kind = .leftParen ∧ target.Written us ∧
    u.kind = .rightParen

theorem castTarget_traced (fuel : Nat) (hc : c.Ready) (hk : c.kind = .leftParen) :
    Traced (castTarget fuel) c fun target ts _ => CastTarget target ts := by
  unfold castTarget
  refine .advance (by rw [hk]; decide) (fun hskip => ?_) hc
  have hd := hskip.ready hc
  refine (type_traced fuel hd).bind hd fun target ts e hts htarget => ?_
  exact .expect (by decide) (fun close _ hclose _ => .pure ⟨_, close, ts, rfl, hk, htarget, hclose⟩)
    (hts.ready hd)

mutual

theorem node_traced (fuel power : Nat) {c : Cursor} (hc : c.Ready) :
    Traced (node fuel power) c fun node ts _ => node.Written ts := by
  cases fuel with
  | zero => exact .exhausted
  | succ fuel =>
    rw [node]
    exact (operand_traced fuel hc).bind hc fun first ts d hts hfirst =>
      continued_traced fuel power hc hts hfirst

theorem continued_traced (fuel power : Nat) {c₀ c : Cursor} {left : Node} {ts : List Taken}
    (h₀ : c₀.Ready) (hts : c₀.Takes ts c) (hleft : left.Written ts) :
    Traced (continued fuel power left) c fun node us _ => node.Written (ts ++ us) := by
  cases fuel with
  | zero => exact .exhausted
  | succ fuel =>
    have hc := hts.ready h₀
    rw [continued]
    refine Traced.look ?_
    dsimp only
    split
    next hk =>
      refine .ite (fun _ => .pure (by rwa [List.append_nil])) fun _ => ?_
      refine .advance (by rw [show c.kind = _ from hk]; decide) (fun hskip => ?_) hc
      have hd := hskip.ready hc
      refine .expect (by decide) (fun name d hname hd' => ?_) hd
      have he := hd'.ready hd
      refine (attemptTypeArgs_traced fuel he).bind he fun args us e hus hargs => Traced.look ?_
      have htaken := hts.trans (hskip.trans (hd'.trans hus))
      have hwithin := hleft.covers.within.append _ (htaken.ordered h₀)
      have hspan := htaken.covers_previous h₀ hwithin <| by
        rw [← List.append_assoc, ← List.append_assoc]
        exact (EndsWhole.concat _ name).append hargs.2
      have hmember := Node.Written.member hleft hk hname hargs.1 hspan
      refine (continued_traced fuel power h₀ htaken hmember).mono fun n vs _ _ hn => ?_
      simpa using hn
    next hk =>
      refine .ite (fun _ => .pure (by rwa [List.append_nil])) fun _ => ?_
      refine (arguments_traced fuel (by decide) (by decide) hc).bind hc fun args us d hus hargs => ?_
      refine Traced.look ?_
      have htaken := hts.trans hus
      have hwithin := hleft.covers.within.append _ (htaken.ordered h₀)
      have hspan := htaken.covers_previous h₀ hwithin (hargs.endsWhole ts)
      have hcall := Node.Written.call hleft hargs hspan
      refine (continued_traced fuel power h₀ htaken hcall).mono fun n vs _ _ hn => ?_
      simpa using hn
    next hk =>
      refine .ite (fun _ => .pure (by rwa [List.append_nil])) fun _ => ?_
      refine (arguments_traced fuel (by decide) (by decide) hc).bind hc fun args us d hus hargs => ?_
      refine .ite (fun _ => Traced.look (.refuse_bind _ _ (hus.ready hc))) fun _ => Traced.look ?_
      have htaken := hts.trans hus
      have hwithin := hleft.covers.within.append _ (htaken.ordered h₀)
      have hspan := htaken.covers_previous h₀ hwithin (hargs.endsWhole ts)
      have hindex := Node.Written.index hleft hargs hspan
      refine (continued_traced fuel power h₀ htaken hindex).mono fun n vs _ _ hn => ?_
      simpa using hn
    next hk =>
      refine .ite (fun _ => .pure (by rwa [List.append_nil])) fun _ => ?_
      refine .advance (by rw [show c.kind = _ from hk]; decide) (fun hskip => ?_) hc
      have hd := hskip.ready hc
      refine (node_traced fuel 0 hd).bind hd fun ifTrue us d hus htrue => ?_
      have he := hus.ready hd
      refine .expect (by decide) (fun colon e hcolon hcolon' => ?_) he
      have he' := hcolon'.ready he
      refine (node_traced fuel conditionalPower he').bind he' fun ifFalse vs e' hvs hfalse => ?_
      have htaken := hts.trans (hskip.trans (hus.trans (hcolon'.trans hvs)))
      have hlist : ts ++ ([.whole c.peek] ++ (us ++ ([.whole colon] ++ vs))) =
          ts ++ .whole c.peek :: us ++ .whole colon :: vs := by simp
      rw [hlist] at htaken
      have hspan := hleft.covers.merge hfalse.covers (htaken.ordered h₀)
        (.whole c.peek :: us ++ [.whole colon]) (by simp)
      have hconditional := Node.Written.conditional hleft hk htrue hcolon hfalse hspan
      refine (continued_traced fuel power h₀ htaken hconditional).mono fun n ws _ _ hn => ?_
      simpa using hn
    next kind _ _ _ _ =>
      refine .ite (fun _ => .refuse _ _) fun _ => ?_
      split
      next => exact .pure (by rwa [List.append_nil])
      next op hop =>
        refine .ite (fun _ => .pure (by rwa [List.append_nil])) fun _ => ?_
        have hne : c.kind ≠ .eof := by
          intro heof
          rw [show c.peek.kind = _ from heof] at hop
          cases hop
        refine .advance hne (fun hskip => ?_) hc
        have hd := hskip.ready hc
        refine (node_traced fuel _ hd).bind hd fun right us e hus hright => ?_
        have htaken := hts.trans (hskip.trans hus)
        have hspan := hleft.covers.merge hright.covers (htaken.ordered h₀)
          [.whole c.peek] (by simp)
        have hbinary := Node.Written.binary hleft hop hright hspan
        refine (continued_traced fuel power h₀ htaken hbinary).mono fun n vs _ _ hn => ?_
        simpa using hn

theorem operand_traced (fuel : Nat) {c : Cursor} (hc : c.Ready) :
    Traced (operand fuel) c fun node ts _ => node.Written ts := by
  cases fuel with
  | zero => exact .exhausted
  | succ fuel =>
    rw [operand]
    refine Traced.look ?_
    dsimp only
    split
    next hk =>
      refine .advance (by rw [show c.kind = _ from hk]; decide) (fun hskip => ?_) hc
      have hd := hskip.ready hc
      refine .ite (fun _ => ?_) fun _ => ?_
      · refine .expect (by decide) (fun arrow d harrow hd' => ?_) hd
        have he := hd'.ready hd
        refine (node_traced fuel 0 he).bind he fun body ts e hts hbody => .pure ?_
        have htaken := hskip.trans (hd'.trans hts)
        rw [List.append_nil]
        exact .lambda hk harrow hbody <| (Span.covers_token (.whole c.peek)).merge hbody.covers
          (htaken.ordered hc) [.whole arrow] rfl
      · refine (attemptTypeArgs_traced fuel hd).bind hd fun args ts d hts hargs => ?_
        refine Traced.look (.pure ?_)
        have htaken := hskip.trans hts
        rw [List.append_nil]
        refine .name hk hargs.1 (htaken.covers_previous hc (htaken.within_peek hc) ?_)
        exact (EndsWhole.concat [] c.peek).append hargs.2
    next hk =>
      refine .advance (by rw [show c.kind = _ from hk]; decide) (fun _ => .pure ?_) hc
      exact .predefined hk
    next hk =>
      refine .ite (fun _ => parenthesizedLambda_traced fuel hc) fun _ => ?_
      refine (Traced.attempt (castTarget_traced fuel hc hk) hc).bind hc
        fun target ts d hts htarget => ?_
      have hd := hts.ready hc
      cases target with
      | some target =>
        obtain ⟨⟨t, u, us, rfl, ht, htarget, hu⟩, -⟩ := htarget
        refine (node_traced fuel _ hd).bind hd fun inner vs e hvs hinner => .pure ?_
        have htaken := hts.trans hvs
        rw [List.append_nil, List.append_assoc, List.singleton_append]
        rw [List.append_assoc, List.singleton_append] at htaken
        refine .cast ht htarget hu hinner ?_
        rw [← htaken.eq_peek hc.sound]
        exact (Span.covers_token (.whole t)).merge hinner.covers (htaken.ordered hc)
          (us ++ [.whole u]) (by simp)
      | none =>
        subst htarget
        rw [hts.eq_of_nil]
        refine .advance (by rw [show c.kind = _ from hk]; decide) (fun hskip => ?_) hc
        have hd := hskip.ready hc
        refine (node_traced fuel 0 hd).bind hd fun inner ts d hts hinner => ?_
        refine .expect (by decide) (fun close e hclose he => .pure ?_) (hts.ready hd)
        have htaken := hskip.trans (hts.trans he)
        exact .paren hk hinner hclose <| (Span.covers_token (.whole c.peek)).merge
          (Span.covers_token (.whole close)) (htaken.ordered hc) ts rfl
    next hk => exact creation_traced fuel hc
    next kind _ _ _ _ =>
      refine .ite (fun hliteral => ?_) fun _ => ?_
      · have hne : c.kind ≠ .eof := by
          intro heof
          rw [show c.peek.kind = _ from heof] at hliteral
          cases hliteral
        refine .advance hne (fun _ => ?_) hc
        unfold literalNode
        cases hvalue : literalOf c.peek with
        | ok value => exact .pure (.literal hvalue)
        | error e =>
          refine ⟨fun b d hr => ?_, fun e d hr => ?_⟩
          all_goals cases hr
          exact .refl _
      · split
        next op hop =>
          have hne : c.kind ≠ .eof := by
            intro heof
            rw [show c.peek.kind = _ from heof] at hop
            cases hop
          refine .advance hne (fun hskip => ?_) hc
          have hd := hskip.ready hc
          refine (node_traced fuel _ hd).bind hd fun inner ts e hts hinner => .pure ?_
          have htaken := hskip.trans hts
          rw [List.append_nil]
          exact .unary hop hinner <| (Span.covers_token (.whole c.peek)).merge hinner.covers
            (htaken.ordered hc) [] rfl
        next => exact .ite (fun _ => .refuse _ _) fun _ => .refuse _ _

theorem parenthesizedLambda_traced (fuel : Nat) {c : Cursor} (hc : c.Ready) :
    Traced (parenthesizedLambda fuel) c fun node ts _ => node.Written ts := by
  cases fuel with
  | zero => exact .exhausted
  | succ fuel =>
    rw [parenthesizedLambda]
    refine .expect (by decide) (fun start d hstart hd => ?_) hc
    have hd' := hd.ready hc
    refine (items_traced false .rightParen (fun _ h => parameter_traced fuel h) fuel hd').bind hd'
      fun params ts e hts hparams => ?_
    have he := hts.ready hd'
    refine .expect (by decide) (fun close e hclose hclose' => ?_) he
    have he' := hclose'.ready he
    refine .expect (by decide) (fun arrow e harrow harrow' => ?_) he'
    have hb := harrow'.ready he'
    refine (node_traced fuel 0 hb).bind hb fun body us e' hus hbody => .pure ?_
    have htaken := hd.trans (hts.trans (hclose'.trans (harrow'.trans hus)))
    have hlist : [.whole start] ++ (ts ++ ([.whole close] ++ ([.whole arrow] ++ us))) =
        .whole start :: ts ++ [.whole close] ++ .whole arrow :: us := by simp
    rw [hlist] at htaken
    have hspan : (start.span.merge body.span).Covers _ :=
      (Span.covers_token (.whole start)).merge hbody.covers (htaken.ordered hc)
        (ts ++ [.whole close] ++ [.whole arrow]) (by simp)
    have hlambda := Node.Written.lambdaInParens (.mk hstart hparams hclose) harrow hbody hspan
    simpa using hlambda

theorem creation_traced (fuel : Nat) {c : Cursor} (hc : c.Ready) :
    Traced (creation fuel) c fun node ts _ => node.Written ts := by
  cases fuel with
  | zero => exact .exhausted
  | succ fuel =>
    rw [creation]
    refine .expect (by decide) (fun start d hstart hd => ?_) hc
    have hd' := hd.ready hc
    refine .eat (by decide) (fun hk hskip => ?_) (fun _ => ?_) hd'
    · have he := hskip.ready hd'
      refine .expect (by decide) (fun close e hclose hclose' => ?_) he
      have he' := hclose'.ready he
      refine (initializer_traced fuel he').bind he' fun items ts e hts hitems => Traced.look (.pure ?_)
      have htaken := hd.trans (hskip.trans (hclose'.trans hts))
      have hfirst := (Span.covers_token (.whole start)).within.append _ (htaken.ordered hc)
      rw [List.append_nil]
      refine .newItems hstart hk hclose hitems (htaken.covers_previous hc hfirst ?_)
      exact hitems.endsWhole [.whole start, .whole d.peek, .whole close]
    · refine (type_traced fuel hd').bind hd' fun created ts e hts hcreated => ?_
      have he := hts.ready hd'
      refine .check (.ite (fun _ => ?_) fun _ => ?_)
      · refine (arguments_traced fuel (by decide) (by decide) he).bind he
          fun args us e hus hargs => Traced.look (.pure ?_)
        have htaken := hd.trans (hts.trans hus)
        have hfirst := (Span.covers_token (.whole start)).within.append _ (htaken.ordered hc)
        rw [List.append_nil]
        refine .new hstart hcreated hargs (htaken.covers_previous hc hfirst ?_)
        exact hargs.endsWhole (.whole start :: ts)
      · split
        next element span =>
          refine (initializer_traced fuel he).bind he fun items us e hus hitems =>
            Traced.look (.pure ?_)
          have htaken := hd.trans (hts.trans hus)
          have hfirst := (Span.covers_token (.whole start)).within.append _ (htaken.ordered hc)
          rw [List.append_nil]
          refine .newArray hstart hcreated hitems (htaken.covers_previous hc hfirst ?_)
          exact hitems.endsWhole (.whole start :: ts)
        next => exact Traced.look (.ite (fun _ => .refuse _ _) fun _ => .refuse _ _)

theorem initializer_traced (fuel : Nat) {c : Cursor} (hc : c.Ready) :
    Traced (initializer fuel) c fun items ts _ =>
      Enclosed Node.Written true .leftBrace .rightBrace items ts := by
  cases fuel with
  | zero => exact .exhausted
  | succ fuel =>
    rw [initializer]
    refine .expect (by decide) (fun start d hstart hd => ?_) hc
    have hd' := hd.ready hc
    refine (items_traced true .rightBrace (fun _ h => node_traced fuel 0 h) fuel hd').bind hd'
      fun items ts e hts hitems => ?_
    exact .expect (by decide) (fun close _ hclose _ => .pure (.mk hstart hitems hclose))
      (hts.ready hd')

theorem arguments_traced (fuel : Nat) {opening closing : TokenKind} (ho : opening ≠ .eof)
    (hcl : closing ≠ .eof) {c : Cursor} (hc : c.Ready) :
    Traced (arguments fuel opening closing) c fun args ts _ =>
      Enclosed Node.Written false opening closing args ts := by
  cases fuel with
  | zero => exact .exhausted
  | succ fuel =>
    rw [arguments]
    refine .expect ho (fun start d hstart hd => ?_) hc
    have hd' := hd.ready hc
    refine (items_traced false closing (fun _ h => node_traced fuel 0 h) fuel hd').bind hd'
      fun args ts e hts hargs => ?_
    exact .expect hcl (fun close _ hclose _ => .pure (.mk hstart hargs hclose)) (hts.ready hd')

end

end Reader

/-! ## 3. Whole texts -/

/-- The expression is written as tokens of a text, behind some and before others, up to the end of
the text: every node has the span of its tokens, the tokens lie in the text where their spans say,
and every part lies inside the whole. -/
def Node.WrittenIn (node : Node) (text : String) (front back : List Taken) : Prop :=
  ∃ tokens ts last rest, tokenize text = .ok tokens ∧
    Cut tokens (front ++ ts ++ back) (last :: rest) ∧ last.kind = .eof ∧ node.Written ts ∧
    (∀ t ∈ ts, t.token.LiesIn text.toList) ∧ node.Nested

theorem Cursor.ready_ofTokens {text : String} {tokens : List Token}
    (h : tokenize text = .ok tokens) : (Cursor.ofTokens tokens).Ready := by
  have htokens := tokenize_tokens h
  obtain ⟨init, last, rfl, hlast⟩ := htokens.ends
  exact ⟨⟨init, last, rfl, hlast, Nat.zero_le _⟩, htokens.tidy⟩

/-- What is written as tokens that were taken from a text is written in the text. -/
theorem Node.Written.writtenIn {node : Node} {text : String} {tokens : List Token} {d : Cursor}
    {front ts back : List Taken} (h : node.Written ts) (ht : tokenize text = .ok tokens)
    (hd : (Cursor.ofTokens tokens).Takes (front ++ ts ++ back) d) (heof : d.kind = .eof) :
    node.WrittenIn text front back := by
  have hc := Cursor.ready_ofTokens ht
  have htokens := tokenize_tokens ht
  have hcut := hd.cut hc.sound
  rw [(hd.sound hc.sound).left_eq] at hcut
  have hin := hcut.liesIn htokens.tidy htokens.liesIn
  refine ⟨tokens, ts, d.peek, _, ht, hcut, heof, h, fun t hts => ?_, ?_⟩
  · exact hin t (List.mem_append_left _ (List.mem_append_right _ hts))
  · exact h.nested (hd.ordered hc).of_append_left.of_append_right

theorem Reader.atEnd_eq_ok {c d : Cursor} (h : atEnd c = .ok () d) : c.kind = .eof ∧ d = c := by
  unfold atEnd at h
  rw [get_bind] at h
  by_cases hk : c.peek.kind = .eof
  · rw [run_if_pos hk] at h
    cases h
    exact ⟨hk, rfl⟩
  · rw [run_if_neg hk] at h
    split at h <;> cases h

/-- Inside parentheses, an expression is written between their tokens. -/
theorem Node.Written.bare {node : Node} {ts : List Taken} (h : node.Written ts) :
    ∃ front us back, ts = front ++ us ++ back ∧ (∀ t ∈ front, t.token.kind = .leftParen) ∧
      (∀ t ∈ back, t.token.kind = .rightParen) ∧ node.bare.Written us := by
  induction node using Node.bare.induct generalizing ts with
  | case1 inner span ih =>
    cases h with
    | @paren _ _ t u ts ht hinner hu _ =>
      obtain ⟨front, us, back, rfl, hfront, hback, hus⟩ := ih hinner
      refine ⟨.whole t :: front, us, back ++ [.whole u], by simp, ?_, ?_, hus⟩
      · exact List.forall_mem_cons.mpr ⟨ht, hfront⟩
      · intro v hv
        rcases List.mem_append.mp hv with hv | hv
        · exact hback v hv
        · rw [List.mem_singleton.mp hv]
          exact hu
  | case2 node hne =>
    have hbare : node.bare = node := by
      unfold Node.bare
      split
      next inner span => exact absurd rfl (hne inner span)
      next => rfl
    rw [hbare]
    exact ⟨[], ts, [], by simp, nofun, nofun, h⟩

/-- Where a whole text is read, a step has read its tokens. -/
theorem exists_of_read {α : Type} {step : Nat → Reader α} {text : String} {a : α}
    (h : read step text = .ok a) :
    ∃ tokens d, tokenize text = .ok tokens ∧
      step (readingDepth tokens) (Cursor.ofTokens tokens) = .ok a d := by
  unfold read at h
  cases ht : tokenize text with
  | error e =>
    rw [ht] at h
    cases h
  | ok tokens =>
    rw [ht] at h
    dsimp only at h
    cases hstep : step (readingDepth tokens) (Cursor.ofTokens tokens) with
    | ok b d =>
      rw [hstep] at h
      cases h
      exact ⟨tokens, d, rfl, hstep⟩
    | error e d =>
      rw [hstep] at h
      cases e <;> cases h

/-- What is read is written in the text, an expression as the whole of it, a lambda but for
parentheses around it and a semicolon. -/
theorem parse_writtenIn (text : String) :
    (∀ node, parseNode text = .ok node → node.WrittenIn text [] []) ∧
    ∀ l, parseLambda text = .ok l → ∃ front back,
      (∀ t ∈ front, t.token.kind = .leftParen) ∧
      (∀ t ∈ back, t.token.kind = .rightParen ∨ t.token.kind = .semicolon) ∧
      (Node.lambda l.parenthesized l.params l.body l.span).WrittenIn text front back := by
  constructor
  · intro node h
    obtain ⟨tokens, d, ht, h⟩ := exists_of_read h
    have hc := Cursor.ready_ofTokens ht
    obtain ⟨_, c, hread, h⟩ := Reader.exists_of_bind h
    obtain ⟨_, _, hend, h⟩ := Reader.exists_of_bind h
    cases h
    obtain ⟨heof, rfl⟩ := Reader.atEnd_eq_ok hend
    obtain ⟨ts, hts, hwritten⟩ := (Reader.node_traced _ _ hc).taken _ _ hread
    rw [← List.append_nil ts] at hts
    exact hwritten.writtenIn ht (show Cursor.Takes _ ([] ++ _ ++ []) _ from hts) heof
  · intro l h
    obtain ⟨tokens, d, ht, h⟩ := exists_of_read h
    have hc := Cursor.ready_ofTokens ht
    obtain ⟨read, c, hread, h⟩ := Reader.exists_of_bind h
    obtain ⟨ts, hts, hwritten⟩ := (Reader.node_traced _ _ hc).taken _ _ hread
    obtain ⟨front, us, back, rfl, hfront, hback, hus⟩ := hwritten.bare
    cases hbare : read.bare with
    | lambda parenthesized params body span =>
      rw [hbare] at h hus
      obtain ⟨eaten, e, heat, h⟩ := Reader.exists_of_bind h
      obtain ⟨_, _, hend, h⟩ := Reader.exists_of_bind h
      cases h
      obtain ⟨heof, rfl⟩ := Reader.atEnd_eq_ok hend
      by_cases hk : c.kind = .semicolon
      · rw [Reader.eat_of_eq hk] at heat
        cases heat
        have hall := hts.trans (Cursor.takes_skip (by rw [hk]; decide))
        refine ⟨front, back ++ [.whole c.peek], hfront, fun t ht => ?_, ?_⟩
        · rcases List.mem_append.mp ht with ht | ht
          · exact .inl (hback t ht)
          · rw [List.mem_singleton.mp ht]
            exact .inr hk
        · rw [List.append_assoc] at hall
          exact hus.writtenIn ht hall heof
      · rw [Reader.eat_of_ne hk] at heat
        cases heat
        exact ⟨front, back, hfront, fun t ht => .inl (hback t ht), hus.writtenIn ht hts heof⟩
    | _ =>
      rw [hbare] at h
      cases h

theorem parse_writtenIn_list :
    ∃ l front back, parseLambda "x => new List<List<int>>()" = .ok l ∧
      (∀ t ∈ front, t.token.kind = .leftParen) ∧
      (∀ t ∈ back, t.token.kind = .rightParen ∨ t.token.kind = .semicolon) ∧
      (Node.lambda l.parenthesized l.params l.body l.span).WrittenIn "x => new List<List<int>>()"
        front back := by
  have hread : (parseLambda "x => new List<List<int>>()").toBool = true := by decide +kernel
  cases h : parseLambda "x => new List<List<int>>()" with
  | error e =>
    rw [h] at hread
    cases hread
  | ok l =>
    obtain ⟨front, back, hall⟩ := (parse_writtenIn "x => new List<List<int>>()").2 l h
    exact ⟨l, front, back, rfl, hall⟩

/-- The inner type ends with the first half of the `>>`, and its span ends before it. -/
theorem inner_span_short :
    (parseLambda "x => new List<List<int>>()").toOption.map (fun l =>
      (l.body.types.flatMap TypeNode.parts).map fun type =>
        (type.text, type.span.slice? "x => new List<List<int>>()")) =
      some [("List<int>", some "List<int")] := by
  decide +kernel

end FatArrow.Syntax
