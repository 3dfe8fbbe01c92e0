import FatArrow.Proofs.Syntax.Exact
import FatArrow.Proofs.Syntax.Sure

/-!
# Reading without a fault

Whatever the text is, it is read with every check as it is read without them: no token is looked for
outside of the buffer, no text is cut inside of a character, no counter goes below zero, and the bound on
the depth is not used up.  The depth falls with the signs that are left, a `>>` counting as two, so that
half a token taken is progress although the position stays.
-/

namespace FatArrow.Syntax

namespace Checked

/-! ## 1. Types -/

theorem typeEndings_sure (fuel : Nat) {c : Cursor} {n : Nat} {type : TypeNode} (hc : c.Proper)
    (hf : c.signs.length ≤ fuel) (hn : c.signs.length ≤ n) :
    Sure (typeEndings fuel type) (Reader.typeEndings fuel type) c n := by
  induction fuel generalizing c type with
  | zero =>
    have := hc.sound.length_signs_pos
    omega
  | succ fuel ih =>
    unfold typeEndings Reader.typeEndings
    refine .peek hc (.look (.ite (fun hk => ?_) fun _ => .peek hc (.peekAt hc (.ite (fun hk => ?_) fun _ =>
      .pure _ hn))))
    · exact .advance (by rw [Cursor.kind, hk]; decide) hc fun hd hlt => .merge (ih hd (by omega) (by omega))
    · obtain ⟨hk, hk'⟩ := hk
      have hne : c.kind ≠ .eof := by rw [Cursor.kind, hk]; decide
      refine .advance hne hc fun hd hlt => ?_
      -- the bracket that closes is the next token
      rw [hc.sound.peekAt_succ hne] at hk'
      have hne' : c.skip.kind ≠ .eof := by
        rw [show c.skip.kind = _ from hk']
        decide
      exact .advance hne' hd fun he hlt' => .merge (ih he (by omega) (by omega))

mutual

theorem type_sure (fuel : Nat) {c : Cursor} {n : Nat} (hc : c.Proper) (hf : 2 * c.signs.length + 3 ≤ fuel)
    (hn : c.signs.length ≤ n) : Sure (type fuel) (Reader.type fuel) c n := by
  cases fuel with
  | zero => omega
  | succ fuel =>
    rw [type, Reader.type]
    refine (typeBase_sure fuel hc (by omega) (Nat.le_refl _)).bind hc fun base d hd hle => ?_
    exact typeEndings_sure fuel hd (by omega) (by omega)

theorem typeBase_sure (fuel : Nat) {c : Cursor} {n : Nat} (hc : c.Proper)
    (hf : 2 * c.signs.length + 2 ≤ fuel) (hn : c.signs.length ≤ n) :
    Sure (typeBase fuel) (Reader.typeBase fuel) c n := by
  cases fuel with
  | zero => omega
  | succ fuel =>
    rw [typeBase, Reader.typeBase]
    refine .peek hc (.look ?_)
    dsimp only
    generalize hk : c.peek.kind = k
    cases k with
    | typeKeyword =>
      exact .advance (by rw [Cursor.kind, hk]; decide) hc fun _ hlt => .pure _ (by omega)
    | identifier =>
      refine (segment_sure fuel hc (by omega) (Nat.le_refl _)).bind hc fun first d hd hle => ?_
      refine (segments_sure fuel hd (by omega) (Nat.le_refl _)).bind hd fun rest e he hle' => ?_
      exact .look (.previousSpan (.merge (.pure _ (by omega))))
    | _ => exact .refuse _ _

theorem segments_sure (fuel : Nat) {c : Cursor} {n : Nat} (hc : c.Proper)
    (hf : 2 * c.signs.length + 1 ≤ fuel) (hn : c.signs.length ≤ n) :
    Sure (segments fuel) (Reader.segments fuel) c n := by
  cases fuel with
  | zero => omega
  | succ fuel =>
    rw [segments, Reader.segments]
    refine .peek hc (.peekAt hc (.look (.ite (fun hk => ?_) fun _ => .pure _ hn)))
    refine .advance (by rw [Cursor.kind, hk.1]; decide) hc fun hd hlt => ?_
    refine (segment_sure fuel hd (by omega) (Nat.le_refl _)).bind hd fun first d hd hle => ?_
    refine (segments_sure fuel hd (by omega) (Nat.le_refl _)).bind hd fun rest e he hle' => ?_
    exact .pure _ (by omega)

theorem segment_sure (fuel : Nat) {c : Cursor} {n : Nat} (hc : c.Proper)
    (hf : 2 * c.signs.length + 1 ≤ fuel) (hn : c.signs.length ≤ n) :
    Sure (segment fuel) (Reader.segment fuel) c n := by
  cases fuel with
  | zero => omega
  | succ fuel =>
    rw [segment, Reader.segment]
    refine .expect (by decide) hc fun _ hd hlt => ?_
    refine .check hd (.ite (fun _ => ?_) fun _ => .pure _ (by omega))
    exact (typeArgs_sure fuel hd (by omega) (Nat.le_refl _)).bind hd fun _ _ _ hle =>
      .pure _ (by omega)

theorem typeArgs_sure (fuel : Nat) {c : Cursor} {n : Nat} (hc : c.Proper)
    (hf : 2 * c.signs.length + 2 ≤ fuel) (hn : c.signs.length ≤ n) :
    Sure (typeArgs fuel) (Reader.typeArgs fuel) c n := by
  cases fuel with
  | zero => omega
  | succ fuel =>
    rw [typeArgs, Reader.typeArgs]
    refine .expect (by decide) hc fun _ hd hlt => ?_
    refine (type_sure fuel hd (by omega) (Nat.le_refl _)).bind hd fun first e he hle => ?_
    have hitem (e : Cursor) (he : e.Proper) (hl : e.signs.length < c.skip.signs.length) :
        Sure (type fuel) (Reader.type fuel) e e.signs.length :=
      type_sure fuel he (by omega) (Nat.le_refl _)
    refine (itemsAfter_sure hitem fuel he hle (by omega) (Nat.le_refl _)).bind he
      fun rest x hx hle' => ?_
    exact (Sure.expectClosingAngle hx (Nat.le_refl _)).bind hx fun _ _ _ hle'' => .pure _ (by omega)

end

/-! ## 2. Expressions -/

theorem attemptTypeArgs_sure {fuel n : Nat} {c : Cursor} (hc : c.Proper)
    (hf : 2 * c.signs.length + 2 ≤ fuel) (hn : c.signs.length ≤ n) :
    Sure (attemptTypeArgs fuel) (Reader.attemptTypeArgs fuel) c n := by
  unfold attemptTypeArgs Reader.attemptTypeArgs
  refine .check hc (.ite (fun _ => ?_) fun _ => .pure _ hn)
  have htrial : Sure (attempt (typeArgs fuel) (fun _ => Reader.followsTypeArgs) >>= pure)
      (Reader.attempt (Reader.typeArgs fuel) (fun _ d => Reader.followsTypeArgs d.kind) >>= pure)
      c n :=
    .attempt (typeArgs_sure fuel hc hf hn) hc (fun _ _ _ hle => .pure _ hle) (.pure _ hn)
  exact htrial.congr (by rw [bind_pure]) (by rw [bind_pure])

theorem castTarget_sure {fuel n : Nat} {c : Cursor} (hc : c.Proper) (hk : c.kind ≠ .eof)
    (hf : 2 * c.signs.length + 1 ≤ fuel) (hn : c.signs.length ≤ n + 1) :
    Sure (castTarget fuel) (Reader.castTarget fuel) c n := by
  unfold castTarget Reader.castTarget
  refine .advance hk hc fun hd hlt => ?_
  refine (type_sure fuel hd (by omega) (Nat.le_refl _)).bind hd fun target e he hle => ?_
  exact .expect (by decide) he fun _ _ hlt' => .pure _ (by omega)

theorem parameter_sure {fuel n : Nat} {c : Cursor} (hc : c.Proper)
    (hf : 2 * c.signs.length + 3 ≤ fuel) (hn : c.signs.length ≤ n) :
    Sure (parameter fuel) (Reader.parameter fuel) c n := by
  unfold parameter Reader.parameter
  refine .peek hc (.peekAt hc (.look ?_))
  refine .ite (fun _ => ?_) fun _ => ?_
  · exact .expect (by decide) hc fun _ _ hlt => .merge (.pure _ (by omega))
  · refine (Sure.map (type_sure fuel hc hf (Nat.le_refl _))).bind hc fun written d hd hle => ?_
    exact .expect (by decide) hd fun _ _ hlt => .merge (.pure _ (by omega))

theorem literalNode_sure {token : Token} {n : Nat} {c : Cursor} (ht : token.Quoted)
    (hn : c.signs.length ≤ n) : Sure (literalNode token) (Reader.literalNode token) c n := by
  unfold literalNode Reader.literalNode
  refine .verify (literalOf_eq ht) ?_
  cases Syntax.literalOf token with
  | ok value => exact .pure _ hn
  | error e => exact .refuses rfl rfl .none

/-- A step of some depth is sure wherever the signs that are left fit its bound. -/
def Within {α : Type} (fuel depth : Nat) (s : Step α) (r : Reader α) : Prop :=
  ∀ ⦃c : Cursor⦄ ⦃n : Nat⦄, c.Proper → 4 * c.signs.length + depth ≤ fuel → c.signs.length ≤ n →
    Sure s r c n

/-- All that reads expressions is sure within a bound.  Arguments take at least one sign. -/
structure Reads (fuel : Nat) : Prop where
  node (power : Nat) : Within fuel 4 (node fuel power) (Reader.node fuel power)
  continued (power : Nat) (left : Node) :
    Within fuel 3 (continued fuel power left) (Reader.continued fuel power left)
  operand : Within fuel 3 (operand fuel) (Reader.operand fuel)
  parenthesizedLambda : Within fuel 2 (parenthesizedLambda fuel) (Reader.parenthesizedLambda fuel)
  creation : Within fuel 2 (creation fuel) (Reader.creation fuel)
  initializer : Within fuel 2 (initializer fuel) (Reader.initializer fuel)
  arguments {opening closing : TokenKind} {c : Cursor} {n : Nat} (ho : opening ≠ .eof)
    (hclose : closing ≠ .eof) (hc : c.Proper) (hf : 4 * c.signs.length + 2 ≤ fuel)
    (hn : c.signs.length ≤ n + 1) :
    Sure (arguments fuel opening closing) (Reader.arguments fuel opening closing) c n

section Expressions

variable {fuel : Nat}

theorem node_sure (h : Reads fuel) (power : Nat) :
    Within (fuel + 1) 4 (node (fuel + 1) power) (Reader.node (fuel + 1) power) := by
  intro c n hc hf hn
  rw [node, Reader.node]
  refine (h.operand hc (by omega) (Nat.le_refl _)).bind hc fun first d hd hle => ?_
  exact h.continued power first hd (by omega) (by omega)

/-- An operator with its right operand, or the end of the expression. -/
theorem operation_sure (h : Reads fuel) (power : Nat) (left : Node) {c : Cursor} {n : Nat}
    {k : TokenKind} (hc : c.Proper) (hk : c.kind = k) (hf : 4 * c.signs.length + 3 ≤ fuel + 1)
    (hn : c.signs.length ≤ n) :
    Sure
      (if k.isUnsupportedOperator then refuse (.unsupportedOperator c.peek.lexeme) c.peek.span
      else
        match BinaryOperator.ofToken? k with
        | none => return left
        | some op => do
          if op.power.1 < power then return left
          let _ ← advance
          let right ← node fuel op.power.2
          continued fuel power (.binary op left right (← merge left.span right.span)))
      (if k.isUnsupportedOperator then Reader.refuse (.unsupportedOperator c.peek.lexeme) c.peek.span
      else
        match BinaryOperator.ofToken? k with
        | none => return left
        | some op => do
          if op.power.1 < power then return left
          let _ ← Reader.advance
          let right ← Reader.node fuel op.power.2
          Reader.continued fuel power (.binary op left right (left.span.merge right.span))) c n := by
  refine .ite (fun _ => .refuse _ _) fun _ => ?_
  cases ho : BinaryOperator.ofToken? k with
  | none => exact .pure _ hn
  | some op =>
    have hne : c.kind ≠ .eof := by
      intro he
      rw [← hk, he] at ho
      cases ho
    refine .ite (fun _ => .pure _ hn) fun _ => .advance hne hc fun hd hlt => ?_
    refine (h.node _ hd (by omega) (Nat.le_refl _)).bind hd fun right e he hle => ?_
    exact .merge (h.continued power _ he (by omega) (by omega))

theorem continued_sure (h : Reads fuel) (power : Nat) (left : Node) :
    Within (fuel + 1) 3 (continued (fuel + 1) power left) (Reader.continued (fuel + 1) power left) := by
  intro c n hc hf hn
  have hpos := hc.sound.length_signs_pos
  rw [continued, Reader.continued]
  refine .peek hc (.look ?_)
  dsimp only
  generalize hk : c.peek.kind = k
  cases k with
  | dot =>
    refine .ite (fun _ => .pure _ hn) fun _ => ?_
    refine .advance (by rw [Cursor.kind, hk]; decide) hc fun hd hlt => ?_
    refine .expect (by decide) hd fun _ he hlt' => ?_
    refine (attemptTypeArgs_sure he (by omega) (Nat.le_refl _)).bind he fun args x hx hle => ?_
    exact .look (.previousSpan (.merge (h.continued power _ hx (by omega) (by omega))))
  | leftParen =>
    refine .ite (fun _ => .pure _ hn) fun _ => ?_
    refine (h.arguments (n := c.signs.length - 1) (by decide) (by decide) hc (by omega)
      (by omega)).bind hc fun args d hd hle => ?_
    exact .look (.previousSpan (.merge (h.continued power _ hd (by omega) (by omega))))
  | leftBracket =>
    refine .ite (fun _ => .pure _ hn) fun _ => ?_
    refine (h.arguments (n := c.signs.length - 1) (by decide) (by decide) hc (by omega)
      (by omega)).bind hc fun args d hd hle => ?_
    refine .ite (fun _ => .look (.previousSpan (.refuse_bind _ _))) fun _ => ?_
    exact .look (.previousSpan (.merge (h.continued power _ hd (by omega) (by omega))))
  | question =>
    refine .ite (fun _ => .pure _ hn) fun _ => ?_
    refine .advance (by rw [Cursor.kind, hk]; decide) hc fun hd hlt => ?_
    refine (h.node 0 hd (by omega) (Nat.le_refl _)).bind hd fun ifTrue e he hle => ?_
    refine .expect (by decide) he fun _ hx hlt' => ?_
    refine (h.node _ hx (by omega) (Nat.le_refl _)).bind hx fun ifFalse x hy hle' => ?_
    exact .merge (h.continued power _ hy (by omega) (by omega))
  | _ => exact operation_sure h power left hc hk hf hn

/-- A literal, or a sign with its operand. -/
theorem prefixed_sure (h : Reads fuel) {c : Cursor} {n : Nat} {k : TokenKind} (hc : c.Proper)
    (hk : c.kind = k) (hf : 4 * c.signs.length + 3 ≤ fuel + 1) (hn : c.signs.length ≤ n) :
    Sure
      (if k.isLiteral then do
        let _ ← advance
        literalNode c.peek
      else
        match UnaryOperator.ofToken? k with
        | some op => do
          let _ ← advance
          let inner ← node fuel UnaryOperator.power
          return .unary op inner (← merge c.peek.span inner.span)
        | none =>
          if k.isUnsupportedOperator then refuse (.unsupportedOperator c.peek.lexeme) c.peek.span
          else refuse (.expectedExpression k) c.peek.span)
      (if k.isLiteral then do
        let _ ← Reader.advance
        Reader.literalNode c.peek
      else
        match UnaryOperator.ofToken? k with
        | some op => do
          let _ ← Reader.advance
          let inner ← Reader.node fuel UnaryOperator.power
          return .unary op inner (c.peek.span.merge inner.span)
        | none =>
          if k.isUnsupportedOperator then
            Reader.refuse (.unsupportedOperator c.peek.lexeme) c.peek.span
          else Reader.refuse (.expectedExpression k) c.peek.span) c n := by
  refine .ite (fun hl => ?_) fun _ => ?_
  · refine .advance (fun he => ?_) hc fun _ hlt => literalNode_sure hc.quoted_peek (by omega)
    rw [← hk, he] at hl
    cases hl
  · cases ho : UnaryOperator.ofToken? k with
    | none => exact .ite (fun _ => .refuse _ _) fun _ => .refuse _ _
    | some op =>
      refine .advance (fun he => ?_) hc fun hd hlt => ?_
      · rw [← hk, he] at ho
        cases ho
      · exact (h.node _ hd (by omega) (Nat.le_refl _)).bind hd fun inner _ _ hle =>
          .merge (.pure _ (by omega))

theorem operand_sure (h : Reads fuel) :
    Within (fuel + 1) 3 (operand (fuel + 1)) (Reader.operand (fuel + 1)) := by
  intro c n hc hf hn
  rw [operand, Reader.operand]
  refine .peek hc (.look ?_)
  dsimp only
  generalize hk : c.peek.kind = k
  cases k with
  | identifier =>
    refine .peekAt hc (.advance (by rw [Cursor.kind, hk]; decide) hc fun hd hlt => ?_)
    refine .ite (fun _ => ?_) fun _ => ?_
    · refine .expect (by decide) hd fun _ he hlt' => ?_
      exact (h.node 0 he (by omega) (Nat.le_refl _)).bind he fun body _ _ hle =>
        .merge (.pure _ (by omega))
    · exact (attemptTypeArgs_sure hd (by omega) (Nat.le_refl _)).bind hd fun args _ _ hle =>
        .look (.previousSpan (.merge (.pure _ (by omega))))
  | typeKeyword =>
    exact .advance (by rw [Cursor.kind, hk]; decide) hc fun _ hlt => .pure _ (by omega)
  | leftParen =>
    have hne : c.kind ≠ .eof := by rw [Cursor.kind, hk]; decide
    have hlambda : opensLambda (c.buffer.size + 1) 0 0 c =
        .ok (Reader.opensLambda c (c.buffer.size + 1) 0 0) c :=
      opensLambda_eq hc _ (.inr hk) hc.sound.lt_size (by omega)
    refine .look_here (Sure.congr ?_ (Reader.bind_of_ok hlambda) rfl)
    refine .ite (fun _ => h.parenthesizedLambda hc (by omega) hn) fun _ => ?_
    refine .attempt (castTarget_sure (n := c.signs.length - 1) hc hne (by omega) (by omega)) hc
      (fun target d hd hle => ?_) ?_
    · have hpos := hc.sound.length_signs_pos
      exact (h.node _ hd (by omega) (Nat.le_refl _)).bind hd fun inner _ _ hle' =>
        .merge (.pure _ (by omega))
    · refine .advance hne hc fun hd hlt => ?_
      refine (h.node 0 hd (by omega) (Nat.le_refl _)).bind hd fun inner e he hle => ?_
      exact .expect (by decide) he fun _ _ hlt' => .merge (.pure _ (by omega))
  | newWord => exact h.creation hc (by omega) hn
  | _ => exact prefixed_sure h hc hk hf hn

theorem parenthesizedLambda_sure (h : Reads fuel) :
    Within (fuel + 1) 2 (parenthesizedLambda (fuel + 1)) (Reader.parenthesizedLambda (fuel + 1)) := by
  intro c n hc hf hn
  rw [parenthesizedLambda, Reader.parenthesizedLambda]
  refine .expect (by decide) hc fun _ hd hlt => ?_
  have hitem (e : Cursor) (he : e.Proper) (hl : e.signs.length ≤ c.skip.signs.length) :
      Sure (parameter fuel) (Reader.parameter fuel) e e.signs.length :=
    parameter_sure he (by omega) (Nat.le_refl _)
  refine (items_sure fuel hitem hd (by omega) (Nat.le_refl _)).bind hd fun params e he hle => ?_
  refine .expect (by decide) he fun _ he' hlt' => .expect (by decide) he' fun _ hx hlt'' => ?_
  exact (h.node 0 hx (by omega) (Nat.le_refl _)).bind hx fun body _ _ hle' =>
    .merge (.pure _ (by omega))

theorem creation_sure (h : Reads fuel) :
    Within (fuel + 1) 2 (creation (fuel + 1)) (Reader.creation (fuel + 1)) := by
  intro c n hc hf hn
  rw [creation, Reader.creation]
  refine .expect (by decide) hc fun _ hd hlt => ?_
  refine .eat (by decide) hd (fun _ he hlt' => ?_) fun _ => ?_
  · refine .expect (by decide) he fun _ hx hlt'' => ?_
    exact (h.initializer hx (by omega) (Nat.le_refl _)).bind hx fun members _ _ hle =>
      .look (.previousSpan (.merge (.pure _ (by omega))))
  · refine (type_sure fuel hd (by omega) (Nat.le_refl _)).bind hd fun created e he hle => ?_
    refine .check he (.ite (fun _ => ?_) fun _ => ?_)
    · exact (h.arguments (by decide) (by decide) he (by omega) (Nat.le_succ _)).bind he
        fun args _ _ hle' => .look (.previousSpan (.merge (.pure _ (by omega))))
    · cases created with
      | array element span =>
        exact (h.initializer he (by omega) (Nat.le_refl _)).bind he fun members _ _ hle' =>
          .look (.previousSpan (.merge (.pure _ (by omega))))
      | _ => exact .peek he (.look (.ite (fun _ => .refuse _ _) fun _ => .refuse _ _))

theorem initializer_sure (h : Reads fuel) :
    Within (fuel + 1) 2 (initializer (fuel + 1)) (Reader.initializer (fuel + 1)) := by
  intro c n hc hf hn
  rw [initializer, Reader.initializer]
  refine .expect (by decide) hc fun _ hd hlt => ?_
  have hitem (e : Cursor) (he : e.Proper) (hl : e.signs.length ≤ c.skip.signs.length) :
      Sure (node fuel 0) (Reader.node fuel 0) e e.signs.length :=
    h.node 0 he (by omega) (Nat.le_refl _)
  refine (items_sure fuel hitem hd (by omega) (Nat.le_refl _)).bind hd fun members e he hle => ?_
  exact .expect (by decide) he fun _ _ hlt' => .pure _ (by omega)

theorem arguments_sure (h : Reads fuel) {opening closing : TokenKind} {c : Cursor} {n : Nat}
    (ho : opening ≠ .eof) (hclose : closing ≠ .eof) (hc : c.Proper)
    (hf : 4 * c.signs.length + 2 ≤ fuel + 1) (hn : c.signs.length ≤ n + 1) :
    Sure (arguments (fuel + 1) opening closing) (Reader.arguments (fuel + 1) opening closing) c n := by
  rw [arguments, Reader.arguments]
  refine .expect ho hc fun _ hd hlt => ?_
  have hitem (e : Cursor) (he : e.Proper) (hl : e.signs.length ≤ c.skip.signs.length) :
      Sure (node fuel 0) (Reader.node fuel 0) e e.signs.length :=
    h.node 0 he (by omega) (Nat.le_refl _)
  refine (items_sure fuel hitem hd (by omega) (Nat.le_refl _)).bind hd fun args e he hle => ?_
  exact .expect hclose he fun _ _ hlt' => .pure _ (by omega)

end Expressions

/-- Whatever the bound is, what fits it is sure: each step goes down by one. -/
theorem reads (fuel : Nat) : Reads fuel := by
  induction fuel with
  | zero =>
    constructor
    case arguments => exact fun _ _ _ hf _ => by omega
    all_goals
      intros
      intro c n hc hf hn
      omega
  | succ fuel ih =>
    exact ⟨node_sure ih, continued_sure ih, operand_sure ih, parenthesizedLambda_sure ih,
      creation_sure ih, initializer_sure ih, arguments_sure ih⟩

/-! ## 3. Texts -/

theorem atEnd_sure {c : Cursor} {n : Nat} (hc : c.Proper) (hn : c.signs.length ≤ n) :
    Sure atEnd Reader.atEnd c n := by
  unfold atEnd Reader.atEnd
  exact .peek hc (.look (.ite (fun _ => .pure _ hn) fun _ =>
    .ite (fun _ => .refuse _ _) fun _ => .refuse _ _))

theorem wholeNode_sure (fuel : Nat) : Within fuel 4 (wholeNode fuel) (Reader.wholeNode fuel) := by
  intro c n hc hf hn
  unfold wholeNode Reader.wholeNode
  refine ((reads fuel).node 0 hc hf hn).bind hc fun read d hd hle => ?_
  exact (atEnd_sure hd hle).bind hd fun _ _ _ hle' => .pure _ hle'

theorem wholeLambda_sure (fuel : Nat) :
    Within fuel 4 (wholeLambda fuel) (Reader.wholeLambda fuel) := by
  intro c n hc hf hn
  unfold wholeLambda Reader.wholeLambda
  refine ((reads fuel).node 0 hc hf hn).bind hc fun read d hd hle => ?_
  cases read.bare with
  | lambda parenthesized params body span =>
    refine .eat (by decide) hd (fun _ he hlt => ?_) fun _ => ?_
    · exact (atEnd_sure he (by omega)).bind he fun _ _ _ hle' => .pure _ hle'
    · exact (atEnd_sure hd hle).bind hd fun _ _ _ hle' => .pure _ hle'
  | _ => exact .refuse _ _

theorem type_within (fuel : Nat) : Within fuel 4 (type fuel) (Reader.type fuel) :=
  fun _ _ hc hf hn => type_sure fuel hc (by omega) hn

/-- The tokens of a text are read without a fault: the bound on the depth is enough for all of them. -/
theorem read_eq {α : Type} {s : Nat → Step α} {r : Nat → Reader α} {text : String}
    (h : text.utf8ByteSize < 2 ^ 32) (hs : ∀ fuel, Within fuel 4 (s fuel) (r fuel)) :
    read s text = .ok (Syntax.read r text) := by
  unfold read Syntax.read
  rw [tokenize_eq h, ok_bind]
  cases ht : Syntax.tokenize text with
  | error e => rfl
  | ok tokens =>
    have hlength := length_flatMap_signs tokens
    have hc : (Cursor.ofTokens tokens).Proper :=
      ⟨Cursor.ready_ofTokens ht, tokenize_quoted ht, nofun⟩
    have hf : 4 * (Cursor.ofTokens tokens).signs.length + 4 ≤ readingDepth tokens := by
      show 4 * (tokens.flatMap Token.signs).length + 4 ≤ 16 * (tokens.length + 1)
      omega
    dsimp only
    cases hs _ hc hf (Nat.le_refl _) with
    | yields hs hr =>
      rw [hs, hr]
      rfl
    | refuses hs hr =>
      rw [hs, hr]
      rfl

end Checked

end FatArrow.Syntax
