import FatArrow.Syntax.Cursor

/-!
# Operators grouped by precedence

Names with operators before and between them can be grouped in many ways.  In one of them every
operator between two operands holds what its precedence gives it, and every operator before an
operand no more than that operand.  It is built by adding operand after operand: an operator goes
down the right side of the grouping in front of it, below all that are looser.
-/

namespace FatArrow.Syntax

/-! ## 1. Chains -/

/-- A token that is a name. -/
structure NameToken where
  token : Token
  named : token.kind = .identifier

/-- A token that is an operator before an operand. -/
structure UnaryToken where
  token : Token
  op : UnaryOperator
  stands : UnaryOperator.ofToken? token.kind = some op

/-- A token that is an operator between two operands. -/
structure BinaryToken where
  token : Token
  op : BinaryOperator
  stands : BinaryOperator.ofToken? token.kind = some op

/-- A name with operators before it. -/
structure Operand where
  before : List UnaryToken
  name : NameToken

/-- Operands with operators between them. -/
structure Chain where
  first : Operand
  links : List (BinaryToken × Operand)

namespace UnaryToken

/-- The operator is known from the token. -/
theorem eq_of_token {t u : UnaryToken} (h : t.token = u.token) : t = u := by
  obtain ⟨token, op, stands⟩ := t
  obtain ⟨token', op', stands'⟩ := u
  cases h
  cases stands.symm.trans stands'
  rfl

end UnaryToken

namespace BinaryToken

/-- The operator is known from the token. -/
theorem eq_of_token {t u : BinaryToken} (h : t.token = u.token) : t = u := by
  obtain ⟨token, op, stands⟩ := t
  obtain ⟨token', op', stands'⟩ := u
  cases h
  cases stands.symm.trans stands'
  rfl

/-- How tightly the operator binds; one that binds more tightly has precedence. -/
def power (t : BinaryToken) : Nat := t.op.power.1

end BinaryToken

/-- The tokens of an operand. -/
def Operand.tokens (o : Operand) : List Token := o.before.map (·.token) ++ [o.name.token]

/-- The tokens of a chain. -/
def Chain.tokens (c : Chain) : List Token :=
  c.first.tokens ++ c.links.flatMap fun link => link.1.token :: link.2.tokens

/-! ## 2. Groupings -/

/-- Names with operators before and between them, grouped. -/
inductive Grouping where
  | name (t : NameToken)
  | unary (t : UnaryToken) (inner : Grouping)
  | binary (left : Grouping) (t : BinaryToken) (right : Grouping)

namespace Grouping

/-- The tokens of a grouping, in order. -/
def tokens : Grouping → List Token
  | name t => [t.token]
  | unary t inner => t.token :: inner.tokens
  | binary left t right => left.tokens ++ t.token :: right.tokens

/-- The grouping as an expression. -/
def node : Grouping → Node
  | name t => .name ⟨t.token.lexeme, t.token.span⟩ [] t.token.span
  | unary t inner => .unary t.op inner.node (t.token.span.merge inner.node.span)
  | binary left t right =>
    .binary t.op left.node right.node (left.node.span.merge right.node.span)

/-- The operator that joins the whole grouping. -/
def root? : Grouping → Option BinaryToken
  | binary _ t _ => some t
  | _ => none

/-- Operators are grouped by their precedence: what is on the left of one binds at least as tightly,
what is on its right more tightly, and an operator before an operand holds that operand only. -/
inductive Graded : Grouping → Prop
  | name (t : NameToken) : Graded (.name t)
  | unary {t : UnaryToken} {inner : Grouping} : inner.root? = none → Graded inner →
      Graded (.unary t inner)
  | binary {left right : Grouping} {t : BinaryToken} : (∀ u ∈ left.root?, t.power ≤ u.power) →
      (∀ u ∈ right.root?, t.power < u.power) → Graded left → Graded right →
      Graded (.binary left t right)

/-- Groupings that are the same expression have the same number of tokens. -/
theorem length_tokens_of_node {g g' : Grouping} (h : g.node = g'.node) :
    g.tokens.length = g'.tokens.length := by
  induction g generalizing g' with
  | name t => cases g' <;> first | rfl | cases h
  | unary t inner ih =>
    cases g' with
    | unary t' inner' =>
      obtain ⟨-, hinner, -⟩ := Node.unary.inj h
      rw [tokens, tokens, List.length_cons, List.length_cons, ih hinner]
    | _ => cases h
  | binary left t right ihl ihr =>
    cases g' with
    | binary left' t' right' =>
      obtain ⟨-, hleft, hright, -⟩ := Node.binary.inj h
      rw [tokens, tokens, List.length_append, List.length_append, List.length_cons,
        List.length_cons, ihl hleft, ihr hright]
    | _ => cases h

/-- A grouping is known from its expression and its tokens. -/
theorem eq_of_node {g g' : Grouping} (h : g.node = g'.node) (ht : g.tokens = g'.tokens) :
    g = g' := by
  induction g generalizing g' with
  | name t =>
    cases g' with
    | name t' =>
      obtain ⟨token, named⟩ := t
      obtain ⟨token', named'⟩ := t'
      cases (List.cons.inj ht).1
      rfl
    | _ => cases h
  | unary t inner ih =>
    cases g' with
    | unary t' inner' =>
      obtain ⟨-, hinner, -⟩ := Node.unary.inj h
      obtain ⟨htoken, htokens⟩ := List.cons.inj ht
      rw [UnaryToken.eq_of_token htoken, ih hinner htokens]
    | _ => cases h
  | binary left t right ihl ihr =>
    cases g' with
    | binary left' t' right' =>
      obtain ⟨-, hleft, hright, -⟩ := Node.binary.inj h
      obtain ⟨hfirst, hrest⟩ := List.append_inj ht (length_tokens_of_node hleft)
      obtain ⟨htoken, hsecond⟩ := List.cons.inj hrest
      rw [ihl hleft hfirst, BinaryToken.eq_of_token htoken, ihr hright hsecond]
    | _ => cases h

/-! ## 3. Every chain can be grouped -/

/-- A grouping with one more operator and the operand behind it. -/
def join : Grouping → BinaryToken → Grouping → Grouping
  | binary left u right, t, o =>
    if u.power < t.power then binary left u (right.join t o) else binary (binary left u right) t o
  | g, t, o => binary g t o

theorem tokens_join (g o : Grouping) (t : BinaryToken) :
    (g.join t o).tokens = g.tokens ++ t.token :: o.tokens := by
  induction g with
  | name | unary => rfl
  | binary left u right _ ih =>
    rw [join]
    split
    · rw [tokens, ih, tokens, List.append_assoc, List.cons_append]
    · rfl

/-- The operator that joins a grouping with one more is the one before or the new one. -/
theorem root_join {g o : Grouping} {t u : BinaryToken} (h : u ∈ (g.join t o).root?) :
    u ∈ g.root? ∨ u = t := by
  cases g with
  | name | unary => exact .inr (Option.mem_some_iff.mp h).symm
  | binary left v right =>
    rw [join] at h
    split at h
    · exact .inl h
    · exact .inr (Option.mem_some_iff.mp h).symm

theorem Graded.join {g o : Grouping} {t : BinaryToken} (hg : g.Graded) (ho : o.Graded)
    (hroot : o.root? = none) : (g.join t o).Graded := by
  have hright : ∀ u ∈ o.root?, t.power < u.power := by
    rw [hroot]
    exact nofun
  induction hg with
  | name => exact .binary nofun hright (.name _) ho
  | unary hinner hgraded _ => exact .binary nofun hright (.unary hinner hgraded) ho
  | @binary left right u hleft hroot hl hr _ ih =>
    rw [Grouping.join]
    split
    next hlt =>
      -- what comes below an operator is tighter than it, and so is the new one
      refine .binary hleft (fun v hv => ?_) hl ih
      rcases root_join hv with hv | rfl
      · exact hroot v hv
      · exact hlt
    next hge =>
      refine .binary (fun v hv => ?_) hright (.binary hleft hroot hl hr) ho
      cases hv
      exact Nat.le_of_not_lt hge

end Grouping

/-- An operand as a grouping. -/
def Operand.grouping (o : Operand) : Grouping := o.before.foldr .unary (.name o.name)

theorem Operand.grouping_spec (o : Operand) :
    o.grouping.tokens = o.tokens ∧ o.grouping.Graded ∧ o.grouping.root? = none := by
  obtain ⟨before, name⟩ := o
  induction before with
  | nil => exact ⟨rfl, .name name, rfl⟩
  | cons t before ih =>
    obtain ⟨htokens, hgraded, hroot⟩ := ih
    exact ⟨congrArg (t.token :: ·) htokens, .unary hroot hgraded, rfl⟩

/-- A chain grouped, operand after operand. -/
def Chain.grouping (c : Chain) : Grouping :=
  c.links.foldl (fun g link => g.join link.1 link.2.grouping) c.first.grouping

/-- The operators of every chain can be grouped by precedence. -/
theorem Chain.grouping_spec (c : Chain) : c.grouping.tokens = c.tokens ∧ c.grouping.Graded := by
  have hlinks (links : List (BinaryToken × Operand)) (g : Grouping) (hg : g.Graded) :
      (links.foldl (fun g link => g.join link.1 link.2.grouping) g).tokens =
          g.tokens ++ links.flatMap (fun link => link.1.token :: link.2.tokens) ∧
        (links.foldl (fun g link => g.join link.1 link.2.grouping) g).Graded := by
    induction links generalizing g with
    | nil => exact ⟨(List.append_nil _).symm, hg⟩
    | cons link links ih =>
      obtain ⟨htokens, hgraded, hroot⟩ := link.2.grouping_spec
      obtain ⟨hall, hfolded⟩ := ih (g.join link.1 link.2.grouping) (hg.join hgraded hroot)
      refine ⟨?_, hfolded⟩
      rw [List.foldl_cons, hall, Grouping.tokens_join, htokens, List.flatMap_cons, List.append_assoc,
        List.cons_append]
  obtain ⟨htokens, hgraded, -⟩ := c.first.grouping_spec
  obtain ⟨hall, hfolded⟩ := hlinks c.links c.first.grouping hgraded
  exact ⟨hall.trans (by rw [htokens]; rfl), hfolded⟩

end FatArrow.Syntax
