import FatArrow.Proofs.Binary.Unsigned
import FatArrow.Proofs.Syntax.Names

/-!
# Literals that are read

The literals in an expression that was read from a text: an integer has 64 bits, and a real number has
no sign, since a minus before it is an operator.
-/

namespace FatArrow

open Binary

namespace Syntax

/-! ## 1. Literals -/

/-- What holds of the literals that are read from a text: an integer has 64 bits, and a real has no
sign. -/
def Literal.IsRead : Literal → Prop
  | .int n _ => n < UInt64.size
  | .real x _ => (datumOf x).isUnsigned = true
  | _ => True

theorem intLiteral_isRead {lexeme : String} {l : Literal} (h : intLiteral lexeme = .ok l) :
    l.IsRead := by
  unfold intLiteral at h
  dsimp only at h
  split at h
  next => cases h
  next =>
    split at h
    next =>
      split at h
      next hlt =>
        cases h
        exact hlt
      next => cases h
    next => cases h

theorem exists_nearest {cs : List Char} {x : Float} (h : Decimal.float? cs = some x) :
    ∃ digits exponent, x = Decimal.nearest digits exponent := by
  unfold Decimal.float? at h
  extract_lets isMark mantissa whole fraction finish at h
  -- whatever the power of ten is, the rest of the reading ends in the nearest float
  have hfinish (power : Int) (h : finish power = some x) :
      ∃ digits exponent, x = Decimal.nearest digits exponent := by
    obtain ⟨digits, -, h⟩ := Option.bind_eq_some_iff.mp h
    exact ⟨digits, _, (Option.some.inj h).symm⟩
  split at h
  · exact hfinish 0 h
  · obtain ⟨power, -, h⟩ := Option.bind_eq_some_iff.mp h
    exact hfinish power h

theorem realLiteral_isRead {lexeme : String} {l : Literal} (h : realLiteral lexeme = .ok l) :
    l.IsRead := by
  unfold realLiteral at h
  dsimp only at h
  split at h
  next => cases h
  next =>
    split at h
    next x hx =>
      split at h
      next =>
        cases h
        obtain ⟨digits, exponent, rfl⟩ := exists_nearest hx
        exact Decimal.isUnsigned_nearest digits exponent
      next => cases h
    next => cases h

theorem literalOf_isRead {token : Token} {l : Literal} (h : literalOf token = .ok l) : l.IsRead := by
  unfold literalOf at h
  dsimp only at h
  split at h
  next l' hread =>
    cases h
    split at hread
    case h_4 => exact intLiteral_isRead hread
    case h_5 => exact realLiteral_isRead hread
    case h_6 =>
      unfold stringLiteral at hread
      split at hread
      · cases hread
        trivial
      · cases hu : unescape (unquoted token.lexeme.toList) with
        | error => rw [hu] at hread; cases hread
        | ok => rw [hu] at hread; cases hread; trivial
    case h_7 =>
      unfold charLiteral at hread
      split at hread <;> cases hread
      trivial
    all_goals cases hread
    all_goals trivial
  next => cases h

/-! ## 2. Expressions -/

/-- The literals in an expression are such as are read, and so on down. -/
inductive Node.Numerals : Node → Prop
  | mk {node : Node} : (∀ value span, node = .literal value span → value.IsRead) →
      (∀ n ∈ node.parts, n.Numerals) → node.Numerals

theorem Node.Written.hasNumerals {node : Node} {ts : List Taken} (h : node.Written ts) :
    node.Numerals := by
  -- on the number of tokens: a part is written with fewer
  induction hn : ts.length using Nat.strongRecOn generalizing node ts with
  | _ n ih =>
  subst hn
  refine .mk ?_ fun part hpart => ?_
  · rintro value span rfl
    cases h with
    | literal hread => exact literalOf_isRead hread
  · obtain ⟨front, us, back, -, hlt, hus⟩ := h.exists_part hpart
    exact ih _ hlt hus rfl

theorem parseLambda_numerals {text : String} {l : Lambda} (h : parseLambda text = .ok l) :
    l.body.Numerals := by
  obtain ⟨us, span, hus, -⟩ := exists_written h
  cases hus.hasNumerals with
  | mk _ hparts => exact hparts l.body (List.mem_singleton_self _)

/-- An expression that was read: the names in its types are names, and its literals are such as are
read. -/
structure Node.IsRead (node : Node) : Prop where
  named : node.Named
  numerals : node.Numerals

theorem Node.IsRead.part {node part : Node} (h : node.IsRead) (hp : part ∈ node.parts) :
    part.IsRead := by
  obtain ⟨⟨-, hnamed⟩, -, hnumerals⟩ := h
  exact ⟨hnamed part hp, hnumerals part hp⟩

theorem Node.IsRead.type {node : Node} (h : node.IsRead) {type : TypeNode} (ht : type ∈ node.types) :
    type.Named := by
  obtain ⟨⟨htypes, -⟩, -⟩ := h
  exact htypes type ht

theorem parseLambda_isRead {text : String} {l : Lambda} (h : parseLambda text = .ok l) :
    l.body.IsRead :=
  ⟨parseLambda_named h, parseLambda_numerals h⟩

end Syntax

end FatArrow
