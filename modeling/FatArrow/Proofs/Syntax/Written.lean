import FatArrow.Proofs.Syntax.Taken

/-!
# How trees are written

The grammar as a relation between trees and the tokens they are written as, with the span that
every node has to have: from the first character of its first token through the last character of
its last one.  A dotted name whose last token is the first half of a `>>` is the exception: its
span ends with the token before.  In a tree that is written so, every part lies inside the whole.
-/

namespace FatArrow

open Syntax (Taken)

namespace Span

variable {a b : Span} {ts us vs : List Taken} {t : Taken}

/-- The span starts with the first token and ends with the last one. -/
def Covers (s : Span) (ts : List Taken) : Prop :=
  ∃ first last, ts.head? = some first ∧ ts.getLast? = some last ∧
    s.line = first.token.span.line ∧ s.col = first.token.span.col ∧
    s.offset = first.token.span.offset ∧ s.stop = last.token.span.stop

/-- The span starts with the first token and does not reach behind the last one. -/
def Within (s : Span) (ts : List Taken) : Prop :=
  ∃ first last, ts.head? = some first ∧ ts.getLast? = some last ∧
    s.line = first.token.span.line ∧ s.col = first.token.span.col ∧
    s.offset = first.token.span.offset ∧ s.stop ≤ last.token.span.stop

/-- One span lies inside the other. -/
def Inside (a b : Span) : Prop := b.offset ≤ a.offset ∧ a.stop ≤ b.stop

end Span

namespace Syntax

/-- Tokens without the first half of a `>>` at their end. -/
def Taken.closed (ts : List Taken) : List Taken :=
  if ts.getLast?.any (·.half) then ts.dropLast else ts

/-- The tokens stand one after the other. -/
def Ordered (ts : List Taken) : Prop :=
  ts.Pairwise fun t u => t.token.span.stop ≤ u.token.span.offset

/-! ## 1. The grammar -/

/-- Items that each follow a comma.  A comma after the last item can be allowed. -/
inductive After {α : Type} (P : α → List Taken → Prop) (trailing : Bool) :
    List α → List Taken → Prop
  | nil : After P trailing [] []
  | comma {t : Token} : trailing = true → t.kind = .comma → After P trailing [] [.whole t]
  | cons {t : Token} {a : α} {as : List α} {ts us : List Taken} :
      t.kind = .comma → P a ts → After P trailing as us →
      After P trailing (a :: as) (.whole t :: ts ++ us)

/-- Items with commas between them. -/
inductive Separated {α : Type} (P : α → List Taken → Prop) (trailing : Bool) :
    List α → List Taken → Prop
  | nil : Separated P trailing [] []
  | cons {a : α} {as : List α} {ts us : List Taken} :
      P a ts → After P trailing as us → Separated P trailing (a :: as) (ts ++ us)

/-- Items with commas between them, between an opening and a closing token. -/
inductive Enclosed {α : Type} (P : α → List Taken → Prop) (trailing : Bool)
    (opening closing : TokenKind) : List α → List Taken → Prop
  | mk {t u : Token} {as : List α} {ts : List Taken} :
      t.kind = opening → Separated P trailing as ts → u.kind = closing →
      Enclosed P trailing opening closing as (.whole t :: ts ++ [.whole u])

mutual

/-- A type is written as a list of tokens. -/
inductive TypeNode.Written : TypeNode → List Taken → Prop
  | predefined {t : Token} :
      t.kind = .typeKeyword → TypeNode.Written (.predefined ⟨t.lexeme, t.span⟩) [.whole t]
  | named {segment : Segment} {segments : List Segment} {span : Span} {ts us : List Taken} :
      segment.Written ts → SegmentsWritten segments us → span.Covers (Taken.closed (ts ++ us)) →
      TypeNode.Written (.named (segment :: segments) span) (ts ++ us)
  | array {element : TypeNode} {span : Span} {ts : List Taken} {t u : Token} :
      element.Written ts → t.kind = .leftBracket → u.kind = .rightBracket →
      span.Covers (ts ++ [.whole t, .whole u]) →
      TypeNode.Written (.array element span) (ts ++ [.whole t, .whole u])
  | nullable {inner : TypeNode} {span : Span} {ts : List Taken} {t : Token} :
      inner.Written ts → t.kind = .question → span.Covers (ts ++ [.whole t]) →
      TypeNode.Written (.nullable inner span) (ts ++ [.whole t])

/-- A name of a type is written with its type arguments. -/
inductive Segment.Written : Segment → List Taken → Prop
  | mk {t : Token} {args : List TypeNode} {ts : List Taken} :
      t.kind = .identifier → TypeArgsWritten args ts →
      Segment.Written (.mk ⟨t.lexeme, t.span⟩ args) (.whole t :: ts)

/-- Further names of a type are written, each after a dot. -/
inductive SegmentsWritten : List Segment → List Taken → Prop
  | nil : SegmentsWritten [] []
  | cons {segment : Segment} {segments : List Segment} {t : Token} {ts us : List Taken} :
      t.kind = .dot → segment.Written ts → SegmentsWritten segments us →
      SegmentsWritten (segment :: segments) (.whole t :: ts ++ us)

/-- Type arguments are written between angle brackets, or there are none. -/
inductive TypeArgsWritten : List TypeNode → List Taken → Prop
  | nil : TypeArgsWritten [] []
  | some {args : List TypeNode} {t : Token} {u : Taken} {ts : List Taken} :
      args ≠ [] → t.kind = .less → Separated TypeNode.Written false args ts →
      u.token.kind = .greater → TypeArgsWritten args (.whole t :: ts ++ [u])

end

/-- A parameter is written with or without a type. -/
inductive Parameter.Written : Parameter → List Taken → Prop
  | untyped {t : Token} {span : Span} :
      t.kind = .identifier → span.Covers [.whole t] →
      Parameter.Written ⟨none, ⟨t.lexeme, t.span⟩, span⟩ [.whole t]
  | typed {type : TypeNode} {t : Token} {span : Span} {ts : List Taken} :
      type.Written ts → t.kind = .identifier → span.Covers (ts ++ [.whole t]) →
      Parameter.Written ⟨some type, ⟨t.lexeme, t.span⟩, span⟩ (ts ++ [.whole t])

/-- An expression is written as a list of tokens. -/
inductive Node.Written : Node → List Taken → Prop
  | literal {t : Token} {value : Literal} :
      literalOf t = .ok value → Node.Written (.literal value t.span) [.whole t]
  | name {t : Token} {args : List TypeNode} {span : Span} {ts : List Taken} :
      t.kind = .identifier → TypeArgsWritten args ts → span.Covers (.whole t :: ts) →
      Node.Written (.name ⟨t.lexeme, t.span⟩ args span) (.whole t :: ts)
  | predefined {t : Token} :
      t.kind = .typeKeyword → Node.Written (.predefined ⟨t.lexeme, t.span⟩) [.whole t]
  | binary {op : BinaryOperator} {left right : Node} {span : Span} {t : Token}
      {ts us : List Taken} :
      left.Written ts → BinaryOperator.ofToken? t.kind = some op → right.Written us →
      span.Covers (ts ++ .whole t :: us) →
      Node.Written (.binary op left right span) (ts ++ .whole t :: us)
  | unary {op : UnaryOperator} {operand : Node} {span : Span} {t : Token} {ts : List Taken} :
      UnaryOperator.ofToken? t.kind = some op → operand.Written ts →
      span.Covers (.whole t :: ts) → Node.Written (.unary op operand span) (.whole t :: ts)
  | conditional {test ifTrue ifFalse : Node} {span : Span} {t u : Token}
      {ts us vs : List Taken} :
      test.Written ts → t.kind = .question → ifTrue.Written us → u.kind = .colon →
      ifFalse.Written vs → span.Covers (ts ++ .whole t :: us ++ .whole u :: vs) →
      Node.Written (.conditional test ifTrue ifFalse span)
        (ts ++ .whole t :: us ++ .whole u :: vs)
  | call {callee : Node} {args : List Node} {span : Span} {ts us : List Taken} :
      callee.Written ts → Enclosed Node.Written false .leftParen .rightParen args us →
      span.Covers (ts ++ us) → Node.Written (.call callee args span) (ts ++ us)
  | index {object : Node} {args : List Node} {span : Span} {ts us : List Taken} :
      object.Written ts → Enclosed Node.Written false .leftBracket .rightBracket args us →
      span.Covers (ts ++ us) → Node.Written (.index object args span) (ts ++ us)
  | member {object : Node} {args : List TypeNode} {span : Span} {t u : Token}
      {ts us : List Taken} :
      object.Written ts → t.kind = .dot → u.kind = .identifier → TypeArgsWritten args us →
      span.Covers (ts ++ .whole t :: .whole u :: us) →
      Node.Written (.member object ⟨u.lexeme, u.span⟩ args span)
        (ts ++ .whole t :: .whole u :: us)
  | cast {target : TypeNode} {operand : Node} {span : Span} {t u : Token} {ts us : List Taken} :
      t.kind = .leftParen → target.Written ts → u.kind = .rightParen → operand.Written us →
      span.Covers (.whole t :: ts ++ .whole u :: us) →
      Node.Written (.cast target operand span) (.whole t :: ts ++ .whole u :: us)
  | new {type : TypeNode} {args : List Node} {span : Span} {t : Token} {ts us : List Taken} :
      t.kind = .newWord → type.Written ts →
      Enclosed Node.Written false .leftParen .rightParen args us →
      span.Covers (.whole t :: ts ++ us) →
      Node.Written (.new type args span) (.whole t :: ts ++ us)
  | newItems {items : List Node} {span : Span} {t u v : Token} {ts : List Taken} :
      t.kind = .newWord → u.kind = .leftBracket → v.kind = .rightBracket →
      Enclosed Node.Written true .leftBrace .rightBrace items ts →
      span.Covers (.whole t :: .whole u :: .whole v :: ts) →
      Node.Written (.newArray none items span) (.whole t :: .whole u :: .whole v :: ts)
  | newArray {element : TypeNode} {items : List Node} {whole span : Span} {t : Token}
      {ts us : List Taken} :
      t.kind = .newWord → (TypeNode.array element whole).Written ts →
      Enclosed Node.Written true .leftBrace .rightBrace items us →
      span.Covers (.whole t :: ts ++ us) →
      Node.Written (.newArray (some element) items span) (.whole t :: ts ++ us)
  | lambda {body : Node} {span : Span} {t u : Token} {ts : List Taken} :
      t.kind = .identifier → u.kind = .arrow → body.Written ts →
      span.Covers (.whole t :: .whole u :: ts) →
      Node.Written (.lambda false [⟨none, ⟨t.lexeme, t.span⟩, t.span⟩] body span)
        (.whole t :: .whole u :: ts)
  | lambdaInParens {params : List Parameter} {body : Node} {span : Span} {t : Token}
      {ts us : List Taken} :
      Enclosed Parameter.Written false .leftParen .rightParen params ts → t.kind = .arrow →
      body.Written us → span.Covers (ts ++ .whole t :: us) →
      Node.Written (.lambda true params body span) (ts ++ .whole t :: us)
  | paren {inner : Node} {span : Span} {t u : Token} {ts : List Taken} :
      t.kind = .leftParen → inner.Written ts → u.kind = .rightParen →
      span.Covers (.whole t :: ts ++ [.whole u]) →
      Node.Written (.paren inner span) (.whole t :: ts ++ [.whole u])

/-! ## 2. Parts -/

/-- The types that a type is put together from. -/
def TypeNode.parts : TypeNode → List TypeNode
  | .predefined _ => []
  | .named segments _ => segments.flatMap Segment.args
  | .array element _ => [element]
  | .nullable inner _ => [inner]

/-- The types that are written in an expression itself. -/
def Node.types : Node → List TypeNode
  | .name _ args _ => args
  | .member _ _ args _ => args
  | .cast target _ _ => [target]
  | .new type _ _ => [type]
  | .newArray element _ _ => element.toList
  | .lambda _ params _ _ => params.filterMap (·.type)
  | _ => []

/-- The expressions that an expression is put together from. -/
def Node.parts : Node → List Node
  | .literal _ _ | .name _ _ _ | .predefined _ => []
  | .binary _ left right _ => [left, right]
  | .unary _ operand _ => [operand]
  | .conditional test ifTrue ifFalse _ => [test, ifTrue, ifFalse]
  | .call callee args _ => callee :: args
  | .index object args _ => object :: args
  | .member object _ _ _ => [object]
  | .cast _ operand _ => [operand]
  | .new _ args _ => args
  | .newArray _ items _ => items
  | .lambda _ _ body _ => [body]
  | .paren inner _ => [inner]

/-- Every part of a type lies inside it, and so on down. -/
inductive TypeNode.Nested : TypeNode → Prop
  | mk {type : TypeNode} : (∀ u ∈ type.parts, u.span.Inside type.span) →
      (∀ u ∈ type.parts, u.Nested) → type.Nested

/-- Every part of an expression lies inside it, and so on down. -/
inductive Node.Nested : Node → Prop
  | mk {node : Node} : (∀ u ∈ node.types, u.span.Inside node.span) →
      (∀ u ∈ node.types, u.Nested) → (∀ n ∈ node.parts, n.span.Inside node.span) →
      (∀ n ∈ node.parts, n.Nested) → node.Nested

/-! ## 3. Spans of tokens in order -/

theorem Ordered.of_append_left {ts us : List Taken} (h : Ordered (ts ++ us)) : Ordered ts :=
  (List.pairwise_append.mp h).1

theorem Ordered.of_append_right {ts us : List Taken} (h : Ordered (ts ++ us)) : Ordered us :=
  (List.pairwise_append.mp h).2.1

theorem Ordered.offset_le_head {t u : Taken} {ts : List Taken} (h : Ordered ts)
    (ht : ts.head? = some t) (hu : u ∈ ts) : t.token.span.offset ≤ u.token.span.offset := by
  cases ts with
  | nil => cases ht
  | cons v ts =>
    cases ht
    rcases List.mem_cons.mp hu with rfl | hu
    · exact Nat.le_refl _
    · exact Nat.le_trans (Nat.le_add_right _ _) ((List.pairwise_cons.mp h).1 u hu)

theorem Ordered.stop_le_last {t u : Taken} {ts : List Taken} (h : Ordered ts)
    (ht : ts.getLast? = some t) (hu : u ∈ ts) : u.token.span.stop ≤ t.token.span.stop := by
  obtain ⟨us, rfl⟩ := List.getLast?_eq_some_iff.mp ht
  rcases List.mem_append.mp hu with hu | hu
  · have := (List.pairwise_append.mp h).2.2 u hu t (List.mem_singleton_self t)
    exact Nat.le_trans this (Nat.le_add_right _ _)
  · cases List.mem_singleton.mp hu
    exact Nat.le_refl _

end Syntax

namespace Span

open Syntax (Ordered)

variable {a b : Span} {ts us vs : List Taken} {t u : Taken}

theorem Covers.within (h : a.Covers ts) : a.Within ts := by
  obtain ⟨first, last, hfirst, hlast, hline, hcol, hoffset, hstop⟩ := h
  exact ⟨first, last, hfirst, hlast, hline, hcol, hoffset, Nat.le_of_eq hstop⟩

theorem covers_token (t : Taken) : t.token.span.Covers [t] :=
  ⟨t, t, rfl, rfl, rfl, rfl, rfl, rfl⟩

/-- A span that starts with some tokens does so when others follow. -/
theorem Within.append (h : a.Within ts) (us : List Taken) (ho : Ordered (ts ++ us)) :
    a.Within (ts ++ us) := by
  obtain ⟨first, last, hfirst, hlast, hline, hcol, hoffset, hstop⟩ := h
  obtain ⟨rest, rfl⟩ := List.head?_eq_some_iff.mp hfirst
  have hmem := List.mem_append_left us (List.mem_of_getLast? hlast)
  obtain ⟨last', hlast'⟩ : ∃ last', (first :: rest ++ us).getLast? = some last' :=
    ⟨_, List.getLast?_eq_some_getLast (List.append_ne_nil_of_left_ne_nil (List.cons_ne_nil _ _) us)⟩
  exact ⟨first, last', rfl, hlast', hline, hcol, hoffset,
    Nat.le_trans hstop (ho.stop_le_last hlast' hmem)⟩

/-- The span of the first token, merged with one that ends with the last, covers them all. -/
theorem Within.merge (ha : a.Within ts) (hle : a.offset ≤ b.offset)
    (hb : ∃ last, ts.getLast? = some last ∧ b.stop = last.token.span.stop) :
    (a.merge b).Covers ts := by
  obtain ⟨first, last, hfirst, hlast, hline, hcol, hoffset, hstop⟩ := ha
  obtain ⟨last', hlast', hbstop⟩ := hb
  cases hlast.symm.trans hlast'
  have hmax : max a.stop b.stop = last.token.span.stop := by omega
  have hmerge : a.merge b = { a with len := max a.stop b.stop - a.offset } := by
    unfold Span.merge
    rw [if_pos hle]
  have haoff : a.offset ≤ a.stop := Nat.le_add_right ..
  rw [hmerge, hmax]
  refine ⟨first, last, hfirst, hlast, hline, hcol, hoffset, ?_⟩
  show a.offset + (last.token.span.stop - a.offset) = _
  omega

/-- A span that starts with the first tokens, merged with one that covers the others. -/
theorem Within.merge_covers (ha : a.Within (ts ++ us)) (hb : b.Covers us)
    (ho : Ordered (ts ++ us)) : (a.merge b).Covers (ts ++ us) := by
  obtain ⟨first, last, hfirst, hlast, -, -, hoffset, hstop⟩ := hb
  have ⟨head, _, hhead, _, _, _, haoffset, _⟩ := ha
  have hmem : first ∈ ts ++ us := List.mem_append_right _ (List.mem_of_head? hfirst)
  have hle : a.offset ≤ b.offset := by
    rw [haoffset, hoffset]
    exact ho.offset_le_head hhead hmem
  refine ha.merge hle ⟨last, ?_, hstop⟩
  rw [List.getLast?_append, hlast]
  rfl

/-- The span of the first tokens, merged with that of the last ones. -/
theorem Covers.merge {ws : List Taken} (ha : a.Covers ts) (hb : b.Covers vs) (ho : Ordered ws)
    (us : List Taken) (hws : ws = ts ++ us ++ vs) : (a.merge b).Covers ws := by
  subst hws
  refine Within.merge_covers ?_ hb ho
  rw [List.append_assoc] at ho ⊢
  exact ha.within.append _ ho

/-- The span of the first tokens, merged with that of the last one. -/
theorem Within.merge_last (ha : a.Within ts) (hlast : ts.getLast? = some t) (ho : Ordered ts) :
    (a.merge t.token.span).Covers ts := by
  obtain ⟨us, rfl⟩ := List.getLast?_eq_some_iff.mp hlast
  exact ha.merge_covers (covers_token t) ho

/-- What is written as some of the tokens lies inside what covers all of them. -/
theorem Within.inside (ha : a.Within us) (hb : b.Covers (ts ++ us ++ vs))
    (ho : Ordered (ts ++ us ++ vs)) : a.Inside b := by
  obtain ⟨first, last, hfirst, hlast, -, -, hoffset, hstop⟩ := ha
  obtain ⟨head, foot, hhead, hfoot, -, -, hboffset, hbstop⟩ := hb
  have hmem {t : Taken} (ht : t ∈ us) : t ∈ ts ++ us ++ vs :=
    List.mem_append_left _ (List.mem_append_right _ ht)
  constructor
  · rw [hoffset, hboffset]
    exact ho.offset_le_head hhead (hmem (List.mem_of_head? hfirst))
  · rw [hbstop]
    exact Nat.le_trans hstop (ho.stop_le_last hfoot (hmem (List.mem_of_getLast? hlast)))

end Span

namespace Syntax

theorem Taken.closed_concat (ts : List Taken) (t : Taken) :
    Taken.closed (ts ++ [t]) = if t.half then ts else ts ++ [t] := by
  unfold closed
  rw [List.getLast?_append, List.dropLast_concat]
  rfl

theorem Taken.exists_closed (ts : List Taken) : ∃ rest, ts = Taken.closed ts ++ rest := by
  unfold closed
  split
  · exact ⟨ts.drop (ts.length - 1), by rw [List.dropLast_eq_take, List.take_append_drop]⟩
  · exact ⟨[], (List.append_nil _).symm⟩

/-- The span of a type starts with its first token and does not reach behind its last one. -/
theorem TypeNode.Written.within {type : TypeNode} {ts : List Taken} (h : type.Written ts)
    (ho : Ordered ts) : type.span.Within ts := by
  cases h with
  | predefined hk => exact (Span.covers_token _).within
  | array _ _ _ hspan => exact hspan.within
  | nullable _ _ hspan => exact hspan.within
  | @named segment segments span ts us _ _ hspan =>
    obtain ⟨rest, hrest⟩ := Taken.exists_closed (ts ++ us)
    rw [hrest] at ho ⊢
    exact hspan.within.append rest ho

theorem Node.Written.covers {node : Node} {ts : List Taken} (h : node.Written ts) :
    node.span.Covers ts := by
  cases h with
  | literal _ => exact Span.covers_token _
  | predefined _ => exact Span.covers_token _
  | name _ _ h | binary _ _ _ h | unary _ _ h | conditional _ _ _ _ _ h | call _ _ h => exact h
  | index _ _ h | member _ _ _ _ h | cast _ _ _ _ h | new _ _ _ h | newItems _ _ _ _ h => exact h
  | newArray _ _ _ h | lambda _ _ _ h | lambdaInParens _ _ _ h | paren _ _ _ h => exact h

/-! ## 4. Parts lie inside -/

theorem After.exists_item {α : Type} {P : α → List Taken → Prop} {trailing : Bool} {a : α}
    {as : List α} {ts : List Taken} (h : After P trailing as ts) (ha : a ∈ as) :
    ∃ front us back, ts = front ++ us ++ back ∧ P a us := by
  induction h with
  | nil => cases ha
  | comma => cases ha
  | @cons t b bs ts us hk hb _ ih =>
    rcases List.mem_cons.mp ha with rfl | ha
    · exact ⟨[.whole t], ts, us, rfl, hb⟩
    · obtain ⟨front, vs, back, rfl, hv⟩ := ih ha
      exact ⟨.whole t :: ts ++ front, vs, back, by simp, hv⟩

theorem Separated.exists_item {α : Type} {P : α → List Taken → Prop} {trailing : Bool} {a : α}
    {as : List α} {ts : List Taken} (h : Separated P trailing as ts) (ha : a ∈ as) :
    ∃ front us back, ts = front ++ us ++ back ∧ P a us := by
  cases h with
  | nil => cases ha
  | @cons b bs ts us hb hrest =>
    rcases List.mem_cons.mp ha with rfl | ha
    · exact ⟨[], ts, us, rfl, hb⟩
    · obtain ⟨front, vs, back, rfl, hv⟩ := hrest.exists_item ha
      exact ⟨ts ++ front, vs, back, by simp, hv⟩

theorem Enclosed.exists_item {α : Type} {P : α → List Taken → Prop} {trailing : Bool} {a : α}
    {opening closing : TokenKind} {as : List α} {ts : List Taken}
    (h : Enclosed P trailing opening closing as ts) (ha : a ∈ as) :
    ∃ front us back, ts = front ++ us ++ back ∧ P a us := by
  cases h with
  | @mk t u as ts _ hitems _ =>
    obtain ⟨front, us, back, rfl, hus⟩ := hitems.exists_item ha
    exact ⟨.whole t :: front, us, back ++ [.whole u], by simp, hus⟩

/-- A type argument is written before the token that closes the arguments. -/
theorem TypeArgsWritten.exists_arg {type : TypeNode} {args : List TypeNode} {ts : List Taken}
    (h : TypeArgsWritten args ts) (ha : type ∈ args) :
    ∃ front us back, ts = front ++ us ++ back ∧ back ≠ [] ∧ type.Written us := by
  cases h with
  | nil => cases ha
  | @some args t u ts _ _ hargs _ =>
    obtain ⟨front, us, back, rfl, hus⟩ := hargs.exists_item ha
    exact ⟨.whole t :: front, us, back ++ [u], by simp, by simp, hus⟩

theorem Segment.Written.exists_arg {type : TypeNode} {segment : Segment} {ts : List Taken}
    (h : segment.Written ts) (ha : type ∈ segment.args) :
    ∃ front us back, ts = front ++ us ++ back ∧ back ≠ [] ∧ type.Written us := by
  cases h with
  | @mk t args ts _ hargs =>
    obtain ⟨front, us, back, rfl, hback, hus⟩ := hargs.exists_arg ha
    exact ⟨.whole t :: front, us, back, rfl, hback, hus⟩

theorem SegmentsWritten.exists_arg {type : TypeNode} {segments : List Segment} {ts : List Taken}
    (h : SegmentsWritten segments ts) (ha : type ∈ segments.flatMap Segment.args) :
    ∃ front us back, ts = front ++ us ++ back ∧ back ≠ [] ∧ type.Written us := by
  match h with
  | .nil => cases ha
  | @SegmentsWritten.cons _ _ t ts us _ hsegment hrest =>
    rw [List.flatMap_cons] at ha
    rcases List.mem_append.mp ha with ha | ha
    · obtain ⟨front, vs, back, rfl, hback, hvs⟩ := hsegment.exists_arg ha
      exact ⟨.whole t :: front, vs, back ++ us, by simp, by simp [hback], hvs⟩
    · obtain ⟨front, vs, back, rfl, hback, hvs⟩ := hrest.exists_arg ha
      exact ⟨.whole t :: ts ++ front, vs, back, by simp, hback, hvs⟩

/-- A part of a type is written within the tokens that its span covers. -/
theorem TypeNode.Written.exists_part {type part : TypeNode} {ts : List Taken}
    (h : type.Written ts) (hpart : part ∈ type.parts) :
    ∃ front us back rest, ts = front ++ us ++ back ++ rest ∧ us.length < ts.length ∧
      part.Written us ∧ type.span.Covers (front ++ us ++ back) := by
  cases h with
  | predefined _ => cases hpart
  | @array element span ts t u helement _ _ hspan =>
    cases List.mem_singleton.mp hpart
    exact ⟨[], ts, [.whole t, .whole u], [], by simp, by simp, helement, hspan⟩
  | @nullable inner span ts t hinner _ hspan =>
    cases List.mem_singleton.mp hpart
    exact ⟨[], ts, [.whole t], [], by simp, by simp, hinner, hspan⟩
  | @named segment segments span ts us hsegment hsegments hspan =>
    have hargs : ∃ front vs back, ts ++ us = front ++ vs ++ back ∧ back ≠ [] ∧ part.Written vs := by
      have hpart' : part ∈ (segment :: segments).flatMap Segment.args := hpart
      rw [List.flatMap_cons] at hpart'
      rcases List.mem_append.mp hpart' with hpart' | hpart'
      · obtain ⟨front, vs, back, rfl, hback, hvs⟩ := hsegment.exists_arg hpart'
        exact ⟨front, vs, back ++ us, by simp, by simp [hback], hvs⟩
      · obtain ⟨front, vs, back, rfl, hback, hvs⟩ := hsegments.exists_arg hpart'
        exact ⟨ts ++ front, vs, back, by simp, hback, hvs⟩
    obtain ⟨front, vs, back, hts, hback, hvs⟩ := hargs
    rw [hts] at hspan ⊢
    -- at most the last token is not covered, and the part ends before it
    obtain ⟨back, last, rfl⟩ := (List.eq_nil_or_concat back).resolve_left hback
    rw [List.concat_eq_append, ← List.append_assoc, Taken.closed_concat] at hspan
    have hlt : vs.length < (front ++ vs ++ (back ++ [last])).length := by
      simp only [List.length_append, List.length_singleton]
      omega
    rw [List.concat_eq_append]
    by_cases hlast : last.half = true
    · rw [if_pos hlast] at hspan
      exact ⟨front, vs, back, [last], by simp, hlt, hvs, hspan⟩
    · rw [if_neg hlast, List.append_assoc] at hspan
      exact ⟨front, vs, back ++ [last], [], by simp, hlt, hvs, hspan⟩

/-- Every part of a type that is written so lies inside it. -/
theorem TypeNode.Written.nested {type : TypeNode} {ts : List Taken} (h : type.Written ts)
    (ho : Ordered ts) : type.Nested := by
  induction hn : ts.length using Nat.strongRecOn generalizing type ts with
  | _ n ih =>
  subst hn
  refine .mk (fun part hpart => ?_) fun part hpart => ?_
  all_goals obtain ⟨front, us, back, rest, rfl, hlt, hus, hspan⟩ := h.exists_part hpart
  · have ho' := ho.of_append_left
    exact (hus.within ho'.of_append_left.of_append_right).inside hspan ho'
  · exact ih _ hlt hus ho.of_append_left.of_append_left.of_append_right rfl

theorem Parameter.Written.exists_type {parameter : Parameter} {type : TypeNode} {ts : List Taken}
    (h : parameter.Written ts) (ht : parameter.type = some type) :
    ∃ us back, ts = us ++ back ∧ type.Written us := by
  cases h with
  | untyped => cases ht
  | @typed _ t _ ts htype _ _ =>
    cases ht
    exact ⟨ts, [.whole t], rfl, htype⟩

/-- A type in an expression is written as some of its tokens. -/
theorem Node.Written.exists_type {node : Node} {type : TypeNode} {ts : List Taken}
    (h : node.Written ts) (hpart : type ∈ node.types) :
    ∃ front us back, ts = front ++ us ++ back ∧ type.Written us := by
  cases h with
  | literal | predefined | binary | unary | conditional | call | index | newItems | paren =>
    cases hpart
  | lambda => cases hpart
  | @name t args span ts _ hargs _ =>
    obtain ⟨front, us, back, rfl, -, hus⟩ := hargs.exists_arg hpart
    exact ⟨.whole t :: front, us, back, by simp, hus⟩
  | @member object args span t u ts us _ _ _ hargs _ =>
    obtain ⟨front, vs, back, rfl, -, hvs⟩ := hargs.exists_arg hpart
    exact ⟨ts ++ .whole t :: .whole u :: front, vs, back, by simp, hvs⟩
  | @cast target operand span t u ts us _ htarget _ _ _ =>
    cases List.mem_singleton.mp hpart
    exact ⟨[.whole t], ts, .whole u :: us, rfl, htarget⟩
  | @new type args span t ts us _ htype _ _ =>
    cases List.mem_singleton.mp hpart
    exact ⟨[.whole t], ts, us, rfl, htype⟩
  | @newArray element items whole span t ts us _ hwhole _ _ =>
    cases List.mem_singleton.mp hpart
    cases hwhole with
    | @array _ _ ts u v helement _ _ _ =>
      exact ⟨[.whole t], ts, .whole u :: .whole v :: us, by simp, helement⟩
  | @lambdaInParens params body span t ts us hparams _ _ _ =>
    obtain ⟨parameter, hmem, htype⟩ := List.mem_filterMap.mp hpart
    obtain ⟨front, vs, back, rfl, hvs⟩ := hparams.exists_item hmem
    obtain ⟨ws, back', rfl, hws⟩ := hvs.exists_type htype
    exact ⟨front, ws, back' ++ back ++ .whole t :: us, by simp, hws⟩

/-- An item in brackets is written as fewer tokens than the list. -/
theorem Enclosed.exists_shorter {α : Type} {P : α → List Taken → Prop} {trailing : Bool} {a : α}
    {opening closing : TokenKind} {as : List α} {ts : List Taken}
    (h : Enclosed P trailing opening closing as ts) (ha : a ∈ as) :
    ∃ front us back, ts = front ++ us ++ back ∧ us.length < ts.length ∧ P a us := by
  cases h with
  | @mk t u as ts _ hitems _ =>
    obtain ⟨front, us, back, rfl, hus⟩ := hitems.exists_item ha
    refine ⟨.whole t :: front, us, back ++ [.whole u], by simp, ?_, hus⟩
    simp only [List.length_append, List.length_cons]
    omega

theorem Enclosed.length_pos {α : Type} {P : α → List Taken → Prop} {trailing : Bool}
    {opening closing : TokenKind} {as : List α} {ts : List Taken}
    (h : Enclosed P trailing opening closing as ts) : 0 < ts.length := by
  cases h with
  | mk => exact Nat.succ_pos _

/-- A part of an expression is written as some of its tokens. -/
theorem Node.Written.exists_part {node part : Node} {ts : List Taken} (h : node.Written ts)
    (hpart : part ∈ node.parts) :
    ∃ front us back, ts = front ++ us ++ back ∧ us.length < ts.length ∧ part.Written us := by
  cases h with
  | literal | predefined | name => cases hpart
  | @binary op left right span t ts us hleft _ hright _ =>
    simp only [parts, List.mem_cons, List.not_mem_nil, or_false] at hpart
    rcases hpart with rfl | rfl
    · exact ⟨[], ts, .whole t :: us, by simp, by simp, hleft⟩
    · exact ⟨ts ++ [.whole t], us, [], by simp, by simp; omega, hright⟩
  | @unary op operand span t ts _ hoperand _ =>
    cases List.mem_singleton.mp hpart
    exact ⟨[.whole t], ts, [], by simp, by simp, hoperand⟩
  | @conditional test ifTrue ifFalse span t u ts us vs htest _ htrue _ hfalse _ =>
    simp only [parts, List.mem_cons, List.not_mem_nil, or_false] at hpart
    rcases hpart with rfl | rfl | rfl
    · exact ⟨[], ts, .whole t :: us ++ .whole u :: vs, by simp, by simp, htest⟩
    · exact ⟨ts ++ [.whole t], us, .whole u :: vs, by simp, by simp; omega, htrue⟩
    · exact ⟨ts ++ .whole t :: us ++ [.whole u], vs, [], by simp, by simp; omega, hfalse⟩
  | @call callee args span ts us hcallee hargs _ =>
    rcases List.mem_cons.mp hpart with rfl | hpart
    · exact ⟨[], ts, us, rfl, by simpa using hargs.length_pos, hcallee⟩
    · obtain ⟨front, vs, back, rfl, hlt, hvs⟩ := hargs.exists_shorter hpart
      exact ⟨ts ++ front, vs, back, by simp, by simp at hlt ⊢; omega, hvs⟩
  | @index object args span ts us hobject hargs _ =>
    rcases List.mem_cons.mp hpart with rfl | hpart
    · exact ⟨[], ts, us, rfl, by simpa using hargs.length_pos, hobject⟩
    · obtain ⟨front, vs, back, rfl, hlt, hvs⟩ := hargs.exists_shorter hpart
      exact ⟨ts ++ front, vs, back, by simp, by simp at hlt ⊢; omega, hvs⟩
  | @member object args span t u ts us hobject _ _ _ _ =>
    cases List.mem_singleton.mp hpart
    exact ⟨[], ts, .whole t :: .whole u :: us, rfl, by simp, hobject⟩
  | @cast target operand span t u ts us _ _ _ hoperand _ =>
    cases List.mem_singleton.mp hpart
    exact ⟨.whole t :: ts ++ [.whole u], us, [], by simp, by simp; omega, hoperand⟩
  | @new type args span t ts us _ _ hargs _ =>
    obtain ⟨front, vs, back, rfl, hlt, hvs⟩ := hargs.exists_shorter hpart
    exact ⟨.whole t :: ts ++ front, vs, back, by simp, by simp at hlt ⊢; omega, hvs⟩
  | @newItems items span t u v ts _ _ _ hitems _ =>
    obtain ⟨front, vs, back, rfl, hlt, hvs⟩ := hitems.exists_shorter hpart
    exact ⟨.whole t :: .whole u :: .whole v :: front, vs, back, by simp, by simp; omega, hvs⟩
  | @newArray element items whole span t ts us _ _ hitems _ =>
    obtain ⟨front, vs, back, rfl, hlt, hvs⟩ := hitems.exists_shorter hpart
    exact ⟨.whole t :: ts ++ front, vs, back, by simp, by simp at hlt ⊢; omega, hvs⟩
  | @lambda body span t u ts _ _ hbody _ =>
    cases List.mem_singleton.mp hpart
    exact ⟨[.whole t, .whole u], ts, [], by simp, by simp only [List.length_cons]; omega, hbody⟩
  | @lambdaInParens params body span t ts us _ _ hbody _ =>
    cases List.mem_singleton.mp hpart
    exact ⟨ts ++ [.whole t], us, [], by simp,
      by simp only [List.length_append, List.length_cons]; omega, hbody⟩
  | @paren inner span t u ts _ hinner _ _ =>
    cases List.mem_singleton.mp hpart
    exact ⟨[.whole t], ts, [.whole u], rfl,
      by simp only [List.length_append, List.length_cons]; omega, hinner⟩

/-- Every part of an expression that is written so lies inside it. -/
theorem Node.Written.nested {node : Node} {ts : List Taken} (h : node.Written ts)
    (ho : Ordered ts) : node.Nested := by
  induction hn : ts.length using Nat.strongRecOn generalizing node ts with
  | _ n ih =>
  subst hn
  refine .mk (fun type ht => ?_) (fun type ht => ?_) (fun part hp => ?_) fun part hp => ?_
  · obtain ⟨front, us, back, rfl, hus⟩ := h.exists_type ht
    exact (hus.within ho.of_append_left.of_append_right).inside h.covers ho
  · obtain ⟨front, us, back, rfl, hus⟩ := h.exists_type ht
    exact hus.nested ho.of_append_left.of_append_right
  · obtain ⟨front, us, back, rfl, -, hus⟩ := h.exists_part hp
    exact hus.covers.within.inside h.covers ho
  · obtain ⟨front, us, back, rfl, hlt, hus⟩ := h.exists_part hp
    exact ih _ hlt hus ho.of_append_left.of_append_right rfl

end Syntax

end FatArrow
