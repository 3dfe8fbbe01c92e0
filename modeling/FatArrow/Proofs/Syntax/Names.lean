import FatArrow.Proofs.Syntax.Exact
import FatArrow.Proofs.Syntax.Scan

/-!
# The names that are read

An identifier of a text is a name: it starts like one, goes on like one, and is no keyword.  So are
the names of the parameters that are read from a text.
-/

namespace FatArrow.Syntax

open Text

/-! ## 1. Identifiers -/

/-- A token that is a name if it is an identifier. -/
def Token.Names (t : Token) : Prop := t.kind = .identifier → isName t.lexeme = true

theorem keyword?_ne_identifier (word : String) : keyword? word ≠ some .identifier := by
  unfold keyword?
  repeat' split
  all_goals exact nofun

theorem isName_word {c : Char} {cs : List Char} (hc : isNameStart c = true)
    (h : (word c cs).kind = some .identifier) :
    isName (String.ofList (c :: cs.take (word c cs).more)) = true := by
  have htake : cs.take (cs.takeWhile isNamePart).length = cs.takeWhile isNamePart :=
    List.prefix_iff_eq_take.mp (List.takeWhile_prefix isNamePart) |>.symm
  have hkeyword : keyword? (String.ofList (c :: cs.takeWhile isNamePart)) = none := by
    cases hk : keyword? (String.ofList (c :: cs.takeWhile isNamePart)) with
    | none => rfl
    | some kind =>
      rw [word, hk] at h
      exact absurd (hk.trans h) (keyword?_ne_identifier _)
  show isName (String.ofList (c :: cs.take (cs.takeWhile isNamePart).length)) = true
  rw [htake, isName, isWord, hkeyword, String.toList_ofList]
  simp [hc, List.all_takeWhile]

theorem oneCharOperator?_ne_identifier (c : Char) : oneCharOperator? c ≠ some .identifier := by
  unfold oneCharOperator?
  split <;> exact nofun

theorem twoCharOperator?_ne_identifier (c d : Char) : twoCharOperator? c d ≠ some .identifier := by
  unfold twoCharOperator?
  repeat' split
  all_goals exact nofun

theorem operator_ne_identifier {c : Char} {cs : List Char} {n : Nat} :
    operator c cs ≠ .ok ⟨some .identifier, n⟩ := by
  intro h
  unfold operator at h
  split at h
  next kind hk =>
    cases h
    obtain ⟨d, -, hk⟩ := Option.bind_eq_some_iff.mp hk
    exact twoCharOperator?_ne_identifier c d hk
  next =>
    split at h
    next kind hk =>
      cases h
      exact oneCharOperator?_ne_identifier c hk
    next => cases h

/-- What is scanned as an identifier is a name. -/
theorem isName_of_piece {c : Char} {cs : List Char} {n : Nat}
    (h : piece c cs = .ok ⟨some .identifier, n⟩) : isName (String.ofList (c :: cs.take n)) = true := by
  by_cases hc : isNameStart c = true
  · rw [piece_of_isNameStart hc] at h
    have hword := Except.ok.inj h
    have hname := isName_word hc (by rw [hword])
    rwa [hword] at hname
  -- what does not start like a name is a literal, a number or an operator
  have hliteral {kind : TokenKind} {cause : Cause} {skip : Nat} {scanned : Nat × Bool}
      (hk : kind ≠ .identifier) :
      literalPiece kind cause skip scanned ≠ .ok ⟨some .identifier, n⟩ := by
    unfold literalPiece
    split
    · rintro ⟨⟩
      exact hk rfl
    · exact nofun
  have hnumber : number c cs ≠ .ok ⟨some .identifier, n⟩ := by
    unfold number decimalNumber
    dsimp only
    repeat' split
    all_goals exact nofun
  unfold piece at h
  rw [if_neg hc] at h
  repeat' split at h
  all_goals first
    | exact absurd h (hliteral (by decide))
    | exact absurd h hnumber
    | exact absurd h operator_ne_identifier
    | cases h

/-- The identifiers of a text are names. -/
theorem tokensFrom_names {p : Position} {cs : List Char} {ts : List Token}
    (h : tokensFrom p cs = .ok ts) : ∀ t ∈ ts, t.Names := by
  refine tokensFrom_forall (fun _ hk => by cases hk) (fun c cs kind n span hp hk => ?_) h
  have hk' : kind = .identifier := hk
  rw [hk'] at hp
  exact isName_of_piece hp

/-- So are those that are taken, whole or half by half. -/
theorem Cut.names {ts rest : List Token} {us : List Taken} (h : Cut ts us rest)
    (hts : ∀ t ∈ ts, t.Names) : ∀ u ∈ us, u.token.Names := by
  induction h with
  | done ts => exact nofun
  | whole _ ih =>
    obtain ⟨hfirst, hrest⟩ := List.forall_mem_cons.mp hts
    exact List.forall_mem_cons.mpr ⟨hfirst, ih hrest⟩
  | half _ _ ih =>
    obtain ⟨-, hrest⟩ := List.forall_mem_cons.mp hts
    -- both halves are a `>`
    exact List.forall_mem_cons.mpr ⟨nofun, ih (List.forall_mem_cons.mpr ⟨nofun, hrest⟩)⟩

/-! ## 2. Types and expressions -/

/-- The names between the dots of a type. -/
def TypeNode.words : TypeNode → List String
  | .named segments _ => segments.map (·.name.text)
  | _ => []

/-- The names in a written type are names, and so on down. -/
inductive TypeNode.Named : TypeNode → Prop
  | mk {type : TypeNode} : (∀ w ∈ type.words, isName w = true) → (∀ u ∈ type.parts, u.Named) →
      type.Named

/-- The names in the types of an expression are names, and so on down. -/
inductive Node.Named : Node → Prop
  | mk {node : Node} : (∀ type ∈ node.types, type.Named) → (∀ n ∈ node.parts, n.Named) → node.Named

theorem Node.Named.bare {node : Node} (h : node.Named) : node.bare.Named := by
  induction node using Node.bare.induct with
  | case1 inner span ih =>
    cases h with
    | mk _ hparts => exact ih (hparts inner (List.mem_singleton_self _))
  | case2 node hne =>
    unfold Node.bare
    split
    next inner span => exact absurd rfl (hne inner span)
    next => exact h

theorem Segment.Written.isName {segment : Segment} {ts : List Taken} (h : segment.Written ts)
    (hts : ∀ t ∈ ts, t.token.Names) : isName segment.name.text = true := by
  cases h with
  | @mk t _ _ hk => exact hts (.whole t) List.mem_cons_self hk

theorem SegmentsWritten.isName {segments : List Segment} {ts : List Taken}
    (h : SegmentsWritten segments ts) (hts : ∀ t ∈ ts, t.token.Names) :
    ∀ segment ∈ segments, Syntax.isName segment.name.text = true := by
  match h with
  | .nil => exact List.forall_mem_nil _
  | .cons _ hsegment hrest =>
    obtain ⟨hfront, hback⟩ := List.forall_mem_append.mp hts
    exact List.forall_mem_cons.mpr
      ⟨hsegment.isName (List.forall_mem_cons.mp hfront).2, hrest.isName hback⟩

/-- What is written with names has names, in every part. -/
theorem TypeNode.Written.hasNames {type : TypeNode} {ts : List Taken} (h : type.Written ts)
    (hts : ∀ t ∈ ts, t.token.Names) : type.Named := by
  -- on the number of tokens: a part is written with fewer
  induction hn : ts.length using Nat.strongRecOn generalizing type ts with
  | _ n ih =>
  subst hn
  refine .mk ?_ fun part hpart => ?_
  · cases h with
    | named hsegment hsegments =>
      obtain ⟨hfront, hback⟩ := List.forall_mem_append.mp hts
      rw [words, List.forall_mem_map]
      exact List.forall_mem_cons.mpr ⟨hsegment.isName hfront, hsegments.isName hback⟩
    | predefined | array | nullable => exact List.forall_mem_nil _
  · obtain ⟨front, us, back, rest, rfl, hlt, hus, -⟩ := h.exists_part hpart
    refine ih _ hlt hus (fun t ht => hts t ?_) rfl
    exact List.mem_append_left _ (List.mem_append_left _ (List.mem_append_right _ ht))

theorem Node.Written.hasNames {node : Node} {ts : List Taken} (h : node.Written ts)
    (hts : ∀ t ∈ ts, t.token.Names) : node.Named := by
  induction hn : ts.length using Nat.strongRecOn generalizing node ts with
  | _ n ih =>
  subst hn
  refine .mk (fun type htype => ?_) fun part hpart => ?_
  · obtain ⟨front, us, back, rfl, hus⟩ := h.exists_type htype
    exact hus.hasNames fun t ht => hts t (List.mem_append_left _ (List.mem_append_right _ ht))
  · obtain ⟨front, us, back, rfl, hlt, hus⟩ := h.exists_part hpart
    refine ih _ hlt hus (fun t ht => hts t ?_) rfl
    exact List.mem_append_left _ (List.mem_append_right _ ht)

/-! ## 3. Lambdas -/

theorem Parameter.Written.isName {p : Parameter} {ts : List Taken} (h : p.Written ts)
    (hts : ∀ t ∈ ts, t.token.Names) : isName p.name.text = true := by
  cases h with
  | @untyped t _ hk => exact hts (.whole t) (List.mem_singleton_self _) hk
  | @typed _ t _ _ _ hk =>
    exact hts (.whole t) (List.mem_append_right _ (List.mem_singleton_self _)) hk

/-- A lambda that is read is written with names. -/
theorem exists_written {text : String} {l : Lambda} (h : parseLambda text = .ok l) :
    ∃ us span, (Node.lambda l.parenthesized l.params l.body span).Written us ∧
      ∀ t ∈ us, t.token.Names := by
  obtain ⟨tokens, d, ht, h⟩ := exists_of_read h
  have hc := Cursor.ready_ofTokens ht
  obtain ⟨read, c, hread, h⟩ := Reader.exists_of_bind h
  obtain ⟨ts, hts, hwritten⟩ := (Reader.node_traced _ _ hc).taken _ _ hread
  obtain ⟨front, us, back, rfl, -, -, hus⟩ := hwritten.bare
  have hnames := (hts.cut hc.sound).names (tokensFrom_names ht)
  have hinside : ∀ t ∈ us, t.token.Names := fun t ht =>
    hnames t (List.mem_append_left _ (List.mem_append_right _ ht))
  cases hbare : read.bare with
  | lambda parenthesized params body span =>
    rw [hbare] at h hus
    obtain ⟨_, _, _, h⟩ := Reader.exists_of_bind h
    obtain ⟨_, _, _, h⟩ := Reader.exists_of_bind h
    cases h
    exact ⟨us, span, hus, hinside⟩
  | _ =>
    rw [hbare] at h
    cases h

/-- The parameters of a lambda that is read have names. -/
theorem parseLambda_names {text : String} {l : Lambda} (h : parseLambda text = .ok l) :
    ∀ p ∈ l.params, isName p.name.text = true := by
  obtain ⟨us, span, hus, hinside⟩ := exists_written h
  generalize l.parenthesized = parenthesized, l.params = params, l.body = body at hus ⊢
  cases hus with
  | @lambda _ _ t _ _ hk =>
    have hname : Syntax.isName t.lexeme = true := hinside (.whole t) List.mem_cons_self hk
    exact List.forall_mem_singleton.mpr hname
  | lambdaInParens hparams =>
    intro p hp
    obtain ⟨before, vs, after, rfl, hvs⟩ := hparams.exists_item hp
    refine hvs.isName fun t ht => hinside t ?_
    exact List.mem_append_left _ (List.mem_append_left _ (List.mem_append_right _ ht))

/-- So have the types in its body. -/
theorem parseLambda_named {text : String} {l : Lambda} (h : parseLambda text = .ok l) :
    l.body.Named := by
  obtain ⟨us, span, hus, hinside⟩ := exists_written h
  cases hus.hasNames hinside with
  | mk _ hparts => exact hparts l.body (List.mem_singleton_self _)

end FatArrow.Syntax
