import FatArrow.Proofs.Outcome
import FatArrow.Proofs.Printing.Mirror
import FatArrow.Proofs.Registry.Names
import FatArrow.Proofs.Syntax.Names
import FatArrow.Typing.Elaborate

/-!
# Types that are written

Where every type that a name can mean is printed so that its name means it again, every type that
can be written is read as itself where it is printed: arrays, nullable types and types with
arguments are printed around the types they are made of.
-/

namespace FatArrow

open Syntax (Node TypeNode Segment)

/-! ## 1. Names -/

namespace Syntax

theorem not_mem_of_isName {w : String} {c : Char} (h : isName w = true)
    (hc : Text.isNameStart c = false ∧ Text.isNamePart c = false) : c ∉ w.toList := by
  have hword := (isName_iff.mp h).1
  rw [isWord, Bool.and_eq_true] at hword
  intro hm
  generalize w.toList = cs at hword hm
  cases cs with
  | nil => cases hm
  | cons d cs =>
    rcases List.mem_cons.mp hm with rfl | hm
    · cases hc.1.symm.trans hword.1
    · cases hc.2.symm.trans (List.all_eq_true.mp hword.2 c hm)

theorem no_dot_of_isName {w : String} (h : isName w = true) : '.' ∉ w.toList :=
  not_mem_of_isName h (by decide)

theorem no_backtick_of_isName {w : String} (h : isName w = true) : '`' ∉ w.toList :=
  not_mem_of_isName h (by decide)

end Syntax

theorem no_dot_in_arity (n : Nat) : '.' ∉ ("`" ++ toString n).toList := by
  intro hm
  have hdigits : '.' ∈ Nat.toDigits 10 n := by simpa using hm
  cases Nat.isDigit_of_mem_toDigits (by decide) (by decide) hdigits

theorem stripArity_append {w tail : String} (h : '`' ∉ w.toList) :
    stripArity (w ++ "`" ++ tail) = w := by
  have htext : (w ++ "`" ++ tail).toList = w.toList ++ '`' :: tail.toList := by simp
  have hall : ∀ c ∈ w.toList, (c != '`') = true := fun c hc =>
    bne_iff_ne.mpr fun he => h (he ▸ hc)
  rw [stripArity, htext, List.takeWhile_append_of_pos hall, List.takeWhile_cons_of_neg (by decide),
    List.append_nil, String.ofList_toList]

/-! ## 2. Types that are printed as a name -/

/-- The name as which a type is printed, where it is no more than one name. -/
def HostType.printedName? (ns : Namespaces) (t : HostType) : Option String :=
  if t.nullable || !t.args.isEmpty then none
  else
    match t.shape with
    | .primitive p => some p.hostName
    | .named q =>
      match ns.pieces q with
      | [piece] => some piece
      | _ => none
    | .array | .param _ => none

namespace HostType

variable {ns : Namespaces} {t : HostType} {name : String}

/-- Such a type is a primitive type or a type in a default namespace. -/
theorem printedName?_cases (h : t.printedName? ns = some name) :
    (∃ p, t = .primitive p ∧ p.hostName = name) ∨ ∃ q, t = .applied q [] ∧ ns.pieces q = [name] := by
  obtain ⟨shape, args, nullable⟩ := t
  unfold printedName? at h
  split at h
  · cases h
  next hplain =>
    simp only [Bool.or_eq_true, Bool.not_eq_true', not_or, Bool.not_eq_true, Bool.not_eq_false,
      List.isEmpty_iff] at hplain
    obtain ⟨rfl, rfl⟩ := hplain
    split at h
    next p hs =>
      cases hs
      exact .inl ⟨p, rfl, Option.some.inj h⟩
    next q hs =>
      cases hs
      split at h
      next piece hpieces =>
        cases h
        exact .inr ⟨q, rfl, hpieces⟩
      next => cases h
    next => cases h
    next => cases h

theorem shortText_of_printedName? (h : t.printedName? ns = some name) : t.shortText ns = name := by
  rcases printedName?_cases h with ⟨p, rfl, rfl⟩ | ⟨q, rfl, hpieces⟩
  · rfl
  · obtain ⟨hdefault, hname⟩ : (q.isGlobal || ns.isDefault q.namespaceText) = true ∧
        q.displayName = name := by
      unfold Namespaces.pieces at hpieces
      split at hpieces
      next hdefault => exact ⟨hdefault, List.singleton_inj.mp hpieces⟩
      next hdefault =>
        -- a name without a namespace counts as one in a default namespace
        have hpath : q.path = [] := by
          have hlength := congrArg List.length hpieces
          rw [List.length_append] at hlength
          exact List.eq_nil_of_length_eq_zero (by simpa using hlength)
        simp [QualifiedName.isGlobal, hpath] at hdefault
    simp [applied, shortText, hdefault, hname]

theorem legibleOwner_of_printedName? (h : t.printedName? ns = some name)
    (hn : Syntax.isName name = true) : t.LegibleOwner ns := by
  rcases printedName?_cases h with ⟨p, rfl, rfl⟩ | ⟨q, rfl, hpieces⟩
  · exact ⟨rfl, nofun⟩
  · refine ⟨⟨?_, trivial⟩, nofun⟩
    rw [hpieces]
    exact List.forall_mem_singleton.mpr hn

end HostType

/-- An expression is written like the name of a type only if it has a piece. -/
theorem Syntax.Node.segments?_ne_nil (node : Node) : node.segments? ≠ some [] := by
  cases node with
  | name => exact nofun
  | member object id args span =>
    intro h
    simp [segments?] at h
  | _ => exact nofun

/-- A type that is printed as a name is written as that name. -/
theorem HostType.Mirrors.eq_named {ns : Namespaces} {t : HostType} {name : String}
    {node : TypeNode} (h : t.Mirrors ns node) (hp : t.printedName? ns = some name) :
    ∃ id span, node = .named [.mk id []] span ∧ id.text = name := by
  rcases printedName?_cases hp with ⟨p, rfl, rfl⟩ | ⟨q, rfl, hpieces⟩
  · exact h
  · obtain ⟨segments, span, rfl, hnames, -, hargs⟩ := h
    rw [hpieces] at hnames
    obtain ⟨segment, rfl, hname⟩ := List.map_eq_singleton_iff.mp hnames
    obtain ⟨id, args⟩ := segment
    have hargs : args = [] := hargs
    exact ⟨id, span, by rw [hargs], hname⟩

/-- So is an expression that is the name of such a type. -/
theorem HostType.MirrorsName.eq_name {ns : Namespaces} {t : HostType} {name : String} {node : Node}
    (h : t.MirrorsName ns node) (hp : t.printedName? ns = some name) :
    ∃ id span, node = .name id [] span ∧ id.text = name := by
  obtain ⟨segments, span, hsegments, hm⟩ := h
  obtain ⟨id, _, hnode, hid⟩ := hm.eq_named hp
  cases hnode
  cases node with
  | name id' args span' =>
    cases hsegments
    exact ⟨_, _, rfl, hid⟩
  | member object id' args span' =>
    -- a member access has a piece more than its object
    obtain ⟨front, hfront, heq⟩ := Option.map_eq_some_iff.mp hsegments
    have hlength := congrArg List.length heq
    rw [List.length_append] at hlength
    have hnil : front = [] := List.eq_nil_of_length_eq_zero (by simpa using hlength)
    rw [hnil] at hfront
    exact absurd hfront (Syntax.Node.segments?_ne_nil object)
  | _ => cases hsegments

/-! ## 3. Types around types -/

theorem HostType.subst_applied (q : QualifiedName) (type : HostType) :
    (applied q [param 0]).subst [type] = applied q [type] := by
  obtain ⟨shape, args, nullable⟩ := type
  simp [applied, param, subst]

namespace Surface

/-- A type is what its printed name means. -/
def Prints (s : Surface) (type : HostType) : Prop :=
  ∃ name, type.printedName? s.namespaces = some name ∧ Syntax.isName name = true ∧
    s.typeNamed? name = some type

/-- A type can be read where it is printed, and is read as itself. -/
structure ReadsType (s : Surface) (type : HostType) : Prop where
  legible : type.Legible s.namespaces
  again : ∀ node, type.Mirrors s.namespaces node → s.typeOf node = .ok type

variable {s : Surface} {type : HostType}

/-- What holds of the type that each of some written types means holds of all of them. -/
theorem forall_mem_typesOf {P : HostType → Prop} {nodes : List TypeNode} {types : List HostType}
    (hn : ∀ node ∈ nodes, ∀ type, s.typeOf node = .ok type → P type)
    (h : s.typesOf nodes = .ok types) : ∀ type ∈ types, P type := by
  induction nodes generalizing types with
  | nil =>
    cases h
    exact List.forall_mem_nil _
  | cons node nodes ih =>
    obtain ⟨hfirst, hrest⟩ := List.forall_mem_cons.mp hn
    obtain ⟨type, htype, h⟩ := bind_eq_ok.mp h
    obtain ⟨types, htypes, h⟩ := bind_eq_ok.mp h
    cases h
    exact List.forall_mem_cons.mpr ⟨hfirst type htype, ih hrest htypes⟩

theorem typesOf_of_mirrors {types : List HostType} {nodes : List TypeNode}
    (ht : ∀ type ∈ types, s.ReadsType type)
    (h : List.Forall₂ (HostType.Mirrors s.namespaces) types nodes) : s.typesOf nodes = .ok types := by
  induction h with
  | nil => rfl
  | @cons type node types nodes hfirst _ ih =>
    obtain ⟨hread, hrest⟩ := List.forall_mem_cons.mp ht
    rw [typesOf, hread.again node hfirst, ih hrest]
    rfl

theorem lastTypes_eq (segments : List Segment) :
    s.lastTypes segments = s.typesOf (TypeNode.lastArgs segments) := by
  match segments with
  | [] => rfl
  | [.mk name args] => rfl
  | _ :: segment :: segments =>
    rw [lastTypes, lastTypes_eq (segment :: segments)]
    rfl

theorem readsType_of_prints (ht : s.Prints type) : s.ReadsType type := by
  obtain ⟨name, hprinted, hname, hnamed⟩ := ht
  refine ⟨(HostType.legibleOwner_of_printedName? hprinted hname).1, fun node hm => ?_⟩
  obtain ⟨id, span, rfl, rfl⟩ := hm.eq_named hprinted
  show s.plainType id.text span = _
  rw [plainType, hnamed]

theorem ReadsType.arrayOf (h : s.ReadsType type) : s.ReadsType (.arrayOf type) := by
  refine ⟨⟨rfl, h.legible, trivial⟩, fun node hm => ?_⟩
  obtain ⟨element, span, rfl, first, rest, hnodes, hm, -⟩ := hm
  cases hnodes
  rw [typeOf, h.again element hm]
  rfl

/-- The name of the nullable types means their definition. -/
def ReadsNullable (s : Surface) : Prop :=
  ∃ definition, s.typeNamed? ("Nullable" ++ "`" ++ toString 1) = some definition ∧
    definition.isNamed WellKnown.nullable = true

theorem genericType_nullable (hs : s.ReadsNullable) (span : Span) :
    s.genericType "Nullable" [type] span = .ok type.orNull := by
  obtain ⟨definition, hfound, hnullable⟩ := hs
  simp only [genericType, List.length_singleton, plainType, hfound, bind, Except.bind, hnullable]
  rfl

theorem ReadsType.orNull (hs : s.ReadsNullable) (h : s.ReadsType type) : s.ReadsType type.orNull := by
  obtain ⟨shape, args, nullable⟩ := type
  cases nullable with
  | true => exact h
  | false =>
    -- only value types get null added; all others are printed as before
    cases hvalue : HostType.isValueType ⟨shape, args, false⟩ with
    | false =>
      rw [HostType.orNull, hvalue]
      exact h
    | true =>
      have hnull : HostType.orNull ⟨shape, args, false⟩ = ⟨shape, args, true⟩ := by
        rw [HostType.orNull, hvalue]
        rfl
      rw [hnull]
      refine ⟨by cases shape <;> exact h.legible, fun node hm => ?_⟩
      obtain ⟨id, inner, span, rfl, hid, hm⟩ := hm
      have hinner : s.typeOf inner = .ok ⟨shape, args, false⟩ := h.again inner hm
      have hgeneric : s.genericType "Nullable" [⟨shape, args, false⟩] span =
          .ok (HostType.orNull ⟨shape, args, false⟩) := genericType_nullable hs span
      rw [hnull, ← hid] at hgeneric
      simp only [typeOf, lastTypes, typesOf, hinner, bind, Except.bind, pure, Except.pure]
      exact hgeneric

/-- The type of an entry with one parameter is read where it is printed with an argument. -/
structure PrintsApplied (s : Surface) (e : TypeEntry) : Prop where
  type : e.type = .applied e.name [.param 0]
  arity : stripArity e.name.name ++ "`" ++ toString 1 = e.name.name
  names : ∀ piece ∈ s.namespaces.pieces e.name, Syntax.isName piece = true
  named : s.typeNamed? (dotted (s.namespaces.pieces e.name) ++ "`" ++ toString 1) = some e.type

theorem ReadsType.applied {e : TypeEntry} (he : s.PrintsApplied e)
    (hn : e.type.isNamed WellKnown.nullable = false) (h : s.ReadsType type) :
    s.ReadsType (.applied e.name [type]) := by
  refine ⟨⟨he.names, h.legible, trivial⟩, fun node hm => ?_⟩
  obtain ⟨segments, span, rfl, hnames, -, hm⟩ := hm
  rw [HostType.mirrorsList_iff] at hm
  -- the argument is read first, then the definition is looked up under the printed pieces
  have hargs : s.lastTypes segments = .ok [type] := by
    rw [lastTypes_eq]
    exact typesOf_of_mirrors (List.forall_mem_singleton.mpr h) hm
  have hdotted : TypeNode.dottedName segments = dotted (s.namespaces.pieces e.name) := by
    rw [← hnames]
    rfl
  simp only [typeOf, hargs, bind, Except.bind, List.isEmpty_cons, Bool.false_eq_true, ↓reduceIte,
    hdotted, genericType, plainType, List.length_singleton, he.named, hn]
  rw [he.type, HostType.subst_applied]
  rfl

/-! ## 4. Types that are written -/

/-- Every type that a name can mean is the type of an entry, and a property holds of these, of the
types that keywords mean, and of whatever is made by arguments, arrays and null of types that have
it. -/
structure MeansOnly (s : Surface) (es : List TypeEntry) (P : HostType → Prop) : Prop where
  found : ∀ name type, s.typeNamed? name = some type →
    ∃ e ∈ es, e.type = type ∧ e.name.name = lastPiece name
  keyword : ∀ word p, Primitive.ofKeyword? word = some p → P (.primitive p)
  plain : ∀ e ∈ es, '`' ∉ e.name.name.toList → P e.type
  arity : ∀ e ∈ es, '`' ∈ e.name.name.toList →
    stripArity e.name.name ++ "`" ++ toString 1 = e.name.name
  applied : ∀ e ∈ es, '`' ∈ e.name.name.toList → e.type.isNamed WellKnown.nullable = false →
    ∀ {type}, P type → P (e.type.subst [type])
  arrayOf : ∀ {type}, P type → P (.arrayOf type)
  orNull : ∀ {type}, P type → P type.orNull

namespace MeansOnly

variable {es : List TypeEntry} {P : HostType → Prop} {words : List String} {span : Span}

theorem plainType (h : s.MeansOnly es P) (hw : ∀ w ∈ words, Syntax.isName w = true)
    (ht : s.plainType (dotted words) span = .ok type) : P type := by
  have hdots : ∀ w ∈ words, '.' ∉ w.toList := fun w hin => Syntax.no_dot_of_isName (hw w hin)
  unfold Surface.plainType at ht
  split at ht
  next found hfound =>
    cases ht
    obtain ⟨e, he, rfl, hlast⟩ := h.found _ _ hfound
    -- the simple name of the entry is the last of the words, so it has no backtick
    refine h.plain e he ?_
    have hpiece : lastPiece (dotted words ++ "") = words.getLastD "" ++ "" :=
      lastPiece_dotted_append hdots (by decide)
    rw [String.append_empty, String.append_empty] at hpiece
    rw [hlast, hpiece, List.getLastD_eq_getLast?]
    cases hl : words.getLast? with
    | none => decide
    | some w => exact Syntax.no_backtick_of_isName (hw w (List.mem_of_getLast? hl))
  next => cases ht

theorem genericType (h : s.MeansOnly es P) (hw : ∀ w ∈ words, Syntax.isName w = true)
    (hne : words ≠ []) {args : List HostType} (ha : ∀ a ∈ args, P a)
    (ht : s.genericType (dotted words) args span = .ok type) : P type := by
  have hdots : ∀ w ∈ words, '.' ∉ w.toList := fun w hin => Syntax.no_dot_of_isName (hw w hin)
  obtain ⟨definition, hd, ht⟩ := bind_eq_ok.mp ht
  unfold Surface.plainType at hd
  split at hd
  next found hfound =>
    cases hd
    obtain ⟨e, he, rfl, hlast⟩ := h.found _ _ hfound
    -- the simple name of the entry is the last of the words with the number of arguments
    obtain ⟨w, hwlast⟩ : ∃ w, words.getLast? = some w :=
      ⟨_, List.getLast?_eq_getLast_of_ne_nil hne⟩
    rw [String.append_assoc, lastPiece_dotted_append hdots (no_dot_in_arity _),
      List.getLastD_eq_getLast?, hwlast, Option.getD_some, ← String.append_assoc] at hlast
    have hgeneric : '`' ∈ e.name.name.toList := by rw [hlast]; simp
    -- its own number of parameters is one, so there is one argument
    have harity := h.arity e he hgeneric
    rw [hlast, stripArity_append (Syntax.no_backtick_of_isName (hw w (List.mem_of_getLast? hwlast))),
      String.append_right_inj] at harity
    obtain ⟨a, rfl⟩ := List.length_eq_one_iff.mp (Nat.repr_inj.mp harity).symm
    have ha := ha a (List.mem_singleton_self _)
    cases hn : e.type.isNamed WellKnown.nullable with
    | true =>
      rw [hn] at ht
      cases ht
      exact h.orNull ha
    | false =>
      rw [hn] at ht
      cases ht
      exact h.applied e he hgeneric hn ha
  next => cases hd

/-- So it holds of every type that can be written. -/
theorem typeOf (h : s.MeansOnly es P) {node : TypeNode} (hn : node.Named)
    (ht : s.typeOf node = .ok type) : P type := by
  -- by induction on the written type, part by part
  induction hn generalizing type with
  | @mk node hwords _ ih =>
    cases node with
    | predefined keyword =>
      unfold Surface.typeOf keywordType at ht
      split at ht
      next p hp =>
        cases ht
        exact h.keyword _ p hp
      next => cases ht
    | named segments span =>
      obtain ⟨args, hargs, ht⟩ := bind_eq_ok.mp ht
      rw [lastTypes_eq] at hargs
      -- arguments that are not those of the last segment do not count
      have hall : ∀ a ∈ args, P a := by
        refine forall_mem_typesOf (fun inner hin type ht => ih inner ?_ ht) hargs
        unfold TypeNode.lastArgs at hin
        cases hl : segments.getLast? with
        | none =>
          rw [hl] at hin
          cases hin
        | some segment =>
          rw [hl] at hin
          exact List.mem_flatMap.mpr ⟨segment, List.mem_of_getLast? hl, hin⟩
      cases args with
      | nil => exact h.plainType hwords ht
      | cons a args =>
        refine h.genericType hwords ?_ hall ht
        intro hnil
        rw [List.map_eq_nil_iff.mp hnil] at hargs
        cases hargs
    | array element span =>
      obtain ⟨inner, hinner, ht⟩ := bind_eq_ok.mp ht
      cases ht
      exact h.arrayOf (ih element (List.mem_singleton_self _) hinner)
    | nullable inner span =>
      obtain ⟨type, hinner, ht⟩ := bind_eq_ok.mp ht
      cases ht
      exact h.orNull (ih inner (List.mem_singleton_self _) hinner)

end MeansOnly

/-- Every type that a name can mean is the type of an entry that is read where it is printed. -/
structure ReadsEntries (s : Surface) (es : List TypeEntry) : Prop where
  found : ∀ name type, s.typeNamed? name = some type →
    ∃ e ∈ es, e.type = type ∧ e.name.name = lastPiece name
  keyword : ∀ word p, Primitive.ofKeyword? word = some p → s.Prints (.primitive p)
  plain : ∀ e ∈ es, '`' ∉ e.name.name.toList → s.Prints e.type
  generic : ∀ e ∈ es, '`' ∈ e.name.name.toList → s.PrintsApplied e
  nullable : s.ReadsNullable

namespace ReadsEntries

variable {es : List TypeEntry}

theorem meansOnly (h : s.ReadsEntries es) : s.MeansOnly es s.ReadsType where
  found := h.found
  keyword word p hp := readsType_of_prints (h.keyword word p hp)
  plain e he hplain := readsType_of_prints (h.plain e he hplain)
  arity e he hgeneric := (h.generic e he hgeneric).arity
  applied e he hgeneric hn type ht := by
    have hentry := h.generic e he hgeneric
    rw [hentry.type, HostType.subst_applied]
    exact ht.applied hentry hn
  arrayOf := ReadsType.arrayOf
  orNull := ReadsType.orNull h.nullable

/-- Every type that can be written is read as itself where it is printed. -/
theorem readsType (h : s.ReadsEntries es) {node : TypeNode} (hn : node.Named)
    (ht : s.typeOf node = .ok type) : s.ReadsType type :=
  h.meansOnly.typeOf hn ht

end ReadsEntries

end Surface

end FatArrow
