import FatArrow.Proofs.Decimal.Literal
import FatArrow.Proofs.Printing.Signs

/-!
# Printed text is scanned to its signs

A type, a constant and a term as they are printed are scanned to the signs that are printed for
them, in front of any text before which a name or a number ends.
-/

namespace FatArrow

open Binary Syntax

/-! ## 1. Texts that spell signs -/

namespace Syntax

/-- A text is scanned to signs in front of any text before which a name or a number ends. -/
def Spells (text : String) (ss : List Sign) : Prop :=
  ∀ cs ts, stopped cs = true → Scans cs ts → Scans (text.toList ++ cs) (ss ++ ts)

/-- A text begins with a name, whatever follows it. -/
def Opens (text : String) : Prop := ∀ cs, opensName (text.toList ++ cs) = true

theorem stopped_dot {cs : List Char} (h : opensName cs = true) : stopped ('.' :: cs) = true := by
  have hdigit : startsWith Text.isDigit cs = false := by
    cases cs with
    | nil => cases h
    | cons c cs => exact Text.isDigit_of_isNameStart h
  rw [stopped, List.tail_cons, hdigit, Bool.and_false]
  rfl

theorem Opens.append {text : String} (h : Opens text) (rest : String) : Opens (text ++ rest) := by
  intro cs
  rw [String.toList_append, List.append_assoc]
  exact h _

namespace Spells

theorem name {s : String} (hs : isName s = true) : Spells s [Sign.name s] :=
  fun _ _ hstop h => .name hs hstop h

/-- Texts with commas between them. -/
theorem commas {α : Type} {text : α → String} {signs : α → List Sign} {items : List α}
    (hitems : ∀ a ∈ items, Spells (text a) (signs a)) :
    Spells (", ".intercalate (items.map text)) (commas (items.map signs)) := by
  induction items with
  | nil => exact fun cs ts _ h => h
  | cons a items ih =>
    obtain ⟨hfirst, hrest⟩ := List.forall_mem_cons.mp hitems
    cases items with
    | nil =>
      intro cs ts hstop h
      exact hfirst cs ts hstop h
    | cons b items =>
      intro cs ts hstop h
      have hlist := ih hrest cs ts hstop h
      have hcomma := Scans.comma (Scans.blank hlist.plain)
      simp only [List.map_cons, String.intercalate_cons_cons, String.toList_append,
        List.append_assoc, Syntax.commas]
      exact hfirst _ _ rfl hcomma

/-- Names with points between them. -/
theorem dots {names : List String} (hne : names ≠ []) (hnames : ∀ s ∈ names, isName s = true) :
    Spells (".".intercalate names) (dots names) := by
  induction names with
  | nil => exact absurd rfl hne
  | cons s names ih =>
    obtain ⟨hfirst, hrest⟩ := List.forall_mem_cons.mp hnames
    cases names with
    | nil => exact fun cs ts hstop h => .name hfirst hstop h
    | cons t names =>
      intro cs ts hstop h
      have hlist := ih (List.cons_ne_nil _ _) hrest cs ts hstop h
      have hopens : opensName ((".".intercalate (t :: names)).toList ++ cs) = true := by
        have ht := hrest t (List.mem_cons_self ..)
        cases names with
        | nil => exact opensName_append ht
        | cons u names =>
          simp only [String.intercalate_cons_cons, String.toList_append, List.append_assoc]
          exact opensName_append ht
      have hdot := Scans.dot hopens hlist
      simp only [String.intercalate_cons_cons, String.toList_append, List.append_assoc,
        Syntax.dots]
      exact .name hfirst (stopped_dot hopens) hdot

/-- Texts in angle brackets behind a name. -/
theorem angled {name : String} {names : List Sign} {α : Type} (text : α → String)
    (signs : α → List Sign) {a : α} {items : List α} (hname : Spells name names)
    (hopens : Opens (text a)) (hitems : ∀ b ∈ a :: items, Spells (text b) (signs b)) :
    Spells (name ++ ("<" ++ ", ".intercalate ((a :: items).map text) ++ ">"))
      (names ++ angled ((a :: items).map signs)) := by
  intro cs ts hstop h
  have hlist := commas hitems _ _ (rfl : stopped ('>' :: cs) = true) (Scans.close h)
  have hfirst : opensName ((", ".intercalate ((a :: items).map text)).toList ++ '>' :: cs) = true := by
    cases items with
    | nil => exact hopens _
    | cons b items =>
      simp only [List.map_cons, String.intercalate_cons_cons, String.toList_append,
        List.append_assoc]
      exact hopens _
  have hless := Scans.less hfirst hlist
  have := hname _ _ rfl hless
  simp only [String.toList_append, List.append_assoc, Syntax.angled, List.map_cons,
    List.isEmpty_cons, Bool.false_eq_true, ↓reduceIte, List.cons_append]
  simp only [List.map_cons] at this
  exact this

end Spells

end Syntax

/-! ## 2. Types -/

theorem Primitive.isName_hostName (p : Primitive) : isName p.hostName = true := by
  have hall : ∀ p ∈ Primitive.all, isName p.hostName = true := by decide
  exact hall p p.mem_all

/-- A printed name is its pieces with points between them. -/
theorem Namespaces.intercalate_pieces (ns : Namespaces) (q : QualifiedName) :
    ".".intercalate (ns.pieces q) =
      (if q.isGlobal || ns.isDefault q.namespaceText then "" else q.namespaceText ++ ".")
        ++ q.displayName := by
  unfold Namespaces.pieces
  by_cases hshort : (q.isGlobal || ns.isDefault q.namespaceText) = true
  · simp only [hshort, ↓reduceIte]
    simp
  · have hpath : q.path ≠ [] := by
      intro hnil
      exact hshort (by simp [QualifiedName.isGlobal, hnil])
    simp only [hshort, Bool.false_eq_true, ↓reduceIte]
    rw [String.intercalate_append_of_ne_nil hpath (List.cons_ne_nil _ _),
      String.intercalate_singleton]
    rfl

namespace HostType

variable {ns : Namespaces}

theorem shortTexts_eq_map (ts : List HostType) : shortTexts ns ts = ts.map (shortText ns) := by
  induction ts with
  | nil => rfl
  | cons t ts ih => rw [shortTexts, ih, List.map_cons]

/-- A type with the mark of null is scanned when the type is. -/
theorem spells_orNull {base : String} {bs : List Sign} (h : Spells base bs ∧ Opens base)
    (nullable : Bool) :
    Spells (if nullable then "Nullable<" ++ base ++ ">" else base)
        (if nullable then Sign.name "Nullable" :: angled [bs] else bs) ∧
      Opens (if nullable then "Nullable<" ++ base ++ ">" else base) := by
  cases nullable with
  | false => exact h
  | true =>
    have hname : isName "Nullable" = true := by decide
    have htext : "Nullable<" ++ base ++ ">" = "Nullable" ++ ("<" ++ base ++ ">") := by
      rw [← String.append_assoc, ← String.append_assoc]
      rfl
    simp only [↓reduceIte]
    rw [htext]
    refine ⟨?_, Opens.append (fun cs => opensName_append hname) _⟩
    have hitems : ∀ b ∈ [base], Spells (id b) bs := List.forall_mem_singleton.mpr h.1
    have := (Spells.name hname).angled id (fun _ => bs) h.2 hitems
    simpa using this

/-- A legible type is scanned to its signs, and begins with a name. -/
theorem spells_shortText (t : HostType) (ht : t.Legible ns) :
    Spells (t.shortText ns) (t.signs ns) ∧ Opens (t.shortText ns) := by
  induction t with
  | mk shape args nullable ih =>
    unfold shortText signs
    refine spells_orNull ?_ nullable
    cases shape with
    | primitive p =>
      have hname := p.isName_hostName
      exact ⟨.name hname, fun cs => opensName_append hname⟩
    | param i => exact absurd ht (by simp [Legible])
    | array =>
      simp only [Legible, legibleList_iff] at ht
      obtain ⟨a, rfl⟩ := List.length_eq_one_iff.mp ht.1
      obtain ⟨hspells, hopens⟩ := ih a (List.mem_singleton_self a) (ht.2 a (List.mem_singleton_self a))
      refine ⟨fun cs ts hstop h => ?_, hopens.append _⟩
      have := hspells _ _ rfl (Scans.leftBracket (Scans.rightBracket h))
      simp only [shortTexts, signsList, List.headD_cons, String.toList_append, List.append_assoc]
      exact this
    | named q =>
      simp only [Legible, legibleList_iff] at ht
      obtain ⟨hnames, hargs⟩ := ht
      have hdots := Spells.dots (ns.pieces_ne_nil q) hnames
      have hopens : Opens (".".intercalate (ns.pieces q)) := by
        obtain ⟨s, names, hpieces⟩ := List.exists_cons_of_ne_nil (ns.pieces_ne_nil q)
        rw [hpieces] at hnames ⊢
        have hs : Opens s := fun cs => opensName_append (hnames s (List.mem_cons_self ..))
        cases names with
        | nil => exact hs
        | cons t names =>
          rw [String.intercalate_cons_cons]
          exact (hs.append _).append _
      simp only [shortTexts_eq_map, signsList_eq_map, ← ns.intercalate_pieces q]
      cases args with
      | nil => simpa [angled] using ⟨hdots, hopens⟩
      | cons a args =>
        refine ⟨hdots.angled _ _ (ih a (List.mem_cons_self ..) (hargs a (List.mem_cons_self ..))).2
          fun b hb => (ih b hb (hargs b hb)).1, hopens.append _⟩

end HostType

/-! ## 3. Constants -/

namespace Syntax

theorem startsWith_isDigit {ds : List Char} (h : isDigits ds = true) (cs : List Char) :
    startsWith Text.isDigit (ds ++ cs) = true := by
  obtain ⟨hne, hall⟩ := isDigits_iff.mp h
  cases ds with
  | nil => exact absurd rfl hne
  | cons d ds => exact hall d (List.mem_cons_self ..)

/-- A `-` before a digit. -/
theorem Scans.minus {cs : List Char} {ss : List Sign} (hd : startsWith Text.isDigit cs = true)
    (h : Scans cs ss) : Scans ('-' :: cs) (Sign.minus :: ss) := by
  refine token '-' [] ?_ (by decide) rfl h
  cases cs with
  | nil => cases hd
  | cons c cs =>
    have hc : Text.isDigit c = true := hd
    have htwo : twoCharOperator? '-' c = none := by
      unfold twoCharOperator?
      split <;> first | exact absurd hc (by decide) | simp_all
    show operator '-' (c :: cs) = _
    unfold operator
    rw [List.head?_cons, Option.bind_some, htwo]
    rfl

namespace Spells

variable {kind : TokenKind} {text : String}

theorem number (h : Spells text [(kind, text)]) (hd : startsWith Text.isDigit text.toList = true) :
    Spells text (numberSigns kind text) := by
  rwa [numberSigns_of_digit kind hd]

/-- A number behind a minus sign. -/
theorem minus (h : Spells text [(kind, text)]) (hd : startsWith Text.isDigit text.toList = true) :
    Spells ("-" ++ text) (numberSigns kind ("-" ++ text)) := by
  intro cs ts hstop hts
  have hstart : startsWith Text.isDigit (text.toList ++ cs) = true := by
    generalize text.toList = ds at hd
    cases ds with
    | nil => cases hd
    | cons d ds => exact hd
  have := Scans.minus hstart (h cs ts hstop hts)
  rw [numberSigns_minus, String.toList_append]
  exact this

end Spells

end Syntax

namespace Value

/-- Digits with a suffix are scanned as one literal. -/
theorem spells_digits (n : Nat) (suffix : String) (hs : suffix.toList ∈ suffixes)
    (hr : suffix.toList.any isRealSuffix = false) :
    Spells (Nat.repr n ++ suffix) [(.intLiteral, Nat.repr n ++ suffix)] := by
  intro cs ts hstop hts
  refine Scans.number (isDigits_toDigits n) .none .none hs ?_ ?_ hstop hts
  · simp [hr]
  · rw [String.toList_append, Nat.toList_repr]
    rfl

theorem startsWith_repr (n : Nat) (suffix : String) :
    startsWith Text.isDigit (Nat.repr n ++ suffix).toList = true := by
  rw [String.toList_append, Nat.toList_repr]
  exact startsWith_isDigit (isDigits_toDigits n) _

theorem toString_negSucc (n : Nat) (suffix : String) :
    toString (Int.negSucc n) ++ suffix = "-" ++ (Nat.repr (n + 1) ++ suffix) := by
  rw [← String.append_assoc]
  rfl

/-- An integer with a suffix is scanned as one literal, behind its minus sign if it has one. -/
theorem spells_integer (n : Int) (suffix : String) (hs : suffix.toList ∈ suffixes)
    (hr : suffix.toList.any isRealSuffix = false) :
    Spells (toString n ++ suffix) (numberSigns .intLiteral (toString n ++ suffix)) := by
  cases n with
  | ofNat n => exact (spells_digits n suffix hs hr).number (startsWith_repr n suffix)
  | negSucc n =>
    rw [toString_negSucc]
    exact (spells_digits (n + 1) suffix hs hr).minus (startsWith_repr (n + 1) suffix)

/-- An integer is scanned to its signs, whatever its sign is. -/
theorem spells_integerText (kind : IntegerKind) (w : BitVec kind.width) :
    Spells (literalText (.integer kind w)) (signs (.integer kind w)) := by
  cases hsuffix : kind.suffix? with
  | some suffix =>
    have htext : literalText (.integer kind w) = toString (kind.denote w) ++ suffix := by
      cases kind <;> cases hsuffix <;> simp [literalText]
    have hletters : suffix.toList ∈ suffixes ∧ suffix.toList.any isRealSuffix = false := by
      cases kind <;> cases hsuffix <;> decide
    simp only [signs, hsuffix]
    rw [htext]
    exact spells_integer _ suffix hletters.1 hletters.2
  | none =>
    -- the narrow types are converted from a literal without a suffix
    have htext : literalText (.integer kind w) = "((" ++ (Primitive.integer kind).hostName ++
        ")(" ++ (toString (kind.denote w) ++ "") ++ "))" := by
      cases kind <;> cases hsuffix <;> simp [literalText]
    intro cs ts hstop h
    have hdigits := spells_integer (kind.denote w) "" (by decide) (by decide) _ _ rfl
      (Scans.rightParen (Scans.rightParen h))
    have hname := Scans.name (Primitive.integer kind).isName_hostName rfl
      (Scans.rightParen (Scans.leftParen hdigits))
    have := Scans.leftParen (Scans.leftParen hname)
    simp only [signs, hsuffix]
    rw [htext]
    simp only [String.toList_append, List.append_assoc, List.cons_append]
    simp only [String.append_empty] at this
    exact this

/-- A text that denotes a number is scanned as one literal, with its suffix. -/
theorem spells_float {text suffix : String} {ds frac exp : List Char} {p : Int} {v : ℚ}
    (h : Decimal.Parts text.toList ds frac exp p v) (hs : suffix.toList ∈ suffixes) :
    Spells (text ++ suffix) [(.realLiteral, text ++ suffix)] ∧
      startsWith Text.isDigit (text ++ suffix).toList = true := by
  refine ⟨fun cs ts hstop hts => ?_, ?_⟩
  · refine Scans.number h.digits h.fraction h.power.isExponent hs ?_ ?_ hstop hts
    · have hreal : (decide (frac.length > 0) || decide (exp.length > 0)) = true := by
        rcases h.real with hne | hne <;> simp [List.length_pos_of_ne_nil hne]
      rw [hreal, Bool.true_or, if_pos rfl]
    · rw [String.toList_append, h.text_eq, List.append_assoc, List.append_assoc]
  · rw [String.toList_append, h.text_eq, List.append_assoc]
    exact startsWith_isDigit h.digits _

/-- A finite float without a sign is scanned as one literal. -/
theorem spells_single {x : Float32} {m : Nat} {q : Int} (h : datumOf32 x = .finite false m q) :
    Spells (literalText (.single x)) [(.realLiteral, literalText (.single x))] ∧
      startsWith Text.isDigit (literalText (.single x)).toList = true := by
  obtain ⟨ds, frac, exp, p, hparts⟩ := Decimal.parts_float32Text h
  rw [Decimal.literalText_single h]
  exact spells_float hparts (by decide)

/-- A finite float without a sign is scanned as one literal. -/
theorem spells_double {x : Float} {m : Nat} {q : Int} (h : datumOf x = .finite false m q) :
    Spells (literalText (.double x)) [(.realLiteral, literalText (.double x))] ∧
      startsWith Text.isDigit (literalText (.double x)).toList = true := by
  obtain ⟨ds, frac, exp, p, hparts⟩ := Decimal.parts_floatText h
  rw [Decimal.literalText_double h, ← String.append_empty (s := Decimal.Layout.literal.floatText x)]
  exact spells_float hparts (by decide)

theorem signs_single {x : Float32} {m : Nat} {q : Int} (h : datumOf32 x = .finite false m q) :
    signs (.single x) = [(.realLiteral, literalText (.single x))] := by
  simp only [signs, floatName?_of_word (Decimal.isFinite_widenFloat h)]
  exact numberSigns_of_digit _ (spells_single h).2

theorem signs_double {x : Float} {m : Nat} {q : Int} (h : datumOf x = .finite false m q) :
    signs (.double x) = [(.realLiteral, literalText (.double x))] := by
  simp only [signs, floatName?_of_word (Format.decode_eq_finite h).2.2.1]
  exact numberSigns_of_digit _ (spells_double h).2

/-- A legible constant is scanned to its signs. -/
theorem spells_literalText (v : Value) (hv : v.Legible) : Spells v.literalText v.signs := by
  cases v with
  | null => exact fun cs ts hstop h => Scans.word (s := "null") (by decide) hstop h
  | bool b =>
    cases b with
    | true => exact fun cs ts hstop h => Scans.word (s := "true") (by decide) hstop h
    | false => exact fun cs ts hstop h => Scans.word (s := "false") (by decide) hstop h
  | string s => exact fun cs ts _ h => .quoted rfl (fun _ => rfl) (by decide) s.toList h
  | char c => exact fun cs ts _ h => .quoted rfl (fun _ => rfl) (by decide) [c] h
  | single x =>
    obtain ⟨m, q, hx⟩ := hv
    rw [signs_single hx]
    exact (spells_single hx).1
  | double x =>
    obtain ⟨m, q, hx⟩ := hv
    rw [signs_double hx]
    exact (spells_double hx).1
  | integer kind w => exact spells_integerText kind w
  | _ => exact absurd hv (by simp [Legible])

end Value

/-! ## 4. Terms -/

variable {ns : Namespaces} {C : Value → Prop}

namespace Term

theorem texts_eq_map (ts : List Term) : texts ns ts = ts.map (text ns) := by
  induction ts with
  | nil => rfl
  | cons t ts ih => rw [texts, ih, List.map_cons]

/-- Terms in parentheses are scanned when each of them is. -/
theorem scans_args {ts : List Term} {cs : List Char} {ss : List Sign}
    (h : ∀ t ∈ ts, Spells (t.text ns) (t.signs ns)) (hss : Scans cs ss) :
    Scans ('(' :: ((", ".intercalate (ts.map (text ns))).toList ++ ')' :: cs))
      (argsSigns (ts.map (signs ns)) ++ ss) := by
  have := Scans.leftParen (Spells.commas h _ _ rfl (Scans.rightParen hss))
  simp only [argsSigns, List.cons_append, List.append_assoc]
  exact this

/-- A call of a method by its name is scanned when its arguments are, and begins with the name. -/
theorem spells_freeCall {m : Method} {ts : List Term} (hm : isName m.name = true)
    (hargs : ∀ t ∈ m.typeArgs, t.Legible ns) (h : ∀ t ∈ ts, Spells (t.text ns) (t.signs ns)) :
    Spells (m.name ++ HostType.shortArgs ns m.typeArgs ++ "(" ++
        ", ".intercalate (ts.map (text ns)) ++ ")") (freeCallSigns ns m (ts.map (signs ns))) ∧
      Opens (m.name ++ HostType.shortArgs ns m.typeArgs ++ "(" ++
        ", ".intercalate (ts.map (text ns)) ++ ")") := by
  have hname : Spells (m.name ++ HostType.shortArgs ns m.typeArgs)
      (Sign.name m.name :: angled (m.typeArgs.map (HostType.signs ns))) := by
    cases hl : m.typeArgs with
    | nil => simpa [HostType.shortArgs, angled] using Spells.name hm
    | cons a as =>
      rw [hl] at hargs
      have hspells (t : HostType) (ht : t ∈ a :: as) := t.spells_shortText (hargs t ht)
      have := (Spells.name hm).angled _ _ (hspells a (List.mem_cons_self ..)).2
        fun t ht => (hspells t ht).1
      rw [HostType.shortArgs, HostType.shortTexts_eq_map]
      exact this
  have hopens : Opens m.name := fun cs => opensName_append hm
  refine ⟨fun cs ss hstop hss => ?_, (((hopens.append _).append _).append _).append _⟩
  have := hname _ _ rfl (scans_args h hss)
  simp only [String.toList_append, List.append_assoc, freeCallSigns, List.cons_append] at this ⊢
  exact this

/-- A name behind a point and an object. -/
theorem spells_behind {object text : String} {os ss : List Sign} (ho : Spells object os)
    (h : Spells text ss ∧ Opens text) : Spells (object ++ "." ++ text) (os ++ Sign.dot :: ss) := by
  intro cs ts hstop hts
  have := ho _ _ (stopped_dot (h.2 cs)) (Scans.dot (h.2 cs) (h.1 _ _ hstop hts))
  simp only [String.toList_append, List.append_assoc, List.cons_append]
  exact this

/-- A member is scanned when its object is. -/
theorem spells_member {object name : String} {os : List Sign} (ho : Spells object os)
    (hname : isName name = true) :
    Spells (object ++ "." ++ name) (os ++ [Sign.dot, Sign.name name]) :=
  spells_behind ho ⟨.name hname, fun _ => opensName_append hname⟩

/-- A call is scanned when its receiver and its arguments are. -/
theorem spells_call {receiver : String} {rs : List Sign} {m : Method} {ts : List Term}
    (hr : Spells receiver rs) (hm : isName m.name = true) (hargs : ∀ t ∈ m.typeArgs, t.Legible ns)
    (h : ∀ t ∈ ts, Spells (t.text ns) (t.signs ns)) :
    Spells (receiver ++ "." ++ m.name ++ HostType.shortArgs ns m.typeArgs ++ "(" ++
        ", ".intercalate (ts.map (text ns)) ++ ")")
      (callSigns ns rs m (ts.map (signs ns))) := by
  have := spells_behind hr (spells_freeCall hm hargs h)
  simp only [← String.append_assoc] at this
  exact this

/-- A call that is not printed on its first argument is printed behind its type, if it has one. -/
theorem text_staticCall {m : Method} {args : List Term} (h : onFirst m args = false) :
    text ns (.staticCall m args) = (match m.declaring with
      | some type => type.shortText ns ++ "."
      | none => "") ++ m.name ++ HostType.shortArgs ns m.typeArgs ++ "(" ++
        ", ".intercalate (args.map (text ns)) ++ ")" := by
  rw [text, texts_eq_map]
  cases args with
  | nil => cases m.isSequenceOp <;> cases m.declaring <;> rfl
  | cons first rest =>
    unfold onFirst at h
    rw [List.isEmpty_cons, Bool.not_false, Bool.and_true] at h
    rw [h]
    cases m.declaring <;> rfl

/-- A legible term is scanned to its signs, if its constants are. -/
theorem spells_text (hC : ∀ v, C v → Spells v.literalText v.signs) (t : Term)
    (ht : t.LegibleBy C ns) : Spells (t.text ns) (t.signs ns) := by
  induction t with
  | lambda params body => exact absurd ht (by simp [LegibleBy])
  | staticMember m => exact spells_member (m.declaring.spells_shortText ht.1.1).1 ht.2
  | param p => exact .name ht
  | const value type => exact hC value ht
  | member target m ih =>
    simp only [LegibleBy] at ht
    exact spells_member (ih ht.1) ht.2.2
  | call target m args ih ihs =>
    simp only [LegibleBy, legibleListBy_iff] at ht
    obtain ⟨htarget, -, hm, hargs, hall⟩ := ht
    rw [text, signs, texts_eq_map, signsList_eq_map]
    exact spells_call (ih htarget) hm hargs fun a ha => ihs a ha (hall a ha)
  | staticCall m args ihs =>
    simp only [LegibleBy, legibleListBy_iff] at ht
    obtain ⟨howner, hm, hargs, hall⟩ := ht
    have hspells (a : Term) (ha : a ∈ args) := ihs a ha (hall a ha)
    cases hfirst : onFirst m args with
    | true =>
      obtain ⟨hop, first, rest, rfl⟩ := exists_first hfirst
      obtain ⟨hreceiver, hrest⟩ := List.forall_mem_cons.mp hspells
      rw [text, signs, texts_eq_map, signsList_eq_map, if_pos hfirst]
      simp only [hop, List.map_cons, List.headD_cons, List.tail_cons]
      exact spells_call hreceiver hm hargs hrest
    | false =>
      rw [hfirst, if_neg Bool.false_ne_true] at howner
      rw [text_staticCall hfirst, signs, signsList_eq_map, if_neg (Bool.eq_false_iff.mp hfirst),
        staticSigns]
      cases hd : m.declaring with
      | some type =>
        exact spells_call (type.spells_shortText (howner type hd).1).1 hm hargs hspells
      | none =>
        dsimp only
        rw [String.empty_append]
        exact (spells_freeCall hm hargs hspells).1
  | binary op left right type ih ih' =>
    simp only [LegibleBy] at ht
    have hleft := ih ht.1
    have hright := ih' ht.2.1
    intro cs ss hstop hss
    by_cases hop : op = .arrayIndex
    · have := hleft _ _ rfl (Scans.leftBracket (hright _ _ rfl (Scans.rightBracket hss)))
      simp only [text, signs, hop, ↓reduceIte, String.toList_append, List.append_assoc,
        List.cons_append]
      exact this
    · have := Scans.leftParen (hleft _ _ rfl (Scans.binary op hop
        (hright _ _ rfl (Scans.rightParen hss))))
      simp only [text, signs, hop, ↓reduceIte, String.toList_append, List.append_assoc,
        List.cons_append]
      exact this
  | unary op operand type ih =>
    simp only [LegibleBy] at ht
    obtain ⟨hinc, hdec, ht⟩ := ht
    intro cs ss hstop hss
    have hafter : Scans (op.after.toList ++ ')' :: cs) (op.signsAfter ++ Sign.rightParen :: ss) := by
      have hclose := Scans.rightParen hss
      cases op with
      | postIncrement => exact absurd rfl hinc
      | postDecrement => exact absurd rfl hdec
      | arrayLength =>
        have hname : isName "Length" = true := by decide
        exact .dot (opensName_append hname) (.name hname rfl hclose)
      | _ => exact hclose
    have := Scans.leftParen (Scans.before op (Scans.leftParen (ih ht _ _ rfl
      (Scans.rightParen hafter))))
    simp only [text, signs, String.toList_append, List.append_assoc, List.cons_append]
    exact this
  | cond test ifTrue ifFalse ih ih' ih'' =>
    simp only [LegibleBy] at ht
    intro cs ss hstop hss
    have hfalse := ih'' ht.2.2 _ _ rfl (Scans.rightParen hss)
    have htrue := ih' ht.2.1 _ _ rfl (Scans.blank (Scans.colon (Scans.blank hfalse.plain)).plain)
    have := Scans.leftParen (ih ht.1 _ _ rfl (Scans.blank (Scans.question htrue).plain))
    simp only [text, signs, String.toList_append, List.append_assoc, List.cons_append]
    exact this
  | new c args ihs =>
    simp only [LegibleBy, legibleListBy_iff] at ht
    intro cs ss hstop hss
    have htype := c.declaring.spells_shortText ht.1
    have hargs := scans_args (fun a ha => ihs a ha (ht.2 a ha)) hss
    have := Scans.word (s := "new") (by decide) rfl
      (Scans.blank (htype.1 _ _ rfl hargs).plain)
    rw [text, signs, texts_eq_map, signsList_eq_map]
    simp only [String.toList_append, List.append_assoc, List.cons_append] at this ⊢
    exact this
  | array element items type ihs =>
    simp only [LegibleBy, legibleListBy_iff] at ht
    obtain ⟨⟨item, rfl, hitem⟩, hall⟩ := ht
    intro cs ss hstop hss
    have harray : (HostType.arrayOf item).Legible ns := by
      simpa [HostType.arrayOf, HostType.Legible] using hitem
    have hclose := Scans.rightBrace hss
    have hitems : Scans ((if (texts ns items).isEmpty then "" else
        " " ++ ", ".intercalate (texts ns items)).toList ++ ' ' :: '\x7d' :: cs)
        (commas (items.map (signs ns)) ++ Sign.rightBrace :: ss) := by
      rw [texts_eq_map]
      cases items with
      | nil => exact .blank hclose.plain
      | cons a items =>
        have hlist := Spells.commas (fun a ha => ihs a ha (hall a ha)) _ _ rfl
          (Scans.blank hclose.plain)
        have := Scans.blank hlist.plain
        simp only [List.map_cons, List.isEmpty_cons, Bool.false_eq_true, ↓reduceIte,
          String.toList_append, List.append_assoc] at this ⊢
        exact this
    have htype := (HostType.arrayOf item).spells_shortText harray
    have := Scans.word (s := "new") (by decide) rfl
      (Scans.blank (htype.1 _ _ rfl (Scans.blank (Scans.leftBrace hitems).plain)).plain)
    rw [text, signs, signsList_eq_map]
    simp only [String.toList_append, List.append_assoc, List.cons_append] at this ⊢
    exact this
  | cast operand type ih =>
    simp only [LegibleBy] at ht
    intro cs ss hstop hss
    have hoperand := ih ht.2 _ _ rfl (Scans.rightParen (Scans.rightParen hss))
    have htype := (type.spells_shortText ht.1).1 _ _ rfl
      (Scans.rightParen (Scans.leftParen hoperand))
    have := Scans.leftParen (Scans.leftParen htype)
    simp only [text, signs, String.toList_append, List.append_assoc, List.cons_append]
    exact this
  | index target m args ih ihs =>
    simp only [LegibleBy, legibleListBy_iff] at ht
    intro cs ss hstop hss
    have hargs := Spells.commas (fun a ha => ihs a ha (ht.2.2.2 a ha)) _ _ rfl
      (Scans.rightBracket hss)
    have := ih ht.2.1 _ _ rfl (Scans.leftBracket hargs)
    rw [text, signs, texts_eq_map, signsList_eq_map]
    simp only [String.toList_append, List.append_assoc, List.cons_append]
    exact this

/-- Parameters are scanned when their names are names. -/
theorem spells_params {ps : List Param} (h : ∀ p ∈ ps, isName p.name = true) :
    Spells (paramsText ps) (paramsSigns ps) := by
  have hlist : Spells ("(" ++ ", ".intercalate (ps.map (·.name)) ++ ")")
      (argsSigns (ps.map fun p => [Sign.name p.name])) := by
    intro cs ss hstop hss
    have := Scans.leftParen (Spells.commas (fun p hp => .name (h p hp)) _ _ rfl
      (Scans.rightParen hss))
    simp only [String.toList_append, List.append_assoc, argsSigns, List.cons_append]
    exact this
  rcases ps with _ | ⟨p, _ | ⟨q, rest⟩⟩
  · exact hlist
  · exact .name (h p (List.mem_singleton_self p))
  · exact hlist

/-- Lambdas inside lambdas are scanned to their signs, if the constants in them are. -/
theorem spells_curried (hC : ∀ v, C v → Spells v.literalText v.signs) (t : Term)
    (ht : t.CurriedBy C ns) : Spells (t.text ns) (t.curriedSigns ns) := by
  induction t with
  | lambda params body ih =>
    intro cs ss hstop hss
    have := spells_params ht.1 _ _ rfl (Scans.arrow (ih ht.2 _ _ hstop hss))
    simp only [text, curriedSigns, String.toList_append, List.append_assoc, List.cons_append]
    exact this
  | _ => exact spells_text hC _ ht

end Term

/-- A legible lambda is scanned to its signs, if the constants in it are. -/
theorem Function.tokenize_text (hC : ∀ v, C v → Spells v.literalText v.signs) {f : Function}
    (h : f.term.CurriedBy C ns) :
    ∃ ts, tokenize (f.text ns) = .ok ts ∧ ts.flatMap Token.signs = f.signs ns := by
  obtain ⟨ts, hts, hsigns⟩ := (Term.spells_curried hC f.term h [] _ rfl Scans.nil).plain .start
  refine ⟨ts, ?_, hsigns⟩
  rw [tokenize, ← hts, List.append_nil]
  rfl

end FatArrow
