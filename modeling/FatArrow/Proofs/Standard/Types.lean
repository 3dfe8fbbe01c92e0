import FatArrow.Proofs.Standard.References

/-!
# Types made of the standard types

The text of a legible type is read to its end.  In the standard context, what is read means the type
again, whatever it is made of.
-/

namespace FatArrow

open Syntax (tokenize parseType Cursor TypeNode)

/-! ## 1. The whole text of a type -/

namespace HostType

variable {ns : Namespaces} {t : HostType}

/-- A legible type is scanned to its signs, up to the end of the text. -/
theorem tokenize_shortText (ht : t.Legible ns) : ∃ tokens, tokenize (t.shortText ns) = .ok tokens ∧
    tokens.flatMap Syntax.Token.signs = t.signs ns ++ [Syntax.Sign.eof] := by
  obtain ⟨tokens, htokens, hsigns⟩ :=
    ((t.spells_shortText ht).1 [] _ rfl Syntax.Scans.nil).plain .start
  refine ⟨tokens, ?_, hsigns⟩
  rw [tokenize, ← htokens, List.append_nil]

/-- The text of a type is read up to its end, as a written type with its parts. -/
def ReadsWhole (ns : Namespaces) (t : HostType) : Prop :=
  ∃ tokens node d, tokenize (t.shortText ns) = .ok tokens ∧
    Syntax.Reader.type (Syntax.readingDepth tokens) (Cursor.ofTokens tokens) = .ok node d ∧
    d.kind = .eof ∧ t.Mirrors ns node

theorem readsWhole (ht : t.Legible ns) : t.ReadsWhole ns := by
  obtain ⟨tokens, htokens, hsigns⟩ := tokenize_shortText ht
  have hlength := Syntax.length_flatMap_signs tokens
  rw [hsigns, List.length_append, List.length_singleton] at hlength
  have hdepth : 2 * ((t.signs ns).length + ([] : List Syntax.Sign).length) + 5 ≤
      Syntax.readingDepth tokens := by
    rw [Syntax.readingDepth, List.length_nil]
    omega
  obtain ⟨node, d, g, hread, hd, hmirrors, hg⟩ := t.reads ht _ _ _ _ (by decide) (by decide)
    (Cursor.sees_ofTokens _ hsigns) hdepth
  have hend : d.kind = .eof := hd.kind (by decide)
  rw [Syntax.Reader.typeEndings_of_ne (by rw [hend]; decide) (by rw [hend]; decide)
    (Nat.zero_lt_of_lt hg)] at hread
  exact ⟨tokens, node, d, htokens, hread, hend, hmirrors⟩

end HostType

theorem Syntax.parseType_eq {text : String} {tokens : List Token} {node : TypeNode} {d : Cursor}
    (htokens : tokenize text = .ok tokens)
    (hread : Reader.type (readingDepth tokens) (Cursor.ofTokens tokens) = .ok node d) :
    parseType text = .ok node := by
  unfold parseType read
  rw [htokens]
  dsimp only
  rw [hread]

/-! ## 2. Types made of the standard ones -/

namespace Standard

variable {s : Surface} {r : Registry} {around : Surroundings} {t : HostType}

/-- The lists of an item type. -/
def listOf (item : HostType) : HostType :=
  .applied (.ofDotted "System.Collections.Generic.List`1") [item]

/-- The types made of primitive types, of the standard types without parameters, and of the lists,
sequences, arrays and nullable types of such types. -/
inductive Makes (around : Surroundings) : HostType → Prop
  | primitive {p : Primitive} (hp : p ≠ .void) : Makes around (.primitive p)
  | named {e : TypeEntry} (he : e ∈ entries around) (hplain : e.isGeneric = false) :
      Makes around e.type
  | list {t : HostType} (ht : Makes around t) : Makes around (listOf t)
  | sequence {t : HostType} (ht : Makes around t) : Makes around (.sequenceOf t)
  | array {t : HostType} (ht : Makes around t) : Makes around (.arrayOf t)
  | nullable {t : HostType} (ht : Makes around t) (hv : t.isValueType = true) :
      Makes around t.orNull

theorem outlines_plain : ∀ e ∈ outlines, e.isGeneric = false → '`' ∉ e.name.name.toList := by
  decide

/-- The two names that take one argument. -/
def sequenceNames : List String := ["System.Collections.Generic.List`1", WellKnown.enumerable]

theorem outlines_sequences : ∀ name ∈ sequenceNames, ∃ e ∈ outlines, e.name = .ofDotted name ∧
    '`' ∈ e.name.name.toList ∧ e.type.isNamed WellKnown.nullable = false := by
  decide +kernel

theorem Fills.readsApplied (h : Fills s r around) {name : String} (hn : name ∈ sequenceNames)
    (ht : s.ReadsType t) : s.ReadsType (.applied (.ofDotted name) [t]) := by
  obtain ⟨e, he, hname, hgeneric, hnull⟩ := outlines_sequences name hn
  obtain ⟨d, hd, rfl⟩ := exists_of_mem_outlines around he
  rw [← hname]
  exact ht.applied (e := d) (h.readsEntries.generic d hd hgeneric) hnull

/-- A type made of the standard ones is read where it is printed, and as itself. -/
theorem Fills.readsType_of_makes (h : Fills s r around) (ht : Makes around t) : s.ReadsType t := by
  induction ht with
  | primitive hp => exact Surface.readsType_of_prints (h.prints_primitive hp)
  | @named e he hplain =>
    have hname := outlines_plain e.outline (outline_mem he) hplain
    exact Surface.readsType_of_prints (h.prints_of_plain (e := e.outline) (outline_mem he) hname)
  | list _ ih => exact h.readsApplied (List.mem_cons_self ..) ih
  | sequence _ ih => exact h.readsApplied (List.mem_cons_of_mem _ (List.mem_cons_self ..)) ih
  | array _ ih => exact ih.arrayOf
  | nullable _ _ ih => exact ih.orNull h.readsEntries.nullable

end Standard

/-! ## 3. Reading what is printed -/

namespace Context

variable {around : Surroundings} {c : Context} {t : HostType}

/-- In the standard context, the text of a type that is made of the standard ones is read as a type
up to its end, and what is read means the type. -/
theorem parseType_shortText (hc : standard around = .ok c) (ht : Standard.Makes around t) :
    ∃ tokens node d, tokenize (t.shortText c.namespaces) = .ok tokens ∧
      Syntax.Reader.type (Syntax.readingDepth tokens) (Cursor.ofTokens tokens) = .ok node d ∧
      d.kind = .eof ∧ parseType (t.shortText c.namespaces) = .ok node ∧
      (⟨c.registry.host, c.namespaces, .none⟩ : Surface).typeOf node = .ok t := by
  have hreads := (fills_of_standard hc).readsType_of_makes ht
  obtain ⟨tokens, node, d, htokens, hread, hend, hmirrors⟩ := HostType.readsWhole hreads.legible
  exact ⟨tokens, node, d, htokens, hread, hend, Syntax.parseType_eq htokens hread,
    hreads.again node hmirrors⟩

/-- Angle brackets that close together, around an array of nullable values. -/
theorem parseType_shortText_nested : ∃ c, standard .still = .ok c ∧
    let t := Standard.listOf (Standard.listOf (.arrayOf HostType.guid.orNull))
    let text := "System.Collections.Generic.List<System.Collections.Generic.List<Nullable<Guid>[]>>"
    Standard.Makes .still t ∧ t.shortText c.namespaces = text ∧
      ∃ node, parseType text = .ok node ∧
        (⟨c.registry.host, c.namespaces, .none⟩ : Surface).typeOf node = .ok t := by
  obtain ⟨c, hc⟩ := exists_standard
  refine ⟨c, hc, ?_⟩
  intro t text
  have hentry : ∃ e ∈ Standard.entries .still, e.isGeneric = false ∧ e.type = .guid := by
    decide +kernel
  obtain ⟨e, he, hplain, htype⟩ := hentry
  have hguid : Standard.Makes .still .guid := htype ▸ .named he hplain
  have hmakes : Standard.Makes .still t := (hguid.nullable (by decide +kernel)).array.list.list
  have htext : t.shortText c.namespaces = text := by
    rw [show c.namespaces = .system from (fills_of_standard hc).namespaces]
    decide +kernel
  obtain ⟨-, node, -, -, -, -, hread, hmeans⟩ := parseType_shortText hc hmakes
  rw [htext] at hread
  exact ⟨hmakes, htext, node, hread, hmeans⟩

end Context

end FatArrow
