/-!
Places in a text. Columns, offsets and lengths count bytes of the UTF-8 form; lines and columns
start at one.
-/

namespace FatArrow

/-- A stretch of text: where it starts and how many bytes it covers. -/
structure Span where
  line : Nat
  col : Nat
  offset : Nat
  len : Nat
deriving DecidableEq, Repr, Inhabited

namespace Span

/-- The span before any text. -/
def zero : Span := ⟨0, 0, 0, 0⟩

/-- The empty span at a place. -/
def point (line col offset : Nat) : Span := ⟨line, col, offset, 0⟩

/-- A span of no bytes. -/
def isEmpty (s : Span) : Bool := s.len == 0

/-- The offset just after the span. -/
def stop (s : Span) : Nat := s.offset + s.len

/-- The least span that covers both: it starts where the earlier one starts. -/
def merge (a b : Span) : Span :=
  let first := if a.offset ≤ b.offset then a else b
  { first with len := max a.stop b.stop - first.offset }

/-- The place of a span as it is named in messages, `line:col`. -/
def text (s : Span) : String := s!"{s.line}:{s.col}"

/-- The place and length of a span, `line:col+len`. -/
def debugText (s : Span) : String := s!"{s.line}:{s.col}+{s.len}"

theorem merge_offset_le_left (a b : Span) : (a.merge b).offset ≤ a.offset := by
  unfold merge; dsimp only; split <;> omega

theorem stop_le_merge_stop (a b : Span) : a.stop ≤ (a.merge b).stop := by
  unfold merge stop; dsimp only; split <;> omega

theorem merge_self (s : Span) : s.merge s = s := by
  have hlen : max s.stop s.stop - s.offset = s.len := by
    rw [Nat.max_self]
    exact Nat.add_sub_cancel_left ..
  rw [merge, if_pos (Nat.le_refl _), hlen]

end Span

/-- The characters of a text whose bytes are the half-open range `first … stop`, when both ends
fall between characters. -/
def bytesBetween? (first stop : Nat) : List Char → Option (List Char)
  | [] => if first = 0 ∧ stop = 0 then some [] else none
  | c :: cs =>
    if first = 0 then
      if stop = 0 then some []
      else if c.utf8Size ≤ stop then (bytesBetween? 0 (stop - c.utf8Size) cs).map (c :: ·)
      else none
    else if c.utf8Size ≤ first ∧ first ≤ stop then
      bytesBetween? (first - c.utf8Size) (stop - c.utf8Size) cs
    else none

/-- The text a span covers, when its ends fall between characters of the source. -/
def Span.slice? (s : Span) (source : String) : Option String :=
  (bytesBetween? s.offset s.stop source.toList).map String.ofList

/-- A place between two characters of a text. -/
structure Position where
  line : Nat
  col : Nat
  offset : Nat
deriving DecidableEq, Repr, Inhabited

namespace Position

/-- The place before the first character. -/
def start : Position := ⟨1, 1, 0⟩

/-- The place after one more character: a line feed opens the next line. -/
def next (p : Position) (c : Char) : Position :=
  if c = '\n' then ⟨p.line + 1, 1, p.offset + c.utf8Size⟩
  else ⟨p.line, p.col + c.utf8Size, p.offset + c.utf8Size⟩

/-- The place after a run of characters. -/
def after (p : Position) (cs : List Char) : Position :=
  cs.foldl next p

/-- The span between two places. -/
def spanTo (p q : Position) : Span :=
  ⟨p.line, p.col, p.offset, q.offset - p.offset⟩

@[simp] theorem after_nil (p : Position) : p.after [] = p := rfl

@[simp] theorem after_cons (p : Position) (c : Char) (cs : List Char) :
    p.after (c :: cs) = (p.next c).after cs := rfl

theorem after_append (p : Position) (cs ds : List Char) :
    p.after (cs ++ ds) = (p.after cs).after ds := by
  simp [after, List.foldl_append]

end Position

/-- A line without the carriage return before its line feed. -/
def chomp (line : List Char) : List Char :=
  if line.getLast? = some '\r' then line.dropLast else line

/-- The lines of a text. A line ends at a line feed, or at a carriage return and line feed; text
after the last line feed is a line unless it is empty. -/
def textLines (s : String) : List String :=
  let pieces := s.toList.splitOnP (· == '\n')
  let rest := pieces.getLastD []
  let full := pieces.dropLast.map chomp
  (if rest.isEmpty then full else full ++ [rest]).map String.ofList

/-- The source line of a place with a row of carets under its span, each line set in by two
blanks. -/
def Span.excerpt (s : Span) (source : String) : String :=
  let line := ((textLines source)[s.line - 1]?).getD ""
  "\n  " ++ line ++ "\n  " ++ "".pushn ' ' (s.col - 1) ++ "".pushn '^' (max s.len 1)

end FatArrow
