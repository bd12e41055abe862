/-
Places in a source text.  A position counts lines, columns and bytes; a span is a pair of
positions.  Lines and columns start at one, so line zero is free to mark a span that was never
read from a text.
-/
namespace Offside

/-- A place in a text: columns count characters, the offset counts UTF-8 bytes. -/
structure Position where
  line : Nat
  column : Nat
  offset : Nat
  deriving Repr, DecidableEq

namespace Position

/-- The place before the first character of a text. -/
def first : Position := ⟨1, 1, 0⟩

/-- The place after reading `c`: a line feed opens the next line. -/
def next (place : Position) (c : Char) : Position :=
  if c = '\n' then ⟨place.line + 1, 1, place.offset + 1⟩
  else ⟨place.line, place.column + 1, place.offset + c.utf8Size⟩

/-- The place after reading every character of a run. -/
def after (place : Position) (run : List Char) : Position :=
  run.foldl next place

@[simp] theorem after_nil (place : Position) : place.after [] = place := rfl

@[simp] theorem after_cons (place : Position) (c : Char) (run : List Char) :
    place.after (c :: run) = (place.next c).after run := rfl

theorem after_append (place : Position) (left right : List Char) :
    place.after (left ++ right) = (place.after left).after right := by
  simp [after]

/-- Line and column, as messages show them. -/
def text (place : Position) : String :=
  toString place.line ++ ":" ++ toString place.column

end Position

/-- A stretch of text from `start` up to, but not including, `stop`. -/
structure Span where
  start : Position
  stop : Position
  deriving Repr, DecidableEq

namespace Span

/-- The span of something that was never read from a text. -/
def absent : Span := ⟨⟨0, 0, 0⟩, ⟨0, 0, 0⟩⟩

/-- The empty span at one place. -/
def point (place : Position) : Span := ⟨place, place⟩

/-- Line zero marks an absent span. -/
def isAbsent (span : Span) : Bool := span.start.line == 0

/-- From the start of the first span to the end of the second. -/
def through (first last : Span) : Span := ⟨first.start, last.stop⟩

/-- Length in bytes, zero when the ends are out of order. -/
def length (span : Span) : Nat := span.stop.offset - span.start.offset

def isEmpty (span : Span) : Bool := span.start.offset == span.stop.offset

/-- Both ends in brackets. -/
def text (span : Span) : String :=
  "[" ++ span.start.text ++ " - " ++ span.stop.text ++ "]"

@[simp] theorem through_start (first last : Span) :
    (first.through last).start = first.start := rfl

@[simp] theorem through_stop (first last : Span) :
    (first.through last).stop = last.stop := rfl

@[simp] theorem isAbsent_absent : absent.isAbsent = true := rfl

end Span

end Offside
