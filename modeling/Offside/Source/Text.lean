/-
A named source text and its table of lines.  Positions are computed here from a byte offset
alone: the line from the table, the column from the characters since the start of that line.
-/
import Offside.Source.Position

namespace Offside

/-- A text with the name under which messages show it. -/
structure SourceText where
  name : String
  content : String
  deriving Repr, DecidableEq

namespace SourceText

/-- Whether the last character is a line feed. -/
def endsLine (cs : List Char) : Bool := cs.getLast? == some '\n'

/-- A line without the carriage returns at its end. -/
def trimReturns (line : List Char) : List Char :=
  (line.reverse.dropWhile (· == '\r')).reverse

/-- The characters in the first `bytes` bytes, all of them past the end; nothing when the cut
would fall inside a character. -/
def leading? : Nat → List Char → Option (List Char)
  | 0, _ => some []
  | _ + 1, [] => some []
  | bytes + 1, c :: rest =>
    if c.utf8Size ≤ bytes + 1 then (leading? (bytes + 1 - c.utf8Size) rest).map (c :: ·)
    else none

/-- The characters from one byte offset up to another; nothing when a cut would fall inside a
character. -/
def between? (start stop : Nat) (cs : List Char) : Option (List Char) := do
  let before ← leading? start cs
  let upTo ← leading? stop cs
  pure (upTo.drop before.length)

/-- Where lines start behind the line feeds of a text that itself starts at `offset`. -/
def startsFrom (offset : Nat) : List Char → List Nat
  | [] => []
  | c :: rest =>
    if c = '\n' then (offset + c.utf8Size) :: startsFrom (offset + c.utf8Size) rest
    else startsFrom (offset + c.utf8Size) rest

/-- The byte offset of the first character of every line. -/
def lineStarts (source : SourceText) : List Nat := 0 :: startsFrom 0 source.content.toList

/-- Number of lines; a final line feed does not open another one. -/
def lineCount (source : SourceText) : Nat :=
  if endsLine source.content.toList then source.lineStarts.length - 1
  else source.lineStarts.length

/-- Where a line ends, counted from one: in front of the line feed before the next line, or at the
end of the text. -/
def lineStop (source : SourceText) (line : Nat) : Nat :=
  match source.lineStarts[line]? with
  | some next => next - 1
  | none => source.content.utf8ByteSize

/-- The text of a line, counted from one, without its line end. -/
def lineText? (source : SourceText) (line : Nat) : Option String :=
  if line = 0 ∨ source.lineCount < line then none
  else do
    let start ← source.lineStarts[line - 1]?
    let chars ← between? start (source.lineStop line) source.content.toList
    pure (String.ofList (trimReturns chars))

/-- The place of a byte offset: its line is the last one that starts no later, and its column
counts the characters from there.  The offset is kept as asked, also beyond the end. -/
def positionAt? (source : SourceText) (offset : Nat) : Option Position :=
  let starts := source.lineStarts.takeWhile (· ≤ offset)
  (between? (starts.getLastD 0) offset source.content.toList).map fun chars =>
    { line := starts.length
      column := chars.length + 1
      offset := offset }

end SourceText

end Offside
