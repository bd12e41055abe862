/-
Diagnostics as text for a reader: the message, the place, and the line of the source with the
place marked under it.
-/
import Offside.Diagnostic.Basic
import Offside.Source.Text

namespace Offside

/-- How diagnostics are shown. -/
structure Rendering where
  colors : Bool
  showSource : Bool
  showHelp : Bool
  /-- The character that marks a place. -/
  indicator : Char
  deriving Repr, DecidableEq

namespace Rendering

def plain : Rendering where
  colors := false
  showSource := true
  showHelp := true
  indicator := '^'

/-- Colors and weights of a terminal. -/
inductive Ink where
  | error
  | warning
  | help
  | bold
  deriving Repr, DecidableEq

def Ink.code : Ink → String
  | error => "31"
  | warning => "33"
  | help => "36"
  | bold => "1"

def Ink.ofSeverity : Severity → Ink
  | .error => error
  | .warning => warning

/-- A text in a color, if colors are shown. -/
def paint (rendering : Rendering) (ink : Ink) (text : String) : String :=
  if rendering.colors then "\x1b[" ++ ink.code ++ "m" ++ text ++ "\x1b[0m" else text

/-- The first line.  Without a code only the severity stands out. -/
def headerLine (rendering : Rendering) (diagnostic : Diagnostic) : String :=
  let ink := Ink.ofSeverity diagnostic.severity
  let severity := diagnostic.severity.text
  if diagnostic.code.isEmpty then
    rendering.paint ink severity ++ ": " ++ diagnostic.message ++ "\n"
  else
    rendering.paint ink (severity ++ "[" ++ diagnostic.code ++ "]") ++ ": " ++
      rendering.paint .bold diagnostic.message ++ "\n"

/-- The line that names the place. -/
def placeLine (source : Option SourceText) (span : Span) : String :=
  let name := match source with
    | some source => source.name
    | none => "<unknown>"
  " --> " ++ name ++ ":" ++ span.start.text ++ "\n"

/-- The column at which marking starts. -/
def markColumn (span : Span) : Nat := max span.start.column 1

/-- How many columns are marked: up to the end of the span, or of the line when the span goes on
in another one, but at least one. -/
def markWidth (span : Span) (lineWidth : Nat) : Nat :=
  if span.start.line = span.stop.line then max (span.stop.column - markColumn span) 1
  else max (lineWidth - (markColumn span - 1)) 1

/-- A number in at least four columns. -/
def gutter (line : Nat) : String :=
  let digits := Nat.toDigits 10 line
  String.ofList (List.replicate (4 - digits.length) ' ' ++ digits)

/-- The first line of the span with the span marked under it. -/
def snippet (rendering : Rendering) (span : Span) (line : String) : String :=
  let marks := List.replicate (markWidth span line.length) rendering.indicator
  "     |\n" ++ gutter span.start.line ++ " | " ++ line ++ "\n     | " ++
    String.ofList (List.replicate (markColumn span - 1) ' ') ++
    rendering.paint .error (String.ofList marks) ++ "\n"

/-- The snippet, where the source has the line. -/
def snippet? (rendering : Rendering) (source : Option SourceText) (span : Span) :
    Option String := do
  let source ← source
  let line ← source.lineText? span.start.line
  some (rendering.snippet span line)

def helpLine (rendering : Rendering) (diagnostic : Diagnostic) : String :=
  if rendering.showHelp && !diagnostic.help.isEmpty then
    rendering.paint .help "help" ++ ": " ++ diagnostic.help ++ "\n"
  else ""

/-- The whole text of a diagnostic. -/
def render (rendering : Rendering) (diagnostic : Diagnostic) (source : Option SourceText) :
    String :=
  let middle := match diagnostic.place? with
    | some span =>
      placeLine source span ++
        (if rendering.showSource then (rendering.snippet? source span).getD "" else "")
    | none => ""
  rendering.headerLine diagnostic ++ middle ++ rendering.helpLine diagnostic

end Rendering

end Offside
