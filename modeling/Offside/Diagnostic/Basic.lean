/-
Diagnostics: what is told about a source text, with a code, a hint and a place.
-/
import Offside.Json.Basic
import Offside.Source.Position

namespace Offside

inductive Severity where
  | error
  | warning
  deriving Repr, DecidableEq

def Severity.text : Severity → String
  | error => "error"
  | warning => "warning"

structure Diagnostic where
  severity : Severity
  code : String
  message : String
  /-- A hint, which may be empty. -/
  help : String
  span : Option Span
  deriving Repr, DecidableEq

namespace Diagnostic

/-- The first line, without colors. -/
def header (diagnostic : Diagnostic) : String :=
  diagnostic.severity.text ++ "[" ++ diagnostic.code ++ "]: " ++ diagnostic.message

/-- The span, unless it was never read from a text. -/
def place? (diagnostic : Diagnostic) : Option Span :=
  diagnostic.span.filter fun span => !span.isAbsent

/-- The report of a failure of the given kind. -/
def report (diagnostic : Diagnostic) (kind : String) : Json :=
  .object
    [("success", .bool false),
     ("error", .string diagnostic.message),
     ("kind", .string kind),
     ("code", .string diagnostic.code),
     ("line", .ofOption (diagnostic.place?.map (·.start.line))),
     ("column", .ofOption (diagnostic.place?.map (·.start.column)))]

end Diagnostic

end Offside
