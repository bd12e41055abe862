/-
What a compilation reports while it runs, and the account of a whole compilation as a list of
such notices.
-/
import Offside.Compilation.Basic
import Offside.Settings.LogLevel
import Offside.Token.Trace

namespace Offside

/-- A message for the log. -/
inductive Notice where
  | reading (path : String)
  | ignoringSettings (reason : String)
  | compiling (bytes : Nat)
  | lexing (bytes : Nat)
  | token (token : Token)
  | lexed (tokens : Nat)
  | entering (form name : String)
  | parsed (statements classes : Nat)
  | lowered (name : String) (instructions : Nat)
  | generated (procedures instructions : Nat)
  | completed
  | failed (error : CompileError)
  deriving Repr

namespace Notice

/-- How important a notice is. -/
def level : Notice → LogLevel
  | token _ => .trace
  | entering _ _ => .trace
  | ignoringSettings _ => .warn
  | failed _ => .warn
  | _ => .debug

/-- The message of a notice, given how many microseconds the compilation took. -/
def message (elapsed : Nat) : Notice → String
  | reading path => "reading " ++ path
  | ignoringSettings reason => "ignoring user config: " ++ reason
  | compiling bytes => "compiling source (" ++ toString bytes ++ " bytes)"
  | lexing bytes => "lexing " ++ toString bytes ++ " bytes"
  | token found => found.trace
  | lexed tokens => "lexing complete: " ++ toString tokens ++ " tokens"
  | entering form name => "parsing " ++ form ++ " '" ++ name ++ "'"
  | parsed statements classes =>
    "parsed " ++ toString statements ++ " top-level statements, " ++ toString classes ++
      " classes"
  | lowered name instructions =>
    "lowered '" ++ name ++ "' (" ++ toString instructions ++ " instructions)"
  | generated procedures instructions =>
    "generated IR: " ++ toString procedures ++ " function(s), " ++ toString instructions ++
      " top-level instruction(s)"
  | completed => "compilation complete in " ++ toString elapsed ++ "us"
  | failed error => "compilation failed with " ++ error.kind ++ ": " ++ error.message

/-- The name of a level in front of a message, in five columns. -/
def label : LogLevel → String
  | .trace => "TRACE"
  | .debug => "DEBUG"
  | .info => " INFO"
  | .warn => " WARN"
  | .error => "ERROR"

/-- A notice as a line of the log. -/
def line (elapsed : Nat) (notice : Notice) : String :=
  label notice.level ++ " " ++ Escaped.harmless (notice.message elapsed) ++ "\n"

/-- The lines of all notices that a level shows. -/
def logText (level : LogLevel) (elapsed : Nat) (notices : List Notice) : String :=
  String.join ((notices.filter fun notice => level.shows notice.level).map (line elapsed))

/-- The definitions that tokens start, each by its word and its name. -/
def headings : List Token → List Notice
  | first :: second :: others =>
    let found := match first.kind, second.kind with
      | .keyword .definition, .identifier name => [entering "function" name]
      | .keyword .classDefinition, .identifier name => [entering "class" name]
      | _, _ => []
    found ++ headings (second :: others)
  | _ => []

/-- What lowering a statement leads to: a procedure for every definition in it, or an error. -/
def procedures : Stmt → List (Except LoweringError Procedure)
  | .function definition _ => [definition.lower definition.name false]
  | .classDef name methods _ => methods.map fun method => method.lowerMethod name
  | stmt =>
    match stmt.lower .toplevel .first with
    | .ok _ => []
    | .error error => [.error error]

/-- One notice for every procedure up to the first error. -/
def ofProcedures : List (Except LoweringError Procedure) → List Notice
  | .ok procedure :: others =>
    lowered procedure.name procedure.body.length :: ofProcedures others
  | _ => []

end Notice

namespace CompileOptions

/-- The notices of cutting a source into tokens. -/
def lexNotices [IdentifierTables] (options : CompileOptions) (source : String) : List Notice :=
  let (tokens, error) := (Lexer.ofString source options.tabWidth).run
  .lexing source.utf8ByteSize :: tokens.map .token ++
    (if error.isNone then [.lexed tokens.length] else [])

/-- The notices of reading a program, among them one for every definition up to an error. -/
def parseNotices (options : CompileOptions) (tokens : List Token) : List Notice :=
  match Parser.program (Module.startCursor tokens options.predeclare) with
  | .ok program c =>
    Notice.headings c.past.reverse ++ [.parsed program.body.length c.classes.length]
  | .error _ c => Notice.headings c.past.reverse

/-- The notices of lowering a program. -/
def lowerNotices (_options : CompileOptions) (program : Module) : List Notice :=
  Notice.ofProcedures (program.body.flatMap Notice.procedures) ++
    (match program.lower with
    | .ok code => [.generated code.procedures.length code.toplevel.length]
    | .error _ => [])

/-- The notices of all phases up to the first failure. -/
def phaseNotices [IdentifierTables] (options : CompileOptions) (source : String) : List Notice :=
  options.lexNotices source ++
    (match options.lex source with
    | .error _ => []
    | .ok tokens =>
      options.parseNotices tokens ++
        (match options.parse tokens with
        | .error _ => []
        | .ok program => options.lowerNotices program))

/-- The account of a compilation, which ends with its outcome if it has one. -/
def notices [IdentifierTables] (options : CompileOptions) (source : String) : List Notice :=
  let outcome : List Notice := match options.compile source with
    | .ok _ => [.completed]
    | .error (.reported error) => [.failed error]
    | .error .overflow => []
  .compiling source.utf8ByteSize :: options.phaseNotices source ++ outcome

end CompileOptions

end Offside
