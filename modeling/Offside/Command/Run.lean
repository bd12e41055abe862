/-
Carrying out a command line: finding the settings, reading the source, and reporting what came out
on the two output streams.
-/
import Offside.Command.Arguments
import Offside.Command.Files
import Offside.Compilation.Notice
import Offside.Compilation.Payload
import Offside.Diagnostic.Rendering
import Offside.Settings.Basic

namespace Offside

/-- What a command line leads to. -/
structure Report where
  /-- The number that the program ends with. -/
  code : Nat
  output : String
  /-- Which notices are shown. -/
  level : LogLevel
  notices : List Notice
  /-- What follows the notices on the error stream. -/
  complaint : String

namespace Report

/-- The text for the error stream, given how many microseconds the compilation took. -/
def errorText (report : Report) (elapsed : Nat) : String :=
  Notice.logText report.level elapsed report.notices ++ report.complaint

def success (level : LogLevel) (notices : List Notice) (output : String) : Report :=
  ⟨0, output, level, notices, ""⟩

/-- A program that ends on the spot because a sum left the range of numbers.  Of what the runtime
writes then, only the message is given, not the place in the program. -/
def overflow (level : LogLevel) (notices : List Notice) : Report where
  code := 101
  output := ""
  level := level
  notices := notices
  complaint := "attempt to add with overflow\n"

/-- The last line of a failing program, with the cause under it. -/
def errorLine (message : String) : Option String → String
  | some cause => "Error: " ++ message ++ "\n\nCaused by:\n    " ++ cause ++ "\n"
  | none => "Error: " ++ message ++ "\n"

end Report

/-! ### Settings -/

/-- Why there are no settings in a file. -/
inductive SettingsError where
  | unreadable (error : FileError)
  | malformed
  deriving Repr, DecidableEq

def SettingsError.message : SettingsError → String
  | unreadable error => "IO error: " ++ error.message
  | malformed => "Config parse error: the document is malformed or a value does not fit"

/-- The settings in what was read from a file. -/
def Settings.ofFile : Except FileError String → Except SettingsError Settings
  | .error error => .error (.unreadable error)
  | .ok text =>
    match ofText? text with
    | some settings => .ok settings
    | none => .error .malformed

namespace Machine

variable {m : Type → Type} [Monad m]

/-- The directory of the user's settings, which the first of three variables gives. -/
def settingsDirectory? (machine : Machine m) : m (Option String) := do
  match ← machine.environment? "XDG_CONFIG_HOME" with
  | some directory => pure (some directory)
  | none =>
    match ← machine.environment? "HOME" with
    | some home => pure (some (joinPath home ".config"))
    | none => machine.environment? "APPDATA"

/-- The user's own settings; without a file these are the defaults. -/
def userSettings (machine : Machine m) : m (Except SettingsError Settings) := do
  match ← machine.settingsDirectory? with
  | none => pure (.ok .default)
  | some directory =>
    let path := joinPath (joinPath directory "pytac") "config.toml"
    if ← machine.holds path then
      let found ← machine.read path
      pure (Settings.ofFile found)
    else pure (.ok .default)

end Machine

/-! ### Tasks -/

/-- A number to the right of blanks in four columns. -/
def alignRight (value : Nat) : String :=
  let digits := Nat.toDigits 10 value
  String.ofList (List.replicate (4 - digits.length) ' ' ++ digits)

/-- A number to the left of blanks in four columns. -/
def alignLeft (value : Nat) : String :=
  let digits := Nat.toDigits 10 value
  String.ofList (digits ++ List.replicate (4 - digits.length) ' ')

/-- A token with its place in front, on a line of its own. -/
def Token.listingLine (token : Token) : String :=
  alignRight token.span.start.line ++ ":" ++ alignLeft token.span.start.column ++ " " ++
    token.kind.describe ++ "\n"

/-- How a source is worked on, and how that is reported. -/
structure Manner where
  options : CompileOptions
  level : LogLevel
  colors : Bool
  deriving Repr, DecidableEq

variable [IdentifierTables]

namespace Manner

/-- The last line for a source that does not compile. -/
def refusal (file : String) (error : CompileError) : String :=
  Report.errorLine (error.kind ++ " in " ++ file) none

/-- Report an error together with the place in the source. -/
def reject (manner : Manner) (file source : String) (notices : List Notice)
    (error : CompileError) : Report :=
  let rendering : Rendering := { Rendering.plain with colors := manner.colors }
  { code := 1
    output := ""
    level := manner.level
    notices := notices
    complaint := rendering.render error.diagnostic (some ⟨file, source⟩) ++ refusal file error }

/-- The options of showing a source add to those of the settings. -/
def withOptions (manner : Manner) (options : ShowOptions) : Manner :=
  { manner with options :=
    { tabWidth := options.tabWidth.getD manner.options.tabWidth
      predeclare := manner.options.predeclare || options.predeclare
      showCode := manner.options.showCode || options.showCode } }

/-- Show the outline of a source, and its code if that is wanted. -/
def showSource (manner : Manner) (file source : String) : Report :=
  let notices := .reading file :: manner.options.notices source
  match manner.options.compile source with
  | .ok analysis =>
    let code := if manner.options.showCode then "\n" ++ analysis.code.text else ""
    .success manner.level notices (analysis.program.outlineText ++ code)
  | .error (.reported error) => manner.reject file source notices error
  | .error .overflow => .overflow manner.level notices

/-- Write the answer for another program, whether the source compiles or not. -/
def writePayload (manner : Manner) (file source : String) (indented : Bool) : Report :=
  let notices := .reading file :: manner.options.notices source
  match Failure.outcome? (manner.options.compile source) with
  | some outcome =>
    let complaint := match outcome with
      | .ok _ => ""
      | .error error => refusal file error
    { code := if complaint.isEmpty then 0 else 1
      output := (payload outcome).text indented ++ "\n"
      level := manner.level
      notices := notices
      complaint := complaint }
  | none => .overflow manner.level notices

/-- List the tokens of a source. -/
def listTokens (manner : Manner) (file source : String) : Report :=
  let notices := .reading file :: manner.options.lexNotices source
  match manner.options.lex source with
  | .ok tokens => .success manner.level notices (String.join (tokens.map Token.listingLine))
  | .error (.reported error) => manner.reject file source notices error
  | .error .overflow => .overflow manner.level notices

/-- Read a source and work on it. -/
def onSource {m : Type → Type} [Monad m] (manner : Manner) (machine : Machine m) (file : String)
    (earlier : List Notice) (work : String → Report) : m Report := do
  match ← machine.read file with
  | .ok source =>
    let report := work source
    pure { report with notices := earlier ++ report.notices }
  | .error error =>
    pure
      { code := 1
        output := ""
        level := manner.level
        notices := earlier ++ [.reading file]
        complaint := Report.errorLine ("Failed to read file: " ++ file) (some error.message) }

end Manner

/-- The program with its version. -/
def versionLine : String := "pytac 0.3.1\n"

/-- How the program is used. -/
def usage : String :=
  "Python subset to three-address code\n\n" ++
  "Usage: pytac [OPTIONS] <COMMAND>\n\n" ++
  "Commands:\n" ++
  "  show     Print the AST of a source file\n" ++
  "  json     Print the service payload (AST and IR, or the error) as JSON\n" ++
  "  tokens   Print the token stream of a source file\n" ++
  "  version  Print version information\n" ++
  "  help     Print this message\n\n" ++
  "Options:\n" ++
  "  -v, --verbose        Increase log output (-v debug, -vv trace)\n" ++
  "      --no-color       Disable colored diagnostics\n" ++
  "      --config <FILE>  Read settings from this file instead of the user config\n" ++
  "  -h, --help           Print help\n" ++
  "  -V, --version        Print version\n"

/-- The report of a command line that asks for nothing else or cannot be understood. -/
def Stop.report : Stop → Report
  | help => .success .warn [] usage
  | version => .success .warn [] versionLine
  | misuse reason =>
    { code := 2
      output := ""
      level := .warn
      notices := []
      complaint := "error: " ++ reason.message ++ "\n\nUsage: pytac [OPTIONS] <COMMAND>\n" }

namespace Invocation

variable {m : Type → Type} [Monad m]

/-- Carry out the task with the settings that were found. -/
def perform (invocation : Invocation) (machine : Machine m) (settings : Settings)
    (earlier : List Notice) : m Report :=
  let manner : Manner :=
    { options := settings.compile
      level := settings.logLevel.raisedBy invocation.verbosity
      colors := settings.colors && invocation.colors }
  match invocation.task with
  | .show file options =>
    let manner := manner.withOptions options
    manner.onSource machine file earlier (manner.showSource file)
  | .json file indented =>
    manner.onSource machine file earlier fun source => manner.writePayload file source indented
  | .tokens file => manner.onSource machine file earlier (manner.listTokens file)
  | .version => pure (.success manner.level earlier versionLine)

/-- Carry out a command line.  Settings from a file that it names have to be good; if the user's
own are not, they are ignored. -/
def run (invocation : Invocation) (machine : Machine m) : m Report := do
  match invocation.settingsFile with
  | some path =>
    match Settings.ofFile (← machine.read path) with
    | .ok settings => invocation.perform machine settings []
    | .error error =>
      pure
        { code := 1
          output := ""
          level := .warn
          notices := []
          complaint := Report.errorLine ("Failed to load config: " ++ path) (some error.message) }
  | none =>
    match ← machine.userSettings with
    | .ok settings => invocation.perform machine settings []
    | .error error =>
      invocation.perform machine .default [.ignoringSettings error.message]

end Invocation

/-- Run the program with its arguments. -/
def runProgram {m : Type → Type} [Monad m] (machine : Machine m) (arguments : List String) :
    m Report :=
  match Invocation.ofArguments arguments with
  | .ok invocation => invocation.run machine
  | .error stop => pure stop.report

end Offside
