/-
The arguments of the command line: a command with its options and its file.  Options that concern
every command may stand before the command or after it.
-/
import Offside.Decimal.Reading

namespace Offside

/-- What the program is asked to do. -/
inductive Command where
  | show
  | json
  | tokens
  | version
  | help
  deriving Repr, DecidableEq

/-- Everything that an argument with leading hyphens can ask for. -/
inductive Choice where
  | verbose
  | noColor
  | config
  | help
  | version
  | showCode
  | predeclare
  | tabWidth
  | pretty
  deriving Repr, DecidableEq

namespace Choice

/-- The name after two hyphens. -/
def long : Choice → String
  | verbose => "verbose"
  | noColor => "no-color"
  | config => "config"
  | help => "help"
  | version => "version"
  | showCode => "show-ir"
  | predeclare => "predeclare-classes"
  | tabWidth => "tab-width"
  | pretty => "pretty"

/-- The letter after one hyphen. -/
def short? : Choice → Option Char
  | verbose => some 'v'
  | help => some 'h'
  | version => some 'V'
  | _ => none

def takesValue : Choice → Bool
  | config => true
  | tabWidth => true
  | _ => false

/-- Whether it may be given again. -/
def repeats : Choice → Bool
  | verbose => true
  | _ => false

/-- Whether a value is one that the choice can take. -/
def allows (choice : Choice) (value : String) : Bool :=
  match choice with
  | config => !value.isEmpty
  | tabWidth => (Decimal.readNat? value.toList).isSome
  | _ => true

end Choice

namespace Command

def all : List Command := [.show, json, tokens, version, help]

def name : Command → String
  | .show => "show"
  | json => "json"
  | tokens => "tokens"
  | version => "version"
  | help => "help"

def ofName? (name : String) : Option Command := all.find? (·.name == name)

/-- What may be chosen before the command, or after it. -/
def choices : Option Command → List Choice
  | none => [.verbose, .noColor, .config, .help, .version]
  | some .show => [.verbose, .noColor, .config, .help, .showCode, .predeclare, .tabWidth]
  | some json => [.verbose, .noColor, .config, .help, .pretty]
  | some tokens => [.verbose, .noColor, .config, .help]
  | some version => [.verbose, .noColor, .config, .help]
  | some help => []

def takesFile : Command → Bool
  | .show => true
  | json => true
  | tokens => true
  | _ => false

end Command

/-- Why arguments cannot be understood. -/
inductive Misuse where
  | missingCommand
  | unknownCommand (word : String)
  | unexpected (argument : String)
  | repeated (choice : Choice)
  | missingValue (choice : Choice)
  | surplusValue (choice : Choice) (value : String)
  | badValue (choice : Choice) (value : String)
  | missingFile
  | emptyFile
  deriving Repr, DecidableEq

namespace Misuse

def message : Misuse → String
  | missingCommand => "a command is required"
  | unknownCommand word => "unrecognized command '" ++ word ++ "'"
  | unexpected argument => "unexpected argument '" ++ argument ++ "' found"
  | repeated choice => "the argument '--" ++ choice.long ++ "' cannot be used multiple times"
  | missingValue choice => "a value is required for '--" ++ choice.long ++ "'"
  | surplusValue choice value =>
    "unexpected value '" ++ value ++ "' for '--" ++ choice.long ++ "'"
  | badValue choice value => "invalid value '" ++ value ++ "' for '--" ++ choice.long ++ "'"
  | missingFile => "a source file is required"
  | emptyFile => "the name of the source file is empty"

end Misuse

/-- Why reading arguments stops early. -/
inductive Stop where
  | help
  | version
  | misuse (reason : Misuse)
  deriving Repr, DecidableEq

/-- Arguments up to some place. -/
structure Scan where
  command : Option Command
  /-- Choices before the command, with their values. -/
  before : List (Choice × String)
  /-- Choices after the command. -/
  after : List (Choice × String)
  words : List String
  /-- The choice whose value comes next. -/
  awaiting : Option Choice
  /-- Whether two hyphens alone have ended the choices. -/
  wordsOnly : Bool
  deriving Repr, DecidableEq

namespace Scan

def start : Scan where
  command := none
  before := []
  after := []
  words := []
  awaiting := none
  wordsOnly := false

def refuse {α : Type} (reason : Misuse) : Except Stop α := .error (.misuse reason)

/-- What has been chosen so far on this side of the command. -/
def chosen (scan : Scan) : List (Choice × String) :=
  if scan.command.isSome then scan.after else scan.before

/-- Note a choice and its value. -/
def choose (scan : Scan) (choice : Choice) (value : String) : Except Stop Scan :=
  if choice = .help then .error .help
  else if choice = .version then .error .version
  else if !choice.repeats && scan.chosen.any (·.1 == choice) then refuse (.repeated choice)
  else if !choice.allows value then refuse (.badValue choice value)
  else
    let chosen := scan.chosen ++ [(choice, value)]
    .ok (if scan.command.isSome then { scan with after := chosen, awaiting := none }
      else { scan with before := chosen, awaiting := none })

/-- Note a word that is neither a choice nor a value: the command, or the file it works on. -/
def word (scan : Scan) (word : String) : Except Stop Scan :=
  match scan.command with
  | none =>
    if scan.wordsOnly then refuse (.unexpected word)
    else match Command.ofName? word with
      | some command => .ok { scan with command := some command }
      | none => refuse (.unknownCommand word)
  | some .help =>
    if scan.words.isEmpty && (Command.ofName? word).isSome then .ok { scan with words := [word] }
    else refuse (.unknownCommand word)
  | some command =>
    if !command.takesFile || !scan.words.isEmpty then refuse (.unexpected word)
    else if word.isEmpty then refuse .emptyFile
    else .ok { scan with words := [word] }

/-- Note a choice by its long name, with the value after an equals sign if there is one. -/
def long (scan : Scan) (name : String) (value : Option String) : Except Stop Scan :=
  match (Command.choices scan.command).find? (·.long == name) with
  | none => refuse (.unexpected ("--" ++ name))
  | some choice =>
    match choice.takesValue, value with
    | true, some value => scan.choose choice value
    | true, none => .ok { scan with awaiting := some choice }
    | false, some value => refuse (.surplusValue choice value)
    | false, none => scan.choose choice ""

/-- Note a choice by its letter. -/
def short (scan : Scan) (letter : Char) : Except Stop Scan :=
  match (Command.choices scan.command).find? (·.short? == some letter) with
  | none => refuse (.unexpected ("-" ++ letter.toString))
  | some choice => scan.choose choice ""

/-- A name and, after the first equals sign, a value. -/
def splitValue (cs : List Char) : String × Option String :=
  let name := String.ofList (cs.takeWhile (· != '='))
  match cs.dropWhile (· != '=') with
  | _ :: value => (name, some (String.ofList value))
  | [] => (name, none)

/-- Read one argument. -/
def step (scan : Scan) (argument : String) : Except Stop Scan :=
  if scan.wordsOnly || scan.command = some .help then scan.word argument
  else match argument.toList, scan.awaiting with
    | '-' :: _ :: _, some choice => refuse (.missingValue choice)
    | ['-', '-'], none => .ok { scan with wordsOnly := true }
    | '-' :: '-' :: rest, none =>
      let (name, value) := splitValue rest
      scan.long name value
    | '-' :: letter :: more, none => (letter :: more).foldlM short scan
    | _, some choice => scan.choose choice argument
    | _, none => scan.word argument

end Scan

/-- The options of showing a source. -/
structure ShowOptions where
  showCode : Bool
  predeclare : Bool
  tabWidth : Option Nat
  deriving Repr, DecidableEq

/-- A command with all that belongs to it. -/
inductive Task where
  | show (file : String) (options : ShowOptions)
  | json (file : String) (indented : Bool)
  | tokens (file : String)
  | version
  deriving Repr, DecidableEq

/-- A whole command line. -/
structure Invocation where
  task : Task
  /-- How often more messages were asked for. -/
  verbosity : Nat
  colors : Bool
  /-- The file to take the settings from, instead of the user's own. -/
  settingsFile : Option String
  deriving Repr, DecidableEq

namespace Scan

def has (choice : Choice) (chosen : List (Choice × String)) : Bool := chosen.any (·.1 == choice)

def value? (choice : Choice) (chosen : List (Choice × String)) : Option String :=
  chosen.lookup choice

/-- How often more messages were asked for.  After the command it counts anew. -/
def verbosity (scan : Scan) : Nat :=
  let count (chosen : List (Choice × String)) : Nat := (chosen.map (·.1)).count .verbose
  min 255 (if has .verbose scan.after then count scan.after else count scan.before)

/-- The file, without which most commands cannot do anything. -/
def file (scan : Scan) : Except Stop String :=
  match scan.words with
  | word :: _ => .ok word
  | [] => refuse .missingFile

def task (scan : Scan) : Command → Except Stop Task
  | .show => do
    let width := value? .tabWidth scan.after
    .ok (.show (← scan.file)
      { showCode := has .showCode scan.after
        predeclare := has .predeclare scan.after
        tabWidth := width.bind fun text => Decimal.readNat? text.toList })
  | .json => do .ok (.json (← scan.file) (has .pretty scan.after))
  | .tokens => do .ok (.tokens (← scan.file))
  | .version => .ok .version
  | .help => .error .help

/-- The command line that was read, if it is complete. -/
def finish (scan : Scan) : Except Stop Invocation := do
  if let some choice := scan.awaiting then refuse (.missingValue choice)
  match scan.command with
  | none => refuse .missingCommand
  | some command =>
    .ok
      { task := ← scan.task command
        verbosity := scan.verbosity
        colors := !has .noColor scan.before && !has .noColor scan.after
        settingsFile := (value? .config scan.after).orElse fun _ => value? .config scan.before }

end Scan

namespace Invocation

/-- Read the arguments of a command line. -/
def ofArguments (arguments : List String) : Except Stop Invocation := do
  let scan ← arguments.foldlM Scan.step .start
  scan.finish

end Invocation

end Offside
