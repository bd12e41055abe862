/-
Compiling one source after another.  A session remembers how its last run went, and a run tells
which phases it reached and how long they took.
-/
import Offside.Compilation.Basic

namespace Offside

inductive Phase where
  | lexing
  | parsing
  | lowering
  deriving Repr, DecidableEq

def Phase.text : Phase → String
  | lexing => "lexing"
  | parsing => "parsing"
  | lowering => "lowering"

/-- What a session is doing, or how its last run ended. -/
inductive SessionState where
  | idle
  | running (phase : Phase)
  | completed
  | failed
  deriving Repr, DecidableEq

def SessionState.text : SessionState → String
  | idle => "idle"
  | running phase => phase.text
  | completed => "completed"
  | failed => "failed"

/-- The result of a run, with the microseconds of every phase that it reached. -/
structure Run where
  state : SessionState
  outcome : Except CompileError Analysis
  durations : List (Phase × Nat)

namespace Run

def isSuccess (run : Run) : Bool :=
  run.state == .completed && (match run.outcome with
    | .ok _ => true
    | .error _ => false)

def phases (run : Run) : List Phase := run.durations.map (·.1)

/-- The longest of the durations, the last one if several are equally long. -/
def slowest? : List (Phase × Nat) → Option (Phase × Nat)
  | [] => none
  | first :: others =>
    match slowest? others with
    | none => some first
    | some found => if found.2 < first.2 then some first else some found

def slowestPhase? (run : Run) : Option Phase := (slowest? run.durations).map (·.1)

end Run

/-- A session with the state it is in. -/
structure Session where
  options : CompileOptions
  state : SessionState
  deriving Repr, DecidableEq

/-- A run that is under way: the session it belongs to, and the microseconds of the phases so
far. -/
structure Progress where
  session : Session
  durations : List (Phase × Nat)

/-- Go on to a phase; its duration is recorded however its work ends. -/
def Progress.enter (progress : Progress) (phase : Phase) (duration : Nat) : Progress where
  session := { progress.session with state := .running phase }
  durations := progress.durations ++ [(phase, duration)]

/-- A part of a run, which moves the run on and may end it with a failure. -/
abbrev Run.Part (α : Type) : Type := ExceptT (Failure CompileError) (StateM Progress) α

namespace Run.Part

/-- Do the work of a phase.  The clock tells how long it took. -/
def ofPhase {α : Type} (clock : Phase → Nat) (phase : Phase)
    (work : CompileOptions → Except (Failure CompileError) α) : Run.Part α := do
  let progress ← get
  set (progress.enter phase (clock phase))
  ExceptT.mk (pure (work progress.session.options))

def lexing [IdentifierTables] (clock : Phase → Nat) (source : String) : Run.Part (List Token) :=
  ofPhase clock .lexing fun options =>
    (tokenize source options.tabWidth).mapError (Failure.map .lexical)

def parsing (clock : Phase → Nat) (tokens : List Token) : Run.Part Module :=
  ofPhase clock .parsing fun options =>
    (Module.ofTokens tokens options.predeclare).mapError fun error => .reported (.grammar error)

def lowering (clock : Phase → Nat) (program : Module) : Run.Part Listing :=
  ofPhase clock .lowering fun _ =>
    program.lower.mapError fun error => .reported (.lowering error)

/-- The phases of a run in their order, up to the first that fails. -/
def whole [IdentifierTables] (clock : Phase → Nat) (source : String) : Run.Part Analysis := do
  let tokens ← lexing clock source
  let program ← parsing clock tokens
  let code ← lowering clock program
  pure ⟨program, code⟩

end Run.Part

namespace Session

def new (options : CompileOptions) : Session := ⟨options, .idle⟩

def reset (session : Session) : Session := { session with state := .idle }

/-- The session after a run with this outcome. -/
def ended (session : Session) : Except CompileError Analysis → Session
  | .ok _ => { session with state := .completed }
  | .error _ => { session with state := .failed }

/-- Compile a source.  The clock tells how long each phase took.  Where a width leaves its range the
whole program ends, and there is neither a result nor a session. -/
def run [IdentifierTables] (session : Session) (clock : Phase → Nat) (source : String) :
    Option (Run × Session) := do
  let (result, progress) := (Run.Part.whole clock source).run ⟨session, []⟩
  let outcome ← Failure.outcome? result
  let after := progress.session.ended outcome
  pure (⟨after.state, outcome, progress.durations⟩, after)

end Session

end Offside
