/-
Sessions that are asked one thing after another.  A run goes through the phases of a compilation and
ends with its outcome, whatever the session was asked before, and between two requests no phase is
under way.  A run over a line whose width is no number has no outcome, and nothing is asked after
it.
-/
import Offside.Compilation.Session
import Offside.Text.IdentifierRanges
import Mathlib.Data.List.Forall2

namespace Offside

theorem Failure.eq_reported_of_outcome? {ε α : Type} {result : Except (Failure ε) α} {error : ε}
    (h : outcome? result = some (.error error)) : result = .error (.reported error) := by
  rcases result with (_ | _) | _
  · cases h
    rfl
  · cases h
  · cases h

/-! ### Runs -/

namespace Run.Part

section

variable {α β : Type} {first : Run.Part α} {next : α → Run.Part β} {progress after : Progress}

theorem run_bind_of_ok {a : α} (h : first.run progress = (.ok a, after)) :
    (first >>= next).run progress = (next a).run after := by
  change (match first.run progress with
    | (result, progress) => ExceptT.bindCont next result progress) = _
  rw [h]
  rfl

theorem run_bind_of_error {failure : Failure CompileError}
    (h : first.run progress = (.error failure, after)) :
    (first >>= next).run progress = (.error failure, after) := by
  change (match first.run progress with
    | (result, progress) => ExceptT.bindCont next result progress) = _
  rw [h]
  rfl

theorem run_lexing [IdentifierTables] (clock : Phase → Nat) (progress : Progress)
    (source : String) :
    (lexing clock source).run progress =
      ((tokenize source progress.session.options.tabWidth).mapError (Failure.map .lexical),
        progress.enter .lexing (clock .lexing)) :=
  rfl

theorem run_parsing (clock : Phase → Nat) (progress : Progress) (tokens : List Token) :
    (parsing clock tokens).run progress =
      ((Module.ofTokens tokens progress.session.options.predeclare).mapError
          fun error => .reported (.grammar error),
        progress.enter .parsing (clock .parsing)) :=
  rfl

theorem run_lowering (clock : Phase → Nat) (progress : Progress) (program : Module) :
    (lowering clock program).run progress =
      (program.lower.mapError fun error => .reported (.lowering error),
        progress.enter .lowering (clock .lowering)) :=
  rfl

end

end Run.Part

section

variable [IdentifierTables]

/-- How a run of a session can go, with the session it leaves. -/
inductive Session.Runs (session : Session) (clock : Phase → Nat) (source : String) :
    Option (Run × Session) → Prop
  | tooWide (lex : tokenize source session.options.tabWidth = .error .overflow) :
    Runs session clock source none
  | lexical {error : LexicalError}
    (lex : tokenize source session.options.tabWidth = .error (.reported error)) :
    Runs session clock source
      (some (⟨.failed, .error (.lexical error), [(.lexing, clock .lexing)]⟩,
        { session with state := .failed }))
  | grammar {tokens : List Token} {error : GrammarError}
    (lex : tokenize source session.options.tabWidth = .ok tokens)
    (parse : Module.ofTokens tokens session.options.predeclare = .error error) :
    Runs session clock source
      (some (⟨.failed, .error (.grammar error),
        [(.lexing, clock .lexing), (.parsing, clock .parsing)]⟩,
        { session with state := .failed }))
  | lowering {tokens : List Token} {program : Module} {error : LoweringError}
    (lex : tokenize source session.options.tabWidth = .ok tokens)
    (parse : Module.ofTokens tokens session.options.predeclare = .ok program)
    (lower : program.lower = .error error) :
    Runs session clock source
      (some (⟨.failed, .error (.lowering error),
        [(.lexing, clock .lexing), (.parsing, clock .parsing), (.lowering, clock .lowering)]⟩,
        { session with state := .failed }))
  | completed {tokens : List Token} {program : Module} {code : Listing}
    (lex : tokenize source session.options.tabWidth = .ok tokens)
    (parse : Module.ofTokens tokens session.options.predeclare = .ok program)
    (lower : program.lower = .ok code) :
    Runs session clock source
      (some (⟨.completed, .ok ⟨program, code⟩,
        [(.lexing, clock .lexing), (.parsing, clock .parsing), (.lowering, clock .lowering)]⟩,
        { session with state := .completed }))

namespace Session

variable (session : Session) (clock : Phase → Nat) (source : String)

theorem run_of_whole {result : Except (Failure CompileError) Analysis} {progress : Progress}
    (h : (Run.Part.whole clock source).run ⟨session, []⟩ = (result, progress)) :
    session.run clock source = (Failure.outcome? result).map fun outcome =>
      (⟨(progress.session.ended outcome).state, outcome, progress.durations⟩,
        progress.session.ended outcome) := by
  rw [run, h]
  dsimp only
  cases Failure.outcome? result <;> rfl

theorem runs_run : session.Runs clock source (session.run clock source) := by
  have hlexing := Run.Part.run_lexing clock ⟨session, []⟩ source
  cases hlex : tokenize source session.options.tabWidth with
  | error failure =>
    rw [hlex] at hlexing
    rw [session.run_of_whole clock source (Run.Part.run_bind_of_error hlexing)]
    cases failure with
    | reported error => exact .lexical hlex
    | overflow => exact .tooWide hlex
  | ok tokens =>
    rw [hlex] at hlexing
    have hparsing := Run.Part.run_parsing clock
      ((⟨session, []⟩ : Progress).enter .lexing (clock .lexing)) tokens
    cases hparse : Module.ofTokens tokens session.options.predeclare with
    | error error =>
      rw [Progress.enter, hparse] at hparsing
      rw [session.run_of_whole clock source
        ((Run.Part.run_bind_of_ok hlexing).trans (Run.Part.run_bind_of_error hparsing))]
      exact .grammar hlex hparse
    | ok program =>
      rw [Progress.enter, hparse] at hparsing
      have hlowering := Run.Part.run_lowering clock
        (((⟨session, []⟩ : Progress).enter .lexing (clock .lexing)).enter .parsing
          (clock .parsing)) program
      cases hlower : program.lower with
      | error error =>
        rw [hlower] at hlowering
        rw [session.run_of_whole clock source ((Run.Part.run_bind_of_ok hlexing).trans
          ((Run.Part.run_bind_of_ok hparsing).trans (Run.Part.run_bind_of_error hlowering)))]
        exact .lowering hlex hparse hlower
      | ok code =>
        rw [hlower] at hlowering
        rw [session.run_of_whole clock source ((Run.Part.run_bind_of_ok hlexing).trans
          ((Run.Part.run_bind_of_ok hparsing).trans (Run.Part.run_bind_of_ok hlowering)))]
        exact .completed hlex hparse hlower

variable {session clock source}

/-- A run has the outcome that its compilation has, if it has one. -/
theorem Runs.outcome {result : Option (Run × Session)} (h : session.Runs clock source result) :
    result.map (fun result => result.1.outcome) =
      Failure.outcome? (session.options.compile source) := by
  rw [CompileOptions.compile, CompileOptions.lex]
  cases h with
  | tooWide lex =>
    rw [lex]
    rfl
  | lexical lex =>
    rw [lex]
    rfl
  | grammar lex parse =>
    rw [lex]
    simp only [CompileOptions.parse, Except.mapError, bind, Except.bind, parse]
    rfl
  | lowering lex parse lower =>
    rw [lex]
    simp only [CompileOptions.parse, CompileOptions.lower, Except.mapError, bind, Except.bind,
      parse, lower]
    rfl
  | completed lex parse lower =>
    rw [lex]
    simp only [CompileOptions.parse, CompileOptions.lower, Except.mapError, bind, Except.bind,
      parse, lower]
    rfl

/-- A run ends as the compilation of its source does, if that has an outcome. -/
theorem outcome_run (session : Session) (clock : Phase → Nat) (source : String) :
    (session.run clock source).map (fun result => result.1.outcome) =
      Failure.outcome? (session.options.compile source) :=
  (session.runs_run clock source).outcome

theorem compile_of_run {after : Session} {run : Run} {error : CompileError}
    (hrun : session.run clock source = some (run, after)) (h : run.outcome = .error error) :
    session.options.compile source = .error (.reported error) := by
  have houtcome := session.outcome_run clock source
  rw [hrun, Option.map_some, h] at houtcome
  exact Failure.eq_reported_of_outcome? houtcome.symm

end Session

/-! ### Requests -/

/-- What a session can be asked for. -/
inductive Request where
  | run (clock : Phase → Nat) (source : String)
  | reset

namespace Session

/-- Do what is asked for; only a run has a result.  A run without an outcome leaves no session. -/
def perform (session : Session) : Request → Option (Option Run × Session)
  | .run clock source => (session.run clock source).map fun result => (some result.1, result.2)
  | .reset => some (none, session.reset)

/-- Do one request after the other as long as there is a session, and tell each result with the
session that it leaves. -/
def performAll (session : Session) : List Request → List (Option Run × Session)
  | [] => []
  | request :: others =>
    match session.perform request with
    | some answer => answer :: answer.2.performAll others
    | none => []

end Session

/-- A request that does not come upon a width that is no number. -/
def Request.hasOutcome (options : CompileOptions) : Request → Bool
  | .run _ source => (Failure.outcome? (options.compile source)).isSome
  | .reset => true

/-- What a run of a source says with these options. -/
structure Run.Tells (run : Run) (options : CompileOptions) (source : String) : Prop where
  outcome : Failure.outcome? (options.compile source) = some run.outcome
  lexing : run.phases = [.lexing] ↔ ∃ error, run.outcome = .error (.lexical error)
  parsing : run.phases = [.lexing, .parsing] ↔ ∃ error, run.outcome = .error (.grammar error)
  lowering : run.phases = [.lexing, .parsing, .lowering] ↔
    (∃ error, run.outcome = .error (.lowering error)) ∨ ∃ analysis, run.outcome = .ok analysis
  completed : run.state = .completed ↔ ∃ analysis, run.outcome = .ok analysis
  failed : run.state = .failed ↔ ∃ error, run.outcome = .error error

/-- What a session with these options answers to a request, and the session afterwards. -/
inductive Request.Answered (options : CompileOptions) : Request → Option Run × Session → Prop
  | run {clock : Phase → Nat} {source : String} {run : Run} (tells : run.Tells options source)
    (ended : run.state = .completed ∨ run.state = .failed) :
    Answered options (.run clock source) (some run, ⟨options, run.state⟩)
  | reset : Answered options .reset (none, ⟨options, .idle⟩)

theorem Session.Runs.tells {session after : Session} {clock : Phase → Nat} {source : String}
    {run : Run} (h : session.Runs clock source (some (run, after))) :
    run.Tells session.options source := by
  have houtcome := h.outcome.symm
  cases h with
  | lexical | grammar | lowering | completed =>
    exact ⟨houtcome, by simp [Run.phases], by simp [Run.phases], by simp [Run.phases], by simp,
      by simp⟩

/-- What was asked before plays no part in an answer. -/
theorem Session.answered_perform {session : Session} {request : Request}
    {answer : Option Run × Session} (h : session.perform request = some answer) :
    request.Answered session.options answer := by
  cases request with
  | reset =>
    cases h
    exact .reset
  | run clock source =>
    rw [perform, Option.map_eq_some_iff] at h
    obtain ⟨⟨run, after⟩, hrun, rfl⟩ := h
    have hruns := session.runs_run clock source
    rw [hrun] at hruns
    have htells := hruns.tells
    cases hruns with
    | lexical | grammar | lowering => exact .run htells (.inr rfl)
    | completed => exact .run htells (.inl rfl)

theorem Session.isSome_perform (session : Session) (request : Request) :
    (session.perform request).isSome = request.hasOutcome session.options := by
  cases request with
  | reset => rfl
  | run clock source =>
    rw [perform, Request.hasOutcome, ← session.outcome_run clock source, Option.isSome_map,
      Option.isSome_map]

theorem Request.Answered.options_eq {options : CompileOptions} {request : Request}
    {answer : Option Run × Session} (h : request.Answered options answer) :
    answer.2.options = options := by
  cases h <;> rfl

theorem Request.Answered.state_ne_running {options : CompileOptions} {request : Request}
    {answer : Option Run × Session} (h : request.Answered options answer) (phase : Phase) :
    answer.2.state ≠ .running phase := by
  cases h with
  | reset => exact nofun
  | run _ ended =>
    intro hrunning
    rcases ended with hended | hended <;> rw [hended] at hrunning <;> cases hrunning

theorem Session.forall_answered {options : CompileOptions} (session : Session)
    (hoptions : session.options = options) (requests : List Request) :
    List.Forall₂ (Request.Answered options) (requests.takeWhile (Request.hasOutcome options))
        (session.performAll requests) ∧
      ∀ answer ∈ session.performAll requests,
        ∃ request : Request, request.Answered options answer := by
  induction requests generalizing session with
  | nil => exact ⟨.nil, List.forall_mem_nil _⟩
  | cons request others ih =>
    have hsome := session.isSome_perform request
    rw [hoptions] at hsome
    rw [performAll, List.takeWhile_cons, ← hsome]
    cases hperform : session.perform request with
    | none => exact ⟨.nil, List.forall_mem_nil _⟩
    | some answer =>
      have hanswer := session.answered_perform hperform
      rw [hoptions] at hanswer
      obtain ⟨hothers, hmem⟩ := ih _ hanswer.options_eq
      exact ⟨.cons hanswer hothers, List.forall_mem_cons.mpr ⟨⟨request, hanswer⟩, hmem⟩⟩

/-- However a session is used, each run ends as the compilation of its source does and reaches the
phases that go with that outcome; the state behind it says whether it went well, a reset makes the
session idle again, and no phase is ever under way between two requests.  Only a run whose
compilation has no outcome ends the answers. -/
theorem Session.answered_performAll (options : CompileOptions) (requests : List Request) :
    List.Forall₂ (Request.Answered options) (requests.takeWhile (Request.hasOutcome options))
        ((Session.new options).performAll requests) ∧
      (Session.new options).state = .idle ∧
      ∀ answer ∈ (Session.new options).performAll requests, ∀ phase,
        answer.2.state ≠ .running phase := by
  obtain ⟨hall, hmem⟩ := (Session.new options).forall_answered rfl requests
  refine ⟨hall, rfl, fun answer hanswer phase => ?_⟩
  obtain ⟨request, hrequest⟩ := hmem answer hanswer
  exact hrequest.state_ne_running phase

end

example :
    ((Session.new .default).performAll
      [.run (fun _ => 0) "break\n", .reset, .run (fun _ => 0) "f()\n"]).map
        (fun answer => (answer.1.map Run.phases, answer.2.state)) =
      [(some [.lexing, .parsing, .lowering], .failed), (none, .idle),
        (some [.lexing, .parsing, .lowering], .completed)] := by
  decide +kernel

end Offside
