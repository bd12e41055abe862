/-
Which programs have no code.  Lowering goes through the statements of a program in the order in
which their texts begin and fails at the first one that stands where it has no meaning; what
expressions and bodies emit in between never makes it fail.
-/
import Offside.Proofs.Code.JumpTargets
import Offside.Proofs.Program.Visits

namespace Offside

/-! ### Misplaced statements -/

namespace Visit

/-- A statement that has no code where it stands, with the error that says so. -/
inductive Misplaced : Visit → LoweringError → Prop
  | breakLoop {span : Span} {standing : Standing} (outside : standing.inLoop = false) :
    Misplaced ⟨.breakLoop span, standing⟩ (.breakOutsideLoop span)
  | continueLoop {span : Span} {standing : Standing} (outside : standing.inLoop = false) :
    Misplaced ⟨.continueLoop span, standing⟩ (.continueOutsideLoop span)
  | leave {value : Option Expr} {span : Span} {standing : Standing}
    (outside : standing.inFunction = false) :
    Misplaced ⟨.leave value span, standing⟩ (.returnOutsideFunction span)
  | function {definition : FunctionDef Stmt} {span : Span} {standing : Standing}
    (nested : standing.inBody = true) :
    Misplaced ⟨.function definition span, standing⟩
      (.unsupported "nested function definition" span)
  | classDef {name : String} {methods : List (FunctionDef Stmt)} {span : Span}
    {standing : Standing} (nested : standing.inBody = true) :
    Misplaced ⟨.classDef name methods span, standing⟩
      (.unsupported "nested class definition" span)
  /-- Only this error is told at an expression and not at the statement. -/
  | assign {target value : Expr} {span : Span} {standing : Standing}
    (target_not_place : target.isAssignable = false) :
    Misplaced ⟨.assign target value span, standing⟩
      (.unsupported ("assignment to " ++ target.form) target.span)

/-- The error of a statement that has no code where it stands. -/
def fault? : Visit → Option LoweringError
  | ⟨.breakLoop span, standing⟩ =>
    if standing.inLoop then none else some (.breakOutsideLoop span)
  | ⟨.continueLoop span, standing⟩ =>
    if standing.inLoop then none else some (.continueOutsideLoop span)
  | ⟨.leave _ span, standing⟩ =>
    if standing.inFunction then none else some (.returnOutsideFunction span)
  | ⟨.function _ span, standing⟩ =>
    if standing.inBody then some (.unsupported "nested function definition" span) else none
  | ⟨.classDef _ _ span, standing⟩ =>
    if standing.inBody then some (.unsupported "nested class definition" span) else none
  | ⟨.assign target _ _, _⟩ =>
    if target.isAssignable then none
    else some (.unsupported ("assignment to " ++ target.form) target.span)
  | _ => none

theorem fault?_eq_some_iff {visit : Visit} {error : LoweringError} :
    visit.fault? = some error ↔ visit.Misplaced error := by
  obtain ⟨s, standing⟩ := visit
  constructor
  · intro h
    cases s <;> simp only [fault?, Option.ite_none_left_eq_some, Option.ite_none_right_eq_some,
      Option.some.injEq, Bool.not_eq_true, reduceCtorEq] at h <;> obtain ⟨hplace, rfl⟩ := h
    · exact .function hplace
    · exact .classDef hplace
    · exact .assign hplace
    · exact .leave hplace
    · exact .breakLoop hplace
    · exact .continueLoop hplace
  · intro h
    cases h <;> simp_all [fault?]

end Visit

/-- The error of the first of these statements that is misplaced. -/
def firstFault? (visits : List Visit) : Option LoweringError := visits.findSome? Visit.fault?

theorem firstFault?_append (first second : List Visit) :
    firstFault? (first ++ second) = (firstFault? first).or (firstFault? second) :=
  List.findSome?_append

theorem firstFault?_cons (visit : Visit) (visits : List Visit) :
    firstFault? (visit :: visits) = visit.fault?.or (firstFault? visits) := by
  rw [firstFault?, List.findSome?_cons]
  cases visit.fault? <;> rfl

theorem Stmt.firstFault?_visits (standing : Standing) (s : Stmt) :
    firstFault? (s.visits standing) =
      (Visit.fault? ⟨s, standing⟩).or (firstFault? (s.visitsInside standing)) :=
  firstFault?_cons _ _

/-! ### Failures -/

section

variable {ε α β : Type}

/-- The error of an answer, if it is one. -/
def failure? : Except ε α → Option ε
  | .error error => some error
  | .ok _ => none

theorem failure?_eq_some_iff {x : Except ε α} {error : ε} :
    failure? x = some error ↔ x = .error error := by
  cases x <;> simp [failure?]

/-- Where it is known how the second step fails, the first step fails in front of it. -/
theorem failure?_bind {x : Except ε α} {next : α → Except ε β} {later : Option ε}
    (h : ∀ a, failure? (next a) = later) : failure? (x >>= next) = (failure? x).or later := by
  cases x with
  | error error => rfl
  | ok a => exact h a

/-- A last step that does not fail. -/
theorem failure?_bind_ok {x : Except ε α} {next : α → Except ε β}
    (h : ∀ a, failure? (next a) = none) : failure? (x >>= next) = failure? x := by
  rw [failure?_bind h, Option.or_none]

end

theorem Expr.failure?_lowerTarget (target : Expr) (next : Nat) :
    failure? (target.lowerTarget next) =
      if target.isAssignable then none
      else some (.unsupported ("assignment to " ++ target.form) target.span) := by
  cases target <;> rfl

/-- An assignment fails over its target only, whether or not it operates on it. -/
theorem Stmt.failure?_lowerAssign (target value : Expr) (span : Span) (standing : Standing)
    (next : Nat) :
    failure? (lowerAssign target value next) =
      Visit.fault? ⟨.assign target value span, standing⟩ := by
  rw [lowerAssign]
  split <;> exact (failure?_bind_ok fun _ => rfl).trans (target.failure?_lowerTarget _)

/-! ### Statements -/

/-- What stands in these surroundings. -/
def Surroundings.standing (around : Surroundings) : Standing :=
  ⟨around.inFunction, around.innermost.isSome, true⟩

namespace Stmt

/-- Lowering this statement fails over the first misplaced statement of it. -/
def FailsFirst (s : Stmt) : Prop :=
  ∀ around counters,
    failure? (s.lower around counters) = firstFault? (s.visits around.standing)

theorem failure?_lowerAll {stmts : List Stmt} (h : ∀ s ∈ stmts, s.FailsFirst)
    (around : Surroundings) (counters : Counters) :
    failure? (lowerAll around stmts counters) =
      firstFault? (visitsOfBody around.standing stmts) := by
  induction stmts generalizing counters with
  | nil => rfl
  | cons s others ih =>
    obtain ⟨hfirst, hothers⟩ := List.forall_mem_cons.mp h
    rw [lowerAll, failure?_bind fun _ => (failure?_bind_ok fun _ => rfl).trans (ih hothers _),
      hfirst, visitsOfBody, ← List.cons_append, firstFault?_append]
    rfl

theorem failsFirst (s : Stmt) : s.FailsFirst := by
  induction s using Stmt.induction with
  | function definition span => intro around counters; rw [lower]; rfl
  | classDef name methods span => intro around counters; rw [lower]; rfl
  | assign target value span =>
    intro around counters
    rw [lower, failure?_bind_ok fun _ => rfl,
      failure?_lowerAssign target value span around.standing, firstFault?_visits]
    exact Option.or_none.symm
  | branch test thenBody elseBody span ihThen ihElse =>
    intro around counters
    rw [firstFault?_visits, visitsInside, firstFault?_append]
    cases elseBody with
    | none =>
      rw [lower, failure?_bind_ok fun _ => rfl, failure?_lowerAll ihThen]
      exact Option.or_none.symm
    | some body =>
      rw [lower, failure?_bind fun _ => (failure?_bind_ok fun _ => rfl).trans
        (failure?_lowerAll (ihElse body rfl) around _), failure?_lowerAll ihThen]
      rfl
  | loop test body span ih =>
    intro around counters
    rw [lower, failure?_bind_ok fun _ => rfl, failure?_lowerAll ih, firstFault?_visits]
    rfl
  | leave value span =>
    intro around counters
    rw [lower.eq_def, firstFault?_visits, Visit.fault?, Surroundings.standing]
    cases around.inFunction with
    | false => rfl
    | true => cases value <;> rfl
  | breakLoop span =>
    intro around counters
    rw [lower, firstFault?_visits, Visit.fault?, Surroundings.standing]
    cases around.innermost <;> rfl
  | continueLoop span =>
    intro around counters
    rw [lower, firstFault?_visits, Visit.fault?, Surroundings.standing]
    cases around.innermost <;> rfl
  | pass span => intro around counters; rw [lower]; rfl
  | eval expr span => intro around counters; rw [lower]; rfl

/-- Outside of everything, only definitions stand differently than in a body. -/
theorem failure?_lower_outside {s : Stmt} (h : s.isDefinition = false) (counters : Counters) :
    failure? (s.lower .toplevel counters) = firstFault? (s.visits .outside) := by
  rw [s.failsFirst, firstFault?_visits, firstFault?_visits]
  cases s with
  | function | classDef => cases h
  | _ => rfl

end Stmt

/-! ### Definitions and programs -/

namespace FunctionDef

variable (definition : FunctionDef Stmt)

theorem failure?_lower (name : String) (returns : Bool) :
    failure? (definition.lower name returns) = firstFault? (Stmt.visitsOfFunction definition) := by
  rw [FunctionDef.lower, failure?_bind_ok fun _ => rfl,
    Stmt.failure?_lowerAll fun s _ => s.failsFirst]
  cases definition
  rfl

end FunctionDef

namespace Listing

theorem failure?_putMethods (className : String) (methods : List (FunctionDef Stmt))
    (entries : List (String × Procedure)) :
    failure? (putMethods className methods entries) =
      firstFault? (Stmt.visitsOfMethods methods) := by
  induction methods generalizing entries with
  | nil => rfl
  | cons method others ih =>
    rw [putMethods, failure?_bind fun _ => ih _, FunctionDef.lowerMethod,
      FunctionDef.failure?_lower, Stmt.visitsOfMethods, firstFault?_append]

theorem failure?_ofStmts (stmts : List Stmt) (entries : List (String × Procedure))
    (counters : Counters) :
    failure? (ofStmts stmts entries counters) =
      firstFault? (stmts.flatMap (Stmt.visits .outside)) := by
  induction stmts generalizing entries counters with
  | nil => rfl
  | cons s others ih =>
    rw [List.flatMap_cons, firstFault?_append]
    by_cases hplain : s.isDefinition = false
    · rw [ofStmts.eq_4 entries counters s others
          (fun _ _ heq => by rw [heq] at hplain; cases hplain)
          (fun _ _ _ heq => by rw [heq] at hplain; cases hplain),
        failure?_bind fun _ => (failure?_bind_ok fun _ => rfl).trans (ih _ _),
        Stmt.failure?_lower_outside hplain]
    · cases s with
      | function definition span =>
        rw [ofStmts, failure?_bind fun _ => ih _ _, definition.failure?_lower]
        rfl
      | classDef name methods span =>
        rw [ofStmts, failure?_bind fun _ => ih _ _, failure?_putMethods]
        rfl
      | _ => exact absurd rfl hplain

end Listing

theorem Module.failure?_lower (program : Module) :
    failure? program.lower = firstFault? program.visits :=
  Listing.failure?_ofStmts _ _ _

/-- A program has no code exactly if one of its statements is misplaced, and the error is that of
the first of them. -/
theorem Module.lower_fails_at_first_misplaced (program : Module) :
    ((∃ error, program.lower = .error error) ↔
      ∃ visit ∈ program.visits, ∃ error, visit.Misplaced error) ∧
    ∀ error, program.lower = .error error ↔
      ∃ before visit after, program.visits = before ++ visit :: after ∧ visit.Misplaced error ∧
        ∀ earlier ∈ before, ∀ other, ¬ earlier.Misplaced other := by
  have hfails (error : LoweringError) :
      program.lower = .error error ↔ firstFault? program.visits = some error := by
    rw [← failure?_eq_some_iff, program.failure?_lower]
  have hnone (visit : Visit) : visit.fault? = none ↔ ∀ other, ¬ visit.Misplaced other := by
    simp only [Option.eq_none_iff_forall_ne_some, ne_eq, Visit.fault?_eq_some_iff]
  constructor
  · simp only [hfails, ← Option.isSome_iff_exists, firstFault?, List.findSome?_isSome_iff]
    simp only [Option.isSome_iff_exists, Visit.fault?_eq_some_iff]
  · intro error
    simp only [hfails, firstFault?, List.findSome?_eq_some_iff, Visit.fault?_eq_some_iff, hnone]

/-! ### A program with three misplaced statements -/

namespace MisplacementWitness

def place (line : Nat) : Span := .point ⟨line, 1, line⟩

def name (id : String) : Expr := .name id (place 0)

/-- A function that wants to leave a loop that is not its own.  The statement has another span than
the function in it. -/
def nested : Stmt :=
  .function ⟨"f", [], [.breakLoop (place 3)], place 5⟩ (place 2)

/-- `while p: if q: break else: def f(): break`, and then `return`. -/
def program : Module :=
  ⟨[.loop (name "p")
      [.branch (name "q") [.breakLoop (place 1)] (some [nested]) (place 1)] (place 0),
    .leave none (place 4)], place 0⟩

/-- The `break` in the loop has its place, and the definition comes before its body. -/
theorem lower_program_fails :
    program.lower = .error (.unsupported "nested function definition" (place 2)) := by
  refine (program.lower_fails_at_first_misplaced.2 _).mpr
    ⟨[⟨program.body.head (by decide), .outside⟩, _, _], ⟨nested, ⟨false, true, true⟩⟩, _, rfl,
      .function rfl, fun earlier hmem other h => ?_⟩
  simp only [List.mem_cons, List.not_mem_nil, or_false] at hmem
  obtain rfl | rfl | rfl := hmem
  · cases h
  · cases h
  · cases h with
    | breakLoop outside => cases outside

end MisplacementWitness

end Offside
