/-
The assignments of a program, in the order in which they are written.
-/
import Offside.Proofs.Program.Gap

namespace Offside

/-- What is assigned to, and the value; of an augmented assignment, the operation on its target. -/
structure Assignment where
  target : Expr
  value : Expr

namespace Stmt

mutual

/-- The assignments in a statement, at any depth of blocks. -/
def assignments : Stmt → List Assignment
  | function definition _ => functionAssignments definition
  | classDef _ methods _ => methodAssignments methods
  | assign target value _ => [⟨target, value⟩]
  | branch _ thenBody elseBody _ => allAssignments thenBody ++ elseAssignments elseBody
  | loop _ body _ => allAssignments body
  | leave _ _ => []
  | pass _ => []
  | breakLoop _ => []
  | continueLoop _ => []
  | eval _ _ => []

def functionAssignments : FunctionDef Stmt → List Assignment
  | ⟨_, _, body, _⟩ => allAssignments body

def methodAssignments : List (FunctionDef Stmt) → List Assignment
  | [] => []
  | method :: others => functionAssignments method ++ methodAssignments others

/-- The assignments in several statements. -/
def allAssignments : List Stmt → List Assignment
  | [] => []
  | stmt :: others => assignments stmt ++ allAssignments others

def elseAssignments : Option (List Stmt) → List Assignment
  | none => []
  | some body => allAssignments body

end

@[simp] theorem allAssignments_eq_flatMap (stmts : List Stmt) :
    allAssignments stmts = stmts.flatMap assignments := by
  induction stmts with
  | nil => rfl
  | cons stmt others ih => rw [allAssignments, ih, List.flatMap_cons]

@[simp] theorem functionAssignments_eq (definition : FunctionDef Stmt) :
    functionAssignments definition = definition.body.flatMap assignments := by
  cases definition
  rw [functionAssignments, allAssignments_eq_flatMap]

@[simp] theorem methodAssignments_eq (methods : List (FunctionDef Stmt)) :
    methodAssignments methods = methods.flatMap fun method => method.body.flatMap assignments := by
  induction methods with
  | nil => rfl
  | cons method others ih =>
    rw [methodAssignments, ih, List.flatMap_cons, functionAssignments_eq]

end Stmt

/-- The assignments in a program. -/
def Module.assignments (program : Module) : List Assignment :=
  program.body.flatMap Stmt.assignments

/-! ### Assignments in gaps -/

theorem Frame.mem_assignments {frame : Frame} {body : List Stmt} {a : Assignment}
    (h : a ∈ body.flatMap Stmt.assignments) : a ∈ (frame.fill body).assignments := by
  cases frame with
  | thenBody | loopBody =>
    simp only [fill, Stmt.assignments, Stmt.allAssignments_eq_flatMap]
    simp [h]
  | elseBody =>
    simp only [fill, Stmt.assignments, Stmt.elseAssignments, Stmt.allAssignments_eq_flatMap]
    exact List.mem_append_right _ h

/-- What is assigned in a gap is assigned in the body. -/
theorem Gap.mem_assignments {gap : Gap} {s : Stmt} {a : Assignment} (h : a ∈ s.assignments) :
    a ∈ (gap.fill s).flatMap Stmt.assignments := by
  induction gap with
  | here before after => exact List.mem_flatMap.mpr ⟨s, by simp [fill], h⟩
  | inside before frame inner after ih =>
    exact List.mem_flatMap.mpr ⟨frame.fill (inner.fill s), by simp [fill], Frame.mem_assignments ih⟩

end Offside
