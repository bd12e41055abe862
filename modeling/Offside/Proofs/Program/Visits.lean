/-
The statements of a program in the order in which their texts begin: each one before the statements
inside of it, and with what it stands in.
-/
import Offside.Program.Basic

namespace Offside

/-- What a statement stands in. -/
structure Standing where
  /-- A function or a method lies around the statement. -/
  inFunction : Bool
  /-- A loop of the same function, or of the program outside of functions, lies around it. -/
  inLoop : Bool
  /-- Some body lies around it, be it of a conditional, of a loop or of a function. -/
  inBody : Bool
  deriving Repr, DecidableEq

namespace Standing

/-- Outside of everything. -/
def outside : Standing := ⟨false, false, false⟩

/-- In the body of a function; a loop around the function is none of its own. -/
def ofFunction : Standing := ⟨true, false, true⟩

/-- In a body of a conditional that stands here. -/
def inBranch (standing : Standing) : Standing := { standing with inBody := true }

/-- In the body of a loop that stands here. -/
def inRound (standing : Standing) : Standing := { standing with inLoop := true, inBody := true }

end Standing

/-- A statement of a program with what it stands in. -/
structure Visit where
  stmt : Stmt
  standing : Standing

namespace Stmt

mutual

/-- The statements inside of a statement. -/
def visitsInside (standing : Standing) : Stmt → List Visit
  | function definition _ => visitsOfFunction definition
  | classDef _ methods _ => visitsOfMethods methods
  | assign _ _ _ => []
  | branch _ thenBody elseBody _ =>
    visitsOfBody standing.inBranch thenBody ++ visitsOfElse standing.inBranch elseBody
  | loop _ body _ => visitsOfBody standing.inRound body
  | leave _ _ => []
  | pass _ => []
  | breakLoop _ => []
  | continueLoop _ => []
  | eval _ _ => []

def visitsOfFunction : FunctionDef Stmt → List Visit
  | ⟨_, _, body, _⟩ => visitsOfBody .ofFunction body

def visitsOfMethods : List (FunctionDef Stmt) → List Visit
  | [] => []
  | method :: others => visitsOfFunction method ++ visitsOfMethods others

/-- The statements of a body and those inside of them. -/
def visitsOfBody (standing : Standing) : List Stmt → List Visit
  | [] => []
  | stmt :: others =>
    ⟨stmt, standing⟩ :: (visitsInside standing stmt ++ visitsOfBody standing others)

def visitsOfElse (standing : Standing) : Option (List Stmt) → List Visit
  | none => []
  | some body => visitsOfBody standing body

end

/-- A statement and the statements inside of it. -/
def visits (standing : Standing) (stmt : Stmt) : List Visit :=
  ⟨stmt, standing⟩ :: stmt.visitsInside standing

theorem visitsOfBody_eq_flatMap (standing : Standing) (body : List Stmt) :
    visitsOfBody standing body = body.flatMap (visits standing) := by
  induction body with
  | nil => rfl
  | cons s others ih => rw [visitsOfBody, ih, List.flatMap_cons, visits, List.cons_append]

theorem visitsOfMethods_eq_flatMap (methods : List (FunctionDef Stmt)) :
    visitsOfMethods methods = methods.flatMap visitsOfFunction := by
  induction methods with
  | nil => rfl
  | cons method others ih => rw [visitsOfMethods, ih, List.flatMap_cons]

end Stmt

/-- All statements of a program. -/
def Module.visits (program : Module) : List Visit :=
  program.body.flatMap (Stmt.visits .outside)

end Offside
