/-
Programs without their places: what is left of a program when every span is forgotten.  Two
programs say the same when they have the same bare form.
-/
import Offside.Proofs.Program.Induction

namespace Offside

namespace Expr

mutual

/-- The expression with every span absent. -/
def bare : Expr → Expr
  | constant value _ => .constant value .absent
  | name id _ => .name id .absent
  | binary op left right _ => .binary op (bare left) (bare right) .absent
  | unary op operand _ => .unary op (bare operand) .absent
  | call callee args _ => .call (bare callee) (bareAll args) .absent
  | methodCall receiver method args _ => .methodCall (bare receiver) method (bareAll args) .absent
  | construct className args _ => .construct className (bareAll args) .absent
  | member receiver attr _ => .member (bare receiver) attr .absent

/-- Several expressions with every span absent. -/
def bareAll : List Expr → List Expr
  | [] => []
  | expr :: others => bare expr :: bareAll others

end

@[simp] theorem bareAll_eq_map (exprs : List Expr) : bareAll exprs = exprs.map bare := by
  induction exprs with
  | nil => rfl
  | cons expr others ih => rw [bareAll, ih, List.map_cons]

end Expr

/-- The parameter without its span. -/
def Param.bare (param : Param) : Param := ⟨param.name, .absent⟩

namespace Stmt

mutual

/-- The statement with every span absent. -/
def bare : Stmt → Stmt
  | function definition _ => .function (bareFunction definition) .absent
  | classDef name methods _ => .classDef name (bareFunctions methods) .absent
  | assign target value _ => .assign target.bare value.bare .absent
  | branch test thenBody elseBody _ =>
    .branch test.bare (bareAll thenBody) (bareElse elseBody) .absent
  | loop test body _ => .loop test.bare (bareAll body) .absent
  | leave value _ => .leave (value.map Expr.bare) .absent
  | pass _ => .pass .absent
  | breakLoop _ => .breakLoop .absent
  | continueLoop _ => .continueLoop .absent
  | eval expr _ => .eval expr.bare .absent

/-- The function with every span absent. -/
def bareFunction : FunctionDef Stmt → FunctionDef Stmt
  | ⟨name, params, body, _⟩ => ⟨name, params.map Param.bare, bareAll body, .absent⟩

def bareFunctions : List (FunctionDef Stmt) → List (FunctionDef Stmt)
  | [] => []
  | definition :: others => bareFunction definition :: bareFunctions others

def bareAll : List Stmt → List Stmt
  | [] => []
  | stmt :: others => bare stmt :: bareAll others

def bareElse : Option (List Stmt) → Option (List Stmt)
  | none => none
  | some body => some (bareAll body)

end

@[simp] theorem bareAll_eq_map (stmts : List Stmt) : bareAll stmts = stmts.map bare := by
  induction stmts with
  | nil => rfl
  | cons stmt others ih => rw [bareAll, ih, List.map_cons]

@[simp] theorem bareFunctions_eq_map (definitions : List (FunctionDef Stmt)) :
    bareFunctions definitions = definitions.map bareFunction := by
  induction definitions with
  | nil => rfl
  | cons definition others ih => rw [bareFunctions, ih, List.map_cons]

@[simp] theorem bareElse_eq_map (elseBody : Option (List Stmt)) :
    bareElse elseBody = elseBody.map (List.map bare) := by
  cases elseBody with
  | none => rfl
  | some body => simp [bareElse]

end Stmt

/-- The program with every span absent. -/
def Module.bare (program : Module) : Module := ⟨program.body.map Stmt.bare, .absent⟩

end Offside
