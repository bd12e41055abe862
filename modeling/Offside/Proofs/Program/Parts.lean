/-
What a program is made of: its statements, the parameters and methods of its definitions, and its
expressions with the expressions inside of them.
-/
import Offside.Proofs.Program.Visits

namespace Offside

namespace Expr

mutual

/-- The expressions inside of an expression, each one before those inside of it. -/
def inside : Expr → List Expr
  | constant _ _ => []
  | name _ _ => []
  | binary _ left right _ => left :: (inside left ++ right :: inside right)
  | unary _ operand _ => operand :: inside operand
  | call callee args _ => callee :: (inside callee ++ partsAll args)
  | methodCall receiver _ args _ => receiver :: (inside receiver ++ partsAll args)
  | construct _ args _ => partsAll args
  | member receiver _ _ => receiver :: inside receiver

/-- Several expressions and those inside of them. -/
def partsAll : List Expr → List Expr
  | [] => []
  | expr :: others => expr :: (inside expr ++ partsAll others)

end

/-- An expression and the expressions inside of it. -/
def parts (expr : Expr) : List Expr := expr :: expr.inside

theorem partsAll_eq_flatMap (exprs : List Expr) : partsAll exprs = exprs.flatMap parts := by
  induction exprs with
  | nil => rfl
  | cons expr others ih => rw [partsAll, ih, List.flatMap_cons, parts, List.cons_append]

end Expr

namespace Stmt

/-- The methods of a class. -/
def methods : Stmt → List (FunctionDef Stmt)
  | classDef _ methods _ => methods
  | _ => []

/-- The functions or methods that a statement defines. -/
def definitions : Stmt → List (FunctionDef Stmt)
  | function definition _ => [definition]
  | classDef _ methods _ => methods
  | _ => []

/-- The expressions of a statement, each as a whole; those of the statements inside of it are
theirs. -/
def ownExprs : Stmt → List Expr
  | assign target value _ => [target, value]
  | branch test _ _ _ => [test]
  | loop test _ _ => [test]
  | leave value _ => value.toList
  | eval expr _ => [expr]
  | _ => []

end Stmt

namespace Module

/-- All statements of a program, at any depth of bodies. -/
def stmts (program : Module) : List Stmt := program.visits.map Visit.stmt

def params (program : Module) : List Param :=
  program.stmts.flatMap fun stmt => stmt.definitions.flatMap FunctionDef.params

def methods (program : Module) : List (FunctionDef Stmt) := program.stmts.flatMap Stmt.methods

/-- All expressions of a program, also those inside of others. -/
def exprs (program : Module) : List Expr :=
  program.stmts.flatMap fun stmt => stmt.ownExprs.flatMap Expr.parts

end Module

end Offside
