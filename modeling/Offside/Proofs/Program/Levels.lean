/-
How much nesting it takes to read a program from its text, whatever its layout is.
-/
import Offside.Proofs.Program.Text

namespace Offside

namespace Layer

/-- Parentheses take a level of their own. -/
def deepen (outer inner : Layer) (levels : Nat) : Nat :=
  if outer.level ≤ inner.level then levels else levels + 1

/-- Behind the closing parenthesis the levels inside of it are given back. -/
def held (outer inner : Layer) (spine : Nat) : Nat :=
  if outer.level ≤ inner.level then spine else 0

end Layer

namespace Expr

/-- The levels that are still held behind an expression: one for everything that has been wrapped
around its first operand. -/
def spine : Expr → Nat
  | constant _ _ | name _ _ | unary _ _ _ => 0
  | binary op left _ _ => op.rule.left.held left.layer (spine left) + 1
  | call callee _ _ => Layer.callable.held callee.layer (spine callee) + 1
  | methodCall receiver _ _ _ | member receiver _ _ =>
    Layer.trailed.held receiver.layer (spine receiver) + 1
  | construct _ _ _ => 1

mutual

/-- The levels that an expression takes below its own. -/
def levels : Expr → Nat
  | constant _ _ | name _ _ => 0
  | binary op left right _ =>
    max (op.rule.left.deepen left.layer (levels left))
      (op.rule.left.held left.layer left.spine + 1 +
        (op.rule.right.deepen right.layer (levels right) + 1))
  | unary .neg operand _ => Layer.unary.deepen operand.layer (levels operand) + 1
  | unary .not operand _ => Layer.not.deepen operand.layer (levels operand) + 1
  | call callee args _ =>
    max (Layer.callable.deepen callee.layer (levels callee))
      (Layer.callable.held callee.layer callee.spine + 1 + levelsAll args)
  | methodCall receiver _ args _ =>
    max (Layer.trailed.deepen receiver.layer (levels receiver))
      (Layer.trailed.held receiver.layer receiver.spine + 1 + levelsAll args)
  | construct _ args _ => 1 + levelsAll args
  | member receiver _ _ =>
    max (Layer.trailed.deepen receiver.layer (levels receiver))
      (Layer.trailed.held receiver.layer receiver.spine + 1)

/-- The levels that arguments take, with their own. -/
def levelsAll : List Expr → Nat
  | [] => 0
  | expr :: others => max (levels expr + 1) (levelsAll others)

end

end Expr

namespace Stmt

mutual

/-- The levels that a statement takes, with those of its expressions and one for every block around
a part of it.  A further alternative takes as much as a block would. -/
def levels : Stmt → Nat
  | function definition _ => levelsOfFunction definition
  | classDef _ methods _ => levelsOfFunctions methods
  | assign target value _ => max (target.levels + 1) (value.levels + 1)
  | branch test thenBody elseBody _ =>
    max (test.levels + 1) (max (levelsOfBody thenBody + 1) (levelsOfElse elseBody))
  | loop test body _ => max (test.levels + 1) (levelsOfBody body + 1)
  | leave (some value) _ => value.levels + 1
  | eval expr _ => expr.levels + 1
  | leave none _ | pass _ | breakLoop _ | continueLoop _ => 0

def levelsOfFunction : FunctionDef Stmt → Nat
  | ⟨_, _, body, _⟩ => levelsOfBody body + 1

def levelsOfFunctions : List (FunctionDef Stmt) → Nat
  | [] => 0
  | definition :: others => max (levelsOfFunction definition) (levelsOfFunctions others)

def levelsOfBody : List Stmt → Nat
  | [] => 0
  | stmt :: others => max (levels stmt) (levelsOfBody others)

def levelsOfElse : Option (List Stmt) → Nat
  | none => 0
  | some body => levelsOfBody body + 1

end

end Stmt

/-- The levels that a program takes. -/
def Module.levels (program : Module) : Nat := Stmt.levelsOfBody program.body

end Offside
