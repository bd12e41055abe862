/-
Programs as trees of one kind of node.  A program, a statement, a definition, a parameter and an
expression each have a span and the nodes inside of them, in the order of the text.
-/
import Offside.Proofs.Program.Induction

namespace Offside

/-- A part of a program that has a span. -/
inductive Node where
  | program (value : Module)
  | stmt (value : Stmt)
  | function (value : FunctionDef Stmt)
  | param (value : Param)
  | expr (value : Expr)

/-- The expressions directly inside of an expression. -/
def Expr.children : Expr → List Expr
  | member receiver _ _ => [receiver]
  | expr => expr.operands

namespace Node

def span : Node → Span
  | program value => value.span
  | stmt value => value.span
  | function value => value.span
  | param value => value.span
  | expr value => value.span

/-- The nodes directly inside of a node.  An augmented assignment has the operation on its target
as its value, so the target stands in it twice. -/
def children : Node → List Node
  | program value => value.body.map stmt
  | stmt (.function definition _) => [function definition]
  | stmt (.classDef _ methods _) => methods.map function
  | stmt (.assign target value _) => [expr target, expr value]
  | stmt (.branch test thenBody elseBody _) =>
    expr test :: (thenBody.map stmt ++ (elseBody.getD []).map stmt)
  | stmt (.loop test body _) => expr test :: body.map stmt
  | stmt (.leave value _) => value.toList.map expr
  | stmt (.eval value _) => [expr value]
  | stmt (.pass _) => []
  | stmt (.breakLoop _) => []
  | stmt (.continueLoop _) => []
  | function definition => definition.params.map param ++ definition.body.map stmt
  | param _ => []
  | expr value => value.children.map expr

/-- A node at any depth inside of another one, or that node itself. -/
inductive Inside (part : Node) : Node → Prop
  | self : Inside part part
  | child {node child : Node} (mem : child ∈ node.children) (inner : Inside part child) :
    Inside part node

/-- What holds of a node and of everything inside of its children holds of everything inside of
it. -/
theorem forall_inside {p : Node → Prop} {node : Node} (here : p node)
    (inside : ∀ child ∈ node.children, ∀ part : Node, part.Inside child → p part) :
    ∀ part : Node, part.Inside node → p part := by
  intro part hpart
  cases hpart with
  | self => exact here
  | child mem inner => exact inside _ mem part inner

end Node

end Offside
