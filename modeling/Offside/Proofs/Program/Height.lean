/-
How tall expressions are, and which expressions a program is made of.
-/
import Offside.Proofs.Program.Induction

namespace Offside

namespace Expr

mutual

/-- Nodes on the longest way from the root down to a leaf. -/
def height : Expr → Nat
  | constant _ _ => 1
  | name _ _ => 1
  | binary _ left right _ => max (height left) (height right) + 1
  | unary _ operand _ => height operand + 1
  | call callee args _ => max (height callee) (heightAll args) + 1
  | methodCall receiver _ args _ => max (height receiver) (heightAll args) + 1
  | construct _ args _ => heightAll args + 1
  | member receiver _ _ => height receiver + 1

/-- The height of the tallest of several expressions. -/
def heightAll : List Expr → Nat
  | [] => 0
  | expr :: others => max (height expr) (heightAll others)

end

theorem heightAll_le_iff {exprs : List Expr} {bound : Nat} :
    heightAll exprs ≤ bound ↔ ∀ expr ∈ exprs, expr.height ≤ bound := by
  induction exprs with
  | nil => simp [heightAll]
  | cons expr others ih => rw [heightAll, Nat.max_le, List.forall_mem_cons, ih]

theorem height_le_of_mem_operands {operand expr : Expr} (h : operand ∈ expr.operands) :
    operand.height ≤ expr.height := by
  have hargs {args : List Expr} (harg : operand ∈ args) : operand.height ≤ heightAll args :=
    heightAll_le_iff.mp (Nat.le_refl _) operand harg
  cases expr with
  | constant | name | member => cases h
  | binary op left right span =>
    rw [height]
    rcases List.mem_cons.mp h with rfl | h
    · omega
    · obtain rfl := List.mem_singleton.mp h
      omega
  | unary op inner span =>
    obtain rfl := List.mem_singleton.mp h
    exact Nat.le_succ _
  | call callee args span | methodCall receiver method args span =>
    rw [height]
    rcases List.mem_cons.mp h with rfl | harg
    · omega
    · have hle := hargs harg
      omega
  | construct className args span => exact Nat.le_succ_of_le (hargs h)

/-- An expression inside another, or that expression itself. -/
inductive Part (e : Expr) : Expr → Prop
  | self : Part e e
  | receiver {receiver : Expr} {attr : String} {span : Span} (inner : Part e receiver) :
    Part e (.member receiver attr span)
  | operand {expr operand : Expr} (mem : operand ∈ expr.operands) (inner : Part e operand) :
    Part e expr

theorem Part.height_le {e expr : Expr} (h : Part e expr) : e.height ≤ expr.height := by
  induction h with
  | self => exact Nat.le_refl _
  | receiver _ ih => exact Nat.le_succ_of_le ih
  | operand mem _ ih => exact Nat.le_trans ih (height_le_of_mem_operands mem)

end Expr

/-- The expressions of a statement, each as a whole, at any depth of blocks. -/
inductive Stmt.Holds (e : Expr) : Stmt → Prop
  | function {definition : FunctionDef Stmt} {span : Span} {stmt : Stmt}
    (mem : stmt ∈ definition.body) (inner : Holds e stmt) : Holds e (.function definition span)
  | method {name : String} {methods : List (FunctionDef Stmt)} {span : Span}
    {method : FunctionDef Stmt} {stmt : Stmt} (memMethod : method ∈ methods)
    (mem : stmt ∈ method.body) (inner : Holds e stmt) : Holds e (.classDef name methods span)
  | target {value : Expr} {span : Span} : Holds e (.assign e value span)
  | value {target : Expr} {span : Span} : Holds e (.assign target e span)
  | branchTest {thenBody : List Stmt} {elseBody : Option (List Stmt)} {span : Span} :
    Holds e (.branch e thenBody elseBody span)
  | thenBody {test : Expr} {body : List Stmt} {elseBody : Option (List Stmt)} {span : Span}
    {stmt : Stmt} (mem : stmt ∈ body) (inner : Holds e stmt) :
    Holds e (.branch test body elseBody span)
  | elseBody {test : Expr} {thenBody body : List Stmt} {span : Span} {stmt : Stmt}
    (mem : stmt ∈ body) (inner : Holds e stmt) :
    Holds e (.branch test thenBody (some body) span)
  | loopTest {body : List Stmt} {span : Span} : Holds e (.loop e body span)
  | loopBody {test : Expr} {body : List Stmt} {span : Span} {stmt : Stmt} (mem : stmt ∈ body)
    (inner : Holds e stmt) : Holds e (.loop test body span)
  | leave {span : Span} : Holds e (.leave (some e) span)
  | eval {span : Span} : Holds e (.eval e span)

/-- The expressions of a program, with all their parts. -/
def Module.Holds (e : Expr) (program : Module) : Prop :=
  ∃ stmt ∈ program.body, ∃ whole, stmt.Holds whole ∧ e.Part whole

end Offside
