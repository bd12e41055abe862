/-
Induction over programs with one motive: the lists inside an expression or a statement enter as
"every member has the property".
-/
import Offside.Program.Basic

namespace Offside

/-- Induction over expressions; arguments have the property one by one. -/
theorem Expr.induction {motive : Expr → Prop}
    (constant : ∀ value span, motive (.constant value span))
    (name : ∀ id span, motive (.name id span))
    (binary : ∀ op left right span, motive left → motive right →
      motive (.binary op left right span))
    (unary : ∀ op operand span, motive operand → motive (.unary op operand span))
    (call : ∀ callee args span, motive callee → (∀ arg ∈ args, motive arg) →
      motive (.call callee args span))
    (methodCall : ∀ receiver method args span, motive receiver → (∀ arg ∈ args, motive arg) →
      motive (.methodCall receiver method args span))
    (construct : ∀ className args span, (∀ arg ∈ args, motive arg) →
      motive (.construct className args span))
    (member : ∀ receiver attr span, motive receiver → motive (.member receiver attr span))
    (expr : Expr) : motive expr :=
  Expr.rec constant name (fun op left right span => binary op left right span)
    (fun op operand span => unary op operand span)
    (fun callee args span => call callee args span)
    (fun receiver method args span => methodCall receiver method args span)
    (fun className args span => construct className args span)
    (fun receiver attr span => member receiver attr span)
    (List.forall_mem_nil motive)
    (fun _ _ head tail => List.forall_mem_cons.mpr ⟨head, tail⟩) expr

namespace Expr

/-- Whether an expression carries something out on the values of its operands. -/
def isOperation : Expr → Bool
  | binary _ _ _ _ | unary _ _ _ | call _ _ _ | methodCall _ _ _ _ | construct _ _ _ => true
  | _ => false

/-- What an operation is carried out on, from left to right. -/
def operands : Expr → List Expr
  | binary _ left right _ => [left, right]
  | unary _ operand _ => [operand]
  | call callee args _ => callee :: args
  | methodCall receiver _ args _ => receiver :: args
  | construct _ args _ => args
  | _ => []

def isMember : Expr → Bool
  | member _ _ _ => true
  | _ => false

/-- Whether an expression carries out no call, method or construction. -/
def isQuiet : Expr → Bool
  | constant _ _ | name _ _ => true
  | member receiver _ _ => isQuiet receiver
  | binary _ left right _ => isQuiet left && isQuiet right
  | unary _ operand _ => isQuiet operand
  | _ => false

/-- Induction over expressions in which all operations are one case. -/
theorem operation_induction {motive : Expr → Prop}
    (constant : ∀ value span, motive (.constant value span))
    (name : ∀ id span, motive (.name id span))
    (member : ∀ receiver attr span, motive receiver → motive (.member receiver attr span))
    (operation : ∀ expr, expr.isOperation = true → (∀ operand ∈ expr.operands, motive operand) →
      motive expr)
    (expr : Expr) : motive expr := by
  induction expr using Expr.induction with
  | constant value span => exact constant value span
  | name id span => exact name id span
  | member receiver attr span ih => exact member receiver attr span ih
  | binary op left right span ihLeft ihRight =>
    exact operation _ rfl (by simp [operands, ihLeft, ihRight])
  | unary op operand span ih => exact operation _ rfl (by simp [operands, ih])
  | call callee args span ihCallee ihArgs =>
    exact operation _ rfl (List.forall_mem_cons.mpr ⟨ihCallee, ihArgs⟩)
  | methodCall receiver method args span ihReceiver ihArgs =>
    exact operation _ rfl (List.forall_mem_cons.mpr ⟨ihReceiver, ihArgs⟩)
  | construct className args span ihArgs => exact operation _ rfl ihArgs

end Expr

/-- Induction over statements; bodies have the property statement by statement. -/
theorem Stmt.induction {motive : Stmt → Prop}
    (function : ∀ (definition : FunctionDef Stmt) span, (∀ stmt ∈ definition.body, motive stmt) →
      motive (.function definition span))
    (classDef : ∀ name (methods : List (FunctionDef Stmt)) span,
      (∀ method ∈ methods, ∀ stmt ∈ method.body, motive stmt) →
      motive (.classDef name methods span))
    (assign : ∀ target value span, motive (.assign target value span))
    (branch : ∀ test thenBody elseBody span, (∀ stmt ∈ thenBody, motive stmt) →
      (∀ body ∈ elseBody, ∀ stmt ∈ body, motive stmt) →
      motive (.branch test thenBody elseBody span))
    (loop : ∀ test body span, (∀ stmt ∈ body, motive stmt) → motive (.loop test body span))
    (leave : ∀ value span, motive (.leave value span))
    (pass : ∀ span, motive (.pass span))
    (breakLoop : ∀ span, motive (.breakLoop span))
    (continueLoop : ∀ span, motive (.continueLoop span))
    (eval : ∀ expr span, motive (.eval expr span))
    (stmt : Stmt) : motive stmt :=
  @Stmt.rec motive (fun definition => ∀ stmt ∈ definition.body, motive stmt)
    (fun methods => ∀ method ∈ methods, ∀ stmt ∈ FunctionDef.body method, motive stmt)
    (fun body => ∀ stmt ∈ body, motive stmt)
    (fun body? => ∀ body ∈ body?, ∀ stmt ∈ body, motive stmt)
    function classDef assign branch loop leave pass breakLoop continueLoop eval
    (fun _ _ _ _ body => body) (by simp) (by simp_all) (by simp) (by simp_all) (by simp)
    (by simp) stmt

end Offside
