/-
Programs as trees.  Every node carries the span it was read from; two programs are the same
data when their trees agree, spans included.
-/
import Offside.Literal
import Offside.Program.Operator
import Offside.Source.Position

namespace Offside

/-- An expression. -/
inductive Expr where
  | constant (value : Literal) (span : Span)
  | name (name : String) (span : Span)
  | binary (op : BinaryOp) (left right : Expr) (span : Span)
  | unary (op : UnaryOp) (operand : Expr) (span : Span)
  /-- A call of something that is not known to be a class. -/
  | call (callee : Expr) (args : List Expr) (span : Span)
  | methodCall (receiver : Expr) (method : String) (args : List Expr) (span : Span)
  /-- A call of a known class. -/
  | construct (className : String) (args : List Expr) (span : Span)
  | member (receiver : Expr) (attr : String) (span : Span)
  deriving Repr

namespace Expr

def span : Expr → Span
  | constant _ span => span
  | name _ span => span
  | binary _ _ _ span => span
  | unary _ _ span => span
  | call _ _ span => span
  | methodCall _ _ _ span => span
  | construct _ _ span => span
  | member _ _ span => span

/-- The name of the form of an expression. -/
def form : Expr → String
  | constant _ _ => "Constant"
  | name _ _ => "Name"
  | binary _ _ _ _ => "BinOp"
  | unary _ _ _ => "UnaryOp"
  | call _ _ _ => "Call"
  | methodCall _ _ _ _ => "MethodCall"
  | construct _ _ _ => "New"
  | member _ _ _ => "AttributeRef"

/-- Names and attributes can be assigned to. -/
def isAssignable : Expr → Bool
  | name _ _ => true
  | member _ _ _ => true
  | _ => false

mutual

/-- Whether two expressions agree in form, spans and values.  Values compare as values do, so an
expression that holds a not-a-number is not even the same as itself. -/
def same : Expr → Expr → Bool
  | constant v s, constant w t => v.sameValue w && s == t
  | name a s, name b t => a == b && s == t
  | binary o a b s, binary p c d t => o == p && same a c && same b d && s == t
  | unary o a s, unary p b t => o == p && same a b && s == t
  | call a as s, call b bs t => same a b && sameAll as bs && s == t
  | methodCall a m as s, methodCall b n bs t => same a b && m == n && sameAll as bs && s == t
  | construct c as s, construct d bs t => c == d && sameAll as bs && s == t
  | member a m s, member b n t => same a b && m == n && s == t
  | _, _ => false

/-- The same, for two lists of expressions. -/
def sameAll : List Expr → List Expr → Bool
  | [], [] => true
  | a :: as, b :: bs => same a b && sameAll as bs
  | _, _ => false

end

end Expr

/-- A parameter of a function. -/
structure Param where
  name : String
  span : Span
  deriving Repr, DecidableEq

/-- A function or method whose body is made of statements. -/
structure FunctionDef (Statement : Type) where
  name : String
  params : List Param
  body : List Statement
  span : Span
  deriving Repr

/-- A statement. -/
inductive Stmt where
  | function (definition : FunctionDef Stmt) (span : Span)
  | classDef (name : String) (methods : List (FunctionDef Stmt)) (span : Span)
  /-- An augmented assignment has the operation on the target as its value. -/
  | assign (target value : Expr) (span : Span)
  /-- A chain of alternatives nests in the body of the last branch. -/
  | branch (test : Expr) (thenBody : List Stmt) (elseBody : Option (List Stmt)) (span : Span)
  | loop (test : Expr) (body : List Stmt) (span : Span)
  | leave (value : Option Expr) (span : Span)
  | pass (span : Span)
  | breakLoop (span : Span)
  | continueLoop (span : Span)
  | eval (expr : Expr) (span : Span)
  deriving Repr

namespace Stmt

def span : Stmt → Span
  | function _ span => span
  | classDef _ _ span => span
  | assign _ _ span => span
  | branch _ _ _ span => span
  | loop _ _ span => span
  | leave _ span => span
  | pass span => span
  | breakLoop span => span
  | continueLoop span => span
  | eval _ span => span

/-- The name of the form of a statement. -/
def form : Stmt → String
  | function _ _ => "FunctionDef"
  | classDef _ _ _ => "ClassDef"
  | assign _ _ _ => "Assign"
  | branch _ _ _ _ => "If"
  | loop _ _ _ => "While"
  | leave _ _ => "Return"
  | pass _ => "Pass"
  | breakLoop _ => "Break"
  | continueLoop _ => "Continue"
  | eval _ _ => "ExprStmt"

end Stmt

/-- A whole program. -/
structure Module where
  body : List Stmt
  span : Span
  deriving Repr

end Offside
