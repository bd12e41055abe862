/-
The outline of a program: a labelled tree whose nodes are numbered in the order in which they are
listed, each before its children, and its text with one line per node.
-/
import Offside.Program.Basic

namespace Offside

/-- What a node is to its parent. -/
inductive Role where
  | target
  | value
  | test
  | thenBody
  | elseBody
  | body
  | param
  | method
  | left
  | right
  | operand
  | callee
  | receiver
  | arg
  deriving Repr, DecidableEq

def Role.text : Role → String
  | target => "target"
  | value => "value"
  | test => "test"
  | thenBody => "then"
  | elseBody => "else"
  | body => "body"
  | param => "param"
  | method => "method"
  | left => "left"
  | right => "right"
  | operand => "operand"
  | callee => "callee"
  | receiver => "receiver"
  | arg => "arg"

/-- A node of an outline. -/
inductive Outline where
  | node (id : Nat) (form : String) (value : Option String) (role : Option Role)
      (children : List Outline)
  deriving Repr

namespace Outline

def children : Outline → List Outline
  | node _ _ _ _ children => children

/-- The role, the form and the value of a node in one line. -/
def label : Outline → String
  | node _ form value role _ =>
    let front := match role with
      | some role => role.text ++ ": "
      | none => ""
    let back := match value with
      | some value => "(" ++ value ++ ")"
      | none => ""
    front ++ form ++ back

mutual

/-- Number of nodes. -/
def size : Outline → Nat
  | node _ _ _ _ children => 1 + sizes children

/-- Number of nodes of several outlines. -/
def sizes : List Outline → Nat
  | [] => 0
  | child :: others => size child + sizes others

end

mutual

/-- One line per node, two spaces deeper than its parent. -/
def linesAt (depth : Nat) : Outline → List String
  | node id form value role children =>
    (String.ofList (List.replicate (2 * depth) ' ') ++ (node id form value role []).label) ::
      linesOf (depth + 1) children

/-- The lines of several outlines. -/
def linesOf (depth : Nat) : List Outline → List String
  | [] => []
  | child :: others => linesAt depth child ++ linesOf depth others

end

/-! ### Outlines of programs

Each function takes the number of its first node and returns the first number it left free. -/

mutual

def ofExpr : Expr → Option Role → Nat → Outline × Nat
  | .constant value _, role, id => (node id "Constant" (some value.text) role [], id + 1)
  | .name name _, role, id => (node id "Name" (some name) role [], id + 1)
  | .binary op left right _, role, id =>
    let (left, next) := ofExpr left (some .left) (id + 1)
    let (right, next) := ofExpr right (some .right) next
    (node id "BinOp" (some op.text) role [left, right], next)
  | .unary op operand _, role, id =>
    let (operand, next) := ofExpr operand (some .operand) (id + 1)
    let value := match op with
      | .neg => "-"
      | .not => "not"
    (node id "UnaryOp" (some value) role [operand], next)
  | .call callee args _, role, id =>
    let (callee, next) := ofExpr callee (some .callee) (id + 1)
    let (args, next) := ofArgs args next
    (node id "Call" none role (callee :: args), next)
  | .methodCall receiver method args _, role, id =>
    let (receiver, next) := ofExpr receiver (some .receiver) (id + 1)
    let (args, next) := ofArgs args next
    (node id "MethodCall" (some method) role (receiver :: args), next)
  | .construct className args _, role, id =>
    let (args, next) := ofArgs args (id + 1)
    (node id "New" (some className) role args, next)
  | .member receiver attr _, role, id =>
    let (receiver, next) := ofExpr receiver (some .receiver) (id + 1)
    (node id "AttributeRef" (some attr) role [receiver], next)

def ofArgs : List Expr → Nat → List Outline × Nat
  | [], id => ([], id)
  | arg :: others, id =>
    let (arg, next) := ofExpr arg (some .arg) id
    let (others, next) := ofArgs others next
    (arg :: others, next)

end

def ofParams : List Param → Nat → List Outline × Nat
  | [], id => ([], id)
  | param :: others, id =>
    let (others, next) := ofParams others (id + 1)
    (node id "Param" (some param.name) (some .param) [] :: others, next)

mutual

def ofStmt : Stmt → Option Role → Nat → Outline × Nat
  | .function definition _, role, id => ofFunction definition role id
  | .classDef name methods _, role, id =>
    let (methods, next) := ofMethods methods (id + 1)
    (node id "ClassDef" (some name) role methods, next)
  | .assign target value _, role, id =>
    let (target, next) := ofExpr target (some .target) (id + 1)
    let (value, next) := ofExpr value (some .value) next
    (node id "Assign" none role [target, value], next)
  | .branch test thenBody elseBody _, role, id =>
    let (test, next) := ofExpr test (some .test) (id + 1)
    let (thenBody, next) := ofBody thenBody (some .thenBody) next
    let (elseBody, next) := ofElse elseBody next
    (node id "If" none role (test :: (thenBody ++ elseBody)), next)
  | .loop test body _, role, id =>
    let (test, next) := ofExpr test (some .test) (id + 1)
    let (body, next) := ofBody body (some .body) next
    (node id "While" none role (test :: body), next)
  | .leave none _, role, id => (node id "Return" none role [], id + 1)
  | .leave (some value) _, role, id =>
    let (value, next) := ofExpr value (some .value) (id + 1)
    (node id "Return" none role [value], next)
  | .pass _, role, id => (node id "Pass" none role [], id + 1)
  | .breakLoop _, role, id => (node id "Break" none role [], id + 1)
  | .continueLoop _, role, id => (node id "Continue" none role [], id + 1)
  | .eval expr _, role, id =>
    let (expr, next) := ofExpr expr none (id + 1)
    (node id "ExprStmt" none role [expr], next)

def ofFunction : FunctionDef Stmt → Option Role → Nat → Outline × Nat
  | ⟨name, params, body, _⟩, role, id =>
    let (params, next) := ofParams params (id + 1)
    let (body, next) := ofBody body (some .body) next
    (node id "FunctionDef" (some name) role (params ++ body), next)

def ofMethods : List (FunctionDef Stmt) → Nat → List Outline × Nat
  | [], id => ([], id)
  | method :: others, id =>
    let (method, next) := ofFunction method (some .method) id
    let (others, next) := ofMethods others next
    (method :: others, next)

def ofBody : List Stmt → Option Role → Nat → List Outline × Nat
  | [], _, id => ([], id)
  | stmt :: others, role, id =>
    let (stmt, next) := ofStmt stmt role id
    let (others, next) := ofBody others role next
    (stmt :: others, next)

def ofElse : Option (List Stmt) → Nat → List Outline × Nat
  | none, id => ([], id)
  | some body, id => ofBody body (some .elseBody) id

end

/-- The outline of a program; its root is node zero. -/
def ofModule (program : Module) : Outline :=
  node 0 "Module" none none (ofBody program.body none 1).1

end Outline

namespace Module

/-- The lines of the outline of a program, without its root. -/
def outlineLines (program : Module) : List String :=
  Outline.linesOf 0 (Outline.ofModule program).children

/-- The outline of a program as a text in which every line ends with a line feed. -/
def outlineText (program : Module) : String :=
  String.join (program.outlineLines.map (· ++ "\n"))

end Module

end Offside
