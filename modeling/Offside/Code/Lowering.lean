/-
Lowering programs to three-address code.  Each function returns the code it stands for instead of
adding to a buffer, together with the counters it leaves; expressions always lower, statements
fail where they are misplaced.
-/
import Offside.Code.Listing
import Offside.Program.Basic

namespace Offside

/-- Why a program has no code, and where. -/
inductive LoweringError where
  | breakOutsideLoop (span : Span)
  | continueOutsideLoop (span : Span)
  | returnOutsideFunction (span : Span)
  | unsupported (construct : String) (span : Span)
  deriving Repr, DecidableEq

namespace LoweringError

def span : LoweringError → Span
  | breakOutsideLoop span => span
  | continueOutsideLoop span => span
  | returnOutsideFunction span => span
  | unsupported _ span => span

def message : LoweringError → String
  | breakOutsideLoop span => "'break' outside loop at " ++ span.start.text
  | continueOutsideLoop span => "'continue' not properly in loop at " ++ span.start.text
  | returnOutsideFunction span => "'return' outside function at " ++ span.start.text
  | unsupported construct span => "cannot lower " ++ construct ++ " at " ++ span.start.text

end LoweringError

/-! ### Expressions -/

/-- Lowered code that leaves a value (or several) behind, and the number of the next temporary. -/
structure Lowered (α : Type) where
  code : List Instruction
  value : α
  next : Nat
  deriving Repr

namespace Lowered

/-- Finish with an instruction whose result is a fresh temporary. -/
def emit (code : List Instruction) (next : Nat) (instruction : Temp → Instruction) :
    Lowered Operand where
  code := code ++ [instruction ⟨next⟩]
  value := .temp ⟨next⟩
  next := next + 1

end Lowered

namespace Expr

mutual

/-- The code of an expression, evaluated from left to right, and the operand that holds it. -/
def lower : Expr → Nat → Lowered Operand
  | constant value _, next => ⟨[], .const value, next⟩
  | name id _, next => ⟨[], .var id, next⟩
  | member receiver attr _, next =>
    let base := lower receiver next
    ⟨base.code, .attr base.value attr, base.next⟩
  | binary op left right _, next =>
    let left := lower left next
    let right := lower right left.next
    Lowered.emit (left.code ++ right.code) right.next
      (.binary · op left.value right.value)
  | unary op operand _, next =>
    let operand := lower operand next
    Lowered.emit operand.code operand.next (.unary · op operand.value)
  | call callee args _, next =>
    let callee := lower callee next
    let args := lowerAll args callee.next
    Lowered.emit (callee.code ++ args.code) args.next (.call · callee.value args.value)
  | methodCall receiver method args _, next =>
    let receiver := lower receiver next
    let args := lowerAll args receiver.next
    Lowered.emit (receiver.code ++ args.code) args.next
      (.methodCall · receiver.value method args.value)
  | construct className args _, next =>
    let args := lowerAll args next
    Lowered.emit args.code args.next (.construct · className args.value)

/-- The code of several expressions in order. -/
def lowerAll : List Expr → Nat → Lowered (List Operand)
  | [], next => ⟨[], [], next⟩
  | expr :: others, next =>
    let first := lower expr next
    let rest := lowerAll others first.next
    ⟨first.code ++ rest.code, first.value :: rest.value, rest.next⟩

end

/-- The code that finds the place of an assignment target. -/
def lowerTarget : Expr → Nat → Except LoweringError (Lowered Place)
  | name id _, next => .ok ⟨[], .var id, next⟩
  | member receiver attr _, next =>
    let base := lower receiver next
    .ok ⟨base.code, .attr base.value attr, base.next⟩
  | other, _ => .error (.unsupported ("assignment to " ++ other.form) other.span)

/-- The code of an expression statement; a bare value is put into a temporary of its own. -/
def lowerStatement (expr : Expr) (next : Nat) : List Instruction × Nat :=
  let lowered := expr.lower next
  let assigned := (lowered.code ++ [.assign ⟨lowered.next⟩ lowered.value], lowered.next + 1)
  match expr with
  | constant _ _ => assigned
  | name _ _ => assigned
  | member _ _ _ => assigned
  | _ => (lowered.code, lowered.next)

/-- The operator and right operand of a value that operates on the assignment target itself. -/
def augmented? (target : Expr) : Expr → Option (BinaryOp × Expr)
  | binary op left right _ => if left.same target then some (op, right) else none
  | _ => none

end Expr

/-! ### Statements -/

/-- The numbers of the next temporary and the next label. -/
structure Counters where
  temp : Nat
  label : Nat
  deriving Repr, DecidableEq

def Counters.first : Counters := ⟨1, 1⟩

/-- Where `continue` and `break` go. -/
structure LoopLabels where
  head : Label
  exit : Label
  deriving Repr, DecidableEq

/-- What surrounds a statement: a function, and the innermost loop of the same scope. -/
structure Surroundings where
  inFunction : Bool
  innermost : Option LoopLabels
  deriving Repr, DecidableEq

namespace Surroundings

def function : Surroundings := ⟨true, none⟩

def toplevel : Surroundings := ⟨false, none⟩

/-- The surroundings of the body of a loop. -/
def inLoop (around : Surroundings) (labels : LoopLabels) : Surroundings :=
  { around with innermost := some labels }

end Surroundings

namespace Stmt

/-- The code of an assignment.  When the value operates on the target itself, the place of the
target is found once, for reading and for writing. -/
def lowerAssign (target value : Expr) (next : Nat) :
    Except LoweringError (List Instruction × Nat) :=
  match target.augmented? value with
  | some (op, right) => do
    let place ← target.lowerTarget next
    let right := right.lower place.next
    let result : Temp := ⟨right.next⟩
    .ok (place.code ++ right.code ++
      [.binary result op place.value.operand right.value, .store (.temp result) place.value],
      right.next + 1)
  | none => do
    let value := value.lower next
    let place ← target.lowerTarget value.next
    .ok (value.code ++ place.code ++ [.store value.value place.value], place.next)

mutual

/-- The code of a statement. -/
def lower (around : Surroundings) :
    Stmt → Counters → Except LoweringError (List Instruction × Counters)
  | function _ span, _ => .error (.unsupported "nested function definition" span)
  | classDef _ _ span, _ => .error (.unsupported "nested class definition" span)
  | assign target value _, counters => do
    let (code, next) ← lowerAssign target value counters.temp
    .ok (code, { counters with temp := next })
  | branch test thenBody none _, counters => do
    let test := test.lower counters.temp
    let thenLabel : Label := ⟨counters.label⟩
    let endLabel : Label := ⟨counters.label + 1⟩
    let (thenCode, counters) ← lowerAll around thenBody ⟨test.next, counters.label + 2⟩
    .ok (test.code ++ [.branch test.value thenLabel, .jump endLabel, .label thenLabel] ++
      thenCode ++ [.label endLabel], counters)
  | branch test thenBody (some elseBody) _, counters => do
    let test := test.lower counters.temp
    let thenLabel : Label := ⟨counters.label⟩
    let elseLabel : Label := ⟨counters.label + 1⟩
    let endLabel : Label := ⟨counters.label + 2⟩
    let (thenCode, counters) ← lowerAll around thenBody ⟨test.next, counters.label + 3⟩
    let (elseCode, counters) ← lowerAll around elseBody counters
    .ok (test.code ++ [.branch test.value thenLabel, .jump elseLabel, .label thenLabel] ++
      thenCode ++ [.jump endLabel, .label elseLabel] ++ elseCode ++ [.label endLabel], counters)
  | loop test body _, counters => do
    let head : Label := ⟨counters.label⟩
    let bodyLabel : Label := ⟨counters.label + 1⟩
    let exit : Label := ⟨counters.label + 2⟩
    let test := test.lower counters.temp
    let (bodyCode, counters) ←
      lowerAll (around.inLoop ⟨head, exit⟩) body ⟨test.next, counters.label + 3⟩
    .ok ([.label head] ++ test.code ++
      [.branch test.value bodyLabel, .jump exit, .label bodyLabel] ++
      bodyCode ++ [.jump head, .label exit], counters)
  | leave value span, counters =>
    if around.inFunction then
      match value with
      | none => .ok ([.leave none], counters)
      | some value =>
        let value := value.lower counters.temp
        .ok (value.code ++ [.leave (some value.value)], { counters with temp := value.next })
    else .error (.returnOutsideFunction span)
  | pass _, counters => .ok ([], counters)
  | breakLoop span, counters =>
    match around.innermost with
    | some labels => .ok ([.jump labels.exit], counters)
    | none => .error (.breakOutsideLoop span)
  | continueLoop span, counters =>
    match around.innermost with
    | some labels => .ok ([.jump labels.head], counters)
    | none => .error (.continueOutsideLoop span)
  | eval expr _, counters =>
    let (code, next) := expr.lowerStatement counters.temp
    .ok (code, { counters with temp := next })

/-- The code of several statements in order. -/
def lowerAll (around : Surroundings) :
    List Stmt → Counters → Except LoweringError (List Instruction × Counters)
  | [], counters => .ok ([], counters)
  | stmt :: others, counters => do
    let (first, counters) ← lower around stmt counters
    let (rest, counters) ← lowerAll around others counters
    .ok (first ++ rest, counters)

end

def isLeave : Stmt → Bool
  | leave _ _ => true
  | _ => false

end Stmt

/-! ### Definitions and programs -/

namespace FunctionDef

/-- The name of the method that prepares a new object. -/
def initName : String := "__init__"

/-- Lower a function under the given name, with a bare return at its end if one is due and the
body does not end with a return itself. -/
def lower (definition : FunctionDef Stmt) (name : String) (returns : Bool) :
    Except LoweringError Procedure := do
  let (code, _) ← Stmt.lowerAll .function definition.body .first
  let endsWithLeave := (definition.body.getLast?.map Stmt.isLeave).getD false
  let tail := if returns && !endsWithLeave then [Instruction.leave none] else []
  .ok { name := name, params := definition.params.map Param.name, body := code ++ tail }

/-- The name of a method, with its class in front. -/
def qualifiedName (method : FunctionDef Stmt) (className : String) : String :=
  className ++ "." ++ method.name

/-- Lower a method; the one that prepares a new object always ends with a return. -/
def lowerMethod (method : FunctionDef Stmt) (className : String) :
    Except LoweringError Procedure :=
  method.lower (method.qualifiedName className) (method.name == initName)

end FunctionDef

namespace Listing

/-- Keep every method of a class under its name, with the class in front. -/
def putMethods (className : String) : List (FunctionDef Stmt) → List (String × Procedure) →
    Except LoweringError (List (String × Procedure))
  | [], entries => .ok entries
  | method :: others, entries => do
    let procedure ← method.lowerMethod className
    putMethods className others (put entries (method.qualifiedName className) procedure)

/-- Lower the statements of a program in order.  Statements outside of definitions share one
scope. -/
def ofStmts : List Stmt → List (String × Procedure) → Counters → Except LoweringError Listing
  | [], entries, _ => .ok ⟨entries, []⟩
  | .function definition _ :: others, entries, counters => do
    let procedure ← definition.lower definition.name false
    ofStmts others (put entries procedure.name procedure) counters
  | .classDef name methods _ :: others, entries, counters => do
    let entries ← putMethods name methods entries
    ofStmts others entries counters
  | stmt :: others, entries, counters => do
    let (code, counters) ← stmt.lower .toplevel counters
    let listing ← ofStmts others entries counters
    .ok { listing with toplevel := code ++ listing.toplevel }

end Listing

namespace Module

/-- The code of a program. -/
def lower (program : Module) : Except LoweringError Listing :=
  Listing.ofStmts program.body [] .first

end Module

end Offside
