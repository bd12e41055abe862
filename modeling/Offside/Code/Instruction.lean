/-
Three-address code: operands, instructions and their text.
-/
import Offside.Literal
import Offside.Program.Operator

namespace Offside

/-- A temporary; numbering starts at one in every scope. -/
structure Temp where
  number : Nat
  deriving Repr, DecidableEq

def Temp.text (temp : Temp) : String := "t" ++ toString temp.number

/-- A jump target; numbering starts at one in every scope. -/
structure Label where
  number : Nat
  deriving Repr, DecidableEq

def Label.text (label : Label) : String := "L" ++ toString label.number

/-- What an instruction reads. -/
inductive Operand where
  | temp (temp : Temp)
  /-- A variable or a parameter. -/
  | var (name : String)
  | const (value : Literal)
  /-- An attribute, read when the instruction runs. -/
  | attr (base : Operand) (name : String)
  deriving Repr, DecidableEq

namespace Operand

/-- Temporaries that are read with the operand. -/
def temps : Operand → List Temp
  | temp t => [t]
  | var _ => []
  | const _ => []
  | attr base _ => base.temps

def text : Operand → String
  | temp t => t.text
  | var name => name
  | const value => value.text
  | attr base name => base.text ++ "." ++ name

end Operand

/-- What a store writes. -/
inductive Place where
  | var (name : String)
  | attr (base : Operand) (name : String)
  deriving Repr, DecidableEq

namespace Place

/-- The operand that reads a place. -/
def operand : Place → Operand
  | var name => .var name
  | attr base name => .attr base name

/-- Temporaries that are read to find the place. -/
def temps : Place → List Temp
  | var _ => []
  | attr base _ => base.temps

def text (place : Place) : String := place.operand.text

end Place

inductive Instruction where
  | assign (result : Temp) (source : Operand)
  | store (source : Operand) (target : Place)
  | call (result : Temp) (callee : Operand) (args : List Operand)
  | methodCall (result : Temp) (receiver : Operand) (method : String) (args : List Operand)
  | construct (result : Temp) (className : String) (args : List Operand)
  | binary (result : Temp) (op : BinaryOp) (left right : Operand)
  | unary (result : Temp) (op : UnaryOp) (source : Operand)
  | leave (value : Option Operand)
  | label (label : Label)
  /-- Jump if the condition holds, otherwise go on. -/
  | branch (condition : Operand) (target : Label)
  | jump (target : Label)
  deriving Repr, DecidableEq

namespace Instruction

/-- The temporary that an instruction writes. -/
def result? : Instruction → Option Temp
  | assign result _ => some result
  | store _ _ => none
  | call result _ _ => some result
  | methodCall result _ _ _ => some result
  | construct result _ _ => some result
  | binary result _ _ _ => some result
  | unary result _ _ => some result
  | leave _ => none
  | label _ => none
  | branch _ _ => none
  | jump _ => none

/-- The temporaries that an instruction reads, in the order of its operands. -/
def reads : Instruction → List Temp
  | assign _ source => source.temps
  | store source target => source.temps ++ target.temps
  | call _ callee args => callee.temps ++ args.flatMap Operand.temps
  | methodCall _ receiver _ args => receiver.temps ++ args.flatMap Operand.temps
  | construct _ _ args => args.flatMap Operand.temps
  | binary _ _ left right => left.temps ++ right.temps
  | unary _ _ source => source.temps
  | leave none => []
  | leave (some value) => value.temps
  | label _ => []
  | branch condition _ => condition.temps
  | jump _ => []

/-- Operands between parentheses. -/
def argsText (args : List Operand) : String :=
  "(" ++ ", ".intercalate (args.map Operand.text) ++ ")"

def text : Instruction → String
  | assign result source => result.text ++ " = " ++ source.text
  | store source target => "store " ++ source.text ++ " -> " ++ target.text
  | call result callee args => result.text ++ " = call " ++ callee.text ++ argsText args
  | methodCall result receiver method args =>
    result.text ++ " = call " ++ receiver.text ++ "." ++ method ++ argsText args
  | construct result className args => result.text ++ " = new " ++ className ++ argsText args
  | binary result op left right =>
    result.text ++ " = " ++ left.text ++ " " ++ op.text ++ " " ++ right.text
  | unary result op source => result.text ++ " = " ++ op.text ++ source.text
  | leave none => "return"
  | leave (some value) => "return " ++ value.text
  | label l => l.text ++ ":"
  | branch condition target => "if " ++ condition.text ++ " jump " ++ target.text
  | jump target => "jump " ++ target.text

end Instruction

end Offside
