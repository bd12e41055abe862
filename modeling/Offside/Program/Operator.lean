/-
The operators of expressions.
-/
namespace Offside

inductive BinaryOp where
  | add
  | sub
  | mul
  | div
  | floorDiv
  | mod
  | pow
  | equal
  | notEqual
  | less
  | lessEqual
  | greater
  | greaterEqual
  | and
  | or
  deriving Repr, DecidableEq

/-- The spelling of an operator between its operands. -/
def BinaryOp.text : BinaryOp → String
  | add => "+"
  | sub => "-"
  | mul => "*"
  | div => "/"
  | floorDiv => "//"
  | mod => "%"
  | pow => "**"
  | equal => "=="
  | notEqual => "!="
  | less => "<"
  | lessEqual => "<="
  | greater => ">"
  | greaterEqual => ">="
  | and => "and"
  | or => "or"

inductive UnaryOp where
  | neg
  | not
  deriving Repr, DecidableEq

/-- The spelling of an operator in front of its operand, with the space that a word needs. -/
def UnaryOp.text : UnaryOp → String
  | neg => "-"
  | not => "not "

end Offside
