/-
How tightly operators bind, loosest first.  An operator binds its right operand one level tighter
than its left one, so that it groups to the left; the power operator binds it at the level of the
unary operators, so that it groups to the right and takes a signed exponent.
-/
import Offside.Program.Operator
import Offside.Token.Kind

namespace Offside

namespace Binding

def lowest : Nat := 0
def or : Nat := 1
def and : Nat := 2
def not : Nat := 3
def comparison : Nat := 4
def sum : Nat := 5
def product : Nat := 6
def unary : Nat := 7
def power : Nat := 8

end Binding

/-- An operator between two operands with the level at which it binds each of them. -/
structure Joining where
  left : Nat
  right : Nat
  op : BinaryOp
  deriving Repr, DecidableEq

namespace Joining

/-- An operator that groups to the left. -/
def leftward (level : Nat) (op : BinaryOp) : Joining := ⟨level, level + 1, op⟩

/-- The operator that a token stands for between two operands. -/
def ofKind? : TokenKind → Option Joining
  | .keyword .or => some (leftward Binding.or .or)
  | .keyword .and => some (leftward Binding.and .and)
  | .symbol .equal => some (leftward Binding.comparison .equal)
  | .symbol .notEqual => some (leftward Binding.comparison .notEqual)
  | .symbol .less => some (leftward Binding.comparison .less)
  | .symbol .lessEqual => some (leftward Binding.comparison .lessEqual)
  | .symbol .greater => some (leftward Binding.comparison .greater)
  | .symbol .greaterEqual => some (leftward Binding.comparison .greaterEqual)
  | .symbol .plus => some (leftward Binding.sum .add)
  | .symbol .minus => some (leftward Binding.sum .sub)
  | .symbol .star => some (leftward Binding.product .mul)
  | .symbol .slash => some (leftward Binding.product .div)
  | .symbol .slashSlash => some (leftward Binding.product .floorDiv)
  | .symbol .percent => some (leftward Binding.product .mod)
  | .symbol .starStar => some ⟨Binding.power, Binding.unary, .pow⟩
  | _ => none

end Joining

namespace TokenKind

/-- The operator that an augmented assignment applies. -/
def augmentation? : TokenKind → Option BinaryOp
  | .symbol .plusAssign => some .add
  | .symbol .minusAssign => some .sub
  | .symbol .starAssign => some .mul
  | .symbol .slashAssign => some .div
  | _ => none

end TokenKind

end Offside
