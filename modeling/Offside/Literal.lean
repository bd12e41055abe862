/-
Literal values of the language and their text.
-/
import Offside.Decimal.Layout
import Offside.Text.Quoted

namespace Offside

/-- A literal value.  Whole numbers come from the signed 64-bit range. -/
inductive Literal where
  | int (value : Int)
  | float (value : Binary64)
  | bool (value : Bool)
  | str (value : String)
  | none
  deriving Repr, DecidableEq

namespace Literal

/-- The text of a truth value. -/
def boolText (value : Bool) : String := if value then "True" else "False"

/-- The literal as it would be written in a source. -/
def text : Literal → String
  | .int value => toString value
  | .float value => value.text
  | .bool value => boolText value
  | .str value => Quoted.literal value
  | .none => "None"

/-- Equality of values: floats compare as numbers, so a not-a-number differs from itself and the
two zeros agree.  Values of different kinds are never equal. -/
def sameValue : Literal → Literal → Bool
  | .float x, .float y => x.sameValue y
  | .float _, _ => false
  | x, y => x == y

end Literal

end Offside
