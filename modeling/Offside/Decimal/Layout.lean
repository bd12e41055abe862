/-
How a double-precision number is written: positionally with at least one digit after the point
from 10^-4 up to, but not including, 10^16, otherwise with an exponent.
-/
import Offside.Decimal.Shortest

namespace Offside

/-- The choices that fix the text of a number once its digits are known. -/
structure FloatFormat where
  /-- Smallest and largest place of the point that is written positionally. -/
  leastPoint : Int
  greatestPoint : Int
  exponentMark : String
  notANumber : String
  infinity : String
  deriving Repr, DecidableEq

/-- The format of literals: `0.0001` to `9999999999999998.0`, beyond that `1e16` and `1e-5`. -/
def FloatFormat.literal : FloatFormat where
  leastPoint := -3
  greatestPoint := 16
  exponentMark := "e"
  notANumber := "NaN"
  infinity := "inf"

namespace FloatFormat

def digitText (digits : Nat) : List Char := Nat.toDigits 10 digits

/-- Digits around a point; a whole number gets `.0`. -/
def positional (digits : List Char) (point : Int) : List Char :=
  if point ≤ 0 then
    '0' :: '.' :: (List.replicate (-point).toNat '0' ++ digits)
  else if digits.length ≤ point.toNat then
    digits ++ List.replicate (point.toNat - digits.length) '0' ++ ['.', '0']
  else digits.take point.toNat ++ '.' :: digits.drop point.toNat

/-- One digit before the point, none after it if there are no more. -/
def scientific (mark : String) (digits : List Char) (point : Int) : List Char :=
  let mantissa := match digits with
    | [] => []
    | [d] => [d]
    | d :: others => d :: '.' :: others
  mantissa ++ mark.toList ++ (toString (point - 1)).toList

/-- The text of a number without its sign. -/
def magnitudeText (format : FloatFormat) (x : Binary64) : List Char :=
  if x.isInfinite then format.infinity.toList
  else if x.magnitude = 0 then ['0', '.', '0']
  else
    let short := Binary64.shortest x.magnitude
    let digits := digitText short.digits
    if format.leastPoint ≤ short.point ∧ short.point ≤ format.greatestPoint then
      positional digits short.point
    else scientific format.exponentMark digits short.point

/-- The text of a number; a not-a-number shows no sign. -/
def write (format : FloatFormat) (x : Binary64) : String :=
  if x.isNaN then format.notANumber
  else if x.isNegative then String.ofList ('-' :: format.magnitudeText x)
  else String.ofList (format.magnitudeText x)

end FloatFormat

namespace Binary64

/-- The text of a number as a literal. -/
def text (x : Binary64) : String := FloatFormat.literal.write x

end Binary64

end Offside
