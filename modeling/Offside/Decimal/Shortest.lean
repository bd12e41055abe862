/-
The fewest decimal digits that still name a double-precision number.  A decimal names the number
if it lies in the interval of reals that round to it; grids of one, two, three and more digits
are tried in turn, and on the first grid that meets the interval the nearer neighbour wins.
-/
import Offside.Decimal.Binary64

namespace Offside

/-- A decimal number `0.d₁d₂… * 10 ^ point`: `digits` are d₁d₂… read as one number. -/
structure ShortDecimal where
  digits : Nat
  point : Int
  deriving Repr, DecidableEq

namespace Binary64

/-- The number one, in units of 2^-1075. -/
def unitsOfOne : Nat := Nat.pow 2 1075

/-- The interval of reals that round to a magnitude, in units of 2^-1075.  Its ends belong to it
when the pattern is even, since a half goes to the even neighbour. -/
structure Interval where
  low : Nat
  value : Nat
  high : Nat
  closed : Bool
  deriving Repr, DecidableEq

def interval (magnitude : Nat) : Interval where
  low := units (magnitude - 1) + units magnitude
  value := 2 * units magnitude
  high := units magnitude + units (magnitude + 1)
  closed := magnitude % 2 == 0

/-- Whether the fraction `numerator / denominator` lies in the interval. -/
def Interval.contains (i : Interval) (numerator denominator : Nat) : Bool :=
  if i.closed then i.low * denominator ≤ numerator && numerator ≤ i.high * denominator
  else i.low * denominator < numerator && numerator < i.high * denominator

/-- The point of the grid of multiples of `10 ^ exponent` that lies in the interval nearest to
its value, if there is one; a tie goes up. -/
def Interval.onGrid? (i : Interval) (exponent : Int) : Option Nat :=
  -- one grid step is `step / scale` units
  let step := if 0 ≤ exponent then Nat.pow 10 exponent.toNat * unitsOfOne else unitsOfOne
  let scale := if 0 ≤ exponent then 1 else Nat.pow 10 (-exponent).toNat
  let below := i.value * scale / step
  let rest := i.value * scale % step
  let belowFits := i.contains (below * step) scale
  let aboveFits := i.contains ((below + 1) * step) scale
  if aboveFits && (!belowFits || step ≤ 2 * rest) then some (below + 1)
  else if belowFits then some below
  else none

/-- Search the grids from `exponent` downwards, at most `grids` of them. -/
def Interval.shortestFrom (i : Interval) : Nat → Int → Nat × Int
  | 0, exponent => (0, exponent)
  | grids + 1, exponent =>
    match i.onGrid? exponent with
    | some digits => (digits, exponent)
    | none => i.shortestFrom grids (exponent - 1)

/-- Drop the zeros at the end of a digit string, at most `fuel` of them. -/
def dropZeros : Nat → Nat → Int → Nat × Int
  | 0, digits, exponent => (digits, exponent)
  | fuel + 1, digits, exponent =>
    if digits % 10 = 0 then dropZeros fuel (digits / 10) (exponent + 1) else (digits, exponent)

/-- The number of decimal digits of a positive number. -/
def digitCount (n : Nat) : Nat := (Nat.toDigits 10 n).length

/-- The shortest decimal that reads back as a finite positive magnitude. -/
def shortest (magnitude : Nat) : ShortDecimal :=
  let i := interval magnitude
  -- the first digit stands at most one place above or below `top`, and 17 digits suffice
  let top : Int :=
    if unitsOfOne ≤ i.value then (digitCount (i.value / unitsOfOne) : Int)
    else 1 - (digitCount (unitsOfOne / i.value) : Int)
  let (digits, exponent) := i.shortestFrom 20 (top + 1)
  let (digits, exponent) := dropZeros 20 digits exponent
  { digits := digits, point := exponent + (digitCount digits : Int) }

end Binary64

end Offside
