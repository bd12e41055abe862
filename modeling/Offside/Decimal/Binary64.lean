/-
Double-precision numbers as their 64-bit patterns.  The magnitude of a finite number is a whole
number of units of 2^-1074, so every question about values is one about natural numbers, and
rounding a fraction to the nearest number is a division with remainder.
-/
namespace Offside

/-- A double-precision number; two numbers are equal as data when their patterns agree. -/
structure Binary64 where
  bits : UInt64
  deriving Repr, DecidableEq

namespace Binary64

/-- The pattern of the sign bit. -/
def signBit : Nat := Nat.pow 2 63

/-- Numbers in a binade; the fraction field lies below this bound and the exponent field above. -/
def binade : Nat := Nat.pow 2 52

/-- The pattern of positive infinity; larger magnitudes are not numbers. -/
def infinityBits : Nat := 2047 * binade

/-- Assemble a number from its sign and the pattern of its magnitude. -/
def ofMagnitude (negative : Bool) (magnitude : Nat) : Binary64 :=
  ⟨UInt64.ofNat (if negative then signBit + magnitude else magnitude)⟩

def isNegative (x : Binary64) : Bool := signBit ≤ x.bits.toNat

/-- The pattern without its sign. -/
def magnitude (x : Binary64) : Nat := x.bits.toNat % signBit

def isNaN (x : Binary64) : Bool := infinityBits < x.magnitude

def isInfinite (x : Binary64) : Bool := x.magnitude == infinityBits

def zero : Binary64 := ofMagnitude false 0

def infinity (negative : Bool) : Binary64 := ofMagnitude negative infinityBits

/-- The quiet not-a-number with an empty payload. -/
def notANumber (negative : Bool) : Binary64 := ofMagnitude negative (infinityBits + binade / 2)

/-- Equality of values: nothing equals a not-a-number, and the two zeros are equal. -/
def sameValue (x y : Binary64) : Bool :=
  !x.isNaN && !y.isNaN && (x.bits == y.bits || x.magnitude == 0 && y.magnitude == 0)

/-- Units of 2^-1074 in the number whose magnitude has this pattern: the fraction field, with a
leading one from the second binade on, shifted by the exponent field. -/
def units (magnitude : Nat) : Nat :=
  let exponent := magnitude / binade
  let fraction := magnitude % binade
  if exponent = 0 then fraction else (binade + fraction) * Nat.pow 2 (exponent - 1)

/-- Nearest integer to a fraction, a half going to the even neighbour. -/
def roundHalfEven (numerator denominator : Nat) : Nat :=
  let quotient := numerator / denominator
  let rest := numerator % denominator
  if denominator < 2 * rest ∨ (2 * rest = denominator ∧ quotient % 2 = 1) then quotient + 1
  else quotient

/-- Pattern of the magnitude nearest to a fraction.  The grid is coarsened until 53 bits reach
the leading one; adding the rounded quotient to the shift carries into the exponent by itself. -/
def nearestMagnitude (numerator denominator : Nat) : Nat :=
  let scaled := numerator * Nat.pow 2 1074
  let shift := Nat.log2 (scaled / denominator) + 1 - 53
  min infinityBits (shift * binade + roundHalfEven scaled (denominator * Nat.pow 2 shift))

/-- The number nearest to `digits * 10 ^ exponent`.  Exponents far outside the range are settled
by the count of digits alone. -/
def ofDecimal (negative : Bool) (digits : Nat) (exponent : Int) : Binary64 :=
  if digits = 0 then ofMagnitude negative 0
  else if 400 < exponent then infinity negative
  else if exponent + (Nat.log2 digits : Int) < -1200 then ofMagnitude negative 0
  else if 0 ≤ exponent then
    ofMagnitude negative (nearestMagnitude (digits * Nat.pow 10 exponent.toNat) 1)
  else
    ofMagnitude negative (nearestMagnitude digits (Nat.pow 10 (-exponent).toNat))

end Binary64

end Offside
