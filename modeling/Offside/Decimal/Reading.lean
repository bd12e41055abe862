/-
Decimal texts read as numbers: whole numbers in the signed 64-bit range, and double-precision
numbers rounded to nearest.
-/
import Offside.Decimal.Binary64

namespace Offside.Decimal

/-- The value of a run of digits. -/
def value (digits : List Char) : Nat :=
  digits.foldl (fun n c => 10 * n + (c.toNat - '0'.toNat)) 0

/-- Split off a sign; `true` stands for minus. -/
def splitSign : List Char → Bool × List Char
  | '-' :: rest => (true, rest)
  | '+' :: rest => (false, rest)
  | rest => (false, rest)

/-- Digits only, and at least one of them. -/
def isDigits (cs : List Char) : Bool := !cs.isEmpty && cs.all Char.isDigit

/-- Signed 64-bit numbers lie below this bound, and not below its negative. -/
def signedBound : Nat := Nat.pow 2 63

def inSignedRange (n : Int) : Bool := -signedBound ≤ n && n < signedBound

/-- Unsigned 64-bit numbers lie below this bound. -/
def unsignedBound : Nat := Nat.pow 2 64

/-- A signed 64-bit number: an optional sign and digits. -/
def readInt? (cs : List Char) : Option Int :=
  let (negative, digits) := splitSign cs
  if !isDigits digits then none
  else
    let n : Int := if negative then -(value digits : Int) else value digits
    if inSignedRange n then some n else none

/-- An unsigned 64-bit number: an optional plus sign and digits. -/
def readNat? (cs : List Char) : Option Nat :=
  let digits := match cs with
    | '+' :: rest => rest
    | rest => rest
  if isDigits digits && value digits < unsignedBound then some (value digits) else none

/-- An exponent part: nothing at all, or the mark, an optional sign and digits. -/
def readExponent? : List Char → Option Int
  | [] => some 0
  | mark :: rest =>
    let (negative, digits) := splitSign rest
    if (mark == 'e' || mark == 'E') && isDigits digits then
      some (if negative then -(value digits : Int) else value digits)
    else none

/-- An unsigned decimal: digits around an optional point, at least one, and an exponent. -/
def readDecimal? (negative : Bool) (cs : List Char) : Option Binary64 :=
  let whole := cs.takeWhile Char.isDigit
  let rest := cs.dropWhile Char.isDigit
  let (places, rest) := match rest with
    | '.' :: more => (more.takeWhile Char.isDigit, more.dropWhile Char.isDigit)
    | _ => ([], rest)
  if whole.isEmpty && places.isEmpty then none
  else (readExponent? rest).map fun exponent =>
    Binary64.ofDecimal negative (value (whole ++ places)) (exponent - places.length)

/-- A double-precision number: an optional sign, then a decimal or a word in letters of any case
for infinity or not-a-number. -/
def readFloat? (cs : List Char) : Option Binary64 :=
  let (negative, rest) := splitSign cs
  let word := String.ofList (rest.map Char.toLower)
  if word = "inf" ∨ word = "infinity" then some (Binary64.infinity negative)
  else if word = "nan" then some (Binary64.notANumber negative)
  else readDecimal? negative rest

end Offside.Decimal
