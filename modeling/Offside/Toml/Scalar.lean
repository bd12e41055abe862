/-
Strings, numbers, dates and times of a TOML document.
-/
import Offside.Decimal.Reading
import Offside.Toml.Reader
import Offside.Toml.Value

namespace Offside.Toml

namespace Reader

variable {α : Type}

/-! ### Blanks, comments and line ends -/

def isBlank (c : Char) : Bool := c == ' ' || c == '\t'

/-- A character that may stand in a text as it is: the only control among them is the tab. -/
def isPlain (c : Char) : Bool := c == '\t' || (32 ≤ c.toNat && c.toNat != 127)

def blanks : Reader Unit := do let _ ← run isBlank

def newline : Reader Unit := mark '\n' <|> word "\r\n"

def comment : Reader Unit := do
  mark '#'
  let _ ← run isPlain

/-- The end of a line or of the text, with a comment before it if there is one. -/
def lineEnd : Reader Unit := do
  blanks
  let _ ← optionally comment
  newline <|> atEnd

/-- Blanks, line ends and comments between the items of an array. -/
def gap : Reader Unit := do
  let _ ← many ((do let _ ← someRun isBlank) <|> newline <|> (do comment; newline))

/-! ### Strings -/

def isHexDigit (c : Char) : Bool :=
  c.isDigit || ('a' ≤ c && c ≤ 'f') || ('A' ≤ c && c ≤ 'F')

def digitValue (c : Char) : Nat :=
  if c.isDigit then c.toNat - '0'.toNat
  else if 'a' ≤ c then c.toNat - 'a'.toNat + 10
  else c.toNat - 'A'.toNat + 10

/-- The value of digits to a base. -/
def inBase (base : Nat) (digits : List Char) : Nat :=
  digits.foldl (fun n c => base * n + digitValue c) 0

/-- A character given by the hexadecimal digits of its code point. -/
def codePoint (count : Nat) : Reader Char := do
  let code := inBase 16 (← exactly count isHexDigit)
  if code.isValidChar then pure (Char.ofNat code) else failure

/-- The character that an escape stands for. -/
def escape : Reader Char := do
  mark '\\'
  match ← one fun _ => true with
  | 'b' => pure '\x08'
  | 't' => pure '\t'
  | 'n' => pure '\n'
  | 'f' => pure '\x0c'
  | 'r' => pure '\r'
  | '"' => pure '"'
  | '\\' => pure '\\'
  | 'u' => codePoint 4
  | 'U' => codePoint 8
  | _ => failure

/-- A backslash at the end of a line, which takes all blanks and line ends after it along. -/
def lineJoin : Reader (List Char) := do
  mark '\\'
  blanks
  newline
  let _ ← many ((do let _ ← someRun isBlank) <|> newline)
  pure []

/-- Text between double quotes. -/
def escapedPiece : Reader (List Char) :=
  someRun (fun c => isPlain c && c != '"' && c != '\\') <|> (do pure [← escape])

/-- Text between single quotes, in which nothing is escaped. -/
def literalPiece : Reader (List Char) := someRun fun c => isPlain c && c != '\''

def lineBreak : Reader (List Char) := do
  newline
  pure ['\n']

/-- A string on one line. -/
def shortString (quote : Char) (piece : Reader (List Char)) : Reader String := do
  mark quote
  let pieces ← many piece
  mark quote
  pure (String.ofList pieces.flatten)

/-- A string between threefold quotes.  One or two quotes belong to it wherever they stand, also
right before the last three; a line end right after the first three does not. -/
def longString (quote : Char) (piece : Reader (List Char)) : Reader String := do
  let _ ← exactly 3 (· == quote)
  let _ ← optionally newline
  let pieces ← many (piece <|> lineBreak <|> (do
    let quotes ← someRun (· == quote)
    if quotes.length < 3 then pure quotes else failure))
  let closing ← run (· == quote)
  if 3 ≤ closing.length ∧ closing.length ≤ 5 then
    pure (String.ofList (pieces.flatten ++ closing.drop 3))
  else failure

/-- A string on one line between quotes of either kind. -/
def quoted : Reader String := shortString '"' escapedPiece <|> shortString '\'' literalPiece

def string : Reader String :=
  longString '"' (escapedPiece <|> lineJoin) <|> longString '\'' literalPiece <|> quoted

/-! ### Numbers -/

/-- A sign if there is one; `true` stands for minus. -/
def sign : Reader Bool := (do mark '-'; pure true) <|> (do mark '+'; pure false) <|> pure false

/-- Digits, with single underscores between them. -/
def digits (accepts : Char → Bool) : Reader (List Char) := do
  let first ← someRun accepts
  let others ← many (do
    mark '_'
    someRun accepts)
  pure (first ++ others.flatten)

/-- Decimal digits without a leading zero, or a zero alone. -/
def wholeDigits : Reader (List Char) := do
  match ← look with
  | some '0' =>
    mark '0'
    pure ['0']
  | _ => digits Char.isDigit

/-- A number in the signed 64-bit range. -/
def inRange (value : Int) : Reader Int :=
  if Decimal.inSignedRange value then pure value else failure

/-- A whole number to a base that its first two characters name. -/
def baseInteger (opening : String) (base : Nat) (accepts : Char → Bool) : Reader Int := do
  word opening
  let found ← digits accepts
  inRange (inBase base found)

def decimalInteger : Reader Int := do
  let negative ← sign
  let value : Int := inBase 10 (← wholeDigits)
  inRange (if negative then -value else value)

def integer : Reader Int :=
  baseInteger "0x" 16 isHexDigit <|> baseInteger "0o" 8 (fun c => '0' ≤ c && c ≤ '7') <|>
    baseInteger "0b" 2 (fun c => c == '0' || c == '1') <|> decimalInteger

/-- The power of ten after a mark. -/
def exponent : Reader Int := do
  let _ ← one fun c => c == 'e' || c == 'E'
  let negative ← sign
  let value : Int := inBase 10 (← digits Char.isDigit)
  pure (if negative then -value else value)

/-- The digits after a point. -/
def places : Reader (List Char) := do
  mark '.'
  digits Char.isDigit

/-- A number with digits after a point, a power of ten, or both.  It may not be too large. -/
def decimal : Reader Binary64 := do
  let negative ← sign
  let whole ← wholeDigits
  let (places, power) ← (do pure ([], ← exponent)) <|> (do
    let places ← places
    pure (places, (← optionally exponent).getD 0))
  let found := Binary64.ofDecimal negative (inBase 10 (whole ++ places)) (power - places.length)
  if found = Binary64.infinity false then failure else pure found

/-- Infinity and not-a-number. -/
def special : Reader Binary64 := do
  let negative ← sign
  (do word "inf"; pure (Binary64.infinity negative)) <|>
    (do word "nan"; pure (Binary64.notANumber negative))

def float : Reader Binary64 := decimal <|> special

def boolean : Reader Bool := (do word "true"; pure true) <|> (do word "false"; pure false)

/-! ### Dates and times -/

/-- A number of so many digits within bounds. -/
def field (count low high : Nat) : Reader Nat := do
  let value := inBase 10 (← exactly count Char.isDigit)
  if low ≤ value ∧ value ≤ high then pure value else failure

def isLeapYear (year : Nat) : Bool := year % 4 == 0 && (year % 100 != 0 || year % 400 == 0)

def daysIn (year month : Nat) : Nat :=
  if month = 2 then (if isLeapYear year then 29 else 28)
  else if month ∈ [4, 6, 9, 11] then 30
  else 31

def date : Reader Unit := do
  let year ← field 4 0 9999
  mark '-'
  let month ← field 2 1 12
  mark '-'
  let _ ← field 2 1 (daysIn year month)

/-- A time of day; a minute may have a second too many. -/
def time : Reader Unit := do
  let _ ← field 2 0 23
  mark ':'
  let _ ← field 2 0 59
  mark ':'
  let _ ← field 2 0 60
  let _ ← optionally (do
    mark '.'
    someRun Char.isDigit)

/-- How far a time is ahead of or behind universal time. -/
def offset : Reader Unit :=
  (do let _ ← one fun c => c == 'Z' || c == 'z') <|> (do
    let _ ← one fun c => c == '+' || c == '-'
    let _ ← field 2 0 23
    mark ':'
    let _ ← field 2 0 59)

def moment : Reader Unit :=
  (do
    date
    let _ ← optionally (do
      let _ ← one fun c => c == 'T' || c == 't' || c == ' '
      time
      optionally offset)) <|> time

/-- A value without parts. -/
def scalar : Reader Value :=
  (Value.string <$> string) <|> (Value.boolean <$> boolean) <|>
    (do moment; pure Value.moment) <|> (Value.float <$> float) <|> (Value.integer <$> integer)

end Reader

end Offside.Toml
