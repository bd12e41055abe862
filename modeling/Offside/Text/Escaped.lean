/-
Texts made visible for messages: between quotes with everything escaped that has no picture of
its own, or free of the controls that a terminal would act upon.
-/
import Offside.Text.CharClass
import Offside.Text.PrintableRanges
import Offside.Text.Quoted

namespace Offside.Escaped

/-- A code point in hexadecimal digits between braces. -/
def codePoint (c : Char) : List Char :=
  ['\\', 'u', '\x7b'] ++ Nat.toDigits 16 c.toNat ++ ['\x7d']

/-- Whether a character can be shown alone. -/
def isVisible (c : Char) : Bool :=
  if c.toNat < 128 then 32 ≤ c.toNat && c.toNat < 127
  else !inRanges PrintableRanges.attaching c && !inRanges PrintableRanges.unprintable c

/-- A character between quotes. -/
def visibleChar (c : Char) : List Char :=
  if c = '\x00' then ['\\', '0']
  else match Quoted.escape? c with
    | some letter => ['\\', letter]
    | none => if isVisible c then [c] else codePoint c

/-- A text between quotes, with only visible characters. -/
def visible (text : String) : String :=
  String.ofList ('"' :: (text.toList.flatMap visibleChar ++ ['"']))

/-- A control by its two hexadecimal digits. -/
def controlCode (c : Char) : List Char :=
  ['\\', 'x', Nat.digitChar (c.toNat / 16), Nat.digitChar (c.toNat % 16)]

/-- A character of a log line: what could steer a terminal is shown by its code. -/
def harmlessChar (c : Char) : List Char :=
  if c ∈ ['\x1b', '\x07', '\x08', '\x0c', '\x7f'] then controlCode c
  else if 0x80 ≤ c.toNat ∧ c.toNat ≤ 0x9f then codePoint c
  else [c]

def harmless (text : String) : String := String.ofList (text.toList.flatMap harmlessChar)

end Offside.Escaped
