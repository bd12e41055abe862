/-
JSON values and their text, on one line or indented by two spaces per level.
-/
namespace Offside

/-- A JSON value whose numbers are natural; fields keep their order. -/
inductive Json where
  | null
  | bool (value : Bool)
  | number (value : Nat)
  | string (value : String)
  | array (items : List Json)
  | object (fields : List (String × Json))
  deriving Repr

namespace Json

/-- A hexadecimal digit in lower case. -/
def hexDigit (n : Nat) : Char := (Nat.digitChar n)

/-- The written form of a character: quotes, backslashes and control characters are escaped. -/
def escapeChar (c : Char) : List Char :=
  if c = '"' then ['\\', '"']
  else if c = '\\' then ['\\', '\\']
  else if c = '\x08' then ['\\', 'b']
  else if c = '\x0c' then ['\\', 'f']
  else if c = '\n' then ['\\', 'n']
  else if c = '\r' then ['\\', 'r']
  else if c = '\t' then ['\\', 't']
  else if c.toNat < 32 then
    ['\\', 'u', '0', '0', hexDigit (c.toNat / 16), hexDigit (c.toNat % 16)]
  else [c]

/-- A string between quotes. -/
def quote (text : String) : String :=
  String.ofList ('"' :: (text.toList.flatMap escapeChar ++ ['"']))

mutual

/-- A value without blanks. -/
def compact : Json → String
  | null => "null"
  | bool value => if value then "true" else "false"
  | number value => toString value
  | string value => quote value
  | array items => "[" ++ ",".intercalate (compactItems items) ++ "]"
  | object fields => "\x7b" ++ ",".intercalate (compactFields fields) ++ "\x7d"

def compactItems : List Json → List String
  | [] => []
  | item :: others => compact item :: compactItems others

def compactFields : List (String × Json) → List String
  | [] => []
  | (key, value) :: others => (quote key ++ ":" ++ compact value) :: compactFields others

end

/-- A new line at a level. -/
def lineAt (level : Nat) : String := "\n" ++ String.ofList (List.replicate (2 * level) ' ')

/-- Entries between brackets, each on a line of its own; without entries nothing is broken. -/
def enclose (opening closing : String) (level : Nat) (entries : List String) : String :=
  if entries.isEmpty then opening ++ closing
  else opening ++ lineAt (level + 1) ++ ("," ++ lineAt (level + 1)).intercalate entries ++
    lineAt level ++ closing

mutual

/-- A value with every item and field on a line of its own. -/
def prettyAt (level : Nat) : Json → String
  | null => "null"
  | bool value => if value then "true" else "false"
  | number value => toString value
  | string value => quote value
  | array items => enclose "[" "]" level (prettyItems (level + 1) items)
  | object fields => enclose "\x7b" "\x7d" level (prettyFields (level + 1) fields)

def prettyItems (level : Nat) : List Json → List String
  | [] => []
  | item :: others => prettyAt level item :: prettyItems level others

def prettyFields (level : Nat) : List (String × Json) → List String
  | [] => []
  | (key, value) :: others =>
    (quote key ++ ": " ++ prettyAt level value) :: prettyFields level others

end

def pretty (value : Json) : String := prettyAt 0 value

/-- The text of a value, indented or on one line. -/
def text (value : Json) (indented : Bool) : String :=
  if indented then value.pretty else value.compact

/-- A number, or null without one. -/
def ofOption : Option Nat → Json
  | some value => number value
  | none => null

end Json

end Offside
