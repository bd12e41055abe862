/-
Readers take a part from the front of a text, or fail and leave the text as it was.
-/
namespace Offside.Toml

/-- Reads something from the front of a text. -/
abbrev Reader := StateT (List Char) Option

namespace Reader

variable {α : Type}

/-- The next character, which stays where it is. -/
def look : Reader (Option Char) := fun cs => some (cs.head?, cs)

/-- One character of a class. -/
def one (accepts : Char → Bool) : Reader Char := fun cs =>
  match cs with
  | c :: rest => if accepts c then some (c, rest) else none
  | [] => none

def mark (c : Char) : Reader Unit := do let _ ← one (· == c)

/-- The characters of a word. -/
def word (text : String) : Reader Unit := text.toList.forM mark

/-- The longest run of characters of a class. -/
def run (accepts : Char → Bool) : Reader (List Char) := fun cs =>
  some (cs.takeWhile accepts, cs.dropWhile accepts)

/-- A longest run that is not empty. -/
def someRun (accepts : Char → Bool) : Reader (List Char) := do
  let found ← run accepts
  if found.isEmpty then failure else pure found

/-- A number of characters of a class. -/
def exactly (count : Nat) (accepts : Char → Bool) : Reader (List Char) := fun cs =>
  let found := cs.take count
  if found.length = count ∧ found.all accepts then some (found, cs.drop count) else none

/-- Nothing is left. -/
def atEnd : Reader Unit := fun cs => if cs.isEmpty then some ((), cs) else none

def optionally (part : Reader α) : Reader (Option α) := some <$> part <|> pure none

/-- A part again and again, at most once for each character of a text. -/
def along (part : Reader α) : List Char → Reader (List α)
  | [] => pure []
  | _ :: more =>
    (do
      let first ← part
      let others ← along part more
      pure (first :: others)) <|> pure []

/-- A part as often as it can be read; each reading has to take something. -/
def many (part : Reader α) : Reader (List α) := fun cs => along part cs cs

/-- One or more items with a separator between them. -/
def separated (item : Reader α) (separator : Char) : Reader (List α) := do
  let first ← item
  let others ← many (do
    mark separator
    item)
  pure (first :: others)

end Reader

end Offside.Toml
