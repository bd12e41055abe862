/-
The words that are not identifiers: keywords, the three constant words, and words kept back for
a larger language, which are refused instead of becoming variables.
-/
import Offside.Token.Kind

namespace Offside

namespace TokenKind

/-- Words without a meaning of their own yet. -/
def reservedWords : List String :=
  ["as", "assert", "async", "await", "del", "except", "finally", "for", "from", "global",
   "import", "in", "is", "lambda", "nonlocal", "raise", "try", "with", "yield"]

/-- Words that stand for a value. -/
def constantWords : List (String × Literal) :=
  [("True", .bool true), ("False", .bool false), ("None", .none)]

/-- The kind of a word that is not an identifier. -/
def ofReservedWord? (word : String) : Option TokenKind :=
  match Keyword.all.find? (·.text == word) with
  | some found => some (keyword found)
  | none =>
    match constantWords.find? (·.1 == word) with
    | some found => some (literal found.2)
    | none => if reservedWords.contains word then some (reserved word) else none

/-- The kind of any word. -/
def ofWord (word : String) : TokenKind := (ofReservedWord? word).getD (identifier word)

end TokenKind

end Offside
