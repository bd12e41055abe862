/-
Tokens, the reasons why a text cannot be cut into tokens, and the failures that have no reason to
report.
-/
import Offside.Source.Position
import Offside.Token.Kind

namespace Offside

/-- A token with the text it was read from; layout tokens may have none. -/
structure Token where
  kind : TokenKind
  lexeme : String
  span : Span
  deriving Repr, DecidableEq

namespace Token

/-- A layout token without text. -/
def mark (layout : Layout) (place : Position) : Token where
  kind := .layout layout
  lexeme := ""
  span := Span.point place

end Token

/-- Why a text cannot be cut into tokens, and where. -/
inductive LexicalError where
  | unexpectedChar (char : Char) (place : Position)
  | unterminatedString (place : Position)
  | invalidEscape (char : Char) (place : Position)
  | invalidNumber (lexeme : String) (place : Position)
  | inconsistentDedent (width : Nat) (place : Position)
  deriving Repr, DecidableEq

namespace LexicalError

def place : LexicalError → Position
  | unexpectedChar _ place => place
  | unterminatedString place => place
  | invalidEscape _ place => place
  | invalidNumber _ place => place
  | inconsistentDedent _ place => place

def message : LexicalError → String
  | unexpectedChar char place =>
    "unexpected character '" ++ char.toString ++ "' at " ++ place.text
  | unterminatedString place => "unterminated string starting at " ++ place.text
  | invalidEscape char place =>
    "invalid escape sequence '\\" ++ char.toString ++ "' at " ++ place.text
  | invalidNumber lexeme place =>
    "malformed number literal '" ++ lexeme ++ "' at " ++ place.text
  | inconsistentDedent width place =>
    "unindent to width " ++ toString width ++
      " does not match any outer indentation level on line " ++ toString place.line

end LexicalError

/-- Why a part of the program has no result: an error that it reports, or a sum that left the range
of numbers.  The latter ends the whole program on the spot, and nothing answers any more. -/
inductive Failure (ε : Type) where
  | reported (error : ε)
  | overflow
  deriving Repr, DecidableEq

namespace Failure

variable {ε δ : Type}

/-- The same failure, with its error told in another way. -/
def map (f : ε → δ) : Failure ε → Failure δ
  | reported error => reported (f error)
  | overflow => overflow

/-- A result or an error, which a sum that left the range of numbers never comes to. -/
def outcome? {α : Type} : Except (Failure ε) α → Option (Except ε α)
  | .ok result => some (.ok result)
  | .error (reported error) => some (.error error)
  | .error overflow => none

end Failure

end Offside
