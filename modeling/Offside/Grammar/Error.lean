/-
Why a token stream is not a program, and where.
-/
import Offside.Token.Basic

namespace Offside

inductive GrammarError where
  | expectedToken (expected : String) (found : TokenKind) (span : Span)
  | unexpectedToken (found : TokenKind) (span : Span)
  | emptyBlock (span : Span)
  | invalidTarget (target : String) (span : Span)
  | duplicateParameter (name : String) (span : Span)
  /-- A word that is kept back for a larger language. -/
  | unsupportedWord (word : String) (span : Span)
  | nestedDefinition (construct : String) (span : Span)
  | nestingTooDeep (limit : Nat) (span : Span)
  deriving Repr, DecidableEq

namespace GrammarError

def span : GrammarError → Span
  | expectedToken _ _ span => span
  | unexpectedToken _ span => span
  | emptyBlock span => span
  | invalidTarget _ span => span
  | duplicateParameter _ span => span
  | unsupportedWord _ span => span
  | nestedDefinition _ span => span
  | nestingTooDeep _ span => span

def message : GrammarError → String
  | expectedToken expected found span =>
    "expected " ++ expected ++ ", found " ++ found.describe ++ " at " ++ span.start.text
  | unexpectedToken found span => "unexpected " ++ found.describe ++ " at " ++ span.start.text
  | emptyBlock span =>
    "empty block at " ++ span.start.text ++ ": expected at least one statement"
  | invalidTarget target span => "cannot assign to " ++ target ++ " at " ++ span.start.text
  | duplicateParameter name span =>
    "duplicate parameter '" ++ name ++ "' at " ++ span.start.text
  | unsupportedWord word span => "'" ++ word ++ "' is not supported at " ++ span.start.text
  | nestedDefinition construct span =>
    construct ++ " definitions must be at module level, found one at " ++ span.start.text
  | nestingTooDeep limit span =>
    "nesting deeper than " ++ toString limit ++ " levels at " ++ span.start.text

end GrammarError

end Offside
