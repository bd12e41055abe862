/-
The error that ends a compilation: the first one of any phase, with its kind, code and place.
-/
import Offside.Code.Lowering
import Offside.Diagnostic.Basic
import Offside.Diagnostic.Code
import Offside.Grammar.Error

namespace Offside

/-- Why a source does not compile. -/
inductive CompileError where
  | lexical (error : LexicalError)
  | grammar (error : GrammarError)
  | lowering (error : LoweringError)
  deriving Repr, DecidableEq

namespace CompileError

/-- The name of the kind of an error. -/
def kind : CompileError → String
  | lexical _ => "LexicalError"
  | grammar _ => "SyntaxError"
  | lowering _ => "LoweringError"

def message : CompileError → String
  | lexical error => error.message
  | grammar error => error.message
  | lowering error => error.message

/-- The span of an error; a lexical error has a place only. -/
def span : CompileError → Span
  | lexical error => Span.point error.place
  | grammar error => error.span
  | lowering error => error.span

def code : CompileError → ErrorCode
  | lexical (.unexpectedChar _ _) => .unexpectedCharacter
  | lexical (.unterminatedString _) => .unterminatedString
  | lexical (.invalidEscape _ _) => .invalidEscape
  | lexical (.invalidNumber _ _) => .malformedNumber
  | lexical (.inconsistentDedent _ _) => .inconsistentDedent
  | grammar (.expectedToken _ _ _) => .unexpectedToken
  | grammar (.unexpectedToken _ _) => .unexpectedToken
  | grammar (.emptyBlock _) => .emptyBlock
  | grammar (.invalidTarget _ _) => .invalidTarget
  | grammar (.duplicateParameter _ _) => .duplicateParameter
  | grammar (.unsupportedWord _ _) => .unsupportedSyntax
  | grammar (.nestedDefinition _ _) => .nestedDefinition
  | grammar (.nestingTooDeep _ _) => .nestingTooDeep
  | lowering (.breakOutsideLoop _) => .breakOutsideLoop
  | lowering (.continueOutsideLoop _) => .continueOutsideLoop
  | lowering (.returnOutsideFunction _) => .returnOutsideFunction
  | lowering (.unsupported _ _) => .unsupportedConstruct

/-- The error as a diagnostic. -/
def diagnostic (error : CompileError) : Diagnostic where
  severity := .error
  code := error.code.code
  message := error.message
  help := error.code.help
  span := some error.span

end CompileError

end Offside
