/-
The registry of error codes.  E0xxx are lexical errors, E1xxx errors of grammar, and E2xxx errors
of lowering.
-/
namespace Offside

/-- A registered code with its title and a hint, which may be empty. -/
structure ErrorCode where
  code : String
  title : String
  help : String
  deriving Repr, DecidableEq

namespace ErrorCode

def unexpectedCharacter : ErrorCode where
  code := "E0001"
  title := "unexpected character"
  help := "remove the character; only double-quoted strings and ASCII operators are supported"

def unterminatedString : ErrorCode where
  code := "E0002"
  title := "unterminated string literal"
  help := "close the string with `\"` on the same line"

def invalidEscape : ErrorCode where
  code := "E0003"
  title := "invalid escape sequence"
  help := "supported escapes are \\\", \\\\, \\n, \\t and \\r"

def malformedNumber : ErrorCode where
  code := "E0004"
  title := "malformed number literal"
  help := "numbers are decimal digits with at most one `.`"

def inconsistentDedent : ErrorCode where
  code := "E0005"
  title := "inconsistent dedent"
  help := "dedent to the indentation of an enclosing block"

def unexpectedToken : ErrorCode where
  code := "E1001"
  title := "unexpected token"
  help := ""

def emptyBlock : ErrorCode where
  code := "E1002"
  title := "empty block"
  help := "use `pass` for a block with no statements"

def invalidTarget : ErrorCode where
  code := "E1003"
  title := "invalid assignment target"
  help := "only names and attributes can be assigned to"

def duplicateParameter : ErrorCode where
  code := "E1004"
  title := "duplicate parameter"
  help := ""

def unsupportedSyntax : ErrorCode where
  code := "E1005"
  title := "unsupported syntax"
  help := "this keyword is reserved but not part of the supported subset"

def nestedDefinition : ErrorCode where
  code := "E1006"
  title := "nested definition"
  help := "move the `def` or `class` to module level"

def nestingTooDeep : ErrorCode where
  code := "E1007"
  title := "nesting too deep"
  help := "split the expression or block into smaller parts"

def breakOutsideLoop : ErrorCode where
  code := "E2001"
  title := "`break` outside loop"
  help := ""

def continueOutsideLoop : ErrorCode where
  code := "E2002"
  title := "`continue` outside loop"
  help := ""

def returnOutsideFunction : ErrorCode where
  code := "E2003"
  title := "`return` outside function"
  help := ""

def unsupportedConstruct : ErrorCode where
  code := "E2004"
  title := "construct cannot be lowered"
  help := ""

/-- Every registered code. -/
def all : List ErrorCode :=
  [unexpectedCharacter, unterminatedString, invalidEscape, malformedNumber, inconsistentDedent,
   unexpectedToken, emptyBlock, invalidTarget, duplicateParameter, unsupportedSyntax,
   nestedDefinition, nestingTooDeep, breakOutsideLoop, continueOutsideLoop,
   returnOutsideFunction, unsupportedConstruct]

def find? (code : String) : Option ErrorCode := all.find? (·.code == code)

theorem codes_nodup : (all.map code).Nodup := by decide

end ErrorCode

end Offside
