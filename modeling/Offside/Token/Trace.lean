/-
Tokens as traces show them: by the category and the name of their kind, with its value.
-/
import Offside.Text.Escaped
import Offside.Token.Basic

namespace Offside

def Keyword.traceName : Keyword → String
  | .definition => "KwDef"
  | .classDefinition => "KwClass"
  | .ifTest => "KwIf"
  | .elifTest => "KwElif"
  | .elseBranch => "KwElse"
  | .whileLoop => "KwWhile"
  | .returnValue => "KwReturn"
  | .passBy => "KwPass"
  | .breakLoop => "KwBreak"
  | .continueLoop => "KwContinue"
  | .and => "KwAnd"
  | .or => "KwOr"
  | .not => "KwNot"

def Symbol.traceName : Symbol → String
  | .plus => "Plus"
  | .minus => "Minus"
  | .star => "Star"
  | .starStar => "StarStar"
  | .slash => "Slash"
  | .slashSlash => "SlashSlash"
  | .percent => "Percent"
  | .assign => "Eq"
  | .equal => "EqEq"
  | .notEqual => "Neq"
  | .less => "Lt"
  | .lessEqual => "Le"
  | .greater => "Gt"
  | .greaterEqual => "Ge"
  | .plusAssign => "PlusEq"
  | .minusAssign => "MinusEq"
  | .starAssign => "StarEq"
  | .slashAssign => "SlashEq"
  | .openParen => "LParen"
  | .closeParen => "RParen"
  | .openBracket => "LBracket"
  | .closeBracket => "RBracket"
  | .openBrace => "LBrace"
  | .closeBrace => "RBrace"
  | .comma => "Comma"
  | .colon => "Colon"
  | .dot => "Dot"

def Layout.traceName : Layout → String
  | .newline => "Newline"
  | .indent => "Indent"
  | .dedent => "Dedent"
  | .endOfInput => "Eof"

namespace TokenKind

/-- What sort of token this is. -/
def category : TokenKind → String
  | keyword _ => "keyword"
  | reserved _ => "keyword"
  | identifier _ => "identifier"
  | literal _ => "literal"
  | symbol _ => "punctuation"
  | layout _ => "layout"

/-- A name with the value that goes with it. -/
def withValue (name value : String) : String := name ++ "(" ++ value ++ ")"

/-- The name of the kind, with its value if it has one. -/
def trace : TokenKind → String
  | keyword word => word.traceName
  | reserved word => withValue "KwReserved" (Escaped.visible word)
  | identifier name => withValue "Identifier" (Escaped.visible name)
  | literal (.int value) => withValue "IntLiteral" (toString value)
  | literal (.float value) => withValue "FloatLiteral" value.text
  | literal (.str value) => withValue "StringLiteral" (Escaped.visible value)
  | literal (.bool value) => withValue "BoolLiteral" (if value then "true" else "false")
  | literal .none => "NoneLiteral"
  | symbol sign => sign.traceName
  | layout mark => mark.traceName

end TokenKind

/-- A token with its place. -/
def Token.trace (token : Token) : String :=
  token.kind.category ++ " " ++ token.kind.trace ++ " at " ++ token.span.start.text

end Offside
