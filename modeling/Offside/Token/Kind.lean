/-
Kinds of tokens: words, operators and delimiters with their spelling, values, and the layout
tokens that carry line ends and indentation.
-/
import Offside.Literal

namespace Offside

/-- Words that the grammar uses. -/
inductive Keyword where
  | definition
  | classDefinition
  | ifTest
  | elifTest
  | elseBranch
  | whileLoop
  | returnValue
  | passBy
  | breakLoop
  | continueLoop
  | and
  | or
  | not
  deriving Repr, DecidableEq

namespace Keyword

def all : List Keyword :=
  [definition, classDefinition, ifTest, elifTest, elseBranch, whileLoop, returnValue, passBy,
   breakLoop, continueLoop, and, or, not]

def text : Keyword → String
  | definition => "def"
  | classDefinition => "class"
  | ifTest => "if"
  | elifTest => "elif"
  | elseBranch => "else"
  | whileLoop => "while"
  | returnValue => "return"
  | passBy => "pass"
  | breakLoop => "break"
  | continueLoop => "continue"
  | and => "and"
  | or => "or"
  | not => "not"

theorem mem_all (word : Keyword) : word ∈ all := by
  cases word <;> decide

end Keyword

/-- Operators and delimiters. -/
inductive Symbol where
  | plus
  | minus
  | star
  | starStar
  | slash
  | slashSlash
  | percent
  | assign
  | equal
  | notEqual
  | less
  | lessEqual
  | greater
  | greaterEqual
  | plusAssign
  | minusAssign
  | starAssign
  | slashAssign
  | openParen
  | closeParen
  | openBracket
  | closeBracket
  | openBrace
  | closeBrace
  | comma
  | colon
  | dot
  deriving Repr, DecidableEq

namespace Symbol

def text : Symbol → String
  | plus => "+"
  | minus => "-"
  | star => "*"
  | starStar => "**"
  | slash => "/"
  | slashSlash => "//"
  | percent => "%"
  | assign => "="
  | equal => "=="
  | notEqual => "!="
  | less => "<"
  | lessEqual => "<="
  | greater => ">"
  | greaterEqual => ">="
  | plusAssign => "+="
  | minusAssign => "-="
  | starAssign => "*="
  | slashAssign => "/="
  | openParen => "("
  | closeParen => ")"
  | openBracket => "["
  | closeBracket => "]"
  | openBrace => "\x7b"
  | closeBrace => "\x7d"
  | comma => ","
  | colon => ":"
  | dot => "."

/-- The symbol of two characters, if they make one. -/
def ofPair? : Char → Char → Option Symbol
  | '*', '*' => some starStar
  | '/', '/' => some slashSlash
  | '=', '=' => some equal
  | '!', '=' => some notEqual
  | '<', '=' => some lessEqual
  | '>', '=' => some greaterEqual
  | '+', '=' => some plusAssign
  | '-', '=' => some minusAssign
  | '*', '=' => some starAssign
  | '/', '=' => some slashAssign
  | _, _ => none

/-- The symbol of one character, if it is one. -/
def ofChar? : Char → Option Symbol
  | '+' => some plus
  | '-' => some minus
  | '*' => some star
  | '/' => some slash
  | '%' => some percent
  | '=' => some assign
  | '<' => some less
  | '>' => some greater
  | '(' => some openParen
  | ')' => some closeParen
  | '[' => some openBracket
  | ']' => some closeBracket
  | '{' => some openBrace
  | '}' => some closeBrace
  | ',' => some comma
  | ':' => some colon
  | '.' => some dot
  | _ => none

/-- The longest symbol at the start of a text. -/
def longest? : List Char → Option Symbol
  | c :: d :: _ => (ofPair? c d).orElse fun _ => ofChar? c
  | [c] => ofChar? c
  | [] => none

/-- Brackets that are open after this symbol, given how many were open before it. -/
def brackets (symbol : Symbol) (before : Nat) : Nat :=
  match symbol with
  | openParen | openBracket | openBrace => before + 1
  | closeParen | closeBracket | closeBrace => before - 1
  | _ => before

end Symbol

/-- Tokens that carry the layout of lines and blocks. -/
inductive Layout where
  | newline
  | indent
  | dedent
  | endOfInput
  deriving Repr, DecidableEq

/-- What a token is, with its value if it has one. -/
inductive TokenKind where
  | keyword (word : Keyword)
  | reserved (word : String)
  | identifier (name : String)
  | literal (value : Literal)
  | symbol (symbol : Symbol)
  | layout (layout : Layout)
  deriving Repr, DecidableEq

namespace TokenKind

def isLayout : TokenKind → Bool
  | layout _ => true
  | _ => false

/-- The spelling, for kinds that are always spelled the same way. -/
def spelling? : TokenKind → Option String
  | keyword word => some word.text
  | symbol sign => some sign.text
  | literal .none => some "None"
  | _ => none

/-- How messages name a token of this kind. -/
def describe : TokenKind → String
  | keyword word => "'" ++ word.text ++ "'"
  | symbol sign => "'" ++ sign.text ++ "'"
  | reserved word => "keyword '" ++ word ++ "'"
  | identifier name => "identifier '" ++ name ++ "'"
  | literal (.int value) => "integer " ++ toString value
  | literal (.float value) => "float " ++ value.text
  | literal (.str _) => "string literal"
  | literal (.bool value) => "'" ++ Literal.boolText value ++ "'"
  | literal .none => "'None'"
  | layout .newline => "end of line"
  | layout .indent => "indent"
  | layout .dedent => "dedent"
  | layout .endOfInput => "end of input"

/-- Whether a token of this kind is the wanted one: values compare as values do. -/
def isA : TokenKind → TokenKind → Bool
  | literal x, literal y => x.sameValue y
  | x, y => x == y

end TokenKind

end Offside
