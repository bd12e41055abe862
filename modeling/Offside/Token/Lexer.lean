/-
Cutting a text into tokens, one at a time.  The lexer keeps the text still to be read, the place
it has reached, and the layout it is in the middle of; after an error it can go on from where it
stopped.
-/
import Offside.Decimal.Reading
import Offside.Text.CharClass
import Offside.Token.Indentation
import Offside.Token.Word

namespace Offside

/-- A lexer between two tokens, or inside one. -/
structure Lexer where
  /-- What has not been read yet, and the place where it starts. -/
  rest : List Char
  place : Position
  /-- Where the current token started, and what has been read since, latest first. -/
  start : Position
  taken : List Char
  tabWidth : Nat
  blocks : Indentation
  /-- Layout tokens that are due before anything else is read. -/
  queue : List Token
  /-- The next character begins a line whose indentation has not been measured. -/
  atLineStart : Bool
  /-- The current line has tokens and still needs its end. -/
  lineOpen : Bool
  /-- Open brackets; inside them line ends have no meaning. -/
  brackets : Nat
  finished : Bool
  deriving Repr, DecidableEq

variable [IdentifierTables]

namespace Lexer

/-- A lexer before the first character of a text. -/
def ofChars (text : List Char) (tabWidth : Nat) : Lexer where
  rest := text
  place := Position.first
  start := Position.first
  taken := []
  tabWidth := tabWidth
  blocks := Indentation.base
  queue := []
  atLineStart := true
  lineOpen := false
  brackets := 0
  finished := false

def ofString (text : String) (tabWidth : Nat) : Lexer := ofChars text.toList tabWidth

/-- What a part of the lexer finds, with the lexer it leaves. -/
abbrev Result (α : Type) := Except LexicalError α × Lexer

/-- What a lexer says when it is asked for a token; nothing once the end has been handed out. -/
abbrev Answer := Except (Failure LexicalError) (Option Token)

/-! ### Reading characters -/

def peek? (lexer : Lexer) : Option Char := lexer.rest.head?

/-- Read the first `count` characters of the rest. -/
def take (lexer : Lexer) (count : Nat) : Lexer :=
  { lexer with
    rest := lexer.rest.drop count
    place := lexer.place.after (lexer.rest.take count)
    taken := (lexer.rest.take count).reverse ++ lexer.taken }

/-- Read one character, if there is one. -/
def advance (lexer : Lexer) : Lexer := lexer.take 1

/-- Read the longest run of characters of a class. -/
def takeWhile (lexer : Lexer) (p : Char → Bool) : Lexer :=
  lexer.take (lexer.rest.takeWhile p).length

/-- Begin a token here. -/
def markStart (lexer : Lexer) : Lexer :=
  { lexer with start := lexer.place, taken := [] }

/-- The text from the start of the current token. -/
def lexeme (lexer : Lexer) : String := String.ofList lexer.taken.reverse

/-- The span from the start of the current token. -/
def span (lexer : Lexer) : Span := ⟨lexer.start, lexer.place⟩

/-- The current token, read completely, as one of this kind. -/
def token (lexer : Lexer) (kind : TokenKind) : Token where
  kind := kind
  lexeme := lexer.lexeme
  span := lexer.span

/-! ### Blanks and comments -/

/-- Blanks separate tokens and make up indentation. -/
def isBlank (c : Char) : Bool := c == ' ' || c == '\t' || c == '\r'

def skipBlanks (lexer : Lexer) : Lexer := lexer.takeWhile isBlank

/-- A comment runs up to, but not including, the end of its line. -/
def skipComment (lexer : Lexer) : Lexer := lexer.takeWhile (· != '\n')

/-! ### Literals -/

/-- Characters that belong to the run of a number, malformed or not. -/
def isNumberChar (c : Char) : Bool := c == '.' || isIdentifierChar c

@[simp] theorem isNumberChar_of_ascii {c : Char} (h : c.toNat < 128) :
    isNumberChar c = (c == '.' || (c.isAlphanum || c == '_')) := by
  rw [isNumberChar, isIdentifierChar_of_ascii h]

/-- Digits with at most one point: the length of the run, and whether it has the point. -/
def numberRun (cs : List Char) : Nat × Bool :=
  let whole := (cs.takeWhile Char.isDigit).length
  match cs.drop whole with
  | '.' :: places => (whole + 1 + (places.takeWhile Char.isDigit).length, true)
  | _ => (whole, false)

def invalidNumber (lexer : Lexer) : Result Token :=
  (.error (.invalidNumber lexer.lexeme lexer.start), lexer)

/-- Read the rest of a number.  Letters, digits of other scripts or further points glued to it
spoil the whole run. -/
def scanNumber (lexer : Lexer) : Result Token :=
  let (length, isFloat) := numberRun lexer.rest
  let lexer := lexer.take length
  if (lexer.rest.head?.map isNumberChar).getD false then
    (lexer.takeWhile isNumberChar).invalidNumber
  else
    let text := lexer.taken.reverse
    let value :=
      if isFloat then (Decimal.readFloat? text).map Literal.float
      else (Decimal.readInt? text).map Literal.int
    match value with
    | some value => (.ok (lexer.token (.literal value)), lexer)
    | none => lexer.invalidNumber

/-- How reading a string literal ended. -/
inductive StringEnd where
  | closed
  | unterminated
  | badEscape (char : Char)
  deriving Repr, DecidableEq

/-- A string literal after its opening quote: how it ended, its value, and the length of what
was read, up to and including a closing quote or the backslash that was at fault. -/
structure StringRun where
  ending : StringEnd
  value : List Char
  length : Nat
  deriving Repr, DecidableEq

/-- The run with one more character in front, read from `width` characters. -/
def StringRun.push (run : StringRun) (c : Char) (width : Nat) : StringRun :=
  { run with value := c :: run.value, length := run.length + width }

/-- The rest of a string literal; it cannot go past the end of its line. -/
def stringRun : List Char → StringRun
  | [] => ⟨.unterminated, [], 0⟩
  | '\n' :: _ => ⟨.unterminated, [], 0⟩
  | '"' :: _ => ⟨.closed, [], 1⟩
  | '\\' :: [] => ⟨.unterminated, [], 1⟩
  | '\\' :: '\n' :: _ => ⟨.unterminated, [], 1⟩
  | '\\' :: c :: rest =>
    match Quoted.unescape? c with
    | some value => (stringRun rest).push value 2
    | none => ⟨.badEscape c, [], 1⟩
  | c :: rest => (stringRun rest).push c 1

/-- Read the rest of a string literal. -/
def scanString (lexer : Lexer) : Result Token :=
  let run := stringRun lexer.rest
  let after := lexer.take run.length
  match run.ending with
  | .closed => (.ok (after.token (.literal (.str (String.ofList run.value)))), after)
  | .unterminated => (.error (.unterminatedString lexer.start), after)
  | .badEscape c => (.error (.invalidEscape c (lexer.take (run.length - 1)).place), after)

/-! ### Tokens read from the text -/

/-- Read the rest of a word. -/
def scanWord (lexer : Lexer) : Token × Lexer :=
  let lexer := lexer.takeWhile isIdentifierChar
  (lexer.token (.ofWord lexer.lexeme), lexer)

/-- Read one token of the text. -/
def scanToken (lexer : Lexer) : Result Token :=
  let begun := lexer.markStart
  match begun.rest with
  | [] => (.ok (begun.token (.layout .endOfInput)), begun)
  | c :: _ =>
    if isIdentifierStart c then
      let (token, after) := begun.advance.scanWord
      (.ok token, after)
    else if c.isDigit then begun.advance.scanNumber
    else if c == '"' then begun.advance.scanString
    else
      match Symbol.longest? begun.rest with
      | some sign =>
        let after := begun.take sign.text.length
        (.ok (after.token (.symbol sign)),
          { after with brackets := sign.brackets after.brackets })
      | none => (.error (.unexpectedChar c begun.start), begun.advance)

/-! ### Layout -/

/-- Widths stay below this bound. -/
def widthBound : Nat := Decimal.unsignedBound

/-- A width that grows by another one, unless the sum leaves the range of numbers. -/
def addWidth? (width more : Nat) : Option Nat :=
  if width + more < widthBound then some (width + more) else none

/-- Width of the blanks at the start of a line: one per space, the tab width per tab. -/
def indentWidth? (tabWidth : Nat) (blanks : List Char) : Option Nat :=
  blanks.foldlM (fun width c =>
    if c = ' ' then addWidth? width 1
    else if c = '\t' then addWidth? width tabWidth
    else some width) 0

/-- What one move of the lexer amounts to: an answer, or progress without one. -/
inductive Move where
  | answer (answer : Answer) (after : Lexer)
  | silent (after : Lexer)
  deriving Repr

/-- Go on behind the blanks of a line, which have this width.  Blank lines and lines with only a
comment are skipped. -/
def meetLine (lexer : Lexer) (width : Nat) : Move :=
  match lexer.rest with
  | [] => .silent { lexer with atLineStart := false }
  | c :: _ =>
    if c = '\n' then .silent lexer.advance
    else if c = '#' then .silent lexer.skipComment
    else
      match lexer.blocks.meet width lexer.place with
      | (.ok marks, blocks) =>
        .silent { lexer with atLineStart := false, blocks := blocks, queue := marks }
      | (.error error, blocks) =>
        .answer (.error (.reported error)) { lexer with atLineStart := false, blocks := blocks }

/-- Measure the indentation of a line, be it blank or not.  A line too wide for a number ends the
program: the lexer that stays in front of it stands for this, as no call gets past the line. -/
def measureLine (lexer : Lexer) : Move :=
  match indentWidth? lexer.tabWidth (lexer.rest.takeWhile isBlank) with
  | some width => lexer.skipBlanks.meetLine width
  | none => .answer (.error .overflow) lexer

/-- At the end of the input the open line and the open blocks are closed. -/
def finish (lexer : Lexer) : Lexer :=
  let lineEnd := if lexer.lineOpen then [Token.mark .newline lexer.place] else []
  let (dedents, blocks) := lexer.blocks.close lexer.place
  { lexer with
    queue := lineEnd ++ dedents ++ [Token.mark .endOfInput lexer.place]
    blocks := blocks
    lineOpen := false
    finished := true }

/-- Make one move: hand out a layout token that is due, measure a line, skip, or read a token. -/
def move (lexer : Lexer) : Move :=
  match lexer.queue with
  | token :: queue => .answer (.ok (some token)) { lexer with queue := queue }
  | [] =>
    if lexer.finished then .answer (.ok none) lexer
    else if lexer.atLineStart && lexer.brackets == 0 then lexer.measureLine
    else
      let lexer := lexer.skipBlanks
      match lexer.rest with
      | [] => .silent lexer.finish
      | c :: _ =>
        if c = '#' then .silent lexer.skipComment
        else if c = '\n' then
          let after := lexer.markStart.advance
          if after.brackets = 0 then
            .answer (.ok (some (after.token (.layout .newline))))
              { after with atLineStart := true, lineOpen := false }
          else .silent after
        else
          match lexer.scanToken with
          | (.ok token, after) => .answer (.ok (some token)) { after with lineOpen := true }
          | (.error error, after) => .answer (.error (.reported error)) after

end Lexer

end Offside
