/-
A cursor in a token stream, and the moves of which parsers are made.  A parser keeps the cursor
it has reached also when it fails, so that reading may go on from there.
-/
import Offside.Grammar.Error

namespace Offside

/-- A place in a token stream with what is known there: the classes declared so far, and how deep
expressions and blocks are nested. -/
structure Cursor where
  /-- Tokens that have been read, latest first. -/
  past : List Token
  rest : List Token
  /-- Names of classes in the order of their declaration, each once. -/
  classes : List String
  depth : Nat
  maxDepth : Nat
  /-- Open blocks around the current token. -/
  blockDepth : Nat
  deriving Repr, DecidableEq

namespace Cursor

/-- Nesting allowed when nothing else is asked for. -/
def defaultMaxDepth : Nat := 100

/-- A cursor before the first token. -/
def ofTokens (tokens : List Token) (maxDepth : Nat) : Cursor where
  past := []
  rest := tokens
  classes := []
  depth := 0
  maxDepth := maxDepth
  blockDepth := 0

def current? (c : Cursor) : Option Token := c.rest.head?

def peek? (c : Cursor) (count : Nat) : Option Token := c.rest[count]?

/-- The kind of the current token; past the last token the input has ended. -/
def kind (c : Cursor) : TokenKind :=
  match c.rest with
  | token :: _ => token.kind
  | [] => .layout .endOfInput

def isAt (c : Cursor) (wanted : TokenKind) : Bool := c.kind.isA wanted

def atEnd (c : Cursor) : Bool := c.kind == .layout .endOfInput

/-- The span of the current token; past the last token, of that one. -/
def span (c : Cursor) : Span :=
  match c.rest, c.past with
  | token :: _, _ => token.span
  | [], token :: _ => token.span
  | [], [] => Span.absent

/-- The span of the token read last, or else of the current one. -/
def lastSpan (c : Cursor) : Span :=
  match c.past with
  | token :: _ => token.span
  | [] => c.span

/-- Step over the current token, if there is one. -/
def next (c : Cursor) : Cursor :=
  match c.rest with
  | token :: rest => { c with past := token :: c.past, rest := rest }
  | [] => c

def inBlock (c : Cursor) : Bool := 0 < c.blockDepth

def isClass (c : Cursor) (name : String) : Bool := c.classes.contains name

/-- Declare a class; declaring it again changes nothing. -/
def declare (c : Cursor) (name : String) : Cursor :=
  if c.isClass name then c else { c with classes := c.classes ++ [name] }

/-- The names that directly follow the word for a class, in order. -/
def classNames : List Token → List String
  | first :: second :: others =>
    match first.kind, second.kind with
    | .keyword .classDefinition, .identifier name => name :: classNames (second :: others)
    | _, _ => classNames (second :: others)
  | _ => []

/-- Declare every class of the token stream, wherever it stands. -/
def predeclare (c : Cursor) : Cursor :=
  (classNames (c.past.reverse ++ c.rest)).foldl declare c

/-- The error of finding the current token instead of something else. -/
def expected (c : Cursor) (what : String) : GrammarError :=
  .expectedToken what c.kind c.span

/-- The error of finding the current token where it has no meaning. -/
def unexpected (c : Cursor) : GrammarError :=
  match c.kind with
  | .reserved word => .unsupportedWord word c.span
  | found => .unexpectedToken found c.span

/-- How much deeper nesting may still go. -/
def budget (c : Cursor) : Nat := c.maxDepth - c.depth

end Cursor

/-- A parser moves a cursor and answers with a value or an error. -/
abbrev Parser := EStateM GrammarError Cursor

namespace Parser

variable {α : Type}

/-- Step over the current token and return it. -/
def bump : Parser (Option Token) := fun c => .ok c.current? c.next

/-- Step over a token of this kind, if it is the current one. -/
def skip (wanted : TokenKind) : Parser Bool := fun c =>
  if c.isAt wanted then .ok true c.next else .ok false c

/-- Step over a token of this kind, which has to be there. -/
def expect (wanted : TokenKind) (what : String) : Parser Token := fun c =>
  match c.rest with
  | token :: _ => if token.kind.isA wanted then .ok token c.next else .error (c.expected what) c
  | [] => .error (c.expected what) c

def expectIdentifier (what : String) : Parser (String × Span) := fun c =>
  match c.kind with
  | .identifier name => .ok (name, c.span) c.next
  | _ => .error (c.expected what) c

/-- Step over the end of the line, which the end of the input may stand for. -/
def expectLineEnd : Parser Unit := fun c =>
  if c.isAt (.layout .newline) then .ok () c.next
  else if c.atEnd then .ok () c
  else .error (c.expected "end of line") c

/-- Fail for nesting one level too deep. -/
def tooDeep : Parser α := fun c =>
  .error (.nestingTooDeep c.maxDepth c.span) { c with depth := c.depth + 1 }

/-- Go one level deeper.  The depth stays raised, also when it is refused. -/
def enterNesting : Parser Unit := fun c =>
  if c.depth < c.maxDepth then .ok () { c with depth := c.depth + 1 } else tooDeep c

/-- Set the depth of the cursor that a parser leaves. -/
def atDepth (depth : Nat) : EStateM.Result GrammarError Cursor α →
    EStateM.Result GrammarError Cursor α
  | .ok value c => .ok value { c with depth := depth }
  | .error error c => .error error { c with depth := depth }

/-- Run a parser one level deeper and come back to the level from before in any case. -/
def nested (parser : Parser α) : Parser α := fun c =>
  atDepth c.depth ((do enterNesting; parser : Parser α) c)

/-- Leave a block, whatever a parser has come to in it. -/
def leaveBlock : EStateM.Result GrammarError Cursor α → EStateM.Result GrammarError Cursor α
  | .ok value c => .ok value { c with blockDepth := c.blockDepth - 1 }
  | .error error c => .error error { c with blockDepth := c.blockDepth - 1 }

/-- Run a parser as the body of a block. -/
def inBlockBody (parser : Parser α) : Parser α := fun c =>
  leaveBlock (nested parser { c with blockDepth := c.blockDepth + 1 })

/-- Repeat a parser until the cursor is where it should stop.  Since every repetition reads a
token, one more repetition than there are tokens is never reached. -/
def repeatUntil (stop : Cursor → Bool) (item : Parser α) : Nat → Parser (List α)
  | 0 => pure []
  | count + 1 => do
    if stop (← get) then pure []
    else
      let first ← item
      let others ← repeatUntil stop item count
      pure (first :: others)

/-- All repetitions of a parser up to where it should stop. -/
def manyUntil (stop : Cursor → Bool) (item : Parser α) : Parser (List α) := do
  repeatUntil stop item ((← get).rest.length + 1)

/-- Items with commas between them, up to a closing parenthesis; each item is told the ones
before it, latest first. -/
def itemsAfter (item : List α → Parser α) : Nat → List α → Parser (List α)
  | 0, before => pure before.reverse
  | count + 1, before => do
    if (← get).isAt (.symbol .closeParen) then pure before.reverse
    else
      let first ← item before
      if ← skip (.symbol .comma) then itemsAfter item count (first :: before)
      else pure (first :: before).reverse

/-- A list of items after an opening parenthesis, up to and including the closing one; a comma
may follow the last item. -/
def items (item : List α → Parser α) : Parser (List α) := do
  let found ← itemsAfter item ((← get).rest.length + 1) []
  let _ ← expect (.symbol .closeParen) "',' or ')'"
  pure found

end Parser

end Offside
