/-
Parsing statements.  A block and every further alternative of a conditional lie one level of
nesting deeper than the statement they belong to, so the levels that are left bound the recursion.
-/
import Offside.Grammar.Expression

namespace Offside

namespace Parser

/-- What messages call an expression that cannot be assigned to. -/
def targetName : Expr → String
  | .constant _ _ => "a literal"
  | .call _ _ _ => "a call"
  | .methodCall _ _ _ _ => "a call"
  | .construct _ _ _ => "a call"
  | .binary _ _ _ _ => "an operator expression"
  | .unary _ _ _ => "an operator expression"
  | .name _ _ => "an expression"
  | .member _ _ _ => "an expression"

def checkTarget (target : Expr) : Parser Unit :=
  if target.isAssignable then pure ()
  else throw (.invalidTarget (targetName target) target.span)

/-- An assignment, an augmented assignment or an expression on a line of its own. -/
def simpleStatement : Parser Stmt := do
  let start := (← get).span
  let target ← expr Binding.lowest
  let kind := (← get).kind
  let build : Span → Stmt ←
    if kind = .symbol .assign then do
      checkTarget target
      let _ ← bump
      let value ← expr Binding.lowest
      pure (Stmt.assign target value)
    else match kind.augmentation? with
      | some op => do
        checkTarget target
        let _ ← bump
        let value ← expr Binding.lowest
        pure (Stmt.assign target (.binary op target value (target.span.through value.span)))
      | none => pure (Stmt.eval target)
  let span := start.through (← get).lastSpan
  expectLineEnd
  pure (build span)

/-- A return with or without a value. -/
def returnStatement : Parser Stmt := do
  let start := (← get).span
  let _ ← bump
  let c ← get
  let value ←
    if c.isAt (.layout .newline) || c.atEnd then pure none
    else do
      let value ← expr Binding.lowest
      pure (some value)
  let span := start.through (← get).lastSpan
  expectLineEnd
  pure (.leave value span)

/-- A statement that is one word. -/
def wordStatement (build : Span → Stmt) : Parser Stmt := do
  let span := (← get).span
  let _ ← bump
  expectLineEnd
  pure (build span)

/-- The opening of a block; the block must not be empty. -/
def openBlock : Parser Unit := do
  let _ ← expect (.symbol .colon) "':'"
  let _ ← expect (.layout .newline) "end of line after ':'"
  let _ ← expect (.layout .indent) "an indented block"
  let c ← get
  if c.isAt (.layout .dedent) then throw (.emptyBlock c.span)

def closeBlock : Parser Unit := do
  let _ ← expect (.layout .dedent) "end of block"

/-- Where the statements of a block end. -/
def atBlockEnd (c : Cursor) : Bool := c.isAt (.layout .dedent) || c.atEnd

/-- A block of statements. -/
def blockOf (statement : Parser Stmt) : Parser (List Stmt) := do
  openBlock
  let body ← inBlockBody (manyUntil atBlockEnd statement)
  closeBlock
  pure body

/-- A parameter that differs from the ones before it. -/
def param (before : List Param) : Parser Param := do
  let (name, span) ← expectIdentifier "parameter name"
  if before.any (·.name == name) then throw (.duplicateParameter name span)
  else pure ⟨name, span⟩

/-- A function or method. -/
def functionDef (statement : Parser Stmt) : Parser (FunctionDef Stmt) := do
  let start := (← get).span
  let _ ← expect (.keyword .definition) "'def'"
  let (name, _) ← expectIdentifier "function name"
  let _ ← expect (.symbol .openParen) "'('"
  let params ← items param
  let body ← blockOf statement
  pure ⟨name, params, body, start.through (← get).lastSpan⟩

def method (statement : Parser Stmt) : Parser (FunctionDef Stmt) := do
  let c ← get
  if c.isAt (.keyword .definition) then functionDef statement
  else throw (c.expected "method definition")

/-- A class; its methods may already construct it. -/
def classStatement (statement : Parser Stmt) : Parser Stmt := do
  let start := (← get).span
  let _ ← bump
  let (name, _) ← expectIdentifier "class name"
  modify (·.declare name)
  openBlock
  let methods ← manyUntil atBlockEnd (method statement)
  closeBlock
  pure (.classDef name methods (start.through (← get).lastSpan))

/-- A conditional, entered at its first word or at that of a further alternative. -/
def branchOf (statement alternative : Parser Stmt) : Parser Stmt := do
  let start := (← get).span
  let _ ← bump
  let test ← expr Binding.lowest
  let thenBody ← blockOf statement
  let elseBody ←
    if (← get).isAt (.keyword .elifTest) then do
      let branch ← nested alternative
      pure (some [branch])
    else if ← skip (.keyword .elseBranch) then do
      let body ← blockOf statement
      pure (some body)
    else pure none
  pure (.branch test thenBody elseBody (start.through (← get).lastSpan))

def loopOf (statement : Parser Stmt) : Parser Stmt := do
  let start := (← get).span
  let _ ← bump
  let test ← expr Binding.lowest
  let body ← blockOf statement
  pure (.loop test body (start.through (← get).lastSpan))

/-- A statement, given how to parse a statement and an alternative one level deeper. -/
def statementOf (statement alternative : Parser Stmt) : Parser Stmt := do
  let c ← get
  match c.kind with
  | .keyword .definition =>
    if c.inBlock then throw (.nestedDefinition "function" c.span)
    else do
      let definition ← functionDef statement
      pure (.function definition definition.span)
  | .keyword .classDefinition =>
    if c.inBlock then throw (.nestedDefinition "class" c.span)
    else classStatement statement
  | .keyword .ifTest => branchOf statement alternative
  | .keyword .whileLoop => loopOf statement
  | .keyword .returnValue => returnStatement
  | .keyword .passBy => wordStatement .pass
  | .keyword .breakLoop => wordStatement .breakLoop
  | .keyword .continueLoop => wordStatement .continueLoop
  | .reserved _ => throw c.unexpected
  | .layout .indent => throw c.unexpected
  | _ => simpleStatement

mutual

/-- A statement with this many levels of nesting left. -/
def statementAt : Nat → Parser Stmt
  | 0 => statementOf tooDeep tooDeep
  | budget + 1 => fun c => statementOf (statementAt budget) (alternativeAt budget) c

/-- A further alternative of a conditional with this many levels of nesting left. -/
def alternativeAt : Nat → Parser Stmt
  | 0 => branchOf tooDeep tooDeep
  | budget + 1 => fun c => branchOf (statementAt budget) (alternativeAt budget) c

end

/-- A statement one level deeper than this many levels allow. -/
def deeperStatement : Nat → Parser Stmt
  | 0 => tooDeep
  | budget + 1 => statementAt budget

/-- One statement with the line end or block that closes it. -/
def statement : Parser Stmt := fun c => statementAt c.budget c

/-- One block. -/
def block : Parser (List Stmt) := fun c => blockOf (deeperStatement c.budget) c

/-- A whole program. -/
def program : Parser Module := do
  let body ← manyUntil Cursor.atEnd statement
  let span := match body.head?, body.getLast? with
    | some first, some last => ⟨first.span.start, last.span.stop⟩
    | _, _ => Span.absent
  pure ⟨body, span⟩

/-- One expression with nothing after it. -/
def onlyExpr : Parser Expr := do
  let found ← expr Binding.lowest
  expectLineEnd
  let c ← get
  if c.atEnd then pure found else throw (c.expected "end of input")

/-- The answer of a parser without the cursor it leaves. -/
def answer {α : Type} (parser : Parser α) (c : Cursor) : Except GrammarError α :=
  match parser c with
  | .ok value _ => .ok value
  | .error error _ => .error error

end Parser

namespace Module

/-- Where reading a program starts.  If classes are declared beforehand, constructions may stand
before the class they use. -/
def startCursor (tokens : List Token) (predeclare : Bool) : Cursor :=
  let start := Cursor.ofTokens tokens Cursor.defaultMaxDepth
  if predeclare then start.predeclare else start

/-- Read a program from its tokens. -/
def ofTokens (tokens : List Token) (predeclare : Bool) : Except GrammarError Module :=
  Parser.program.answer (startCursor tokens predeclare)

end Module

namespace Expr

/-- Read a single expression from its tokens. -/
def ofTokens (tokens : List Token) : Except GrammarError Expr :=
  Parser.onlyExpr.answer (Cursor.ofTokens tokens Cursor.defaultMaxDepth)

end Expr

end Offside
