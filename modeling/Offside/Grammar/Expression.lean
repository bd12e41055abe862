/-
Parsing expressions by binding strength: a first operand, then every operator, call and attribute
that binds tightly enough.  Going into an operand and wrapping what has been read both cost one
level of nesting, so the levels that are left bound the recursion.
-/
import Offside.Grammar.Binding
import Offside.Grammar.Cursor
import Offside.Program.Basic

namespace Offside

namespace Parser

/-- The first operand of an expression.  A negation in words is refused where the operand has to
bind more tightly than it. -/
def operand (deeper : Nat → Parser Expr) (level : Nat) : Parser Expr := do
  let c ← get
  let span := c.span
  match c.kind with
  | .literal value => do
    let _ ← bump
    pure (.constant value span)
  | .identifier name => do
    let _ ← bump
    pure (.name name span)
  | .symbol .openParen => do
    let _ ← bump
    let inner ← deeper Binding.lowest
    let _ ← expect (.symbol .closeParen) "')'"
    pure inner
  | .symbol .minus => do
    let _ ← bump
    let inner ← deeper Binding.unary
    pure (.unary .neg inner (span.through inner.span))
  -- a plus sign changes nothing
  | .symbol .plus => do
    let _ ← bump
    deeper Binding.unary
  | .keyword .not =>
    if level ≤ Binding.not then do
      let _ ← bump
      let inner ← deeper Binding.not
      pure (.unary .not inner (span.through inner.span))
    else throw c.unexpected
  | .reserved _ => throw c.unexpected
  | _ => throw (c.expected "expression")

/-- How an expression can go on after an operand. -/
inductive Extension where
  | call
  | member
  | join (joining : Joining)
  deriving Repr, DecidableEq

/-- What the current token adds to an operand that has to bind at this level. -/
def extension? (level : Nat) (kind : TokenKind) : Option Extension :=
  match kind with
  | .symbol .openParen => some .call
  | .symbol .dot => some .member
  | _ =>
    match Joining.ofKind? kind with
    | some joining => if joining.left < level then none else some (.join joining)
    | none => none

/-- Arguments up to and including the closing parenthesis. -/
def arguments (deeper : Nat → Parser Expr) : Parser (List Expr) :=
  items fun _ => deeper Binding.lowest

/-- A call of what has been read.  A bare name of a known class makes it a construction. -/
def callOf (deeper : Nat → Parser Expr) (callee : Expr) : Parser Expr := do
  let _ ← bump
  let args ← arguments deeper
  let c ← get
  let span := callee.span.through c.lastSpan
  match callee with
  | .name className _ =>
    if c.isClass className then pure (.construct className args span)
    else pure (.call callee args span)
  | _ => pure (.call callee args span)

/-- An attribute of what has been read, or a method call if arguments follow at once. -/
def memberOf (deeper : Nat → Parser Expr) (receiver : Expr) : Parser Expr := do
  let _ ← bump
  let (name, nameSpan) ← expectIdentifier "attribute name after '.'"
  if ← skip (.symbol .openParen) then
    let args ← arguments deeper
    pure (.methodCall receiver name args (receiver.span.through (← get).lastSpan))
  else pure (.member receiver name (receiver.span.through nameSpan))

/-- An operation with what has been read as its left operand. -/
def joinOf (deeper : Nat → Parser Expr) (left : Expr) (joining : Joining) : Parser Expr := do
  let _ ← bump
  let right ← deeper joining.right
  pure (.binary joining.op left right (left.span.through right.span))

/-- Wrap what has been read once. -/
def extend (deeper : Nat → Parser Expr) (left : Expr) : Extension → Parser Expr
  | .call => callOf deeper left
  | .member => memberOf deeper left
  | .join joining => joinOf deeper left joining

mutual

/-- An expression whose operators all bind at least at `level`, with this many levels of nesting
left. -/
def exprAt : Nat → Nat → Parser Expr
  | 0, _ => nested tooDeep
  | budget + 1, level => fun c => nested (do
      let left ← operand (exprAt budget) level
      extendAt budget level left) c

/-- Wrap an operand for as long as the tokens go on with it; the nesting stays raised. -/
def extendAt : Nat → Nat → Expr → Parser Expr
  | 0, level, left => do
    match extension? level (← get).kind with
    | none => pure left
    | some _ => tooDeep
  | budget + 1, level, left => fun c =>
    match extension? level c.kind with
    | none => .ok left c
    | some extension => (do
        enterNesting
        let wrapped ← extend (exprAt budget) left extension
        extendAt budget level wrapped : Parser Expr) c

end

/-- An expression whose operators all bind at least at `level`. -/
def expr (level : Nat) : Parser Expr := fun c => exprAt c.budget level c

end Parser

end Offside
