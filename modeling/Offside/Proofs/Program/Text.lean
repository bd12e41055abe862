/-
Programs as text.  Expressions are written with parentheses where their layer is not the one that
is wanted, statements with one line for each of their heads.
-/
import Offside.Proofs.Grammar.Sentences
import Offside.Proofs.Program.Bare
import Offside.Proofs.Token.WrittenLines

namespace Offside

/-! ### Expressions -/

namespace BinaryOp

/-- The token between the operands. -/
def kind : BinaryOp → TokenKind
  | add => .symbol .plus
  | sub => .symbol .minus
  | mul => .symbol .star
  | div => .symbol .slash
  | floorDiv => .symbol .slashSlash
  | mod => .symbol .percent
  | pow => .symbol .starStar
  | equal => .symbol .equal
  | notEqual => .symbol .notEqual
  | less => .symbol .less
  | lessEqual => .symbol .lessEqual
  | greater => .symbol .greater
  | greaterEqual => .symbol .greaterEqual
  | and => .keyword .and
  | or => .keyword .or

/-- The layer of the operation and those of its operands. -/
def rule (op : BinaryOp) : Production :=
  match op with
  | or => ⟨.or, .or, .and, op⟩
  | and => ⟨.and, .and, .not, op⟩
  | equal | notEqual | less | lessEqual | greater | greaterEqual =>
    ⟨.comparison, .comparison, .sum, op⟩
  | add | sub => ⟨.sum, .sum, .product, op⟩
  | mul | div | floorDiv | mod => ⟨.product, .product, .unary, op⟩
  | pow => ⟨.power, .trailed, .unary, op⟩

theorem ofKind?_kind (op : BinaryOp) : Production.ofKind? op.kind = some op.rule := by
  cases op <;> rfl

theorem op_rule (op : BinaryOp) : op.rule.op = op := by
  cases op <;> rfl

end BinaryOp

/-- Tokens in parentheses. -/
def grouped (kinds : List TokenKind) : List TokenKind :=
  .symbol .openParen :: (kinds ++ [.symbol .closeParen])

/-- Lists of tokens with commas between them. -/
def separated : List (List TokenKind) → List TokenKind
  | [] => []
  | [kinds] => kinds
  | kinds :: others => kinds ++ .symbol .comma :: separated others

/-- The tokens of an expression of the inner layer where one of the outer layer is wanted. -/
def Layer.enclose (outer inner : Layer) (kinds : List TokenKind) : List TokenKind :=
  if outer.level ≤ inner.level then kinds else grouped kinds

namespace Expr

/-- The innermost layer that an expression belongs to without parentheses. -/
def layer : Expr → Layer
  | binary op _ _ _ => op.rule.result
  | unary .neg _ _ => .unary
  | unary .not _ _ => .not
  | member _ _ _ => .trailed
  | _ => .callable

mutual

/-- The tokens of an expression. -/
def kinds : Expr → List TokenKind
  | constant value _ => [.literal value]
  | name id _ => [.identifier id]
  | binary op left right _ =>
    op.rule.left.enclose left.layer (kinds left) ++
      op.kind :: op.rule.right.enclose right.layer (kinds right)
  | unary .neg operand _ => .symbol .minus :: Layer.unary.enclose operand.layer (kinds operand)
  | unary .not operand _ => .keyword .not :: Layer.not.enclose operand.layer (kinds operand)
  | call callee args _ =>
    Layer.callable.enclose callee.layer (kinds callee) ++ grouped (separated (kindsAll args))
  | methodCall receiver method args _ =>
    Layer.trailed.enclose receiver.layer (kinds receiver) ++
      .symbol .dot :: .identifier method :: grouped (separated (kindsAll args))
  | construct className args _ => .identifier className :: grouped (separated (kindsAll args))
  | member receiver attr _ =>
    Layer.trailed.enclose receiver.layer (kinds receiver) ++ [.symbol .dot, .identifier attr]

def kindsAll : List Expr → List (List TokenKind)
  | [] => []
  | expr :: others => kinds expr :: kindsAll others

end

theorem kindsAll_eq_map (exprs : List Expr) : kindsAll exprs = exprs.map kinds := by
  induction exprs with
  | nil => rfl
  | cons expr others ih => rw [kindsAll, ih, List.map_cons]

/-- Whether a call of the expression would construct a class. -/
def isClassName (classes : List String) : Expr → Bool
  | name id _ => classes.contains id
  | _ => false

mutual

/-- Whether an expression can be written where these classes are known: its names and constants
are single tokens, and a class is constructed wherever the name of one is called. -/
def isWritable [IdentifierTables] (classes : List String) : Expr → Bool
  | constant value _ => (TokenKind.literal value).isWritable
  | name id _ => isName id
  | binary _ left right _ => isWritable classes left && isWritable classes right
  | unary _ operand _ => isWritable classes operand
  | call callee args _ =>
    !callee.isClassName classes && isWritable classes callee && isWritableAll classes args
  | methodCall receiver method args _ =>
    isWritable classes receiver && isName method && isWritableAll classes args
  | construct className args _ =>
    isName className && classes.contains className && isWritableAll classes args
  | member receiver attr _ => isWritable classes receiver && isName attr

def isWritableAll [IdentifierTables] (classes : List String) : List Expr → Bool
  | [] => true
  | expr :: others => isWritable classes expr && isWritableAll classes others

end

@[simp] theorem isWritableAll_eq_all [IdentifierTables] (classes : List String)
    (exprs : List Expr) :
    isWritableAll classes exprs = exprs.all (isWritable classes) := by
  induction exprs with
  | nil => rfl
  | cons expr others ih => rw [isWritableAll, ih, List.all_cons]

end Expr

/-! ### Statements -/

/-- The tokens in front of the body of a function. -/
def FunctionDef.head (definition : FunctionDef Stmt) : List TokenKind :=
  .keyword .definition :: .identifier definition.name ::
    (grouped (separated (definition.params.map fun param => [.identifier param.name])) ++
      [.symbol .colon])

namespace Stmt

/-- The tokens on the first line of a statement, where a conditional starts with this word. -/
def head (word : Keyword) : Stmt → List TokenKind
  | function definition _ => definition.head
  | classDef name _ _ => [.keyword .classDefinition, .identifier name, .symbol .colon]
  | assign target value _ => target.kinds ++ .symbol .assign :: value.kinds
  | branch test _ _ _ => .keyword word :: (test.kinds ++ [.symbol .colon])
  | loop test _ _ => .keyword .whileLoop :: (test.kinds ++ [.symbol .colon])
  | leave none _ => [.keyword .returnValue]
  | leave (some value) _ => .keyword .returnValue :: value.kinds
  | pass _ => [.keyword .passBy]
  | breakLoop _ => [.keyword .breakLoop]
  | continueLoop _ => [.keyword .continueLoop]
  | eval expr _ => expr.kinds

/-- Whether an else body is written as a further alternative: it is a single conditional, and that
one is chosen for it.  The choice may depend on the places of the conditional, so every occurrence
can have its own. -/
def isChained (chosen : Stmt → Bool) : List Stmt → Bool
  | [branch test thenBody elseBody span] => chosen (branch test thenBody elseBody span)
  | _ => false

section

variable (chosen : Stmt → Bool)

mutual

/-- The lines of a statement at some level, where a conditional starts with this word and the
chosen ones are further alternatives wherever they can be. -/
def lines (word : Keyword) (level : Nat) : Stmt → List Line
  | function definition _ => ⟨level, definition.head⟩ :: linesOfFunction (level + 1) definition
  | classDef name methods span =>
    ⟨level, (classDef name methods span).head word⟩ :: linesOfFunctions (level + 1) methods
  | branch test thenBody elseBody span =>
    ⟨level, (branch test thenBody elseBody span).head word⟩ ::
      (linesOfBody .ifTest (level + 1) thenBody ++ linesOfElse level elseBody)
  | loop test body span =>
    ⟨level, (loop test body span).head word⟩ :: linesOfBody .ifTest (level + 1) body
  | stmt => [⟨level, stmt.head word⟩]

/-- The lines of the body of a function. -/
def linesOfFunction (level : Nat) : FunctionDef Stmt → List Line
  | ⟨_, _, body, _⟩ => linesOfBody .ifTest level body

def linesOfFunctions (level : Nat) : List (FunctionDef Stmt) → List Line
  | [] => []
  | definition :: others =>
    ⟨level, definition.head⟩ ::
      (linesOfFunction (level + 1) definition ++ linesOfFunctions level others)

def linesOfBody (word : Keyword) (level : Nat) : List Stmt → List Line
  | [] => []
  | stmt :: others => lines word level stmt ++ linesOfBody word level others

/-- A further alternative stands at the level of the conditional, a body one level deeper. -/
def linesOfElse (level : Nat) : Option (List Stmt) → List Line
  | none => []
  | some body =>
    if isChained chosen body then linesOfBody .elifTest level body
    else ⟨level, [.keyword .elseBranch, .symbol .colon]⟩ :: linesOfBody .ifTest (level + 1) body

end

end

variable [IdentifierTables]

mutual

/-- Whether a statement can be written inside of a block, where these classes are known.  There are
no definitions in it, and no body is empty. -/
def isWritable (classes : List String) : Stmt → Bool
  | function _ _ | classDef _ _ _ => false
  | assign target value _ =>
    target.isAssignable && target.isWritable classes && value.isWritable classes
  | branch test thenBody elseBody _ =>
    test.isWritable classes && !thenBody.isEmpty && isWritableBody classes thenBody &&
      isWritableElse classes elseBody
  | loop test body _ => test.isWritable classes && !body.isEmpty && isWritableBody classes body
  | leave none _ => true
  | leave (some value) _ => value.isWritable classes
  | pass _ | breakLoop _ | continueLoop _ => true
  | eval expr _ => expr.isWritable classes

def isWritableBody (classes : List String) : List Stmt → Bool
  | [] => true
  | stmt :: others => isWritable classes stmt && isWritableBody classes others

def isWritableElse (classes : List String) : Option (List Stmt) → Bool
  | none => true
  | some body => !body.isEmpty && isWritableBody classes body

end

@[simp] theorem isWritableBody_eq_all (classes : List String) (body : List Stmt) :
    isWritableBody classes body = body.all (isWritable classes) := by
  induction body with
  | nil => rfl
  | cons stmt others ih => rw [isWritableBody, ih, List.all_cons]

end Stmt

/-- Whether a function can be written: its parameters differ, and its body is a block. -/
def FunctionDef.isWritable [IdentifierTables] (classes : List String)
    (definition : FunctionDef Stmt) : Bool :=
  isName definition.name && definition.params.all (isName ·.name) &&
    decide (definition.params.map Param.name).Nodup && !definition.body.isEmpty &&
    definition.body.all (Stmt.isWritable classes)

/-- Whether a statement can be written outside of all blocks.  The methods of a class may already
construct it. -/
def Stmt.isWritableOutside [IdentifierTables] (classes : List String) : Stmt → Bool
  | function definition _ => definition.isWritable classes
  | classDef name methods _ =>
    isName name && !methods.isEmpty &&
      methods.all (FunctionDef.isWritable (declaredIn classes name))
  | stmt => stmt.isWritable classes

/-- The classes that are known behind a statement. -/
def Stmt.classesAfter (classes : List String) : Stmt → List String
  | classDef name _ _ => declaredIn classes name
  | _ => classes

namespace Module

/-- Whether statements can be written one after the other. -/
def isWritableFrom [IdentifierTables] (classes : List String) : List Stmt → Bool
  | [] => true
  | stmt :: others =>
    stmt.isWritableOutside classes && isWritableFrom (stmt.classesAfter classes) others

/-- Whether a program can be written: definitions stand outside of all blocks, and everything else
is as the grammar wants it. -/
def isWritable [IdentifierTables] (program : Module) : Bool := isWritableFrom [] program.body

/-- The text of a program.  A conditional that stands alone in an else body may be a further
alternative instead of a block; the chosen ones are. -/
def text (chosen : Stmt → Bool) (program : Module) : String :=
  Line.textAll (Stmt.linesOfBody chosen .ifTest 0 program.body)

end Module

end Offside
