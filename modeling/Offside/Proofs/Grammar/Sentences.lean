/-
The grammar of statements and programs.  It relates a program, spans included, to the token lists
that spell it; blocks are marked by the layout tokens, and what expressions look like is left to
their own grammar.
-/
import Offside.Grammar.Binding
import Offside.Proofs.Grammar.Derivation

namespace Offside

/-- From the first of some tokens to the last one. -/
def spanOf (tokens : List Token) : Span :=
  match tokens.head?, tokens.getLast? with
  | some first, some last => first.span.through last.span
  | _, _ => .absent

/-- The known classes behind the declaration of a class. -/
def declaredIn (classes : List String) (name : String) : List String :=
  if classes.contains name then classes else classes ++ [name]

/-- What stands on a line of its own, without the end of the line. -/
inductive SimpleForm (classes : List String) : Stmt → List Token → Prop
  | assign {sign : Token} {target value : Expr} {targetTokens valueTokens : List Token}
    (signKind : sign.kind = .symbol .assign) (assignable : target.isAssignable = true)
    (place : Derives classes (.expr .or target) targetTokens)
    (source : Derives classes (.expr .or value) valueTokens) :
    SimpleForm classes (.assign target value (spanOf (targetTokens ++ sign :: valueTokens)))
      (targetTokens ++ sign :: valueTokens)
  /-- An augmented assignment denotes the assignment of the operation on its target. -/
  | augmented {sign : Token} {op : BinaryOp} {target value : Expr}
    {targetTokens valueTokens : List Token} (signKind : sign.kind.augmentation? = some op)
    (assignable : target.isAssignable = true)
    (place : Derives classes (.expr .or target) targetTokens)
    (source : Derives classes (.expr .or value) valueTokens) :
    SimpleForm classes
      (.assign target (.binary op target value (target.span.through value.span))
        (spanOf (targetTokens ++ sign :: valueTokens)))
      (targetTokens ++ sign :: valueTokens)
  | eval {e : Expr} {tokens : List Token} (value : Derives classes (.expr .or e) tokens) :
    SimpleForm classes (.eval e (spanOf tokens)) tokens
  | leave {word : Token} (wordKind : word.kind = .keyword .returnValue) :
    SimpleForm classes (.leave none (spanOf [word])) [word]
  | leaveWith {word : Token} {e : Expr} {tokens : List Token}
    (wordKind : word.kind = .keyword .returnValue)
    (value : Derives classes (.expr .or e) tokens) :
    SimpleForm classes (.leave (some e) (spanOf (word :: tokens))) (word :: tokens)
  | pass {word : Token} (wordKind : word.kind = .keyword .passBy) :
    SimpleForm classes (.pass (spanOf [word])) [word]
  | breakLoop {word : Token} (wordKind : word.kind = .keyword .breakLoop) :
    SimpleForm classes (.breakLoop (spanOf [word])) [word]
  | continueLoop {word : Token} (wordKind : word.kind = .keyword .continueLoop) :
    SimpleForm classes (.continueLoop (spanOf [word])) [word]

/-- Parameters with commas between them; a comma may also follow the last one. -/
inductive ParamForm : List Param → List Token → Prop
  | none : ParamForm [] []
  | last {word : Token} {name : String} (wordKind : word.kind = .identifier name) :
    ParamForm [⟨name, word.span⟩] [word]
  | more {word comma : Token} {name : String} {others : List Param} {tokens : List Token}
    (wordKind : word.kind = .identifier name) (commaKind : comma.kind = .symbol .comma)
    (rest : ParamForm others tokens) :
    ParamForm (⟨name, word.span⟩ :: others) (word :: comma :: tokens)

/-- The parts that a program is made of. -/
inductive Clause where
  /-- A statement that may stand in a block, up to the end of its line or of its last block. -/
  | stmt (value : Stmt)
  /-- A conditional that starts with this word. -/
  | branch (word : Keyword) (value : Stmt)
  /-- What follows the first body of a conditional. -/
  | otherwise (elseBody : Option (List Stmt))
  | body (stmts : List Stmt)
  | block (stmts : List Stmt)
  | function (definition : FunctionDef Stmt)
  | methods (definitions : List (FunctionDef Stmt))

/-- Which tokens spell a part of a program, given the known classes. -/
inductive ClauseForm (classes : List String) : Clause → List Token → Prop
  | simple {newline : Token} {s : Stmt} {tokens : List Token}
    (newlineKind : newline.kind = .layout .newline) (form : SimpleForm classes s tokens) :
    ClauseForm classes (.stmt s) (tokens ++ [newline])
  | conditional {s : Stmt} {tokens : List Token}
    (form : ClauseForm classes (.branch .ifTest s) tokens) :
    ClauseForm classes (.stmt s) tokens
  | loop {word : Token} {test : Expr} {body : List Stmt} {testTokens bodyTokens : List Token}
    (wordKind : word.kind = .keyword .whileLoop)
    (condition : Derives classes (.expr .or test) testTokens)
    (repeated : ClauseForm classes (.block body) bodyTokens) :
    ClauseForm classes (.stmt (.loop test body (spanOf (word :: (testTokens ++ bodyTokens)))))
      (word :: (testTokens ++ bodyTokens))
  | branch {word : Token} {key : Keyword} {test : Expr} {thenBody : List Stmt}
    {elseBody : Option (List Stmt)} {testTokens thenTokens elseTokens : List Token}
    (wordKind : word.kind = .keyword key)
    (condition : Derives classes (.expr .or test) testTokens)
    (first : ClauseForm classes (.block thenBody) thenTokens)
    (second : ClauseForm classes (.otherwise elseBody) elseTokens) :
    ClauseForm classes
      (.branch key (.branch test thenBody elseBody
        (spanOf (word :: (testTokens ++ (thenTokens ++ elseTokens))))))
      (word :: (testTokens ++ (thenTokens ++ elseTokens)))
  | noElse : ClauseForm classes (.otherwise none) []
  | elseBlock {word : Token} {body : List Stmt} {tokens : List Token}
    (wordKind : word.kind = .keyword .elseBranch)
    (second : ClauseForm classes (.block body) tokens) :
    ClauseForm classes (.otherwise (some body)) (word :: tokens)
  /-- A further alternative denotes a body with one conditional. -/
  | elif {s : Stmt} {tokens : List Token} (form : ClauseForm classes (.branch .elifTest s) tokens) :
    ClauseForm classes (.otherwise (some [s])) tokens
  | noStmts : ClauseForm classes (.body []) []
  | stmts {s : Stmt} {others : List Stmt} {tokens otherTokens : List Token}
    (first : ClauseForm classes (.stmt s) tokens)
    (rest : ClauseForm classes (.body others) otherTokens) :
    ClauseForm classes (.body (s :: others)) (tokens ++ otherTokens)
  | block {colon newline indent dedent : Token} {body : List Stmt} {tokens : List Token}
    (colonKind : colon.kind = .symbol .colon) (newlineKind : newline.kind = .layout .newline)
    (indentKind : indent.kind = .layout .indent) (dedentKind : dedent.kind = .layout .dedent)
    (nonempty : body ≠ []) (inside : ClauseForm classes (.body body) tokens) :
    ClauseForm classes (.block body) (colon :: newline :: indent :: (tokens ++ [dedent]))
  | function {word id start stop : Token} {name : String} {params : List Param}
    {body : List Stmt} {paramTokens bodyTokens : List Token}
    (wordKind : word.kind = .keyword .definition) (idKind : id.kind = .identifier name)
    (startKind : start.kind = .symbol .openParen) (stopKind : stop.kind = .symbol .closeParen)
    (distinct : (params.map Param.name).Nodup) (formal : ParamForm params paramTokens)
    (inside : ClauseForm classes (.block body) bodyTokens) :
    ClauseForm classes
      (.function ⟨name, params, body,
        spanOf (word :: id :: start :: (paramTokens ++ stop :: bodyTokens))⟩)
      (word :: id :: start :: (paramTokens ++ stop :: bodyTokens))
  | noMethods : ClauseForm classes (.methods []) []
  | methods {definition : FunctionDef Stmt} {others : List (FunctionDef Stmt)}
    {tokens otherTokens : List Token} (first : ClauseForm classes (.function definition) tokens)
    (rest : ClauseForm classes (.methods others) otherTokens) :
    ClauseForm classes (.methods (definition :: others)) (tokens ++ otherTokens)

/-- Which tokens spell a statement outside of all blocks, with the known classes before it and
behind it. -/
inductive TopForm : List String → Stmt → List Token → List String → Prop
  | stmt {classes : List String} {s : Stmt} {tokens : List Token}
    (form : ClauseForm classes (.stmt s) tokens) : TopForm classes s tokens classes
  | function {classes : List String} {definition : FunctionDef Stmt} {tokens : List Token}
    (form : ClauseForm classes (.function definition) tokens) :
    TopForm classes (.function definition definition.span) tokens classes
  /-- The methods of a class may already construct it. -/
  | classDef {word id colon newline indent dedent : Token} {classes : List String} {name : String}
    {methods : List (FunctionDef Stmt)} {tokens : List Token}
    (wordKind : word.kind = .keyword .classDefinition) (idKind : id.kind = .identifier name)
    (colonKind : colon.kind = .symbol .colon) (newlineKind : newline.kind = .layout .newline)
    (indentKind : indent.kind = .layout .indent) (dedentKind : dedent.kind = .layout .dedent)
    (nonempty : methods ≠ [])
    (inside : ClauseForm (declaredIn classes name) (.methods methods) tokens) :
    TopForm classes
      (.classDef name methods
        (spanOf (word :: id :: colon :: newline :: indent :: (tokens ++ [dedent]))))
      (word :: id :: colon :: newline :: indent :: (tokens ++ [dedent]))
      (declaredIn classes name)

/-- Which tokens spell a whole program, given the classes that are known at its start.  At the end
of the input the end of the last line may be missing. -/
inductive ProgramForm : List String → List Stmt → List Token → Prop
  | nil {classes : List String} : ProgramForm classes [] []
  | cons {classes known : List String} {s : Stmt} {others : List Stmt}
    {tokens otherTokens : List Token} (first : TopForm classes s tokens known)
    (rest : ProgramForm known others otherTokens) :
    ProgramForm classes (s :: others) (tokens ++ otherTokens)
  | unended {classes : List String} {s : Stmt} {tokens : List Token}
    (form : SimpleForm classes s tokens) : ProgramForm classes [s] tokens

end Offside
