/-
The parsers of expressions, statements and programs as plans: the same moves in the same order.
Each plan is shown to run as the parser it is the plan of, so that what holds of every plan holds
of the parsers.
-/
import Offside.Proofs.Grammar.Plan
import Offside.Proofs.Grammar.Progress

namespace Offside

namespace Plan

open Offside.Parser

variable {raises : Bool} {α β : Type} {c : Cursor}

/-! ### Runs of single moves -/

/-- Two sequences agree at a cursor where their first parsers do. -/
theorem bind_congr_at {p q : Parser α} {f g : α → Parser β} (hfirst : p c = q c)
    (hnext : ∀ a, f a = g a) : (p >>= f) c = (q >>= g) c := by
  obtain rfl : f = g := funext hnext
  simp only [bind, EStateM.bind, hfirst]

theorem nested_congr_at {p q : Parser α} (h : p c.deeper = q c.deeper) :
    nested p c = nested q c := by
  by_cases hlt : c.depth < c.maxDepth
  · rw [nested_eq_of_lt hlt, nested_eq_of_lt hlt, h]
  · rw [nested_of_not_lt hlt, nested_of_not_lt hlt]

theorem run_pure (a : α) : (pure a : Plan raises α).run = pure a := rfl

/-- A plan runs as its parts do, one after the other. -/
theorem run_bind (first : Plan raises α) (next : α → Plan raises β) :
    (first >>= next).run = first.run >>= fun a => (next a).run := rfl

theorem run_ite (p : Prop) [Decidable p] (first second : Plan raises α) :
    (if p then first else second).run = if p then first.run else second.run := by
  split <;> rfl

/-- What is looked at is only what is in sight. -/
theorem look_bind (f : Cursor → Parser β) :
    ((look : Plan raises Cursor).run >>= f) c = f c.sight c := rfl

theorem run_take (h : c.atEnd = false) : (take : Plan raises Unit).run c = .ok () c.next := by
  simp only [run, h, Bool.false_eq_true, if_false]

theorem take_bind (h : c.atEnd = false) (f : Unit → Parser β) :
    ((take : Plan raises Unit).run >>= f) c = f () c.next :=
  bind_ok (run_take h)

/-- Stepping over a token that is there, as parsers do whose first token has been looked at. -/
theorem take_bind_eq_bump_bind (h : c.atEnd = false) (next : Plan raises β) {rest : Parser β}
    (hnext : next.run c.next = rest c.next) :
    (do take; next : Plan raises β).run c = (do let _ ← bump; rest : Parser β) c := by
  rw [bump_bind, run_bind, take_bind h, hnext]

theorem atEnd_of_kind {kind : TokenKind} (h : c.kind = kind)
    (hkind : (kind == .layout .endOfInput) = false) : c.atEnd = false := by
  rw [Cursor.atEnd, h, hkind]

/-- Where the current token means something, it is not the end of the input. -/
theorem atEnd_of_means {γ : Type} {meaning : TokenKind → Option γ} {found : γ}
    (hend : meaning (.layout .endOfInput) = none) (h : meaning c.kind = some found) :
    c.atEnd = false := by
  refine beq_eq_false_iff_ne.mpr fun hkind => ?_
  rw [hkind, hend] at h
  cases h

theorem atEnd_of_isAt {wanted : TokenKind}
    (hwanted : TokenKind.isA (.layout .endOfInput) wanted = false) (h : c.isAt wanted = true) :
    c.atEnd = false := by
  refine beq_eq_false_iff_ne.mpr fun hkind => ?_
  rw [Cursor.isAt, hkind, hwanted] at h
  cases h

/-! ### Single tokens -/

/-- Step over a token of this kind, if there is one. -/
def skip (wanted : TokenKind) : Plan raises Bool := do
  if (← look).isAt wanted then
    take
    pure true
  else pure false

/-- Step over a token of this kind, or say what should have stood there. -/
def expect (wanted : TokenKind) (what : String) : Plan raises Token := do
  let c ← look
  match c.rest with
  | token :: _ =>
    if token.kind.isA wanted then
      take
      pure token
    else throw (c.expected what)
  | [] => throw (c.expected what)

def expectIdentifier (what : String) : Plan raises (String × Span) := do
  let c ← look
  match c.kind with
  | .identifier name =>
    take
    pure (name, c.span)
  | _ => throw (c.expected what)

/-- The end of a line; at the end of the input there is none to step over. -/
def expectLineEnd : Plan raises Unit := do
  let c ← look
  if c.isAt (.layout .newline) then take
  else if c.atEnd then pure ()
  else throw (c.expected "end of line")

/-- The end of the input is never skipped, so that a plan may always step over what it wanted. -/
theorem run_skip {wanted : TokenKind}
    (hwanted : TokenKind.isA (.layout .endOfInput) wanted = false) :
    (skip wanted : Plan raises Bool).run = Parser.skip wanted := by
  funext c
  rw [skip, run_bind, look_bind, Cursor.isAt_sight, run_ite, Parser.skip]
  split
  case isTrue h =>
    rw [run_bind, take_bind (atEnd_of_isAt hwanted h)]
    rfl
  case isFalse => rfl

/-- Only the kind of the next token is looked at, and the message is the same. -/
theorem run_expect {wanted : TokenKind}
    (hwanted : TokenKind.isA (.layout .endOfInput) wanted = false) (what : String) :
    (expect wanted what : Plan raises Token).run = Parser.expect wanted what := by
  funext c
  rw [expect, run_bind, look_bind, Parser.expect, Cursor.expected_sight]
  cases hrest : c.rest with
  | nil =>
    have hsight : c.sight.rest = [] := by rw [Cursor.sight, hrest]; rfl
    rw [hsight]
    rfl
  | cons token rest =>
    have hsight : c.sight.rest = [token] := by rw [Cursor.sight, hrest]; rfl
    rw [hsight]
    dsimp only
    rw [run_ite]
    split
    case isTrue h =>
      have hat : c.isAt wanted = true := by rw [Cursor.isAt, Cursor.kind_of_rest hrest, h]
      rw [run_bind, take_bind (atEnd_of_isAt hwanted hat)]
      rfl
    case isFalse => rfl

theorem run_expectIdentifier (what : String) :
    (expectIdentifier what : Plan raises (String × Span)).run = Parser.expectIdentifier what := by
  funext c
  rw [expectIdentifier, run_bind, look_bind, Parser.expectIdentifier, Cursor.kind_sight,
    Cursor.span_sight, Cursor.expected_sight]
  cases h : c.kind with
  | identifier name =>
    dsimp only
    rw [run_bind, take_bind (atEnd_of_kind h rfl)]
    rfl
  | _ => rfl

theorem run_expectLineEnd : (expectLineEnd : Plan raises Unit).run = Parser.expectLineEnd := by
  funext c
  rw [expectLineEnd, run_bind, look_bind, Cursor.isAt_sight, Cursor.atEnd_sight,
    Cursor.expected_sight, run_ite, run_ite, Parser.expectLineEnd]
  split
  case isTrue h => exact run_take (atEnd_of_isAt rfl h)
  case isFalse => split <;> rfl

/-! ### Loops -/

/-- One round of collecting items until the cursor is where that should stop. -/
def untilRound (stop : Cursor → Bool) (item : Plan raises α) (found : List α) :
    Plan raises (List α ⊕ List α) := do
  if stop (← look) then pure (.inr found.reverse)
  else
    let next ← item
    pure (.inl (next :: found))

/-- Collect items until the cursor is where that should stop. -/
def manyUntil (stop : Cursor → Bool) (item : Plan raises α) : Plan raises (List α) :=
  loop (untilRound stop item) []

/-- One round of collecting items with commas between them. -/
def itemRound (item : List α → Plan raises α) (before : List α) :
    Plan raises (List α ⊕ List α) := do
  if (← look).isAt (.symbol .closeParen) then pure (.inr before.reverse)
  else
    let first ← item before
    if ← skip (.symbol .comma) then pure (.inl (first :: before))
    else pure (.inr (first :: before).reverse)

/-- Items with commas between them, perhaps one behind the last, and the closing parenthesis. -/
def items (item : List α → Plan raises α) : Plan raises (List α) := do
  let found ← loop (itemRound item) []
  let _ ← expect (.symbol .closeParen) "',' or ')'"
  pure found

/-- Looking at what is there, where what follows does not tell the sight of it from the whole. -/
theorem run_look {f g : Cursor → Parser α} (h : ∀ c, f c.sight c = g c c) :
    (look : Plan raises Cursor).run >>= f = get >>= g :=
  funext h

/-- Items that are each progress are collected round by round as the parser with its budget does. -/
theorem run_manyUntil {stop : Cursor → Bool} {item : Plan raises α}
    (hstop : ∀ c : Cursor, stop c.sight = stop c) (hitem : Progresses item.run) :
    (manyUntil stop item).run = Parser.manyUntil stop item.run := by
  have hround : (fun found => (untilRound stop item found).run) =
      Parser.untilRound stop item.run := by
    funext found
    rw [untilRound, run_bind]
    refine run_look fun c => ?_
    rw [hstop, run_ite]
    rfl
  funext c
  rw [manyUntil, run, hround, rounds_untilRound_nil hitem]

/-- A list of items is read in rounds; the budget of the parser is enough for all of them, since an
item leaves fewer tokens or the list ends. -/
theorem run_items (item : List α → Plan raises α) :
    (items item).run = Parser.items fun before => (item before).run := by
  have hround : (fun before => (itemRound item before).run) =
      Parser.itemRound fun before => (item before).run := by
    funext before
    rw [itemRound, run_bind]
    refine run_look fun c => ?_
    rw [Cursor.isAt_sight, run_ite]
    simp (disch := decide) only [run_bind, run_skip, run_ite, run_pure]
  have hloop : (loop (itemRound item) []).run = (do
      itemsAfter (fun before => (item before).run) ((← get).rest.length + 1) [] :
        Parser (List α)) := by
    funext c
    rw [run, hround]
    exact rounds_itemRound (fun before c first c' h => (leaves_of_ok h).advances.tokens.length_le)
      _ [] c (Nat.lt_succ_self _)
  simp (disch := decide) only [items, run_bind, hloop, run_expect, run_pure, Parser.items,
    bind_assoc]

/-! ### Expressions -/

/-- A first operand, by the kind of its first token. -/
def operand (deeper : Nat → Plan raises Expr) (level : Nat) : Plan raises Expr := do
  let c ← look
  let span := c.span
  match c.kind with
  | .literal value =>
    take
    pure (.constant value span)
  | .identifier name =>
    take
    pure (.name name span)
  | .symbol .openParen =>
    take
    let inner ← deeper Binding.lowest
    let _ ← expect (.symbol .closeParen) "')'"
    pure inner
  | .symbol .minus =>
    take
    let inner ← deeper Binding.unary
    pure (.unary .neg inner (span.through inner.span))
  | .symbol .plus =>
    take
    deeper Binding.unary
  | .keyword .not =>
    if level ≤ Binding.not then
      take
      let inner ← deeper Binding.not
      pure (.unary .not inner (span.through inner.span))
    else throw c.unexpected
  | .reserved _ => throw c.unexpected
  | _ => throw (c.expected "expression")

/-- An operand looks at its first token alone, and steps over it before anything else. -/
theorem run_operand (deeper : Nat → Plan raises Expr) (level : Nat) :
    (operand deeper level).run = Parser.operand (fun level => (deeper level).run) level := by
  funext c
  rw [operand, run_bind, look_bind, Parser.operand, get_bind, Cursor.kind_sight,
    Cursor.span_sight, Cursor.expected_sight, Cursor.unexpected_sight]
  have htakes (next : Plan raises Expr) (h : c.atEnd = false) :
      (do take; next : Plan raises Expr).run c = (do let _ ← bump; next.run : Parser Expr) c :=
    take_bind_eq_bump_bind h next rfl
  cases h : c.kind with
  | literal value => exact htakes _ (atEnd_of_kind h rfl)
  | identifier name => exact htakes _ (atEnd_of_kind h rfl)
  | symbol sign =>
    have hend := atEnd_of_kind h rfl
    cases sign with
    | openParen =>
      refine take_bind_eq_bump_bind hend _ ?_
      simp (disch := decide) only [run_bind, run_expect, run_pure]
    | minus => exact htakes _ hend
    | plus => exact htakes _ hend
    | _ => rfl
  | keyword word =>
    have hend := atEnd_of_kind h rfl
    cases word with
    | not =>
      dsimp only
      rw [run_ite]
      split
      case isTrue => exact htakes _ hend
      case isFalse => rfl
    | _ => rfl
  | _ => rfl

def arguments (deeper : Nat → Plan raises Expr) : Plan raises (List Expr) :=
  items fun _ => deeper Binding.lowest

/-- The call of what has been read, or the construction of an object where that names a class. -/
def callOf (deeper : Nat → Plan raises Expr) (callee : Expr) : Plan raises Expr := do
  take
  let args ← arguments deeper
  let c ← look
  let span := callee.span.through c.lastSpan
  match callee with
  | .name className _ =>
    if c.isClass className then pure (.construct className args span)
    else pure (.call callee args span)
  | _ => pure (.call callee args span)

/-- An attribute, or the call of a method where a parenthesis follows. -/
def memberOf (deeper : Nat → Plan raises Expr) (receiver : Expr) : Plan raises Expr := do
  take
  let (name, nameSpan) ← expectIdentifier "attribute name after '.'"
  if ← skip (.symbol .openParen) then
    let args ← arguments deeper
    pure (.methodCall receiver name args (receiver.span.through (← look).lastSpan))
  else pure (.member receiver name (receiver.span.through nameSpan))

def joinOf (deeper : Nat → Plan raises Expr) (left : Expr) (joining : Joining) :
    Plan raises Expr := do
  take
  let right ← deeper joining.right
  pure (.binary joining.op left right (left.span.through right.span))

def extend (deeper : Nat → Plan raises Expr) (left : Expr) : Extension → Plan raises Expr
  | .call => callOf deeper left
  | .member => memberOf deeper left
  | .join joining => joinOf deeper left joining

mutual

/-- An expression in as many levels as the budget, whose first level is given back in any case. -/
def exprAt : Nat → Nat → Plan false Expr
  | 0, _ => inside tooDeep
  | budget + 1, level => inside do
      let left ← operand (fun level => steady (exprAt budget level)) level
      extendAt budget level left

/-- What is wrapped around an operand; each wrapping enters a level for good, so that these plans
raise. -/
def extendAt : Nat → Nat → Expr → Plan true Expr
  | 0, level, left => do
    match extension? level (← look).kind with
    | none => pure left
    | some _ => tooDeep
  | budget + 1, level, left => do
    match extension? level (← look).kind with
    | none => pure left
    | some extension =>
      enter
      let wrapped ← extend (fun level => steady (exprAt budget level)) left extension
      extendAt budget level wrapped

end

def expr (level : Nat) : Plan false Expr := do
  exprAt (← look).budget level

section

variable (deeper : Nat → Plan raises Expr)

theorem run_arguments :
    (arguments deeper).run = Parser.arguments fun level => (deeper level).run :=
  run_items _

theorem run_callOf (callee : Expr) (h : c.atEnd = false) :
    (callOf deeper callee).run c = Parser.callOf (fun level => (deeper level).run) callee c := by
  refine take_bind_eq_bump_bind h _ (congrFun ?_ _)
  rw [run_bind, run_arguments]
  refine bind_congr fun args => run_look fun c => ?_
  dsimp only
  rw [Cursor.lastSpan_sight]
  cases callee with
  | name className _ =>
    dsimp only
    rw [run_ite, Cursor.isClass_sight]
    rfl
  | _ => rfl

theorem run_memberOf (receiver : Expr) (h : c.atEnd = false) :
    (memberOf deeper receiver).run c =
      Parser.memberOf (fun level => (deeper level).run) receiver c := by
  refine take_bind_eq_bump_bind h _ (congrFun ?_ _)
  rw [run_bind, run_expectIdentifier]
  refine bind_congr fun named => ?_
  obtain ⟨name, nameSpan⟩ := named
  simp (disch := decide) only [run_bind, run_skip, run_ite, run_arguments]
  refine bind_congr fun more => ite_congr rfl (fun _ => bind_congr fun args => ?_) fun _ => rfl
  refine run_look fun c => ?_
  rw [Cursor.lastSpan_sight]
  rfl

theorem run_joinOf (left : Expr) (joining : Joining) (h : c.atEnd = false) :
    (joinOf deeper left joining).run c =
      Parser.joinOf (fun level => (deeper level).run) left joining c :=
  take_bind_eq_bump_bind h _ rfl

/-- Where a token can wrap something around an operand, both wrap the same around it. -/
theorem run_extend (left : Expr) {level : Nat} {extension : Extension}
    (h : extension? level c.kind = some extension) :
    (extend deeper left extension).run c =
      Parser.extend (fun level => (deeper level).run) left extension c := by
  have hend : c.atEnd = false := atEnd_of_means rfl h
  cases extension with
  | call => exact run_callOf deeper left hend
  | member => exact run_memberOf deeper left hend
  | join joining => exact run_joinOf deeper left joining hend

end

/-- By induction on the budget, for expressions and for what extends an operand at once. -/
theorem run_exprAt_extendAt (budget : Nat) :
    (∀ level, (exprAt budget level).run = Parser.exprAt budget level) ∧
      ∀ level left, (extendAt budget level left).run = Parser.extendAt budget level left := by
  induction budget with
  | zero =>
    refine ⟨fun level => by rw [exprAt, Parser.exprAt]; rfl, fun level left => ?_⟩
    rw [extendAt, Parser.extendAt, run_bind]
    refine run_look fun c => ?_
    rw [Cursor.kind_sight]
    cases extension? level c.kind <;> rfl
  | succ budget ih =>
    have hdeeper : (fun level => (steady (exprAt budget level)).run) = Parser.exprAt budget :=
      funext ih.1
    constructor
    · intro level
      have hinside : (do
            let left ← operand (fun level => steady (exprAt budget level)) level
            extendAt budget level left : Plan true Expr).run = (do
              let left ← Parser.operand (Parser.exprAt budget) level
              Parser.extendAt budget level left : Parser Expr) := by
        rw [run_bind, run_operand, hdeeper]
        exact bind_congr fun left => ih.2 level left
      rw [exprAt, Parser.exprAt, run, hinside]
    · intro level left
      funext c
      rw [extendAt, Parser.extendAt, run_bind, look_bind, Cursor.kind_sight]
      dsimp only
      cases h : extension? level c.kind with
      | none => rfl
      | some extension =>
        dsimp only
        rw [run_bind, run]
        cases henter : enterNesting c with
        | error error c' => rw [bind_error henter, bind_error henter]
        | ok _ entered =>
          have hkind : entered.kind = c.kind := by rw [(enterNesting_ok henter).2]; rfl
          rw [bind_ok henter, bind_ok henter, run_bind, ← hdeeper]
          exact bind_congr_at (run_extend _ left (hkind ▸ h)) fun wrapped => ih.2 level wrapped

theorem run_exprAt (budget level : Nat) : (exprAt budget level).run = Parser.exprAt budget level :=
  (run_exprAt_extendAt budget).1 level

theorem run_expr (level : Nat) : (expr level).run = Parser.expr level := by
  funext c
  rw [expr, run_bind, look_bind, Cursor.budget_sight, run_exprAt]
  rfl

/-! ### Statements -/

/-- Only names and attributes are assigned to. -/
def checkTarget (target : Expr) : Plan raises Unit :=
  if target.isAssignable then pure ()
  else throw (.invalidTarget (targetName target) target.span)

/-- An expression, or an assignment to it, up to the end of the line. -/
def simpleStatement : Plan false Stmt := do
  let start := (← look).span
  let target ← expr Binding.lowest
  let kind := (← look).kind
  let build : Span → Stmt ←
    if kind = .symbol .assign then do
      checkTarget target
      take
      let value ← expr Binding.lowest
      pure (Stmt.assign target value)
    else match kind.augmentation? with
      | some op => do
        checkTarget target
        take
        let value ← expr Binding.lowest
        pure (Stmt.assign target (.binary op target value (target.span.through value.span)))
      | none => pure (Stmt.eval target)
  let span := start.through (← look).lastSpan
  expectLineEnd
  pure (build span)

/-- The value is left out where the line ends at once. -/
def returnStatement : Plan false Stmt := do
  let start := (← look).span
  take
  let c ← look
  let value ←
    if c.isAt (.layout .newline) || c.atEnd then pure none
    else do
      let value ← expr Binding.lowest
      pure (some value)
  let span := start.through (← look).lastSpan
  expectLineEnd
  pure (.leave value span)

def wordStatement (build : Span → Stmt) : Plan false Stmt := do
  let span := (← look).span
  take
  expectLineEnd
  pure (build span)

/-- What stands in front of the first statement of a block; an indented block is not empty. -/
def openBlock : Plan raises Unit := do
  let _ ← expect (.symbol .colon) "':'"
  let _ ← expect (.layout .newline) "end of line after ':'"
  let _ ← expect (.layout .indent) "an indented block"
  let c ← look
  if c.isAt (.layout .dedent) then throw (.emptyBlock c.span)

def closeBlock : Plan raises Unit := do
  let _ ← expect (.layout .dedent) "end of block"

/-- A block, with the statements in it one block deeper. -/
def blockOf (statement : Plan true Stmt) : Plan false (List Stmt) := do
  openBlock
  let body ← insideBlock (manyUntil atBlockEnd statement)
  closeBlock
  pure body

def param (before : List Param) : Plan raises Param := do
  let (name, span) ← expectIdentifier "parameter name"
  if before.any (·.name == name) then throw (.duplicateParameter name span)
  else pure ⟨name, span⟩

/-- A definition from its first word to the end of its body. -/
def functionDef (statement : Plan true Stmt) : Plan false (FunctionDef Stmt) := do
  let start := (← look).span
  let _ ← expect (.keyword .definition) "'def'"
  let (name, _) ← expectIdentifier "function name"
  let _ ← expect (.symbol .openParen) "'('"
  let params ← items param
  let body ← blockOf statement
  pure ⟨name, params, body, start.through (← look).lastSpan⟩

def method (statement : Plan true Stmt) : Plan false (FunctionDef Stmt) := do
  let c ← look
  if c.isAt (.keyword .definition) then functionDef statement
  else throw (c.expected "method definition")

/-- A class is declared before its body, where it may be constructed already. -/
def classStatement (statement : Plan true Stmt) : Plan false Stmt := do
  let start := (← look).span
  take
  let (name, _) ← expectIdentifier "class name"
  declare name
  openBlock
  let methods ← manyUntil atBlockEnd (method statement)
  closeBlock
  pure (.classDef name methods (start.through (← look).lastSpan))

/-- An `elif` is a branch of its own in place of an `else`, one level deeper. -/
def branchOf (statement alternative : Plan true Stmt) : Plan false Stmt := do
  let start := (← look).span
  take
  let test ← expr Binding.lowest
  let thenBody ← blockOf statement
  let elseBody ←
    if (← look).isAt (.keyword .elifTest) then do
      let branch ← inside alternative
      pure (some [branch])
    else if ← skip (.keyword .elseBranch) then do
      let body ← blockOf statement
      pure (some body)
    else pure none
  pure (.branch test thenBody elseBody (start.through (← look).lastSpan))

def loopOf (statement : Plan true Stmt) : Plan false Stmt := do
  let start := (← look).span
  take
  let test ← expr Binding.lowest
  let body ← blockOf statement
  pure (.loop test body (start.through (← look).lastSpan))

/-- A statement by its first token; definitions stand outside of blocks only. -/
def statementOf (statement alternative : Plan true Stmt) : Plan false Stmt := do
  let c ← look
  match c.kind with
  | .keyword .definition =>
    if c.inBlock then throw (.nestedDefinition "function" c.span)
    else do
      let definition ← functionDef statement
      pure (.function definition definition.span)
  | .keyword .classDefinition =>
    if c.inBlock then throw (.nestedDefinition "class" c.span)
    else classStatement statement
  | .keyword .ifTest => branchOf statement alternative
  | .keyword .whileLoop => loopOf statement
  | .keyword .returnValue => returnStatement
  | .keyword .passBy => wordStatement .pass
  | .keyword .breakLoop => wordStatement .breakLoop
  | .keyword .continueLoop => wordStatement .continueLoop
  | .reserved _ => throw c.unexpected
  | .layout .indent => throw c.unexpected
  | _ => simpleStatement

mutual

/-- A statement in as many levels of blocks as the budget. -/
def statementAt : Nat → Plan false Stmt
  | 0 => statementOf tooDeep tooDeep
  | budget + 1 => statementOf (steady (statementAt budget)) (steady (alternativeAt budget))

def alternativeAt : Nat → Plan false Stmt
  | 0 => branchOf tooDeep tooDeep
  | budget + 1 => branchOf (steady (statementAt budget)) (steady (alternativeAt budget))

end

def deeperStatement : Nat → Plan true Stmt
  | 0 => tooDeep
  | budget + 1 => steady (statementAt budget)

def statement : Plan false Stmt := do
  statementAt (← look).budget

def block : Plan false (List Stmt) := do
  blockOf (deeperStatement (← look).budget)

/-- Statements up to the end of the input; the program spans from the first to the last of them. -/
def program : Plan false Module := do
  let body ← manyUntil Cursor.atEnd statement
  let span := match body.head?, body.getLast? with
    | some first, some last => ⟨first.span.start, last.span.stop⟩
    | _, _ => Span.absent
  pure ⟨body, span⟩

def onlyExpr : Plan false Expr := do
  let found ← expr Binding.lowest
  expectLineEnd
  let c ← look
  if c.atEnd then pure found else throw (c.expected "end of input")

theorem run_checkTarget (target : Expr) :
    (checkTarget target : Plan raises Unit).run = Parser.checkTarget target := by
  rw [checkTarget, run_ite]
  rfl

/-- What is built of the part of the tokens up to the one read last. -/
theorem run_spanned (build : Span → α) (start : Span) :
    ((look : Plan raises Cursor).run >>= fun c =>
        (pure (build (start.through c.lastSpan)) : Plan raises α).run) = (do
      let c ← get
      pure (build (start.through c.lastSpan)) : Parser α) := by
  refine run_look fun c => ?_
  rw [Cursor.lastSpan_sight]
  rfl

/-- The end of a line, with the statement that is built of the part of the line before it. -/
theorem run_closeLine {γ : Type} (found : γ) (build : γ → Span → α) (start : Span) :
    (do
      let found ← pure found
      let c ← look
      expectLineEnd
      pure (build found (start.through c.lastSpan)) : Plan raises α).run = (do
        let found ← pure found
        let c ← get
        Parser.expectLineEnd
        pure (build found (start.through c.lastSpan)) : Parser α) := by
  refine bind_congr fun found => run_look fun c => ?_
  dsimp only
  rw [Cursor.lastSpan_sight, run_bind, run_expectLineEnd]
  rfl

/-- The value of an assignment, once it is known that one is assigned. -/
theorem run_assigned (target : Expr) (h : c.atEnd = false) {next : Expr → Plan false α}
    {f : Expr → Parser α} (hnext : ∀ value, (next value).run = f value) :
    (do
      checkTarget target
      take
      let value ← expr Binding.lowest
      next value : Plan false α).run c = (do
        Parser.checkTarget target
        let _ ← bump
        let value ← Parser.expr Binding.lowest
        f value : Parser α) c := by
  rw [run_bind, run_checkTarget, Parser.checkTarget]
  split
  case isTrue =>
    rw [pure_bind, pure_bind]
    refine take_bind_eq_bump_bind h _ ?_
    rw [run_bind, run_expr]
    exact bind_congr_at rfl hnext
  case isFalse => rfl

theorem run_simpleStatement : simpleStatement.run = Parser.simpleStatement := by
  rw [simpleStatement, run_bind]
  refine run_look fun c => ?_
  dsimp only
  rw [Cursor.span_sight, run_bind, run_expr]
  refine bind_congr_at rfl fun target => ?_
  rw [run_bind]
  refine run_look fun c => ?_
  rw [Cursor.kind_sight, run_ite]
  by_cases hassign : c.kind = .symbol .assign
  · rw [if_pos hassign, if_pos hassign]
    exact run_assigned target (atEnd_of_kind hassign rfl) fun value => run_closeLine _ id _
  · rw [if_neg hassign, if_neg hassign]
    cases haugmented : c.kind.augmentation? with
    | none => exact congrFun (run_closeLine _ id _) c
    | some op =>
      exact run_assigned target (atEnd_of_means rfl haugmented) fun value => run_closeLine _ id _

theorem run_wordStatement (build : Span → Stmt) (h : c.atEnd = false) :
    (wordStatement build).run c = Parser.wordStatement build c := by
  rw [wordStatement, run_bind, look_bind, Parser.wordStatement, get_bind, Cursor.span_sight]
  refine take_bind_eq_bump_bind h _ ?_
  rw [run_bind, run_expectLineEnd]
  rfl

theorem run_returnStatement (h : c.atEnd = false) :
    returnStatement.run c = Parser.returnStatement c := by
  rw [returnStatement, run_bind, look_bind, Parser.returnStatement, get_bind, Cursor.span_sight]
  refine take_bind_eq_bump_bind h _ (congrFun ?_ _)
  rw [run_bind]
  refine run_look fun c => ?_
  rw [run_ite, Cursor.isAt_sight, Cursor.atEnd_sight]
  split
  case isTrue => exact congrFun (run_closeLine _ Stmt.leave _) c
  case isFalse =>
    rw [run_bind, run_expr]
    exact bind_congr_at rfl fun value => run_closeLine (some value) Stmt.leave _

theorem run_openBlock : (openBlock : Plan raises Unit).run = Parser.openBlock := by
  simp (disch := decide) only [openBlock, Parser.openBlock, run_bind, run_expect]
  refine bind_congr fun _ => bind_congr fun _ => bind_congr fun _ => run_look fun c => ?_
  rw [Cursor.isAt_sight, Cursor.span_sight, run_ite]
  rfl

theorem run_closeBlock : (closeBlock : Plan raises Unit).run = Parser.closeBlock := by
  simp (disch := decide) only [closeBlock, Parser.closeBlock, run_bind, run_expect, run_pure]

theorem atBlockEnd_sight (c : Cursor) : atBlockEnd c.sight = atBlockEnd c := by
  rw [atBlockEnd, atBlockEnd, Cursor.isAt_sight, Cursor.atEnd_sight]

theorem run_param (before : List Param) :
    (param before : Plan raises Param).run = Parser.param before := by
  rw [param, Parser.param, run_bind, run_expectIdentifier]
  refine bind_congr fun named => ?_
  obtain ⟨name, span⟩ := named
  rw [run_ite]
  rfl

section

variable {statement alternative : Plan true Stmt} {branch : Parser Stmt}

/-- The statements of a block must each be progress, or its rounds would have no end. -/
theorem run_blockOf (hstatement : Progresses statement.run) :
    (blockOf statement).run = Parser.blockOf statement.run := by
  rw [blockOf, Parser.blockOf, run_bind, run_openBlock]
  refine bind_congr fun _ => ?_
  rw [run_bind, run, run_manyUntil atBlockEnd_sight hstatement]
  refine bind_congr fun body => ?_
  rw [run_bind, run_closeBlock]
  rfl

theorem run_functionDef (hstatement : Progresses statement.run) :
    (functionDef statement).run = Parser.functionDef statement.run := by
  rw [functionDef, Parser.functionDef, run_bind]
  refine run_look fun c => ?_
  rw [Cursor.span_sight]
  refine congrFun ?_ c
  simp (disch := decide) only [run_bind, run_expect, run_expectIdentifier]
  refine bind_congr fun _ => bind_congr fun named => ?_
  obtain ⟨name, span⟩ := named
  simp only [run_items, run_param, run_blockOf hstatement]
  exact bind_congr fun _ => bind_congr fun params => bind_congr fun body =>
    run_spanned (FunctionDef.mk name params body) _

theorem run_method (hstatement : Progresses statement.run) :
    (method statement).run = Parser.method statement.run := by
  rw [method, run_bind]
  refine run_look fun c => ?_
  rw [Cursor.isAt_sight, Cursor.expected_sight, run_ite, run_functionDef hstatement]
  rfl

theorem run_loopOf (hstatement : Progresses statement.run) (h : c.atEnd = false) :
    (loopOf statement).run c = Parser.loopOf statement.run c := by
  rw [loopOf, run_bind, look_bind, Parser.loopOf, get_bind, Cursor.span_sight]
  refine take_bind_eq_bump_bind h _ (congrFun ?_ _)
  simp only [run_bind, run_expr, run_blockOf hstatement]
  exact bind_congr fun test => bind_congr fun body => run_spanned (Stmt.loop test body) _

theorem run_classStatement (hstatement : Progresses statement.run)
    (hmethod : Progresses (Parser.method statement.run)) (h : c.atEnd = false) :
    (classStatement statement).run c = Parser.classStatement statement.run c := by
  rw [classStatement, run_bind, look_bind, Parser.classStatement, get_bind, Cursor.span_sight]
  refine take_bind_eq_bump_bind h _ (congrFun ?_ _)
  rw [run_bind, run_expectIdentifier]
  refine bind_congr fun named => ?_
  obtain ⟨name, span⟩ := named
  rw [← run_method hstatement] at hmethod
  simp only [run_bind, run_openBlock, run_manyUntil atBlockEnd_sight hmethod, run_closeBlock,
    run_method hstatement]
  exact bind_congr fun _ => bind_congr fun _ => bind_congr fun methods => bind_congr fun _ =>
    run_spanned (Stmt.classDef name methods) _

/-- Another branch begins with a word of its own, so that the two need to agree there only. -/
theorem run_branchOf (hstatement : Progresses statement.run)
    (halternative : ∀ c : Cursor, c.atEnd = false → alternative.run c = branch c)
    (h : c.atEnd = false) :
    (branchOf statement alternative).run c = Parser.branchOf statement.run branch c := by
  rw [branchOf, run_bind, look_bind, Parser.branchOf, get_bind, Cursor.span_sight]
  refine take_bind_eq_bump_bind h _ (congrFun ?_ _)
  simp (disch := decide) only [run_bind, run_expr, run_blockOf hstatement, run_skip, run_ite]
  refine bind_congr fun test => bind_congr fun thenBody => run_look fun tested => ?_
  have hclose (elseBody : Option (List Stmt)) :
      ((look : Plan false Cursor).run >>= fun after =>
        (pure (.branch test thenBody elseBody (c.span.through after.lastSpan)) :
          Plan false Stmt).run) = _ := run_spanned (Stmt.branch test thenBody elseBody) c.span
  rw [Cursor.isAt_sight]
  by_cases helif : tested.isAt (.keyword .elifTest) = true
  · have hkind := (TokenKind.isA_keyword _ _).mp helif
    have helse : tested.isAt (.keyword .elseBranch) = false := by
      rw [Cursor.isAt, hkind]
      rfl
    have hbranch : nested alternative.run tested = nested branch tested :=
      nested_congr_at (halternative _ (atEnd_of_kind hkind rfl))
    -- both look for the other branch first, and it is not there
    rw [bind_ok (skip_of_not_isAt helse), bind_ok (skip_of_not_isAt helse), if_pos helif,
      if_pos helif]
    exact bind_congr_at hbranch fun branch => bind_congr hclose
  · refine bind_congr_at rfl fun more => ?_
    rw [if_neg helif, if_neg helif]
    split
    case isTrue => exact bind_congr fun body => bind_congr hclose
    case isFalse => exact bind_congr hclose

theorem run_statementOf (hstatement : Progresses statement.run)
    (hmethod : Progresses (Parser.method statement.run))
    (halternative : ∀ c : Cursor, c.atEnd = false → alternative.run c = branch c) :
    (statementOf statement alternative).run = Parser.statementOf statement.run branch := by
  rw [statementOf, run_bind]
  refine run_look fun c => ?_
  rw [Cursor.kind_sight, Cursor.inBlock_sight, Cursor.span_sight, Cursor.unexpected_sight]
  cases hkind : c.kind with
  | keyword word =>
    have hend : c.atEnd = false := atEnd_of_kind hkind rfl
    cases word with
    | definition =>
      dsimp only
      rw [run_ite, run_bind, run_functionDef hstatement]
      rfl
    | classDefinition =>
      dsimp only
      rw [run_ite]
      split
      case isTrue => rfl
      case isFalse => exact run_classStatement hstatement hmethod hend
    | ifTest => exact run_branchOf hstatement halternative hend
    | whileLoop => exact run_loopOf hstatement hend
    | returnValue => exact run_returnStatement hend
    | passBy | breakLoop | continueLoop => exact run_wordStatement _ hend
    | _ => exact congrFun run_simpleStatement c
  | layout layout =>
    cases layout with
    | indent => rfl
    | _ => exact congrFun run_simpleStatement c
  | reserved word => rfl
  | _ => exact congrFun run_simpleStatement c

end

/-- By induction on the budget, for statements and for other branches at once. -/
theorem run_statementAt_alternativeAt (budget : Nat) :
    (statementAt budget).run = Parser.statementAt budget ∧
      ∀ c : Cursor, c.atEnd = false →
        (alternativeAt budget).run c = Parser.alternativeAt budget c := by
  induction budget with
  | zero =>
    rw [statementAt, alternativeAt, Parser.statementAt, Parser.alternativeAt]
    exact ⟨run_statementOf progresses_tooDeep (progresses_method 0) fun _ _ => rfl,
      fun c => run_branchOf progresses_tooDeep fun _ _ => rfl⟩
  | succ budget ih =>
    obtain ⟨hstatement, halternative⟩ := ih
    have hrun : (steady (statementAt budget)).run = Parser.deeperStatement (budget + 1) :=
      hstatement
    have hprogresses := progresses_deeperStatement (budget + 1)
    have hmethod := progresses_method (budget + 1)
    rw [← hrun] at hprogresses hmethod
    rw [statementAt, alternativeAt, Parser.statementAt, Parser.alternativeAt, ← hstatement]
    exact ⟨run_statementOf hprogresses hmethod halternative,
      fun c => run_branchOf hprogresses halternative⟩

theorem run_statementAt (budget : Nat) : (statementAt budget).run = Parser.statementAt budget :=
  (run_statementAt_alternativeAt budget).1

theorem run_deeperStatement (budget : Nat) :
    (deeperStatement budget).run = Parser.deeperStatement budget := by
  cases budget with
  | zero => rfl
  | succ budget => exact run_statementAt budget

theorem run_statement : statement.run = Parser.statement := by
  funext c
  rw [statement, run_bind, look_bind, Cursor.budget_sight, run_statementAt]
  rfl

theorem run_block : block.run = Parser.block := by
  funext c
  have hprogresses := progresses_deeperStatement c.budget
  rw [← run_deeperStatement] at hprogresses
  rw [block, run_bind, look_bind, Cursor.budget_sight, run_blockOf hprogresses, run_deeperStatement]
  rfl

theorem run_program : program.run = Parser.program := by
  have hprogresses : Progresses statement.run := run_statement ▸ progresses_statement
  rw [program, run_bind, run_manyUntil Cursor.atEnd_sight hprogresses, run_statement]
  rfl

theorem run_onlyExpr : onlyExpr.run = Parser.onlyExpr := by
  rw [onlyExpr, Parser.onlyExpr, run_bind, run_expr]
  refine bind_congr fun found => ?_
  rw [run_bind, run_expectLineEnd]
  refine bind_congr fun _ => run_look fun c => ?_
  dsimp only
  rw [Cursor.atEnd_sight, Cursor.expected_sight, run_ite]
  rfl

end Plan

end Offside
