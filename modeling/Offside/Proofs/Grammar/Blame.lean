/-
Why parsers fail.  Whatever a parser reads, it stays on the tokens that it was given, and every
error that it answers with has its reason among them: an error that the tokens give no reason for
never comes up.
-/
import Offside.Grammar.Statement
import Offside.Proofs.Grammar.Recognition

namespace Offside

/-- A cursor somewhere on these tokens. -/
def Cursor.On (c : Cursor) (tokens : List Token) : Prop :=
  c.past.reverse ++ c.rest = tokens

/-- The errors that these tokens give a reason for. -/
inductive GrammarError.Due (tokens : List Token) : GrammarError → Prop
  | expected {c : Cursor} (h : c.On tokens) (what : String) : Due tokens (c.expected what)
  | unexpected {c : Cursor} (h : c.On tokens) : Due tokens c.unexpected
  | emptyBlock {before after : List Token} {opening closing : Token}
    (h : tokens = before ++ opening :: closing :: after)
    (hopening : opening.kind = .layout .indent) (hclosing : closing.kind = .layout .dedent) :
    Due tokens (.emptyBlock closing.span)
  | invalidTarget {classes : List String} {target : Expr} {piece : List Token}
    (hpiece : piece <:+: tokens) (htarget : Derives classes (.expr .or target) piece)
    (h : target.isAssignable = false) :
    Due tokens (.invalidTarget (Parser.targetName target) target.span)
  | duplicateParameter {c : Cursor} {name : String} (h : c.On tokens)
    (hname : c.kind = .identifier name) : Due tokens (.duplicateParameter name c.span)
  | nestedDefinition {c : Cursor} (h : c.On tokens) (construct : String) :
    Due tokens (.nestedDefinition construct c.span)
  | nestingTooDeep {c : Cursor} (h : c.On tokens) : Due tokens (.nestingTooDeep c.maxDepth c.span)

namespace Cursor

variable {c : Cursor} {tokens : List Token}

theorem On.next (h : c.On tokens) : c.next.On tokens := by
  unfold Cursor.next
  split
  · next token rest hrest =>
    rw [On, hrest] at h
    simpa [On] using h
  · exact h

theorem On.declare (h : c.On tokens) (name : String) : (c.declare name).On tokens := by
  unfold Cursor.declare
  split
  · exact h
  · exact h

theorem On.predeclare (h : c.On tokens) : c.predeclare.On tokens := by
  have hall (names : List String) : ∀ c : Cursor, c.On tokens →
      (names.foldl Cursor.declare c).On tokens := by
    induction names with
    | nil => exact fun _ h => h
    | cons name names ih => exact fun c h => ih _ (h.declare name)
  exact hall _ c h

end Cursor

namespace GrammarError

variable {tokens : List Token} {span : Span}

/-- A block counts as empty only where it is closed as soon as it is opened. -/
theorem Due.exists_of_emptyBlock (h : (GrammarError.emptyBlock span).Due tokens) :
    ∃ before opening closing after, tokens = before ++ opening :: closing :: after ∧
      opening.kind = .layout .indent ∧ closing.kind = .layout .dedent := by
  generalize herror : GrammarError.emptyBlock span = error at h
  cases h with
  | emptyBlock htokens hopening hclosing => exact ⟨_, _, _, _, htokens, hopening, hclosing⟩
  | unexpected =>
    rw [Cursor.unexpected] at herror
    split at herror
    · cases herror
    · cases herror
  | expected | invalidTarget | duplicateParameter | nestedDefinition | nestingTooDeep =>
    cases herror

end GrammarError

namespace Parser

variable {α β : Type} {tokens : List Token} {p : Parser α} {post : α → Prop}

/-- On these tokens the parser stays on them and answers with a value that has the property, or
with an error that is due. -/
def Blames (tokens : List Token) (p : Parser α) (post : α → Prop) : Prop :=
  ∀ ⦃c : Cursor⦄, c.On tokens →
    match p c with
    | .ok a c' => post a ∧ c'.On tokens
    | .error error _ => error.Due tokens

namespace Blames

theorem pure {a : α} (h : post a) : Blames tokens (pure a) post :=
  fun _ hc => ⟨h, hc⟩

theorem throw {error : GrammarError} (h : error.Due tokens) :
    Blames tokens (throw error : Parser α) post :=
  fun _ _ => h

theorem tooDeep : Blames tokens (tooDeep : Parser α) post :=
  fun _ hc => .nestingTooDeep hc

theorem bind {f : α → Parser β} {result : β → Prop} (hp : Blames tokens p post)
    (hf : ∀ a, post a → Blames tokens (f a) result) : Blames tokens (p >>= f) result := by
  intro c hc
  have hfirst := hp hc
  cases h : p c with
  | ok a mid =>
    rw [h] at hfirst
    rw [bind_ok h]
    exact hf a hfirst.1 hfirst.2
  | error error mid =>
    rw [h] at hfirst
    rw [bind_error h]
    exact hfirst

/-- A first step of which nothing needs to be known. -/
theorem seq {f : α → Parser β} {result : β → Prop} (hp : Blames tokens p fun _ => True)
    (hf : ∀ a, Blames tokens (f a) result) : Blames tokens (p >>= f) result :=
  hp.bind fun a _ => hf a

theorem ite {condition : Prop} [Decidable condition] {q : Parser α}
    (hp : Blames tokens p post) (hq : Blames tokens q post) :
    Blames tokens (if condition then p else q) post := by
  split
  · exact hp
  · exact hq

theorem get : Blames tokens (get : Parser Cursor) fun c => c.On tokens :=
  fun _ hc => ⟨hc, hc⟩

theorem bump : Blames tokens bump fun _ => True :=
  fun _ hc => ⟨trivial, hc.next⟩

theorem skip (wanted : TokenKind) : Blames tokens (skip wanted) fun _ => True := by
  intro c hc
  rw [Parser.skip]
  by_cases h : c.isAt wanted = true
  · rw [if_pos h]
    exact ⟨trivial, hc.next⟩
  · rw [if_neg h]
    exact ⟨trivial, hc⟩

theorem expect (wanted : TokenKind) (what : String) :
    Blames tokens (expect wanted what) fun _ => True := by
  intro c hc
  cases h : Parser.expect wanted what c with
  | ok token c' =>
    obtain ⟨rest, -, -, rfl⟩ := expect_ok h
    exact ⟨trivial, hc.next⟩
  | error error c' =>
    rw [Parser.expect] at h
    split at h
    · split at h
      · cases h
      · cases h
        exact .expected hc what
    · cases h
      exact .expected hc what

/-- The name comes with a token that has it. -/
theorem expectIdentifier (what : String) :
    Blames tokens (expectIdentifier what) fun found =>
      ∃ c : Cursor, c.On tokens ∧ c.kind = .identifier found.1 ∧ c.span = found.2 := by
  intro c hc
  unfold Parser.expectIdentifier
  cases h : c.kind with
  | identifier name => exact ⟨⟨c, hc, h, rfl⟩, hc.next⟩
  | literal | keyword | reserved | symbol | layout => exact .expected hc what

theorem expectLineEnd : Blames tokens expectLineEnd fun _ => True := by
  intro c hc
  rw [Parser.expectLineEnd]
  by_cases hline : c.isAt (.layout .newline) = true
  · rw [if_pos hline]
    exact ⟨trivial, hc.next⟩
  · rw [if_neg hline]
    by_cases hend : c.atEnd = true
    · rw [if_pos hend]
      exact ⟨trivial, hc⟩
    · rw [if_neg hend]
      exact .expected hc _

theorem declare (name : String) :
    Blames tokens (modify (·.declare name) : Parser Unit) fun _ => True :=
  fun _ hc => ⟨trivial, hc.declare name⟩

theorem enterNesting : Blames tokens enterNesting fun _ => True := by
  intro c hc
  rw [Parser.enterNesting]
  by_cases h : c.depth < c.maxDepth
  · rw [if_pos h]
    exact ⟨trivial, hc⟩
  · rw [if_neg h]
    exact .nestingTooDeep hc

theorem nested (h : Blames tokens p post) : Blames tokens (nested p) post := by
  intro c hc
  have hinner : Blames tokens (do Parser.enterNesting; p) post := .seq .enterNesting fun _ => h
  have hresult := hinner hc
  rw [Parser.nested]
  cases hrun : (do Parser.enterNesting; p : Parser α) c with
  | ok a c' =>
    rw [hrun] at hresult
    exact ⟨hresult.1, hresult.2⟩
  | error error c' =>
    rw [hrun] at hresult
    exact hresult

theorem inBlockBody (h : Blames tokens p post) : Blames tokens (inBlockBody p) post := by
  intro c hc
  have hresult := h.nested (c := { c with blockDepth := c.blockDepth + 1 }) hc
  rw [Parser.inBlockBody]
  cases hrun : Parser.nested p { c with blockDepth := c.blockDepth + 1 } with
  | ok a c' =>
    rw [hrun] at hresult
    exact ⟨hresult.1, hresult.2⟩
  | error error c' =>
    rw [hrun] at hresult
    exact hresult

theorem itemsAfter {item : List α → Parser α}
    (h : ∀ before, Blames tokens (item before) fun _ => True) (count : Nat) (before : List α) :
    Blames tokens (itemsAfter item count before) fun _ => True := by
  induction count generalizing before with
  | zero => exact .pure trivial
  | succ count ih =>
    exact get.bind fun c _ => .ite (.pure trivial) <| .seq (h before) fun first =>
      .seq (.skip _) fun comma => .ite (ih _) (.pure trivial)

theorem items {item : List α → Parser α}
    (h : ∀ before, Blames tokens (item before) fun _ => True) :
    Blames tokens (items item) fun _ => True :=
  get.bind fun _ _ => .seq (.itemsAfter h _ _) fun _ => .seq (.expect _ _) fun _ => .pure trivial

theorem repeatUntil (stop : Cursor → Bool) (h : Blames tokens p fun _ => True) (count : Nat) :
    Blames tokens (repeatUntil stop p count) fun _ => True := by
  induction count with
  | zero => exact .pure trivial
  | succ count ih =>
    exact get.bind fun _ _ => .ite (.pure trivial) <| .seq h fun _ => .seq ih fun _ =>
      .pure trivial

theorem manyUntil (stop : Cursor → Bool) (h : Blames tokens p fun _ => True) :
    Blames tokens (manyUntil stop p) fun _ => True :=
  get.bind fun _ _ => .repeatUntil stop h _

end Blames

/-! ### Expressions -/

variable {deeper : Nat → Parser Expr}

theorem blames_operand (h : ∀ level, Blames tokens (deeper level) fun _ => True) (level : Nat) :
    Blames tokens (operand deeper level) fun _ => True := by
  refine Blames.get.bind fun c hc => ?_
  split
  case h_1 => exact .seq .bump fun _ => .pure trivial
  case h_2 => exact .seq .bump fun _ => .pure trivial
  case h_3 =>
    exact .seq .bump fun _ => .seq (h _) fun _ => .seq (.expect _ _) fun _ => .pure trivial
  case h_4 => exact .seq .bump fun _ => .seq (h _) fun _ => .pure trivial
  case h_5 => exact .seq .bump fun _ => h _
  case h_6 =>
    exact .ite (.seq .bump fun _ => .seq (h _) fun _ => .pure trivial) (.throw (.unexpected hc))
  case h_7 => exact .throw (.unexpected hc)
  case h_8 => exact .throw (.expected hc _)

theorem blames_arguments (h : ∀ level, Blames tokens (deeper level) fun _ => True) :
    Blames tokens (arguments deeper) fun _ => True :=
  .items fun _ => h _

theorem blames_extend (h : ∀ level, Blames tokens (deeper level) fun _ => True) (left : Expr)
    (extension : Extension) : Blames tokens (extend deeper left extension) fun _ => True := by
  cases extension with
  | call =>
    refine .seq .bump fun _ => .seq (blames_arguments h) fun args => Blames.get.bind fun c _ => ?_
    split
    · exact .ite (.pure trivial) (.pure trivial)
    · exact .pure trivial
  | member =>
    refine .seq .bump fun _ => (Blames.expectIdentifier _).bind fun _ _ => .seq (.skip _) fun _ =>
      .ite ?_ (.pure trivial)
    exact .seq (blames_arguments h) fun args => Blames.get.bind fun c _ => .pure trivial
  | join joining => exact .seq .bump fun _ => .seq (h _) fun _ => .pure trivial

theorem blames_exprAt (budget : Nat) :
    (∀ level, Blames tokens (exprAt budget level) fun _ => True) ∧
      ∀ level left, Blames tokens (extendAt budget level left) fun _ => True := by
  induction budget with
  | zero =>
    refine ⟨fun level => .nested .tooDeep, fun level left => Blames.get.bind fun c hc => ?_⟩
    split
    · exact .pure trivial
    · exact .tooDeep
  | succ budget ih =>
    refine ⟨fun level => ?_, fun level left c hc => ?_⟩
    · exact .nested (.seq (blames_operand ih.1 level) fun left => ih.2 level left)
    · have hmore (extension : Extension) := Blames.enterNesting.seq fun _ =>
        (blames_extend ih.1 left extension).seq fun wrapped => ih.2 level wrapped
      simp only [extendAt]
      cases extension? level c.kind with
      | none => exact ⟨trivial, hc⟩
      | some extension => exact hmore extension hc

theorem blames_expr (level : Nat) : Blames tokens (expr level) fun _ => True :=
  fun c hc => (blames_exprAt c.budget).1 level hc

/-! ### Statements -/

variable {statement alternative : Parser Stmt}

/-- What is read as a whole expression is spelled by some of the tokens in one piece. -/
theorem blames_wholeExpr : Blames tokens (expr Binding.lowest) fun e =>
    ∃ classes piece, piece <:+: tokens ∧ Derives classes (.expr .or e) piece := by
  intro c hc
  have hresult := blames_expr Binding.lowest hc
  cases hrun : expr Binding.lowest c with
  | error error c' =>
    rw [hrun] at hresult
    exact hresult
  | ok e c' =>
    rw [hrun] at hresult
    obtain ⟨piece, hreads, -, hderives, -⟩ := expr_derives hrun
    refine ⟨⟨c.classes, piece, ⟨c.past.reverse, c'.rest, ?_⟩, hderives⟩, hresult.2⟩
    rw [List.append_assoc, ← hreads.rest]
    exact hc

theorem blames_checkTarget {target : Expr}
    (h : ∃ classes piece, piece <:+: tokens ∧ Derives classes (.expr .or target) piece) :
    Blames tokens (checkTarget target) fun _ => True := by
  obtain ⟨classes, piece, hpiece, htarget⟩ := h
  rw [checkTarget]
  cases hplace : target.isAssignable with
  | true => exact .pure trivial
  | false => exact .throw (.invalidTarget hpiece htarget hplace)

theorem blames_simpleStatement : Blames tokens simpleStatement fun _ => True := by
  have hlineEnd (build : Span → Stmt) (start : Span) : Blames tokens (do
      let built ← pure build
      let c ← get
      expectLineEnd
      pure (built (start.through c.lastSpan)) : Parser Stmt) fun _ => True :=
    Blames.seq (.pure trivial) fun _ => Blames.get.bind fun _ _ => .seq .expectLineEnd fun _ =>
      .pure trivial
  refine Blames.get.bind fun start _ => blames_wholeExpr.bind fun target htarget =>
    Blames.get.bind fun c _ => .ite ?_ ?_
  · exact .seq (blames_checkTarget htarget) fun _ => .seq .bump fun _ =>
      .seq (blames_expr _) fun value => hlineEnd _ _
  · split
    · exact .seq (blames_checkTarget htarget) fun _ => .seq .bump fun _ =>
        .seq (blames_expr _) fun value => hlineEnd _ _
    · exact hlineEnd _ _

theorem blames_returnStatement : Blames tokens returnStatement fun _ => True := by
  have hend (value : Option Expr) (start : Span) : Blames tokens (do
      let read ← pure value
      let c ← get
      expectLineEnd
      pure (.leave read (start.through c.lastSpan)) : Parser Stmt) fun _ => True :=
    Blames.seq (.pure trivial) fun _ => Blames.get.bind fun _ _ => .seq .expectLineEnd fun _ =>
      .pure trivial
  exact Blames.get.bind fun start _ => .seq .bump fun _ => Blames.get.bind fun c _ =>
    .ite (hend _ _) (.seq (blames_expr _) fun value => hend _ _)

theorem blames_wordStatement (build : Span → Stmt) :
    Blames tokens (wordStatement build) fun _ => True :=
  Blames.get.bind fun _ _ => .seq .bump fun _ => .seq .expectLineEnd fun _ => .pure trivial

/-- Where a block is empty, it is closed by the token behind the one that opens it. -/
theorem blames_opened : Blames tokens (do
    let _ ← expect (.layout .indent) "an indented block"
    let c ← get
    if c.isAt (.layout .dedent) then throw (.emptyBlock c.span) : Parser Unit) fun _ => True := by
  intro c hc
  cases hopen : expect (.layout .indent) "an indented block" c with
  | error error c' =>
    rw [bind_error hopen]
    have hblames : Blames tokens (expect (.layout .indent) "an indented block") _ :=
      .expect _ _
    have hexpect := hblames hc
    rw [hopen] at hexpect
    exact hexpect
  | ok opening c' =>
    rw [bind_ok hopen]
    obtain ⟨rest, hrest, hopening, rfl⟩ := expect_ok hopen
    rw [get_bind]
    by_cases hclosed : c.next.isAt (.layout .dedent) = true
    · rw [if_pos hclosed]
      have hkind : c.next.kind = .layout .dedent := by
        simpa [Cursor.isAt, TokenKind.isA_layout] using hclosed
      obtain ⟨closing, after, hafter, hclosing⟩ := Cursor.exists_token hkind (by decide)
      rw [Cursor.span_of_rest hafter]
      rw [Cursor.rest_next hrest] at hafter
      have htokens : tokens = c.past.reverse ++ opening :: closing :: after := by
        rw [← hc, hrest, hafter]
      exact .emptyBlock htokens (by simpa using hopening) hclosing
    · rw [if_neg hclosed]
      exact ⟨trivial, hc.next⟩

theorem blames_openBlock : Blames tokens openBlock fun _ => True :=
  .seq (.expect _ _) fun _ => .seq (.expect _ _) fun _ => blames_opened

theorem blames_closeBlock : Blames tokens closeBlock fun _ => True :=
  .seq (.expect _ _) fun _ => .pure trivial

theorem blames_blockOf (h : Blames tokens statement fun _ => True) :
    Blames tokens (blockOf statement) fun _ => True :=
  .seq blames_openBlock fun _ => .seq (.inBlockBody (.manyUntil _ h)) fun _ =>
    .seq blames_closeBlock fun _ => .pure trivial

theorem blames_param (before : List Param) : Blames tokens (param before) fun _ => True := by
  refine (Blames.expectIdentifier _).bind fun found hfound => .ite ?_ (.pure trivial)
  obtain ⟨c, hc, hname, hspan⟩ := hfound
  rw [← hspan]
  exact .throw (.duplicateParameter hc hname)

theorem blames_functionDef (h : Blames tokens statement fun _ => True) :
    Blames tokens (functionDef statement) fun _ => True :=
  Blames.get.bind fun _ _ => .seq (.expect _ _) fun _ => (Blames.expectIdentifier _).bind fun _ _ =>
    .seq (.expect _ _) fun _ => .seq (.items blames_param) fun _ => .seq (blames_blockOf h) fun _ =>
      Blames.get.bind fun _ _ => .pure trivial

theorem blames_method (h : Blames tokens statement fun _ => True) :
    Blames tokens (method statement) fun _ => True :=
  Blames.get.bind fun _ hc => .ite (blames_functionDef h) (.throw (.expected hc _))

theorem blames_classStatement (h : Blames tokens statement fun _ => True) :
    Blames tokens (classStatement statement) fun _ => True :=
  Blames.get.bind fun _ _ => .seq .bump fun _ => (Blames.expectIdentifier _).bind fun _ _ =>
    .seq (.declare _) fun _ => .seq blames_openBlock fun _ =>
      .seq (.manyUntil _ (blames_method h)) fun _ => .seq blames_closeBlock fun _ =>
        Blames.get.bind fun _ _ => .pure trivial

theorem blames_branchOf (h : Blames tokens statement fun _ => True)
    (halternative : Blames tokens alternative fun _ => True) :
    Blames tokens (branchOf statement alternative) fun _ => True := by
  have hend (test : Expr) (thenBody : List Stmt) (elseBody : Option (List Stmt)) (start : Span) :
      Blames tokens (do
        let read ← pure elseBody
        let c ← get
        pure (.branch test thenBody read (start.through c.lastSpan)) : Parser Stmt) fun _ => True :=
    Blames.seq (.pure trivial) fun _ => Blames.get.bind fun _ _ => .pure trivial
  exact Blames.get.bind fun start _ => .seq .bump fun _ => .seq (blames_expr _) fun test =>
    .seq (blames_blockOf h) fun thenBody => Blames.get.bind fun c _ => .seq (.skip _) fun _ =>
      .ite (.seq (.nested halternative) fun branch => hend _ _ _ _) <|
        .ite (.seq (blames_blockOf h) fun body => hend _ _ _ _) (hend _ _ _ _)

theorem blames_loopOf (h : Blames tokens statement fun _ => True) :
    Blames tokens (loopOf statement) fun _ => True :=
  Blames.get.bind fun _ _ => .seq .bump fun _ => .seq (blames_expr _) fun _ =>
    .seq (blames_blockOf h) fun _ => Blames.get.bind fun _ _ => .pure trivial

theorem blames_statementOf (h : Blames tokens statement fun _ => True)
    (halternative : Blames tokens alternative fun _ => True) :
    Blames tokens (statementOf statement alternative) fun _ => True := by
  refine Blames.get.bind fun c hc => ?_
  split
  case h_1 =>
    exact .ite (.throw (.nestedDefinition hc _))
      (.seq (blames_functionDef h) fun _ => .pure trivial)
  case h_2 => exact .ite (.throw (.nestedDefinition hc _)) (blames_classStatement h)
  case h_3 => exact blames_branchOf h halternative
  case h_4 => exact blames_loopOf h
  case h_5 => exact blames_returnStatement
  case h_6 => exact blames_wordStatement _
  case h_7 => exact blames_wordStatement _
  case h_8 => exact blames_wordStatement _
  case h_9 => exact .throw (.unexpected hc)
  case h_10 => exact .throw (.unexpected hc)
  case h_11 => exact blames_simpleStatement

theorem blames_statementAt (budget : Nat) :
    Blames tokens (statementAt budget) (fun _ => True) ∧
      Blames tokens (alternativeAt budget) fun _ => True := by
  induction budget with
  | zero => exact ⟨blames_statementOf .tooDeep .tooDeep, blames_branchOf .tooDeep .tooDeep⟩
  | succ budget ih => exact ⟨blames_statementOf ih.1 ih.2, blames_branchOf ih.1 ih.2⟩

theorem blames_program : Blames tokens program fun _ => True :=
  .seq (.manyUntil _ fun c hc => (blames_statementAt c.budget).1 hc) fun _ => .pure trivial

end Parser

/-- Every error of reading a program is due to its tokens. -/
theorem Module.due_of_ofTokens {tokens : List Token} {predeclare : Bool} {error : GrammarError}
    (h : Module.ofTokens tokens predeclare = .error error) : error.Due tokens := by
  have hstart : (startCursor tokens predeclare).On tokens := by
    have hfirst : (Cursor.ofTokens tokens Cursor.defaultMaxDepth).On tokens := rfl
    cases predeclare with
    | true => exact hfirst.predeclare
    | false => exact hfirst
  have hprogram := Parser.blames_program hstart
  rw [ofTokens, Parser.answer] at h
  split at h
  · cases h
  · next hrun =>
    cases h
    rw [hrun] at hprogram
    exact hprogram

end Offside
