/-
The limit of nesting in two runs.  A parser that runs under a lower limit goes the same way as under
a higher one, step by step, until it finds the nesting too deep; nothing else depends on the limit.
-/
import Offside.Grammar.Statement
import Offside.Proofs.Grammar.Completeness

namespace Offside

/-- The cursor under another limit of nesting. -/
def Cursor.withLimit (c : Cursor) (limit : Nat) : Cursor := { c with maxDepth := limit }

namespace Cursor

variable (c : Cursor) (limit : Nat)

theorem kind_withLimit : (c.withLimit limit).kind = c.kind := rfl

theorem span_withLimit : (c.withLimit limit).span = c.span := rfl

theorem isAt_withLimit (wanted : TokenKind) :
    (c.withLimit limit).isAt wanted = c.isAt wanted := rfl

theorem atEnd_withLimit : (c.withLimit limit).atEnd = c.atEnd := rfl

theorem inBlock_withLimit : (c.withLimit limit).inBlock = c.inBlock := rfl

theorem isClass_withLimit (name : String) :
    (c.withLimit limit).isClass name = c.isClass name := rfl

theorem expected_withLimit (what : String) :
    (c.withLimit limit).expected what = c.expected what := rfl

theorem unexpected_withLimit : (c.withLimit limit).unexpected = c.unexpected := rfl

theorem next_withLimit : (c.withLimit limit).next = c.next.withLimit limit := by
  unfold next withLimit
  dsimp only
  split <;> rfl

theorem declare_withLimit (name : String) :
    (c.withLimit limit).declare name = (c.declare name).withLimit limit := by
  unfold declare
  rw [isClass_withLimit]
  split <;> rfl

end Cursor

namespace Parser

variable {α β : Type}

/-- An answer with the cursor it leaves under another limit of nesting. -/
def underLimit (limit : Nat) :
    EStateM.Result GrammarError Cursor α → EStateM.Result GrammarError Cursor α
  | .ok value c => .ok value (c.withLimit limit)
  | .error error c => .error error (c.withLimit limit)

/-- Under the lower limit the first parser answers as the second one does under the higher limit,
or it finds the nesting too deep. -/
def Relaxes (low high : Nat) (p q : Parser α) : Prop :=
  ∀ ⦃c : Cursor⦄, c.maxDepth = low →
    match p c with
    | .ok a c' => q (c.withLimit high) = .ok a (c'.withLimit high) ∧ c'.maxDepth = low
    | .error error c' => q (c.withLimit high) = .error error (c'.withLimit high) ∨
        ∃ span, error = .nestingTooDeep low span

namespace Relaxes

variable {low high : Nat} {p q : Parser α}

theorem of_refused (h : ∀ c : Cursor, c.maxDepth = low → Refused low (p c)) :
    Relaxes low high p q := by
  intro c hc
  obtain ⟨span, last, herror⟩ := h c hc
  rw [herror]
  exact .inr ⟨span, rfl⟩

theorem tooDeep : Relaxes low high tooDeep q :=
  .of_refused fun c hc => hc ▸ refused_tooDeep c

theorem pure (a : α) : Relaxes low high (pure a) (pure a) :=
  fun _ hc => ⟨rfl, hc⟩

theorem throw (error : GrammarError) :
    Relaxes low high (throw error : Parser α) (throw error) :=
  fun _ _ => .inl rfl

theorem bind {f g : α → Parser β} (hp : Relaxes low high p q)
    (hf : ∀ a, Relaxes low high (f a) (g a)) : Relaxes low high (p >>= f) (q >>= g) := by
  intro c hc
  have hfirst := hp hc
  cases h : p c with
  | ok a c' =>
    rw [h] at hfirst
    obtain ⟨hq, hc'⟩ := hfirst
    rw [bind_ok h, bind_ok hq]
    exact hf a hc'
  | error error c' =>
    rw [h] at hfirst
    rw [bind_error h]
    exact hfirst.imp_left bind_error

/-- What is seen of a cursor does not depend on the limit, only what is done with its budget. -/
theorem get_bind {f g : Cursor → Parser β}
    (hf : ∀ c : Cursor, c.maxDepth = low → Relaxes low high (f c) (g (c.withLimit high))) :
    Relaxes low high (get >>= f) (get >>= g) :=
  fun c hc => hf c hc hc

theorem ite {condition : Prop} [Decidable condition] {p' q' : Parser α}
    (hp : Relaxes low high p q) (hp' : Relaxes low high p' q') :
    Relaxes low high (if condition then p else p') (if condition then q else q') := by
  split
  · exact hp
  · exact hp'

theorem bump : Relaxes low high bump bump := by
  intro c hc
  refine ⟨?_, by rw [Cursor.maxDepth_next, hc]⟩
  rw [← Cursor.next_withLimit]
  rfl

theorem skip (wanted : TokenKind) : Relaxes low high (skip wanted) (skip wanted) := by
  intro c hc
  rw [Parser.skip, Parser.skip, Cursor.isAt_withLimit, Cursor.next_withLimit]
  by_cases h : c.isAt wanted = true
  · rw [if_pos h, if_pos h]
    exact ⟨rfl, by rw [Cursor.maxDepth_next, hc]⟩
  · rw [if_neg h, if_neg h]
    exact ⟨rfl, hc⟩

theorem expect (wanted : TokenKind) (what : String) :
    Relaxes low high (expect wanted what) (expect wanted what) := by
  intro c hc
  have hnext := c.next_withLimit high
  unfold Parser.expect
  cases hrest : c.rest with
  | nil =>
    have hrest' : (c.withLimit high).rest = [] := hrest
    rw [hrest']
    exact .inl rfl
  | cons token rest =>
    have hrest' : (c.withLimit high).rest = token :: rest := hrest
    rw [hrest']
    dsimp only
    by_cases h : token.kind.isA wanted = true
    · rw [if_pos h, if_pos h, hnext]
      exact ⟨rfl, by rw [Cursor.maxDepth_next, hc]⟩
    · rw [if_neg h, if_neg h]
      exact .inl rfl

theorem expectIdentifier (what : String) :
    Relaxes low high (expectIdentifier what) (expectIdentifier what) := by
  intro c hc
  have hnext := c.next_withLimit high
  unfold Parser.expectIdentifier
  rw [Cursor.kind_withLimit, hnext]
  cases c.kind with
  | identifier name => exact ⟨rfl, by rw [Cursor.maxDepth_next, hc]⟩
  | literal | keyword | reserved | symbol | layout => exact .inl rfl

theorem expectLineEnd : Relaxes low high expectLineEnd expectLineEnd := by
  intro c hc
  rw [Parser.expectLineEnd, Parser.expectLineEnd, Cursor.isAt_withLimit, Cursor.atEnd_withLimit,
    Cursor.next_withLimit]
  by_cases hline : c.isAt (.layout .newline) = true
  · rw [if_pos hline, if_pos hline]
    exact ⟨rfl, by rw [Cursor.maxDepth_next, hc]⟩
  · rw [if_neg hline, if_neg hline]
    by_cases hend : c.atEnd = true
    · rw [if_pos hend, if_pos hend]
      exact ⟨rfl, hc⟩
    · rw [if_neg hend, if_neg hend]
      exact .inl rfl

theorem declare (name : String) : Relaxes low high
    (modify (·.declare name) : Parser Unit) (modify (·.declare name)) := by
  intro c hc
  refine ⟨?_, by rw [Cursor.maxDepth_declare, hc]⟩
  rw [← Cursor.declare_withLimit]
  rfl

/-- A level that the lower limit allows is allowed by the higher one. -/
theorem enterNesting (hle : low ≤ high) : Relaxes low high enterNesting enterNesting := by
  intro c hc
  rw [Parser.enterNesting, Parser.enterNesting]
  by_cases h : c.depth < c.maxDepth
  · have hhigh : (c.withLimit high).depth < (c.withLimit high).maxDepth :=
      Nat.lt_of_lt_of_le h (hc ▸ hle)
    rw [if_pos h, if_pos hhigh]
    exact ⟨rfl, hc⟩
  · rw [if_neg h]
    exact .inr ⟨_, by rw [hc]⟩

theorem nested (hle : low ≤ high) (h : Relaxes low high p q) :
    Relaxes low high (nested p) (nested q) := by
  intro c hc
  have hinner : Relaxes low high (do Parser.enterNesting; p) (do Parser.enterNesting; q) :=
    (enterNesting hle).bind fun _ => h
  have hresult := hinner hc
  rw [Parser.nested, Parser.nested]
  cases hrun : (do Parser.enterNesting; p : Parser α) c with
  | ok a c' =>
    rw [hrun] at hresult
    exact ⟨by rw [hresult.1]; rfl, hresult.2⟩
  | error error c' =>
    rw [hrun] at hresult
    exact hresult.imp_left fun heq => by rw [heq]; rfl

theorem inBlockBody (hle : low ≤ high) (h : Relaxes low high p q) :
    Relaxes low high (inBlockBody p) (inBlockBody q) := by
  intro c hc
  have hresult := h.nested hle (c := { c with blockDepth := c.blockDepth + 1 }) hc
  rw [Parser.inBlockBody, Parser.inBlockBody]
  cases hrun : Parser.nested p { c with blockDepth := c.blockDepth + 1 } with
  | ok a c' =>
    rw [hrun] at hresult
    exact ⟨congrArg leaveBlock hresult.1, hresult.2⟩
  | error error c' =>
    rw [hrun] at hresult
    exact hresult.imp_left (congrArg leaveBlock)

theorem itemsAfter {item item' : List α → Parser α}
    (h : ∀ before, Relaxes low high (item before) (item' before)) (count : Nat)
    (before : List α) :
    Relaxes low high (itemsAfter item count before) (itemsAfter item' count before) := by
  induction count generalizing before with
  | zero => exact .pure _
  | succ count ih =>
    exact .get_bind fun c _ => .ite (.pure _) <| (h before).bind fun first =>
      (skip _).bind fun _ => .ite (ih _) (.pure _)

theorem items {item item' : List α → Parser α}
    (h : ∀ before, Relaxes low high (item before) (item' before)) :
    Relaxes low high (items item) (items item') :=
  .get_bind fun _ _ => (itemsAfter h _ _).bind fun _ => (expect _ _).bind fun _ => .pure _

/-- The stop of a repetition does not see the limit. -/
theorem repeatUntil {stop : Cursor → Bool} (hstop : ∀ c, stop (c.withLimit high) = stop c)
    (h : Relaxes low high p q) (count : Nat) :
    Relaxes low high (repeatUntil stop p count) (repeatUntil stop q count) := by
  induction count with
  | zero => exact .pure _
  | succ count ih =>
    refine .get_bind fun c _ => ?_
    rw [hstop]
    exact .ite (.pure _) (h.bind fun _ => ih.bind fun _ => .pure _)

theorem manyUntil {stop : Cursor → Bool} (hstop : ∀ c, stop (c.withLimit high) = stop c)
    (h : Relaxes low high p q) : Relaxes low high (manyUntil stop p) (manyUntil stop q) :=
  .get_bind fun _ _ => repeatUntil hstop h _

end Relaxes

/-- A parser that always finds the nesting too deep does so one level deeper as well. -/
theorem refused_nested_tooDeep (c : Cursor) :
    Refused c.maxDepth (nested (tooDeep : Parser α) c) := by
  by_cases hlt : c.depth < c.maxDepth
  · rw [nested_of_lt hlt]
    exact (refused_tooDeep { c with depth := c.depth + 1 }).atDepth _
  · have hrefused : Refused c.maxDepth (enterNesting c) := by
      rw [enterNesting, if_neg hlt]
      exact refused_tooDeep c
    exact (hrefused.bind _).atDepth _

/-! ### Expressions -/

section

variable {low high : Nat} {deeper deeper' : Nat → Parser Expr}

theorem relaxes_operand (h : ∀ level, Relaxes low high (deeper level) (deeper' level))
    (level : Nat) : Relaxes low high (operand deeper level) (operand deeper' level) := by
  refine .get_bind fun c _ => ?_
  rw [Cursor.kind_withLimit, Cursor.span_withLimit, Cursor.unexpected_withLimit,
    Cursor.expected_withLimit]
  dsimp only
  split
  case h_1 => exact Relaxes.bump.bind fun _ => .pure _
  case h_2 => exact Relaxes.bump.bind fun _ => .pure _
  case h_3 =>
    exact Relaxes.bump.bind fun _ => (h _).bind fun _ => (Relaxes.expect _ _).bind fun _ => .pure _
  case h_4 => exact Relaxes.bump.bind fun _ => (h _).bind fun _ => .pure _
  case h_5 => exact Relaxes.bump.bind fun _ => h _
  case h_6 =>
    exact .ite (Relaxes.bump.bind fun _ => (h _).bind fun _ => .pure _) (.throw _)
  case h_7 => exact .throw _
  case h_8 => exact .throw _

theorem relaxes_arguments (h : ∀ level, Relaxes low high (deeper level) (deeper' level)) :
    Relaxes low high (arguments deeper) (arguments deeper') :=
  .items fun _ => h _

theorem relaxes_extend (h : ∀ level, Relaxes low high (deeper level) (deeper' level))
    (left : Expr) (extension : Extension) :
    Relaxes low high (extend deeper left extension) (extend deeper' left extension) := by
  cases extension with
  | call =>
    refine Relaxes.bump.bind fun _ => (relaxes_arguments h).bind fun args =>
      .get_bind fun c _ => ?_
    dsimp only
    cases left with
    | name className span => exact .ite (.pure _) (.pure _)
    | _ => exact .pure _
  | member =>
    exact Relaxes.bump.bind fun _ => (Relaxes.expectIdentifier _).bind fun _ =>
      (Relaxes.skip _).bind fun _ => .ite
        ((relaxes_arguments h).bind fun _ => .get_bind fun _ _ => .pure _) (.pure _)
  | join joining => exact Relaxes.bump.bind fun _ => (h _).bind fun _ => .pure _

/-- The parser with fewer levels left goes the same way until it has none. -/
theorem relaxes_exprAt (hle : low ≤ high) {budget budget' : Nat} (hbudget : budget ≤ budget') :
    (∀ level, Relaxes low high (exprAt budget level) (exprAt budget' level)) ∧
      ∀ level left,
        Relaxes low high (extendAt budget level left) (extendAt budget' level left) := by
  induction budget generalizing budget' with
  | zero =>
    refine ⟨fun level => .of_refused fun c hc => ?_, fun level left c hc => ?_⟩
    · rw [exprAt, ← hc]
      exact refused_nested_tooDeep c
    · cases hkind : extension? level c.kind with
      | none =>
        rw [extendAt_of_none hkind, extendAt_of_none (by rwa [Cursor.kind_withLimit])]
        exact ⟨rfl, hc⟩
      | some extension =>
        rw [extendAt_zero_of_some hkind]
        exact .inr ⟨_, by rw [hc]⟩
  | succ budget ih =>
    obtain ⟨budget', rfl⟩ : ∃ more, budget' = more + 1 := ⟨budget' - 1, by omega⟩
    obtain ⟨hexpr, hextend⟩ := ih (Nat.le_of_succ_le_succ hbudget)
    refine ⟨fun level => .nested hle ((relaxes_operand hexpr level).bind (hextend level)),
      fun level left c hc => ?_⟩
    have hmore (extension : Extension) := (Relaxes.enterNesting hle).bind fun _ =>
      (relaxes_extend hexpr left extension).bind fun wrapped => hextend level wrapped
    simp only [extendAt, Cursor.kind_withLimit]
    cases extension? level c.kind with
    | none => exact ⟨rfl, hc⟩
    | some extension => exact hmore extension hc

theorem budget_le_withLimit {c : Cursor} (hc : c.maxDepth = low) (hle : low ≤ high) :
    c.budget ≤ (c.withLimit high).budget :=
  Nat.sub_le_sub_right (hc ▸ hle) _

theorem relaxes_expr (hle : low ≤ high) (level : Nat) :
    Relaxes low high (expr level) (expr level) :=
  fun _ hc => (relaxes_exprAt hle (budget_le_withLimit hc hle)).1 level hc

end

/-! ### Statements -/

section

variable {low high : Nat} {statement statement' alternative alternative' : Parser Stmt}

theorem relaxes_checkTarget (target : Expr) :
    Relaxes low high (checkTarget target) (checkTarget target) :=
  .ite (.pure _) (.throw _)

theorem relaxes_simpleStatement (hle : low ≤ high) :
    Relaxes low high simpleStatement simpleStatement := by
  refine .get_bind fun c _ => (relaxes_expr hle _).bind fun target => .get_bind fun c' _ => ?_
  rw [Cursor.span_withLimit, Cursor.kind_withLimit]
  dsimp only
  have hend (build : Span → Stmt) : Relaxes low high
      (do let read ← pure build
          let span := c.span.through (← get).lastSpan
          expectLineEnd
          pure (read span))
      (do let read ← pure build
          let span := c.span.through (← get).lastSpan
          expectLineEnd
          pure (read span)) :=
    (Relaxes.pure build).bind fun _ => .get_bind fun _ _ => Relaxes.expectLineEnd.bind fun _ =>
      .pure _
  split
  · exact (relaxes_checkTarget target).bind fun _ => Relaxes.bump.bind fun _ =>
      (relaxes_expr hle _).bind fun _ => hend _
  · cases c'.kind.augmentation? with
    | some op =>
      exact (relaxes_checkTarget target).bind fun _ => Relaxes.bump.bind fun _ =>
        (relaxes_expr hle _).bind fun _ => hend _
    | none => exact hend _

theorem relaxes_returnStatement (hle : low ≤ high) :
    Relaxes low high returnStatement returnStatement := by
  refine .get_bind fun c _ => Relaxes.bump.bind fun _ => .get_bind fun c' _ => ?_
  have hend (value : Option Expr) : Relaxes low high
      (do let read ← pure value
          let span := c.span.through (← get).lastSpan
          expectLineEnd
          pure (Stmt.leave read span))
      (do let read ← pure value
          let span := c.span.through (← get).lastSpan
          expectLineEnd
          pure (Stmt.leave read span)) :=
    (Relaxes.pure value).bind fun _ => .get_bind fun _ _ => Relaxes.expectLineEnd.bind fun _ =>
      .pure _
  exact .ite (hend none) ((relaxes_expr hle _).bind fun _ => hend (some _))

theorem relaxes_wordStatement (build : Span → Stmt) :
    Relaxes low high (wordStatement build) (wordStatement build) :=
  .get_bind fun _ _ => Relaxes.bump.bind fun _ => Relaxes.expectLineEnd.bind fun _ => .pure _

theorem relaxes_openBlock : Relaxes low high openBlock openBlock :=
  (Relaxes.expect _ _).bind fun _ => (Relaxes.expect _ _).bind fun _ =>
    (Relaxes.expect _ _).bind fun _ => .get_bind fun _ _ => .ite (.throw _) (.pure _)

theorem relaxes_closeBlock : Relaxes low high closeBlock closeBlock :=
  (Relaxes.expect _ _).bind fun _ => .pure _

theorem relaxes_blockOf (hle : low ≤ high) (h : Relaxes low high statement statement') :
    Relaxes low high (blockOf statement) (blockOf statement') :=
  relaxes_openBlock.bind fun _ =>
    (Relaxes.inBlockBody hle (.manyUntil (fun _ => rfl) h)).bind fun _ =>
      relaxes_closeBlock.bind fun _ => .pure _

theorem relaxes_param (before : List Param) :
    Relaxes low high (param before) (param before) :=
  (Relaxes.expectIdentifier _).bind fun _ => .ite (.throw _) (.pure _)

theorem relaxes_functionDef (hle : low ≤ high) (h : Relaxes low high statement statement') :
    Relaxes low high (functionDef statement) (functionDef statement') :=
  .get_bind fun _ _ => (Relaxes.expect _ _).bind fun _ => (Relaxes.expectIdentifier _).bind fun _ =>
    (Relaxes.expect _ _).bind fun _ => (Relaxes.items relaxes_param).bind fun _ =>
      (relaxes_blockOf hle h).bind fun _ => .get_bind fun _ _ => .pure _

theorem relaxes_method (hle : low ≤ high) (h : Relaxes low high statement statement') :
    Relaxes low high (method statement) (method statement') :=
  .get_bind fun _ _ => .ite (relaxes_functionDef hle h) (.throw _)

theorem relaxes_classStatement (hle : low ≤ high) (h : Relaxes low high statement statement') :
    Relaxes low high (classStatement statement) (classStatement statement') :=
  .get_bind fun _ _ => Relaxes.bump.bind fun _ => (Relaxes.expectIdentifier _).bind fun _ =>
    (Relaxes.declare _).bind fun _ => relaxes_openBlock.bind fun _ =>
      (Relaxes.manyUntil (fun _ => rfl) (relaxes_method hle h)).bind fun _ =>
        relaxes_closeBlock.bind fun _ => .get_bind fun _ _ => .pure _

theorem relaxes_branchOf (hle : low ≤ high) (h : Relaxes low high statement statement')
    (halternative : Relaxes low high alternative alternative') :
    Relaxes low high (branchOf statement alternative) (branchOf statement' alternative') := by
  refine .get_bind fun c _ => Relaxes.bump.bind fun _ => (relaxes_expr hle _).bind fun test =>
    (relaxes_blockOf hle h).bind fun thenBody => .get_bind fun _ _ =>
      (Relaxes.skip _).bind fun _ => ?_
  have hend (elseBody : Option (List Stmt)) : Relaxes low high
      (do let read ← pure elseBody
          pure (Stmt.branch test thenBody read (c.span.through (← get).lastSpan)))
      (do let read ← pure elseBody
          pure (Stmt.branch test thenBody read (c.span.through (← get).lastSpan))) :=
    (Relaxes.pure elseBody).bind fun _ => .get_bind fun _ _ => .pure _
  exact .ite ((halternative.nested hle).bind fun _ => hend (some _)) <|
    .ite ((relaxes_blockOf hle h).bind fun _ => hend (some _)) (hend none)

theorem relaxes_loopOf (hle : low ≤ high) (h : Relaxes low high statement statement') :
    Relaxes low high (loopOf statement) (loopOf statement') :=
  .get_bind fun _ _ => Relaxes.bump.bind fun _ => (relaxes_expr hle _).bind fun _ =>
    (relaxes_blockOf hle h).bind fun _ => .get_bind fun _ _ => .pure _

theorem relaxes_statementOf (hle : low ≤ high) (h : Relaxes low high statement statement')
    (halternative : Relaxes low high alternative alternative') :
    Relaxes low high (statementOf statement alternative) (statementOf statement' alternative') := by
  refine .get_bind fun c _ => ?_
  rw [Cursor.kind_withLimit, Cursor.inBlock_withLimit, Cursor.span_withLimit,
    Cursor.unexpected_withLimit]
  split
  case h_1 => exact .ite (.throw _) ((relaxes_functionDef hle h).bind fun _ => .pure _)
  case h_2 => exact .ite (.throw _) (relaxes_classStatement hle h)
  case h_3 => exact relaxes_branchOf hle h halternative
  case h_4 => exact relaxes_loopOf hle h
  case h_5 => exact relaxes_returnStatement hle
  case h_6 => exact relaxes_wordStatement _
  case h_7 => exact relaxes_wordStatement _
  case h_8 => exact relaxes_wordStatement _
  case h_9 => exact .throw _
  case h_10 => exact .throw _
  case h_11 => exact relaxes_simpleStatement hle

/-- The parser with fewer levels left goes the same way until it has none. -/
theorem relaxes_statementAt (hle : low ≤ high) {budget budget' : Nat} (hbudget : budget ≤ budget') :
    Relaxes low high (statementAt budget) (statementAt budget') ∧
      Relaxes low high (alternativeAt budget) (alternativeAt budget') := by
  induction budget generalizing budget' with
  | zero =>
    cases budget' with
    | zero =>
      exact ⟨relaxes_statementOf hle .tooDeep .tooDeep, relaxes_branchOf hle .tooDeep .tooDeep⟩
    | succ budget' =>
      exact ⟨relaxes_statementOf hle .tooDeep .tooDeep, relaxes_branchOf hle .tooDeep .tooDeep⟩
  | succ budget ih =>
    obtain ⟨budget', rfl⟩ : ∃ more, budget' = more + 1 := ⟨budget' - 1, by omega⟩
    obtain ⟨hstatement, halternative⟩ := ih (Nat.le_of_succ_le_succ hbudget)
    exact ⟨relaxes_statementOf hle hstatement halternative,
      relaxes_branchOf hle hstatement halternative⟩

theorem relaxes_statement (hle : low ≤ high) : Relaxes low high Parser.statement Parser.statement :=
  fun _ hc => (relaxes_statementAt hle (budget_le_withLimit hc hle)).1 hc

theorem relaxes_deeperStatement (hle : low ≤ high) {budget budget' : Nat}
    (hbudget : budget ≤ budget') :
    Relaxes low high (deeperStatement budget) (deeperStatement budget') := by
  cases budget with
  | zero => exact .tooDeep
  | succ budget =>
    obtain ⟨budget', rfl⟩ : ∃ more, budget' = more + 1 := ⟨budget' - 1, by omega⟩
    exact (relaxes_statementAt hle (Nat.le_of_succ_le_succ hbudget)).1

theorem relaxes_block (hle : low ≤ high) : Relaxes low high block block :=
  fun _ hc => relaxes_blockOf hle (relaxes_deeperStatement hle (budget_le_withLimit hc hle)) hc

end

/-! ### Limits -/

/-- Two runs from the same cursor, under two limits of nesting: the run under the lower limit
answers what the run under the higher one answers and leaves the same cursor, or it finds the
nesting too deep. -/
def LimitOnlyRefuses (parser : Parser α) (low high : Nat) (c : Cursor) : Prop :=
  parser (c.withLimit high) = underLimit high (parser (c.withLimit low)) ∨
    Refused low (parser (c.withLimit low))

theorem Relaxes.limitOnlyRefuses {low high : Nat} {p : Parser α} (h : Relaxes low high p p)
    (c : Cursor) : LimitOnlyRefuses p low high c := by
  have hresult := h (c := c.withLimit low) rfl
  rw [LimitOnlyRefuses]
  cases hrun : p (c.withLimit low) with
  | ok a c' =>
    rw [hrun] at hresult
    exact .inl hresult.1
  | error error c' =>
    rw [hrun] at hresult
    rcases hresult with heq | ⟨span, rfl⟩
    · exact .inl heq
    · exact .inr ⟨span, c', rfl⟩

/-- The limit of nesting decides nothing but whether the nesting is too deep. -/
theorem limitOnlyRefuses_of_le {low high : Nat} (hle : low ≤ high) (c : Cursor) :
    LimitOnlyRefuses statement low high c ∧ LimitOnlyRefuses block low high c ∧
      ∀ level, LimitOnlyRefuses (expr level) low high c :=
  ⟨(relaxes_statement hle).limitOnlyRefuses c, (relaxes_block hle).limitOnlyRefuses c,
    fun level => (relaxes_expr hle level).limitOnlyRefuses c⟩

end Parser

namespace LimitsWitness

def token (kind : TokenKind) : Token := ⟨kind, "", Span.absent⟩

/-- `-a` -/
def start : Cursor := Cursor.ofTokens [token (.symbol .minus), token (.identifier "a")] 0

def read : Stmt :=
  .eval (.unary .neg (.name "a" Span.absent) (Span.absent.through Span.absent))
    (Span.absent.through Span.absent)

/-- Two levels of nesting suffice, so a hundred of them change nothing; one level is too few. -/
theorem limits_of_negation :
    2 ≤ 100 ∧
      Parser.statement (start.withLimit 100) =
        Parser.underLimit 100 (Parser.statement (start.withLimit 2)) ∧
      Parser.Refused 1 (Parser.statement (start.withLimit 1)) := by
  have hle : 2 ≤ 100 := by decide
  refine ⟨hle, ?_, _, _, rfl⟩
  rcases (Parser.limitOnlyRefuses_of_le hle start).1 with heq | ⟨span, last, hrefused⟩
  · exact heq
  · obtain ⟨last', hread⟩ : ∃ last, Parser.statement (start.withLimit 2) = .ok read last := ⟨_, rfl⟩
    rw [hread] at hrefused
    cases hrefused

end LimitsWitness

end Offside
