/-
How the parsers of statements take tokens.  Where the levels of nesting that they take are left, the
tokens are read as a value and nothing else is; where they are not, the nesting is found too deep.
-/
import Offside.Proofs.Grammar.Acceptance

namespace Offside

/-- Whether a conditional goes on with a token of this kind. -/
def TokenKind.continuesBranch : TokenKind → Bool
  | keyword .elifTest | keyword .elseBranch => true
  | _ => false

namespace Cursor

variable {c c' : Cursor} {read : List Token} {token : Token}

theorem Reads.budget_eq (h : c.Reads read c') (hdepth : c'.depth = c.depth) :
    c'.budget = c.budget := by
  rw [budget, budget, h.maxDepth, hdepth]

theorem Reads.next_eq_of_depth (h : c.Reads [token] c') (hdepth : c'.depth = c.depth) :
    c.next = c' := by
  rw [h.next_eq, ← hdepth]

theorem Reads.eq_of_depth (h : c.Reads [] c') (hdepth : c'.depth = c.depth) : c = c' := by
  rw [h.eq_of_nil, ← hdepth]

/-- The same tokens inside of another block, and at another depth. -/
theorem Reads.inBlock (h : c.Reads read c') (depth blockDepth : Nat) :
    ({ c with depth := depth, blockDepth := blockDepth } : Cursor).Reads read
      { c' with depth := depth, blockDepth := blockDepth } :=
  ⟨h.rest, h.past, h.classes, h.maxDepth, rfl⟩

theorem budget_eq_of_lt (h : c.depth < c.maxDepth) :
    c.budget = ({ c with depth := c.depth + 1 } : Cursor).budget + 1 := by
  rw [budget, budget]
  change c.maxDepth - c.depth = c.maxDepth - (c.depth + 1) + 1
  omega

theorem lt_and_le_budget (c : Cursor) (levels : Nat) :
    c.depth < c.maxDepth ∧ levels ≤ ({ c with depth := c.depth + 1 } : Cursor).budget ↔
      levels + 1 ≤ c.budget := by
  rw [budget, budget]
  change _ ∧ levels ≤ c.maxDepth - (c.depth + 1) ↔ _
  omega

theorem isAt_layout (h : c.kind.isLayout = false) (layout : Layout) :
    c.isAt (.layout layout) = false := by
  rw [isAt, Bool.eq_false_iff, ne_eq, TokenKind.isA_layout]
  intro hkind
  rw [hkind] at h
  cases h

theorem atEnd_of_isLayout (h : c.kind.isLayout = false) : c.atEnd = false := by
  rw [atEnd, beq_eq_false_iff_ne]
  intro hkind
  rw [hkind] at h
  cases h

end Cursor

namespace Parser

variable {α : Type} {classes : List String} {tokens : List Token} {levels : Nat}

/-- Where these classes are known, the parser reads these tokens as the value, as long as the
levels of nesting that it takes are left, if a token that ends them comes next. -/
def Takes (p : Parser α) (classes : List String) (tokens : List Token) (levels : Nat) (value : α)
    (ends : TokenKind → Prop) : Prop :=
  ∀ ⦃c after : Cursor⦄, c.classes = classes → c.Reads tokens after → after.depth = c.depth →
    ends after.kind → Yields c.maxDepth (levels ≤ c.budget) value after (p c)

/-- Reading on behind other tokens. -/
theorem Takes.later {p : Parser α} {value : α} {ends : TokenKind → Prop}
    (h : Takes p classes tokens levels value ends) {c mid after : Cursor} {before : List Token}
    (hclasses : c.classes = classes) (hbefore : c.Reads before mid) (hmid : mid.depth = c.depth)
    (hreads : mid.Reads tokens after) (hdepth : after.depth = c.depth)
    (hends : ends after.kind) : Yields c.maxDepth (levels ≤ c.budget) value after (p mid) := by
  rw [← hbefore.maxDepth, ← hbefore.budget_eq hmid]
  exact h (hbefore.classes.trans hclasses) hreads (hdepth.trans hmid.symm) hends

theorem Takes.of_first {p q : Parser α} {token : Token} {rest : List Token} {value : α}
    {ends : TokenKind → Prop} (h : Takes q classes (token :: rest) levels value ends)
    (hsame : ∀ c : Cursor, c.kind = token.kind → p c = q c) :
    Takes p classes (token :: rest) levels value ends := by
  intro c after hclasses hreads hdepth hends
  rw [hsame c hreads.kind]
  exact h hclasses hreads hdepth hends

/-! ### Lines -/

theorem expectLineEnd_of_reads {c after : Cursor} {newline : Token}
    (hnewline : newline.kind = .layout .newline) (hreads : c.Reads [newline] after)
    (hdepth : after.depth = c.depth) : expectLineEnd c = .ok () after := by
  have hat : c.isAt (.layout .newline) = true :=
    (TokenKind.isA_layout _ _).mpr (hreads.kind.trans hnewline)
  rw [expectLineEnd, if_pos hat, hreads.next_eq_of_depth hdepth]

/-- The end of the line behind a simple statement. -/
theorem lineEnd_eq {c mid after : Cursor} {newline : Token} {build : Span → Stmt}
    (hnewline : newline.kind = .layout .newline) (hreads : c.Reads tokens mid) (hne : tokens ≠ [])
    (hend : mid.Reads [newline] after) (hdepth : after.depth = mid.depth) :
    (do
      let span := c.span.through (← get).lastSpan
      expectLineEnd
      pure (build span) : Parser Stmt) mid = .ok (build (spanOf tokens)) after := by
  rw [get_bind, Cursor.spanOf_of_reads hreads hne,
    bind_ok (expectLineEnd_of_reads hnewline hend hdepth)]
  rfl

theorem takes_assign {sign newline : Token} {target value : Expr}
    {targetTokens valueTokens : List Token} {targetLevels valueLevels : Nat}
    (hsign : sign.kind = .symbol .assign) (hnewline : newline.kind = .layout .newline)
    (hassignable : target.isAssignable = true)
    (htarget : Takes (expr Binding.lowest) classes targetTokens targetLevels target
      fun kind => kind.continuesExpr = false)
    (hvalue : Takes (expr Binding.lowest) classes valueTokens valueLevels value
      fun kind => kind.continuesExpr = false) (ends : TokenKind → Prop) :
    Takes simpleStatement classes ((targetTokens ++ sign :: valueTokens) ++ [newline])
      (max targetLevels valueLevels)
      (.assign target value (spanOf (targetTokens ++ sign :: valueTokens))) ends := by
  intro c after hclasses hreads hdepth _
  obtain ⟨mid, hmid, hline, hend⟩ := hreads.split
  obtain ⟨first, hfirst, hplace, hrest⟩ := hline.split
  have hkind : first.kind = .symbol .assign := hrest.kind.trans hsign
  have hnext : first.next.depth = c.depth := (Cursor.depth_next first).trans hfirst
  have hbehind := hplace.trans (Cursor.reads_next hrest.rest)
  have hstop : mid.kind.continuesExpr = false := by
    rw [hend.kind, hnewline]
    rfl
  have hyields := hvalue.later hclasses hbehind hnext hrest.tail hmid hstop
  rw [simpleStatement, get_bind]
  apply ((htarget hclasses hplace hfirst (by rw [hkind]; rfl)).bind fun _ => ?_).congr
    Nat.max_le.symm
  rw [get_bind, if_pos hkind, checkTarget, if_pos hassignable, bind_ok (pure_eq () first),
    bump_bind]
  exact hyields.map (lineEnd_eq hnewline hline (by simp) hend (hdepth.trans hmid.symm))

theorem takes_eval {newline : Token} {e : Expr} (hnewline : newline.kind = .layout .newline)
    (hne : tokens ≠ [])
    (h : Takes (expr Binding.lowest) classes tokens levels e
      fun kind => kind.continuesExpr = false) (ends : TokenKind → Prop) :
    Takes simpleStatement classes (tokens ++ [newline]) levels (.eval e (spanOf tokens)) ends := by
  intro c after hclasses hreads hdepth _
  obtain ⟨mid, hmid, hline, hend⟩ := hreads.split
  have hkind : mid.kind = .layout .newline := hend.kind.trans hnewline
  rw [simpleStatement, get_bind]
  apply (h hclasses hline hmid (by rw [hkind]; rfl)).map
  rw [get_bind, hkind, if_neg (by decide)]
  exact lineEnd_eq hnewline hline hne hend (hdepth.trans hmid.symm)

theorem takes_leave {word newline : Token} (hnewline : newline.kind = .layout .newline)
    (classes : List String) (ends : TokenKind → Prop) :
    Takes returnStatement classes ([word] ++ [newline]) 0 (.leave none (spanOf [word])) ends := by
  intro c after _ hreads hdepth _
  obtain ⟨mid, hmid, hline, hend⟩ := hreads.split
  have hnext := hline.next_eq_of_depth hmid
  have hat : mid.isAt (.layout .newline) = true :=
    (TokenKind.isA_layout _ _).mpr (hend.kind.trans hnewline)
  rw [returnStatement, get_bind, bump_bind, hnext, get_bind, if_pos (by rw [hat]; rfl)]
  exact (Yields.of_eq (lineEnd_eq hnewline hline (by simp) hend
    (hdepth.trans hmid.symm))).congr (by simp)

theorem takes_leaveWith (word : Token) {newline : Token} {e : Expr}
    (hnewline : newline.kind = .layout .newline)
    (hfirst : ∃ token rest, tokens = token :: rest ∧ token.kind.isLayout = false)
    (h : Takes (expr Binding.lowest) classes tokens levels e
      fun kind => kind.continuesExpr = false) (ends : TokenKind → Prop) :
    Takes returnStatement classes ((word :: tokens) ++ [newline]) levels
      (.leave (some e) (spanOf (word :: tokens))) ends := by
  intro c after hclasses hreads hdepth _
  obtain ⟨mid, hmid, hline, hend⟩ := hreads.split
  have hbehind := Cursor.reads_next hline.rest
  have hstop : mid.kind.continuesExpr = false := by
    rw [hend.kind, hnewline]
    rfl
  have hyields := h.later hclasses hbehind (Cursor.depth_next c) hline.tail hmid hstop
  obtain ⟨token, rest, rfl, htoken⟩ := hfirst
  rw [← hline.tail.kind] at htoken
  have hvalue : ¬ (c.next.isAt (.layout .newline) || c.next.atEnd) = true := by
    rw [Cursor.isAt_layout htoken, Cursor.atEnd_of_isLayout htoken]
    decide
  rw [returnStatement, get_bind, bump_bind, get_bind, if_neg hvalue]
  exact hyields.map (lineEnd_eq hnewline hline (by simp) hend (hdepth.trans hmid.symm))

theorem takes_word {word newline : Token} (build : Span → Stmt)
    (hnewline : newline.kind = .layout .newline) (classes : List String)
    (ends : TokenKind → Prop) :
    Takes (wordStatement build) classes ([word] ++ [newline]) 0 (build (spanOf [word])) ends := by
  intro c after _ hreads hdepth _
  obtain ⟨mid, hmid, hline, hend⟩ := hreads.split
  have hok := expectLineEnd_of_reads hnewline hend (hdepth.trans hmid.symm)
  rw [wordStatement, get_bind, bump_bind, hline.next_eq_of_depth hmid, bind_ok hok, hline.span]
  exact (Yields.of_eq rfl).congr (by simp)

/-! ### Nesting -/

/-- A conditional one level deeper than this many levels allow. -/
def deeperAlternative : Nat → Parser Stmt
  | 0 => tooDeep
  | budget + 1 => alternativeAt budget

/-- A further alternative of a conditional. -/
def alternative : Parser Stmt := fun c => alternativeAt c.budget c

theorem statementAt_eq (budget : Nat) :
    statementAt budget = statementOf (deeperStatement budget) (deeperAlternative budget) := by
  cases budget with
  | zero => rw [statementAt, deeperStatement, deeperAlternative]
  | succ budget =>
    funext c
    rw [statementAt, deeperStatement, deeperAlternative]

theorem statement_eq (c : Cursor) :
    statement c = statementOf (deeperStatement c.budget) (deeperAlternative c.budget) c := by
  rw [statement, statementAt_eq]

theorem alternativeAt_eq (budget : Nat) :
    alternativeAt budget = branchOf (deeperStatement budget) (deeperAlternative budget) := by
  cases budget with
  | zero => rw [alternativeAt, deeperStatement, deeperAlternative]
  | succ budget =>
    funext c
    rw [alternativeAt, deeperStatement, deeperAlternative]

theorem yields_nested {p : Parser α} (c : Cursor) {after : Cursor} {fits : Prop} {a : α}
    (hdepth : after.depth = c.depth)
    (h : c.depth < c.maxDepth → Yields c.maxDepth fits a { after with depth := c.depth + 1 }
      (p { c with depth := c.depth + 1 })) :
    Yields c.maxDepth (c.depth < c.maxDepth ∧ fits) a after (nested p c) := by
  by_cases hlt : c.depth < c.maxDepth
  · rw [nested_of_lt hlt]
    rcases h hlt with ⟨hfits, hok⟩ | ⟨hfits, hrefused⟩
    · left
      rw [hok, atDepth, ← hdepth]
      exact ⟨⟨hdepth ▸ hlt, hfits⟩, rfl⟩
    · exact .inr ⟨fun hboth => hfits hboth.2, hrefused.atDepth _⟩
  · have hrefused : Refused c.maxDepth (enterNesting c) := by
      rw [enterNesting, if_neg hlt]
      exact refused_tooDeep c
    exact .inr ⟨fun hboth => hlt hboth.1, (hrefused.bind _).atDepth _⟩

/-- A conditional is nested inside of the one that it is a further alternative of. -/
theorem takes_nested_alternative {s : Stmt} {ends : TokenKind → Prop}
    (h : Takes alternative classes tokens levels s ends) :
    Takes (fun c => nested (deeperAlternative c.budget) c) classes tokens (levels + 1) s ends := by
  intro c after hclasses hreads hdepth hends
  refine (yields_nested c hdepth fun hlt => ?_).congr (c.lt_and_le_budget levels)
  rw [Cursor.budget_eq_of_lt hlt, deeperAlternative]
  exact h hclasses ((hreads.setDepth _).atDepth (c.depth + 1)) rfl hends

theorem Refused.leaveBlock {limit : Nat} {answer : EStateM.Result GrammarError Cursor α}
    (h : Refused limit answer) : Refused limit (leaveBlock answer) := by
  obtain ⟨span, last, rfl⟩ := h
  exact ⟨span, _, rfl⟩

theorem yields_inBlockBody {p : Parser α} {c after : Cursor} {fits : Prop} {a : α}
    {read : List Token} (hreads : c.Reads read after) (hdepth : after.depth = c.depth)
    (h : c.depth < c.maxDepth → Yields c.maxDepth fits a
      { after with depth := c.depth + 1, blockDepth := c.blockDepth + 1 }
      (p { c with depth := c.depth + 1, blockDepth := c.blockDepth + 1 })) :
    Yields c.maxDepth (c.depth < c.maxDepth ∧ fits) a after (inBlockBody p c) := by
  have hnested : Yields c.maxDepth (c.depth < c.maxDepth ∧ fits) a
      { after with blockDepth := c.blockDepth + 1 }
      (nested p { c with blockDepth := c.blockDepth + 1 }) :=
    yields_nested { c with blockDepth := c.blockDepth + 1 } hdepth h
  rw [inBlockBody]
  rcases hnested with ⟨hfits, hok⟩ | ⟨hfits, hrefused⟩
  · left
    rw [hok, leaveBlock, Nat.add_sub_cancel, ← hreads.blockDepth]
    exact ⟨hfits, rfl⟩
  · exact .inr ⟨hfits, hrefused.leaveBlock⟩

/-! ### Blocks -/

theorem openBlock_of_reads {c after : Cursor} {colon newline indent : Token}
    (hcolon : colon.kind = .symbol .colon) (hnewline : newline.kind = .layout .newline)
    (hindent : indent.kind = .layout .indent) (hreads : c.Reads [colon, newline, indent] after)
    (hdepth : after.depth = c.depth) (hinside : after.kind.isLayout = false) :
    openBlock c = .ok () after := by
  have hthird : c.next.next.next = after := by
    rw [hreads.tail.tail.next_eq_of_depth (by rw [hdepth, Cursor.depth_next, Cursor.depth_next])]
  have hinside : ¬ after.isAt (.layout .dedent) = true :=
    Bool.eq_false_iff.mp (Cursor.isAt_layout hinside _)
  rw [openBlock, bind_ok (expect_of_rest hreads.rest ((TokenKind.isA_symbol _ _).mpr hcolon) _),
    bind_ok (expect_of_rest hreads.tail.rest ((TokenKind.isA_layout _ _).mpr hnewline) _),
    bind_ok (expect_of_rest hreads.tail.tail.rest ((TokenKind.isA_layout _ _).mpr hindent) _),
    get_bind, hthird, if_neg hinside]
  rfl

theorem closeBlock_of_reads {c after : Cursor} {dedent : Token}
    (hdedent : dedent.kind = .layout .dedent) (hreads : c.Reads [dedent] after)
    (hdepth : after.depth = c.depth) : closeBlock c = .ok () after := by
  rw [closeBlock, bind_ok (expect_of_rest hreads.rest ((TokenKind.isA_layout _ _).mpr hdedent) _),
    hreads.next_eq_of_depth hdepth]
  rfl

theorem atBlockEnd_of_dedent {c : Cursor} (h : c.kind = .layout .dedent) : atBlockEnd c = true := by
  rw [atBlockEnd, Cursor.isAt, h]
  rfl

theorem atBlockEnd_of_isLayout {c : Cursor} (h : c.kind.isLayout = false) :
    atBlockEnd c = false := by
  rw [atBlockEnd, Cursor.isAt_layout h, Cursor.atEnd_of_isLayout h, Bool.or_false]

/-- The parser, which may know how much nesting is left, reads tokens as the parts of a block. -/
def TakesParts (item : Nat → Parser α) (classes : List String) (tokens : List Token)
    (levels : Nat) (parts : List α) : Prop :=
  ∀ count, tokens.length < count →
    Takes (fun c => repeatUntil atBlockEnd (item c.budget) count c) classes tokens levels parts
      (· = .layout .dedent)

variable {item : Nat → Parser α}

theorem takesParts_nil : TakesParts item classes [] 0 [] := by
  intro count _ c after _ hreads hdepth hends
  have hsame : c = after := hreads.eq_of_depth hdepth
  subst hsame
  exact (Yields.of_eq (repeatUntil_of_stop (atBlockEnd_of_dedent hends) count)).congr (by simp)

theorem takesParts_cons {token : Token} {rest others : List Token} {otherLevels : Nat} {part : α}
    {parts : List α} {ends : TokenKind → Prop}
    (hpart : Takes (fun c => item c.budget c) classes (token :: rest) levels part ends)
    (hparts : TakesParts item classes others otherLevels parts)
    (htoken : token.kind.isLayout = false) (hends : ends (.layout .dedent))
    (hnext : ∀ next ∈ others.head?, ends next.kind) :
    TakesParts item classes (token :: rest ++ others) (max levels otherLevels) (part :: parts) := by
  intro count hcount c after hclasses hreads hdepth hafter
  obtain ⟨count, rfl⟩ : ∃ fewer, count = fewer + 1 := Nat.exists_eq_add_one.mpr (by omega)
  obtain ⟨mid, hmid, hfirst, hrest⟩ := hreads.split
  have hstop : atBlockEnd c = false := atBlockEnd_of_isLayout (by rw [hfirst.kind, htoken])
  -- what ends this part is the start of the next one, or else the end of the block
  have hmidEnds : ends mid.kind := by
    cases others with
    | nil => rwa [hrest.eq_of_depth (hdepth.trans hmid.symm), hafter]
    | cons next others => exact hrest.kind ▸ hnext next rfl
  have hshort : others.length < count := by
    rw [List.length_append, List.length_cons] at hcount
    omega
  have hyields := (hparts count hshort).later hclasses hfirst hmid hrest hdepth hafter
  beta_reduce
  rw [repeatUntil_succ hstop]
  apply ((hpart hclasses hfirst hmid hmidEnds).bind fun _ => ?_).congr Nat.max_le.symm
  rw [hfirst.budget_eq hmid] at hyields
  exact hyields.map rfl

theorem TakesParts.many {parts : List α} (h : TakesParts item classes tokens levels parts) :
    Takes (fun c => manyUntil atBlockEnd (item c.budget) c) classes tokens levels parts
      (· = .layout .dedent) := by
  intro c after hclasses hreads hdepth hends
  have hcount : tokens.length < c.rest.length + 1 := by
    rw [hreads.rest, List.length_append]
    omega
  beta_reduce
  rw [manyUntil, get_bind]
  exact h _ hcount hclasses hreads hdepth hends

/-- A block takes one level of nesting more than its parts. -/
theorem takes_block {colon newline indent dedent : Token} {body : List Stmt}
    (hcolon : colon.kind = .symbol .colon) (hnewline : newline.kind = .layout .newline)
    (hindent : indent.kind = .layout .indent) (hdedent : dedent.kind = .layout .dedent)
    (hfirst : ∃ token rest, tokens = token :: rest ∧ token.kind.isLayout = false)
    (hbody : TakesParts statementAt classes tokens levels body) (ends : TokenKind → Prop) :
    Takes block classes ([colon, newline, indent] ++ (tokens ++ [dedent])) (levels + 1) body
      ends := by
  intro c after hclasses hreads hdepth _
  obtain ⟨opened, hopened, hhead, hreads⟩ := hreads.split
  obtain ⟨closing, hclosing, hinside, hclose⟩ := hreads.split
  have hkind : closing.kind = .layout .dedent := hclose.kind.trans hdedent
  have hopen : openBlock c = .ok () opened := by
    apply openBlock_of_reads hcolon hnewline hindent hhead hopened
    obtain ⟨token, rest, rfl, htoken⟩ := hfirst
    rw [hinside.kind, htoken]
  have hbudget := hhead.budget_eq hopened
  -- the block itself takes one of the levels that are left, its statements have the others
  have hbodyYields : Yields opened.maxDepth (levels + 1 ≤ opened.budget) body closing
      (inBlockBody (manyUntil atBlockEnd (deeperStatement c.budget)) opened) := by
    refine (yields_inBlockBody hinside hclosing fun hlt => ?_).congr
      (opened.lt_and_le_budget levels)
    rw [← hbudget, Cursor.budget_eq_of_lt hlt, deeperStatement]
    exact hbody.many (c := { opened with
      depth := opened.depth + 1, blockDepth := opened.blockDepth + 1 })
      (hhead.classes.trans hclasses) (hinside.inBlock _ _) rfl hkind
  rw [hhead.maxDepth, hbudget] at hbodyYields
  rw [block, blockOf, bind_ok hopen]
  apply hbodyYields.map
  rw [bind_ok (closeBlock_of_reads hdedent hclose
    (hdepth.trans (hclosing.trans hopened).symm))]
  rfl

/-! ### Compound statements -/

/-- What follows the first body of a conditional. -/
def elseOf (statement alternative : Parser Stmt) : Parser (Option (List Stmt)) := do
  let c ← get
  let skipped ← skip (.keyword .elseBranch)
  if c.isAt (.keyword .elifTest) then do
    let branch ← nested alternative
    pure (some [branch])
  else if skipped then do
    let body ← blockOf statement
    pure (some body)
  else pure none

theorem branchOf_eq (statement alternative : Parser Stmt) :
    branchOf statement alternative = (do
      let start := (← get).span
      let _ ← bump
      let test ← expr Binding.lowest
      let thenBody ← blockOf statement
      let elseBody ← elseOf statement alternative
      pure (.branch test thenBody elseBody (start.through (← get).lastSpan))) := by
  have hsplit {α β : Type} {p : Prop} [Decidable p] (first second : Parser α) (f : α → Parser β) :
      (if p then first else second) >>= f = if p then first >>= f else second >>= f := by
    split <;> rfl
  simp only [branchOf, elseOf, bind_assoc, hsplit, pure_bind]

theorem takes_noElse (classes : List String) :
    Takes (fun c => elseOf (deeperStatement c.budget) (deeperAlternative c.budget) c) classes [] 0
      none fun kind => kind.continuesBranch = false := by
  intro c after _ hreads hdepth hends
  have hsame : c = after := hreads.eq_of_depth hdepth
  subst hsame
  have hnot {word : Keyword} (hword : (TokenKind.keyword word).continuesBranch = true) :
      c.isAt (.keyword word) = false := by
    rw [Cursor.isAt, Bool.eq_false_iff, ne_eq, TokenKind.isA_keyword]
    rintro hkind
    rw [hkind, hword] at hends
    cases hends
  refine (Yields.of_eq ?_).congr (by simp)
  beta_reduce
  rw [elseOf, get_bind, bind_ok (skip_of_not_isAt (hnot rfl)), if_neg (by rw [hnot rfl]; decide)]
  rfl

theorem takes_elif {word : Token} {rest : List Token} {s : Stmt}
    (hword : word.kind = .keyword .elifTest)
    (h : Takes alternative classes (word :: rest) levels s
      fun kind => kind.continuesBranch = false) :
    Takes (fun c => elseOf (deeperStatement c.budget) (deeperAlternative c.budget) c) classes
      (word :: rest) (levels + 1) (some [s]) fun kind => kind.continuesBranch = false := by
  intro c after hclasses hreads hdepth hends
  have hkind : c.kind = .keyword .elifTest := hreads.kind.trans hword
  have helse : c.isAt (.keyword .elseBranch) = false := by
    rw [Cursor.isAt, hkind]
    rfl
  have helif : c.isAt (.keyword .elifTest) = true := (TokenKind.isA_keyword _ _).mpr hkind
  beta_reduce
  rw [elseOf, get_bind, bind_ok (skip_of_not_isAt helse), if_pos helif]
  exact (takes_nested_alternative h hclasses hreads hdepth hends).map rfl

theorem takes_else {word : Token} {body : List Stmt} (hword : word.kind = .keyword .elseBranch)
    (h : Takes block classes tokens levels body fun _ => True) :
    Takes (fun c => elseOf (deeperStatement c.budget) (deeperAlternative c.budget) c) classes
      (word :: tokens) levels (some body) fun kind => kind.continuesBranch = false := by
  intro c after hclasses hreads hdepth _
  have hkind : c.kind = .keyword .elseBranch := hreads.kind.trans hword
  have helse : c.isAt (.keyword .elseBranch) = true := (TokenKind.isA_keyword _ _).mpr hkind
  have helif : ¬ c.isAt (.keyword .elifTest) = true := by
    rw [Cursor.isAt, hkind]
    decide
  have hbehind := Cursor.reads_next hreads.rest
  have hyields := h.later hclasses hbehind (Cursor.depth_next c) hreads.tail hdepth trivial
  beta_reduce
  rw [elseOf, get_bind, bind_ok (skip_of_isAt helse), if_neg helif, if_pos rfl]
  rw [block, hbehind.budget_eq (Cursor.depth_next c)] at hyields
  exact hyields.map rfl

/-- A conditional, at its first word or at that of a further alternative. -/
theorem takes_branch {word colon : Token} {testTokens behind elseTokens : List Token}
    {testLevels thenLevels elseLevels : Nat} {test : Expr} {thenBody : List Stmt}
    {elseBody : Option (List Stmt)} (hcolon : colon.kind = .symbol .colon)
    (htest : Takes (expr Binding.lowest) classes testTokens testLevels test
      fun kind => kind.continuesExpr = false)
    (hthen : Takes block classes (colon :: behind) thenLevels thenBody fun _ => True)
    (helse : Takes (fun c => elseOf (deeperStatement c.budget) (deeperAlternative c.budget) c)
      classes elseTokens elseLevels elseBody fun kind => kind.continuesBranch = false) :
    Takes alternative classes (((word :: testTokens) ++ colon :: behind) ++ elseTokens)
      (max testLevels (max thenLevels elseLevels))
      (.branch test thenBody elseBody
        (spanOf (((word :: testTokens) ++ colon :: behind) ++ elseTokens)))
      fun kind => kind.continuesBranch = false := by
  intro c after hclasses hreads hdepth hends
  obtain ⟨mid, hmid, hline, hsecond⟩ := hreads.split
  obtain ⟨tested, htested, hhead, hfirst⟩ := hline.split
  have hstop : tested.kind.continuesExpr = false := by
    rw [hfirst.kind, hcolon]
    rfl
  have hyieldsTest := htest.later hclasses (Cursor.reads_next hhead.rest) (Cursor.depth_next c)
    hhead.tail htested hstop
  have hyieldsThen := hthen.later hclasses hhead htested hfirst hmid trivial
  have hyieldsElse := helse.later hclasses hline hmid hsecond hdepth hends
  beta_reduce at hyieldsElse
  rw [block, hhead.budget_eq htested] at hyieldsThen
  rw [hline.budget_eq hmid] at hyieldsElse
  rw [alternative, alternativeAt_eq, branchOf_eq, get_bind, bump_bind]
  refine (hyieldsTest.bind fun _ => hyieldsThen.bind fun _ => hyieldsElse.map ?_).congr ?_
  · rw [get_bind, Cursor.spanOf_of_reads hreads (by simp)]
    rfl
  · rw [Nat.max_le, Nat.max_le]

theorem takes_loop (word : Token) {colon : Token} {testTokens behind : List Token}
    {testLevels bodyLevels : Nat} {test : Expr} {body : List Stmt}
    (hcolon : colon.kind = .symbol .colon)
    (htest : Takes (expr Binding.lowest) classes testTokens testLevels test
      fun kind => kind.continuesExpr = false)
    (hbody : Takes block classes (colon :: behind) bodyLevels body fun _ => True)
    (ends : TokenKind → Prop) :
    Takes (fun c => loopOf (deeperStatement c.budget) c) classes
      ((word :: testTokens) ++ colon :: behind) (max testLevels bodyLevels)
      (.loop test body (spanOf ((word :: testTokens) ++ colon :: behind))) ends := by
  intro c after hclasses hreads hdepth _
  obtain ⟨tested, htested, hhead, hblock⟩ := hreads.split
  have hstop : tested.kind.continuesExpr = false := by
    rw [hblock.kind, hcolon]
    rfl
  have hyieldsTest := htest.later hclasses (Cursor.reads_next hhead.rest) (Cursor.depth_next c)
    hhead.tail htested hstop
  have hyieldsBody := hbody.later hclasses hhead htested hblock hdepth trivial
  rw [block, hhead.budget_eq htested] at hyieldsBody
  beta_reduce
  rw [loopOf, get_bind, bump_bind]
  refine (hyieldsTest.bind fun _ => hyieldsBody.map ?_).congr Nat.max_le.symm
  rw [get_bind, Cursor.spanOf_of_reads hreads (by simp)]
  rfl

/-! ### Definitions -/

/-- A function whose parameters and body are taken, inside of a class or outside of it. -/
theorem takes_functionDef {word id start colon : Token} {paramTokens behind : List Token}
    {name : String} {params : List Param} {body : List Stmt}
    (hword : word.kind = .keyword .definition) (hid : id.kind = .identifier name)
    (hstart : start.kind = .symbol .openParen)
    (hparams : ∀ ⦃c after : Cursor⦄, c.Reads paramTokens after → after.depth = c.depth →
      items param c = .ok params after)
    (hbody : Takes block classes (colon :: behind) levels body fun _ => True)
    (ends : TokenKind → Prop) :
    Takes (fun c => functionDef (deeperStatement c.budget) c) classes
      ((word :: id :: start :: paramTokens) ++ colon :: behind) levels
      ⟨name, params, body, spanOf ((word :: id :: start :: paramTokens) ++ colon :: behind)⟩
      ends := by
  intro c after hclasses hreads hdepth _
  obtain ⟨mid, hmid, hhead, hblock⟩ := hreads.split
  have hitems : items param c.next.next.next = .ok params mid :=
    hparams hhead.tail.tail.tail
      (by rw [hmid, Cursor.depth_next, Cursor.depth_next, Cursor.depth_next])
  have hyields := hbody.later hclasses hhead hmid hblock hdepth trivial
  rw [block, hhead.budget_eq hmid] at hyields
  beta_reduce
  rw [functionDef, get_bind,
    bind_ok (expect_of_rest hhead.rest ((TokenKind.isA_keyword _ _).mpr hword) _),
    bind_ok (expectIdentifier_of_rest hhead.tail.rest hid _)]
  dsimp only
  rw [bind_ok (expect_of_rest hhead.tail.tail.rest ((TokenKind.isA_symbol _ _).mpr hstart) _),
    bind_ok hitems]
  apply hyields.map
  rw [get_bind, Cursor.spanOf_of_reads hreads (by simp)]
  rfl

/-- A class whose methods are taken where it is known already, and stays known behind it. -/
theorem yields_classStatement {word id colon newline indent dedent : Token} {name : String}
    {methods : List (FunctionDef Stmt)} (hid : id.kind = .identifier name)
    (hcolon : colon.kind = .symbol .colon) (hnewline : newline.kind = .layout .newline)
    (hindent : indent.kind = .layout .indent) (hdedent : dedent.kind = .layout .dedent)
    (hfirst : ∃ token rest, tokens = token :: rest ∧ token.kind.isLayout = false)
    {c after : Cursor}
    (hmethods : TakesParts (fun budget => method (deeperStatement budget))
      (declaredIn c.classes name) tokens levels methods)
    (hreads : ({ c with classes := declaredIn c.classes name } : Cursor).Reads
      ([word, id] ++ ([colon, newline, indent] ++ (tokens ++ [dedent]))) after)
    (hdepth : after.depth = c.depth) :
    Yields c.maxDepth (levels ≤ c.budget)
      (.classDef name methods
        (spanOf ([word, id] ++ ([colon, newline, indent] ++ (tokens ++ [dedent]))))) after
      (classStatement (deeperStatement c.budget) c) := by
  have hrest : c.rest = word :: id :: ([colon, newline, indent] ++ (tokens ++ [dedent]) ++
      after.rest) := hreads.rest
  have hdeclared : c.next.next.declare name =
      ({ c with classes := declaredIn c.classes name } : Cursor).next.next := by
    simp [Cursor.declare_eq, Cursor.next, hrest]
  -- behind the name the class is known
  obtain ⟨named, hnamed, hhead, hbehind⟩ := hreads.split
  have hdeclare : (modify (·.declare name) : Parser PUnit) c.next.next = .ok () named := by
    rw [← hhead.tail.next_eq_of_depth (by rw [hnamed, Cursor.depth_next]), ← hdeclared]
    rfl
  obtain ⟨opened, hopened, hline, hblock⟩ := hbehind.split
  obtain ⟨closing, hclosing, hinside, hclose⟩ := hblock.split
  have hopen : openBlock named = .ok () opened := by
    apply openBlock_of_reads hcolon hnewline hindent hline hopened
    obtain ⟨token, rest, rfl, htoken⟩ := hfirst
    rw [hinside.kind, htoken]
  have hbefore := hhead.trans hline
  have hopenedDepth := hopened.trans hnamed
  have hlimit : opened.maxDepth = c.maxDepth := hbefore.maxDepth
  have hbudget : opened.budget = c.budget := hbefore.budget_eq hopenedDepth
  have hyields := hmethods.many hbefore.classes hinside hclosing (hclose.kind.trans hdedent)
  beta_reduce at hyields
  rw [hlimit, hbudget] at hyields
  rw [classStatement, get_bind, bump_bind,
    bind_ok (expectIdentifier_of_rest (Cursor.rest_next hrest) hid _)]
  dsimp only
  rw [bind_ok hdeclare, bind_ok hopen]
  apply hyields.map
  rw [bind_ok (closeBlock_of_reads hdedent hclose
    (hdepth.trans (hclosing.trans hopenedDepth).symm)), get_bind]
  have hspan := Cursor.spanOf_of_reads hreads (by simp)
  rw [show c.span.through after.lastSpan = _ from hspan]
  rfl

end Parser

end Offside
