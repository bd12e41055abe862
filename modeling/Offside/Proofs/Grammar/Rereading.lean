/-
Statements from their own text: tokens of the kinds that are written for a statement are read as
this statement, with other places, and take the levels of nesting that it takes.
-/
import Offside.Proofs.Grammar.Spelling
import Offside.Proofs.Grammar.Takes

namespace Offside

/-! ### First tokens -/

theorem TokenKind.not_continuesBranch_of_startsExpr {kind : TokenKind}
    (h : kind.startsExpr = true) : kind.isLayout = false ∧ kind.continuesBranch = false := by
  cases kind with
  | keyword word => cases word <;> first | exact ⟨rfl, rfl⟩ | cases h
  | layout => cases h
  | _ => exact ⟨rfl, rfl⟩

namespace Stmt

variable (chosen : Stmt → Bool)

/-- A statement starts with a token that ends a statement before it. -/
theorem exists_first_kind (s : Stmt) :
    ∃ kind others, s.kinds chosen .ifTest = kind :: others ∧ kind.isLayout = false ∧
      kind.continuesBranch = false := by
  cases s with
  | assign target value span =>
    obtain ⟨kind, others, hcons, hkind⟩ := target.exists_first_kind
    exact ⟨kind, _, by simp only [kinds, head, hcons]; rfl,
      TokenKind.not_continuesBranch_of_startsExpr hkind⟩
  | eval expr span =>
    obtain ⟨kind, others, hcons, hkind⟩ := expr.exists_first_kind
    exact ⟨kind, _, by simp only [kinds, head, hcons]; rfl,
      TokenKind.not_continuesBranch_of_startsExpr hkind⟩
  | leave value span => cases value <;> exact ⟨_, _, rfl, rfl, rfl⟩
  | _ => exact ⟨_, _, rfl, rfl, rfl⟩

theorem head?_kindsOfBody (body : List Stmt) :
    ∀ kind ∈ (kindsOfBody chosen .ifTest body).head?, kind.continuesBranch = false := by
  cases body with
  | nil => simp [kindsOfBody]
  | cons s others =>
    obtain ⟨kind, rest, hcons, -, hkind⟩ := exists_first_kind chosen s
    rw [kindsOfBody, hcons]
    intro first hfirst
    cases hfirst
    exact hkind

def isBranch : Stmt → Bool
  | branch _ _ _ _ => true
  | _ => false

theorem exists_of_isChained {chosen : Stmt → Bool} {body : List Stmt}
    (h : isChained chosen body = true) :
    ∃ test thenBody elseBody span, body = [branch test thenBody elseBody span] := by
  unfold isChained at h
  split at h
  · exact ⟨_, _, _, _, rfl⟩
  · cases h

end Stmt

namespace Parser

variable {classes : List String} {tokens : List Token} {chosen : Stmt → Bool}

/-- Behind its first word a conditional is read like a further alternative. -/
theorem statement_of_ifTest {c : Cursor} (h : c.kind = .keyword .ifTest) :
    statement c = alternative c := by
  simp only [statement_eq, alternative, alternativeAt_eq, statementOf, get_bind, h]

theorem statement_of_startsExpr {c : Cursor} (h : c.kind.startsExpr = true) :
    statement c = simpleStatement c := by
  rw [statement_eq]
  cases hkind : c.kind with
  | keyword word =>
    rw [hkind] at h
    cases word with
    | not => simp only [statementOf, get_bind, hkind]
    | _ => cases h
  | reserved | layout => rw [hkind] at h; cases h
  | _ => simp only [statementOf, get_bind, hkind]

/-! ### Expressions and bodies -/

theorem exists_takes_expr [IdentifierTables] {e : Expr} (h : e.isWritable classes = true)
    (htokens : tokens.map Token.kind = e.kinds) :
    ∃ found : Expr, found.bare = e.bare ∧
      Takes (expr Binding.lowest) classes tokens (e.levels + 1) found
        fun kind => kind.continuesExpr = false := by
  obtain ⟨found, hbare, hback⟩ := (readsKinds_of_isWritable h).whole htokens
  exact ⟨found, hbare, fun c after hclasses hreads hdepth hends =>
    expr_of_readsBack hback hclasses hreads hdepth hends⟩

/-- Tokens of the kinds of a statement, where a conditional starts with this word, are read by the
parser as it is, but for its places. -/
def Rereads (p : Parser Stmt) (chosen : Stmt → Bool) (classes : List String) (word : Keyword)
    (s : Stmt) : Prop :=
  ∀ ⦃tokens : List Token⦄, tokens.map Token.kind = s.kinds chosen word →
    ∃ found : Stmt, found.bare = s.bare ∧
      Takes p classes tokens s.levels found fun kind => kind.continuesBranch = false

/-- A statement that is read back, a conditional also as a further alternative. -/
structure Rereadable (chosen : Stmt → Bool) (classes : List String) (s : Stmt) : Prop where
  whole : Rereads statement chosen classes .ifTest s
  further : s.isBranch = true → Rereads alternative chosen classes .elifTest s

theorem Rereads.rereadable {s : Stmt} (h : Rereads statement chosen classes .ifTest s)
    (hs : s.isBranch = false) : Rereadable chosen classes s where
  whole := h
  further hbranch := by rw [hs] at hbranch; cases hbranch

theorem exists_takesParts {body : List Stmt}
    (h : ∀ s ∈ body, Rereads statement chosen classes .ifTest s)
    (htokens : tokens.map Token.kind = Stmt.kindsOfBody chosen .ifTest body) :
    ∃ found : List Stmt, found.map Stmt.bare = body.map Stmt.bare ∧
      TakesParts statementAt classes tokens (Stmt.levelsOfBody body) found := by
  induction body generalizing tokens with
  | nil =>
    obtain rfl := List.map_eq_nil_iff.mp htokens
    exact ⟨[], rfl, takesParts_nil⟩
  | cons s others ih =>
    obtain ⟨hs, hothers⟩ := List.forall_mem_cons.mp h
    obtain ⟨first, rest, rfl, hfirst, hrest⟩ := List.map_eq_append_iff.mp htokens
    obtain ⟨found, hbare, htakes⟩ := hs hfirst
    obtain ⟨more, hmore, hparts⟩ := ih hothers hrest
    obtain ⟨kind, kinds, hcons, hkind, -⟩ := Stmt.exists_first_kind chosen s
    obtain ⟨token, line, rfl, rfl, -⟩ := List.map_eq_cons_iff.mp (hfirst.trans hcons)
    have hnext : ∀ next ∈ rest.head?, next.kind.continuesBranch = false := by
      intro next hnext
      apply Stmt.head?_kindsOfBody chosen others
      rw [← hrest, List.head?_map, hnext]
      rfl
    exact ⟨found :: more, by rw [List.map_cons, List.map_cons, hbare, hmore],
      takesParts_cons htakes hparts hkind rfl hnext⟩

theorem exists_of_map_block {head inside : List TokenKind}
    (htokens : tokens.map Token.kind = (head ++ [.symbol .colon]) ++ Line.block inside) :
    ∃ first colon newline indent inner dedent,
      tokens = first ++ ([colon, newline, indent] ++ (inner ++ [dedent])) ∧
      first.map Token.kind = head ∧ inner.map Token.kind = inside ∧
      colon.kind = .symbol .colon ∧ newline.kind = .layout .newline ∧
      indent.kind = .layout .indent ∧ dedent.kind = .layout .dedent := by
  rw [List.append_assoc] at htokens
  obtain ⟨first, rest, rfl, hfirst, hrest⟩ := List.map_eq_append_iff.mp htokens
  obtain ⟨colon, behind, rfl, hcolon, hbehind⟩ := List.map_eq_cons_iff.mp hrest
  obtain ⟨newline, below, rfl, hnewline, hbelow⟩ := List.map_eq_cons_iff.mp hbehind
  obtain ⟨indent, block, rfl, hindent, hblock⟩ := List.map_eq_cons_iff.mp hbelow
  obtain ⟨inner, last, rfl, hinner, hlast⟩ := List.map_eq_append_iff.mp hblock
  obtain ⟨dedent, others, rfl, hdedent, hothers⟩ := List.map_eq_cons_iff.mp hlast
  obtain rfl := List.map_eq_nil_iff.mp hothers
  exact ⟨first, colon, newline, indent, inner, dedent, rfl, hfirst, hinner, hcolon, hnewline,
    hindent, hdedent⟩

/-- A block of statements behind what stands in front of its colon. -/
theorem exists_takes_block {head : List TokenKind} {body : List Stmt}
    (hne : (!body.isEmpty) = true) (h : ∀ s ∈ body, Rereads statement chosen classes .ifTest s)
    (htokens : tokens.map Token.kind =
      (head ++ [.symbol .colon]) ++ Line.block (Stmt.kindsOfBody chosen .ifTest body)) :
    ∃ first colon behind found, tokens = first ++ colon :: behind ∧ first.map Token.kind = head ∧
      colon.kind = .symbol .colon ∧ found.map Stmt.bare = body.map Stmt.bare ∧
      Takes block classes (colon :: behind) (Stmt.levelsOfBody body + 1) found fun _ => True := by
  obtain ⟨first, colon, newline, indent, inner, dedent, rfl, hfirst, hinner, hcolon, hnewline,
    hindent, hdedent⟩ := exists_of_map_block htokens
  obtain ⟨found, hbare, hparts⟩ := exists_takesParts h hinner
  have hinside : ∃ token rest, inner = token :: rest ∧ token.kind.isLayout = false := by
    obtain ⟨s, others, rfl⟩ := List.exists_cons_of_ne_nil (by simpa using hne)
    obtain ⟨kind, kinds, hcons, hkind, -⟩ := Stmt.exists_first_kind chosen s
    rw [Stmt.kindsOfBody, hcons] at hinner
    obtain ⟨token, rest, rfl, rfl, -⟩ := List.map_eq_cons_iff.mp hinner
    exact ⟨token, rest, rfl, hkind⟩
  exact ⟨first, colon, _, found, rfl, hfirst, hcolon, hbare,
    takes_block hcolon hnewline hindent hdedent hinside hparts _⟩

theorem exists_takes_else {elseBody : Option (List Stmt)}
    (h : ∀ body ∈ elseBody, (!body.isEmpty) = true ∧ ∀ s ∈ body, Rereadable chosen classes s)
    (htokens : tokens.map Token.kind = Stmt.kindsOfElse chosen elseBody) :
    ∃ found : Option (List Stmt),
      found.map (List.map Stmt.bare) = elseBody.map (List.map Stmt.bare) ∧
      Takes (fun c => elseOf (deeperStatement c.budget) (deeperAlternative c.budget) c) classes
        tokens (Stmt.levelsOfElse elseBody) found fun kind => kind.continuesBranch = false := by
  cases elseBody with
  | none =>
    obtain rfl := List.map_eq_nil_iff.mp htokens
    exact ⟨none, rfl, takes_noElse classes⟩
  | some body =>
    obtain ⟨hne, hbody⟩ := h body rfl
    rw [Stmt.kindsOfElse] at htokens
    split at htokens
    case isTrue hchained =>
      obtain ⟨test, thenBody, elseBody, span, rfl⟩ := Stmt.exists_of_isChained hchained
      have hfurther := (List.forall_mem_singleton.mp hbody).further rfl
      rw [Stmt.kindsOfBody, Stmt.kindsOfBody, List.append_nil] at htokens
      obtain ⟨found, hbare, htakes⟩ := hfurther htokens
      obtain ⟨word, rest, rfl, hword, -⟩ := List.map_eq_cons_iff.mp htokens
      rw [Stmt.levelsOfElse, Stmt.levelsOfBody, Stmt.levelsOfBody, Nat.max_zero]
      exact ⟨some [found], by simp [hbare], takes_elif hword htakes⟩
    case isFalse =>
      obtain ⟨first, colon, behind, found, rfl, hfirst, -, hbare, htakes⟩ :=
        exists_takes_block hne (fun s hs => (hbody s hs).whole)
          (show _ = ([TokenKind.keyword .elseBranch] ++ [.symbol .colon]) ++ _ from htokens)
      obtain ⟨word, rest, rfl, hword, hrest⟩ := List.map_eq_cons_iff.mp hfirst
      obtain rfl := List.map_eq_nil_iff.mp hrest
      exact ⟨some found, by simp [hbare], takes_else hword htakes⟩

/-! ### Compound statements -/

theorem rereads_branch [IdentifierTables] {test : Expr} {thenBody : List Stmt}
    {elseBody : Option (List Stmt)} (htest : test.isWritable classes = true)
    (hne : (!thenBody.isEmpty) = true)
    (hthen : ∀ s ∈ thenBody, Rereads statement chosen classes .ifTest s)
    (helse : ∀ body ∈ elseBody, (!body.isEmpty) = true ∧ ∀ s ∈ body, Rereadable chosen classes s)
    (word : Keyword) (span : Span) :
    Rereads alternative chosen classes word (.branch test thenBody elseBody span) := by
  intro tokens htokens
  obtain ⟨first, elseTokens, rfl, hfirst, hsecond⟩ := List.map_eq_append_iff.mp htokens
  obtain ⟨head, colon, behind, newThen, rfl, hhead, hcolon, hbareThen, htakesThen⟩ :=
    exists_takes_block hne hthen
      (show _ = ((.keyword word :: test.kinds) ++ [.symbol .colon]) ++ _ from hfirst)
  obtain ⟨start, testTokens, rfl, -, htestTokens⟩ := List.map_eq_cons_iff.mp hhead
  obtain ⟨newTest, hbareTest, htakesTest⟩ := exists_takes_expr htest htestTokens
  obtain ⟨newElse, hbareElse, htakesElse⟩ := exists_takes_else helse hsecond
  refine ⟨_, ?_, takes_branch hcolon htakesTest htakesThen htakesElse⟩
  simp only [Stmt.bare, Stmt.bareAll_eq_map, Stmt.bareElse_eq_map, hbareTest, hbareThen, hbareElse]

theorem rereads_loop [IdentifierTables] {test : Expr} {body : List Stmt}
    (htest : test.isWritable classes = true) (hne : (!body.isEmpty) = true)
    (hbody : ∀ s ∈ body, Rereads statement chosen classes .ifTest s) (span : Span) :
    Rereads statement chosen classes .ifTest (.loop test body span) := by
  intro tokens htokens
  obtain ⟨head, colon, behind, newBody, rfl, hhead, hcolon, hbareBody, htakesBody⟩ :=
    exists_takes_block hne hbody
      (show _ = ((.keyword .whileLoop :: test.kinds) ++ [.symbol .colon]) ++ _ from htokens)
  obtain ⟨start, testTokens, rfl, hstart, htestTokens⟩ := List.map_eq_cons_iff.mp hhead
  obtain ⟨newTest, hbareTest, htakesTest⟩ := exists_takes_expr htest htestTokens
  have hloop := takes_loop start hcolon htakesTest htakesBody
    fun kind => kind.continuesBranch = false
  refine ⟨_, ?_, hloop.of_first fun c hkind => ?_⟩
  · simp only [Stmt.bare, Stmt.bareAll_eq_map, hbareTest, hbareBody]
  · simp only [statement_eq, statementOf, get_bind, hkind.trans hstart]

/-! ### Statements on one line -/

theorem exists_of_map_line {head : List TokenKind}
    (h : tokens.map Token.kind = head ++ [.layout .newline]) :
    ∃ line newline, tokens = line ++ [newline] ∧ line.map Token.kind = head ∧
      newline.kind = .layout .newline := by
  obtain ⟨line, last, rfl, hline, hlast⟩ := List.map_eq_append_iff.mp h
  obtain ⟨newline, others, rfl, hnewline, hothers⟩ := List.map_eq_cons_iff.mp hlast
  obtain rfl := List.map_eq_nil_iff.mp hothers
  exact ⟨line, newline, rfl, hline, hnewline⟩

theorem exists_first_token {e : Expr} (h : tokens.map Token.kind = e.kinds) :
    ∃ token rest, tokens = token :: rest ∧ token.kind.startsExpr = true := by
  obtain ⟨kind, others, hcons, hkind⟩ := e.exists_first_kind
  obtain ⟨token, rest, rfl, rfl, -⟩ := List.map_eq_cons_iff.mp (h.trans hcons)
  exact ⟨token, rest, rfl, hkind⟩

theorem rereads_assign [IdentifierTables] {target value : Expr}
    (hassignable : target.isAssignable = true) (htarget : target.isWritable classes = true)
    (hvalue : value.isWritable classes = true) (span : Span) :
    Rereads statement chosen classes .ifTest (.assign target value span) := by
  intro tokens htokens
  obtain ⟨line, newline, rfl, hline, hnewline⟩ := exists_of_map_line htokens
  obtain ⟨first, rest, rfl, hfirst, hrest⟩ := List.map_eq_append_iff.mp hline
  obtain ⟨sign, second, rfl, hsign, hsecond⟩ := List.map_eq_cons_iff.mp hrest
  obtain ⟨newTarget, hbareTarget, htakesTarget⟩ := exists_takes_expr htarget hfirst
  obtain ⟨newValue, hbareValue, htakesValue⟩ := exists_takes_expr hvalue hsecond
  have hplace : newTarget.isAssignable = true := by
    rw [← Expr.isAssignable_bare, hbareTarget, Expr.isAssignable_bare, hassignable]
  have htakes := takes_assign hsign hnewline hplace htakesTarget htakesValue
    fun kind => kind.continuesBranch = false
  obtain ⟨token, others, rfl, htoken⟩ := exists_first_token hfirst
  exact ⟨_, by simp only [Stmt.bare, hbareTarget, hbareValue],
    htakes.of_first fun c hkind => statement_of_startsExpr (by rw [hkind, htoken])⟩

theorem rereads_eval [IdentifierTables] {e : Expr} (h : e.isWritable classes = true) (span : Span) :
    Rereads statement chosen classes .ifTest (.eval e span) := by
  intro tokens htokens
  obtain ⟨line, newline, rfl, hline, hnewline⟩ := exists_of_map_line htokens
  obtain ⟨found, hbare, htakes⟩ := exists_takes_expr h hline
  obtain ⟨token, others, rfl, htoken⟩ := exists_first_token hline
  have heval := takes_eval hnewline (List.cons_ne_nil _ _) htakes
    fun kind => kind.continuesBranch = false
  exact ⟨_, by simp only [Stmt.bare, hbare],
    heval.of_first fun c hkind => statement_of_startsExpr (by rw [hkind, htoken])⟩

theorem rereads_leave [IdentifierTables] {value : Option Expr}
    (h : ∀ e ∈ value, e.isWritable classes = true) (span : Span) :
    Rereads statement chosen classes .ifTest (.leave value span) := by
  have hsame {c : Cursor} (hkind : c.kind = .keyword .returnValue) :
      statement c = returnStatement c := by
    simp only [statement_eq, statementOf, get_bind, hkind]
  intro tokens htokens
  cases value with
  | none =>
    obtain ⟨line, newline, rfl, hline, hnewline⟩ := exists_of_map_line htokens
    obtain ⟨word, rest, rfl, hword, hrest⟩ := List.map_eq_cons_iff.mp hline
    obtain rfl := List.map_eq_nil_iff.mp hrest
    exact ⟨.leave none (spanOf [word]), rfl, (takes_leave hnewline classes _).of_first
      fun c hkind => hsame (hkind.trans hword)⟩
  | some value =>
    obtain ⟨line, newline, rfl, hline, hnewline⟩ := exists_of_map_line htokens
    obtain ⟨word, rest, rfl, hword, hrest⟩ := List.map_eq_cons_iff.mp hline
    obtain ⟨found, hbare, htakes⟩ := exists_takes_expr (h value rfl) hrest
    obtain ⟨token, others, rfl, htoken⟩ := exists_first_token hrest
    have hvalue := (TokenKind.not_continuesBranch_of_startsExpr htoken).1
    have hleave := takes_leaveWith word hnewline ⟨token, others, rfl, hvalue⟩ htakes
      fun kind => kind.continuesBranch = false
    exact ⟨_, by simp only [Stmt.bare, Option.map_some, hbare],
      hleave.of_first fun c hkind => hsame (hkind.trans hword)⟩

theorem rereads_word {key : Keyword} (build : Span → Stmt) (span : Span)
    (hkinds : (build span).kinds chosen .ifTest = [.keyword key] ++ [.layout .newline])
    (hlevels : (build span).levels = 0) (hbare : ∀ other, (build other).bare = (build span).bare)
    (hsame : ∀ c : Cursor, c.kind = .keyword key → statement c = wordStatement build c) :
    Rereads statement chosen classes .ifTest (build span) := by
  intro tokens htokens
  obtain ⟨line, newline, rfl, hline, hnewline⟩ := exists_of_map_line (htokens.trans hkinds)
  obtain ⟨word, rest, rfl, hword, hrest⟩ := List.map_eq_cons_iff.mp hline
  obtain rfl := List.map_eq_nil_iff.mp hrest
  rw [hlevels]
  exact ⟨build (spanOf [word]), hbare _, (takes_word build hnewline classes _).of_first
    fun c hkind => hsame c (hkind.trans hword)⟩

/-! ### All statements -/

/-- Every statement that can be written inside of a block is read back from its tokens. -/
theorem rereadable_of_isWritable [IdentifierTables] {s : Stmt} (h : s.isWritable classes = true) :
    Rereadable chosen classes s := by
  have hbody {body : List Stmt} (hall : Stmt.isWritableBody classes body = true)
      (ih : ∀ s ∈ body, s.isWritable classes = true → Rereadable chosen classes s) :
      ∀ s ∈ body, Rereadable chosen classes s := by
    rw [Stmt.isWritableBody_eq_all, List.all_eq_true] at hall
    exact fun s hs => ih s hs (hall s hs)
  induction s using Stmt.induction with
  | function | classDef => cases h
  | branch test thenBody elseBody span ihThen ihElse =>
    simp only [Stmt.isWritable, Bool.and_eq_true] at h
    obtain ⟨⟨⟨htest, hne⟩, hthen⟩, helse⟩ := h
    have hfirst : ∀ s ∈ thenBody, Rereads statement chosen classes .ifTest s :=
      fun s hs => (hbody hthen ihThen s hs).whole
    have hsecond : ∀ body ∈ elseBody,
        (!body.isEmpty) = true ∧ ∀ s ∈ body, Rereadable chosen classes s := by
      rintro body rfl
      obtain ⟨hne, hall⟩ := Bool.and_eq_true_iff.mp helse
      exact ⟨hne, hbody hall (ihElse body rfl)⟩
    -- both readings of a conditional come from one, since its first word is only stepped over
    have hbranch (word : Keyword) := rereads_branch htest hne hfirst hsecond word span
    refine ⟨fun tokens htokens => ?_, fun _ => hbranch .elifTest⟩
    obtain ⟨found, hbare, htakes⟩ := hbranch .ifTest htokens
    obtain ⟨word, rest, rfl, hword, -⟩ := List.map_eq_cons_iff.mp htokens
    exact ⟨found, hbare, htakes.of_first fun c hkind => statement_of_ifTest (hkind.trans hword)⟩
  | loop test body span ih =>
    simp only [Stmt.isWritable, Bool.and_eq_true] at h
    obtain ⟨⟨htest, hne⟩, hall⟩ := h
    exact (rereads_loop htest hne (fun s hs => (hbody hall ih s hs).whole) span).rereadable rfl
  | assign target value span =>
    simp only [Stmt.isWritable, Bool.and_eq_true] at h
    exact (rereads_assign h.1.1 h.1.2 h.2 span).rereadable rfl
  | eval e span => exact (rereads_eval h span).rereadable rfl
  | leave value span =>
    refine (rereads_leave (fun e he => ?_) span).rereadable rfl
    cases he
    exact h
  | pass span =>
    refine (rereads_word .pass span rfl rfl (fun _ => rfl) fun c hkind => ?_).rereadable rfl
    simp only [statement_eq, statementOf, get_bind, hkind]
  | breakLoop span =>
    refine (rereads_word .breakLoop span rfl rfl (fun _ => rfl) fun c hkind => ?_).rereadable rfl
    simp only [statement_eq, statementOf, get_bind, hkind]
  | continueLoop span =>
    refine (rereads_word .continueLoop span rfl rfl (fun _ => rfl) fun c hkind => ?_).rereadable rfl
    simp only [statement_eq, statementOf, get_bind, hkind]

end Parser

end Offside
