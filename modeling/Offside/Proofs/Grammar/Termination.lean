/-
Parsing stops on every token stream, whatever the tokens are: each loop of the parser leaves fewer
tokens with every round, since an expression, a statement or a comma is read in it.  The end of the
input is never stepped over, so what may follow it is never read.
-/
import Offside.Proofs.Grammar.Lookahead

namespace Offside

namespace Parser

variable {α : Type} {c c' : Cursor} {level budget : Nat}

/-! ### The end of the input -/

theorem sparesEnd_expr (level : Nat) : SparesEnd (expr level) :=
  Plan.run_expr level ▸ (Plan.expr level).sparesEnd_run

theorem sparesEnd_statement : SparesEnd statement :=
  Plan.run_statement ▸ Plan.statement.sparesEnd_run

theorem sparesEnd_block : SparesEnd block := Plan.run_block ▸ Plan.block.sparesEnd_run

theorem sparesEnd_expectLineEnd : SparesEnd expectLineEnd :=
  Plan.run_expectLineEnd ▸ Plan.sparesEnd_run (Plan.expectLineEnd : Plan false Unit)

theorem sparesEnd_onlyExpr : SparesEnd onlyExpr := Plan.run_onlyExpr ▸ Plan.onlyExpr.sparesEnd_run

/-! ### The operators of an expression -/

/-- A round of wrapping an operand. -/
def chainRound (level : Nat) (left : Expr) : Parser (Expr ⊕ Expr) := do
  match extension? level (← get).kind with
  | none => pure (.inr left)
  | some extension =>
    enterNesting
    let wrapped ← extend (exprAt (← get).budget) left extension
    pure (.inl wrapped)

theorem length_lt_of_take {raises : Bool} {next : Plan raises α} {a : α} (hend : c.atEnd = false)
    (h : (do Plan.take; next : Plan raises α).run c = .ok a c') :
    c'.rest.length < c.rest.length := by
  rw [Plan.run_bind, Plan.take_bind hend] at h
  exact ((Plan.leaves_of_ok h).advances.tokens.length_le).trans_lt (Cursor.length_next_lt hend)

/-- Wrapping an operand once reads the token that asks for it, and leaves the levels of nesting. -/
theorem extend_read {left wrapped : Expr} {extension : Extension}
    (hextension : extension? level c.kind = some extension)
    (h : extend (exprAt budget) left extension c = .ok wrapped c') :
    c'.rest.length < c.rest.length ∧ c'.budget = c.budget := by
  have hend : c.atEnd = false := Plan.atEnd_of_means rfl hextension
  have hdeeper : (fun level => (Plan.exprAt budget level).run) = exprAt budget :=
    funext (Plan.run_exprAt budget)
  rw [← hdeeper, ← Plan.run_extend _ left hextension] at h
  have hleaves := Plan.leaves_of_ok h
  constructor
  · cases extension with
    | call => exact length_lt_of_take hend h
    | member => exact length_lt_of_take hend h
    | join joining => exact length_lt_of_take hend h
  · have hdepth : c'.depth = c.depth := hleaves.steady rfl
    have hmax : c'.maxDepth = c.maxDepth := hleaves.advances.maxDepth
    rw [Cursor.budget, Cursor.budget, hdepth, hmax]

theorem chainRound_of_none (left : Expr) (h : extension? level c.kind = none) :
    chainRound level left c = .ok (.inr left) c := by
  rw [chainRound, get_bind, h]
  rfl

theorem chainRound_of_some (left : Expr) {extension : Extension}
    (h : extension? level c.kind = some extension) :
    chainRound level left c = (do
      enterNesting
      let wrapped ← extend (exprAt (← get).budget) left extension
      pure (.inl wrapped) : Parser (Expr ⊕ Expr)) c := by
  rw [chainRound, get_bind, h]

/-- The operators, calls and attributes of an expression come to an end. -/
theorem loops_extendAt (level : Nat) (left : Expr) (c : Cursor) :
    Loops (chainRound level) left c (extendAt c.budget level left c) := by
  -- the rounds are bounded by the levels of nesting that are left, and each of them takes one
  generalize hbudget : c.budget = budget
  induction budget generalizing left c with
  | zero =>
    rw [extendAt, get_bind]
    cases hextension : extension? level c.kind with
    | none => exact .done (chainRound_of_none left hextension)
    | some extension =>
      have hlimit : ¬ c.depth < c.maxDepth := Nat.not_lt.mpr (Nat.le_of_sub_eq_zero hbudget)
      have hrefused := enterNesting_of_not_lt hlimit
      exact .error ((chainRound_of_some left hextension).trans (bind_error hrefused))
  | succ budget ih =>
    rw [extendAt]
    dsimp only
    cases hextension : extension? level c.kind with
    | none => exact .done (chainRound_of_none left hextension)
    | some extension =>
      have hround := chainRound_of_some left hextension
      have hlimit : c.depth < c.maxDepth := by
        rw [Cursor.budget] at hbudget
        omega
      have hentered : c.deeper.budget = budget :=
        Nat.succ.inj ((Cursor.budget_eq_of_lt hlimit).symm.trans hbudget)
      have henter : enterNesting c = .ok () c.deeper := enterNesting_of_lt hlimit
      rw [bind_ok henter, get_bind, hentered] at hround
      dsimp only
      rw [bind_ok henter]
      cases hextend : extend (exprAt budget) left extension c.deeper with
      | error error c' =>
        rw [bind_error hextend] at hround ⊢
        exact .error hround
      | ok wrapped c' =>
        rw [bind_ok hextend] at hround ⊢
        obtain ⟨hless, hleft⟩ := extend_read (c := c.deeper) hextension hextend
        exact .again hround hless (ih wrapped c' (hleft.trans hentered))

/-! ### What follows the end of the input -/

/-- The tokens up to the first end of the input, and that token. -/
def throughEnd : List Token → List Token
  | [] => []
  | token :: rest =>
    if token.kind = .layout .endOfInput then [token] else token :: throughEnd rest

theorem throughEnd_eq (tokens : List Token) :
    throughEnd tokens = tokens ∨ ∃ before token after, tokens = before ++ token :: after ∧
      throughEnd tokens = before ++ [token] ∧ token.kind = .layout .endOfInput := by
  induction tokens with
  | nil => exact .inl rfl
  | cons first rest ih =>
    rw [throughEnd]
    split
    case isTrue hend => exact .inr ⟨[], first, rest, rfl, rfl, hend⟩
    case isFalse =>
      rcases ih with heq | ⟨before, token, after, htokens, hthrough, hend⟩
      · exact .inl (by rw [heq])
      · exact .inr ⟨first :: before, token, after, by rw [htokens, List.cons_append],
          by rw [hthrough, List.cons_append], hend⟩

theorem SameOutcome.answer_eq {tail other : List Token} {p : Parser α} {c d : Cursor}
    (h : SameOutcome tail other (p c) (p d)) : p.answer c = p.answer d := by
  rw [answer, answer]
  cases hc : p c with
  | ok a c' =>
    obtain ⟨d', hd, -⟩ := (hc ▸ h).exists_of_ok
    rw [hd]
  | error error c' =>
    rw [hc] at h
    obtain ⟨d', hd, -⟩ := h.exists_of_error
    rw [hd]

end Parser

namespace Module

open Offside.Parser

/-- Tokens behind the first end of the input change nothing. -/
theorem ofTokens_throughEnd (tokens : List Token) :
    ofTokens (throughEnd tokens) false = ofTokens tokens false := by
  rcases throughEnd_eq tokens with heq | ⟨before, token, after, htokens, hthrough, hend⟩
  · rw [heq]
  · have halike : Cursor.Alike after []
        (Cursor.ofTokens ((before ++ [token]) ++ after) Cursor.defaultMaxDepth)
        (Cursor.ofTokens ((before ++ [token]) ++ []) Cursor.defaultMaxDepth) :=
      Cursor.alike_ofTokens (List.append_ne_nil_of_right_ne_nil _ (List.cons_ne_nil _ _)) _
    have hsplit : tokens = (before ++ [token]) ++ after := by
      rw [htokens, List.append_assoc, List.singleton_append]
    rw [← hsplit, List.append_nil, ← hthrough] at halike
    refine (looksNoFurther_program halike ?_).answer_eq.symm
    obtain ⟨read, hrest, -, hread⟩ :=
      sparesEnd_program (Cursor.ofTokens tokens Cursor.defaultMaxDepth)
    have hwhole : before ++ token :: after = read ++ _ := htokens.symm.trans hrest
    -- the end of the input is not among the tokens that have been read
    rcases List.append_eq_append_iff.mp hwhole with
      ⟨others, hothers, hleft⟩ | ⟨others, hothers, hleft⟩
    · cases others with
      | nil =>
        rw [← hleft.trans (List.nil_append _)]
        exact Nat.lt_succ_self _
      | cons first others =>
        obtain ⟨rfl, -⟩ := List.cons.inj hleft
        exact absurd hend (hread token (by rw [hothers]; simp))
    · rw [hleft, List.length_append, List.length_cons]
      omega

end Module

namespace Parser

/-- Expressions and statements read a token, nothing steps over the end of the input, and so every
loop comes to its end: over the statements of a program and of a block, the methods of a class, the
parameters of a function, the arguments of a call and the operators of an expression. -/
theorem parsing_stops :
    (∀ level, Progresses (expr level) ∧ SparesEnd (expr level)) ∧
      (Progresses statement ∧ SparesEnd statement) ∧
      (SparesEnd block ∧ SparesEnd expectLineEnd ∧ SparesEnd program ∧ SparesEnd onlyExpr) ∧
      (∀ c, Loops (untilRound Cursor.atEnd statement) [] c (manyUntil Cursor.atEnd statement c)) ∧
      (∀ budget c, Loops (untilRound atBlockEnd (deeperStatement budget)) [] c
        (manyUntil atBlockEnd (deeperStatement budget) c)) ∧
      (∀ budget c, Loops (untilRound atBlockEnd (method (deeperStatement budget))) [] c
        (manyUntil atBlockEnd (method (deeperStatement budget)) c)) ∧
      (∀ c, Loops (itemRound param) [] c (itemsAfter param (c.rest.length + 1) [] c)) ∧
      (∀ budget c, Loops (itemRound fun _ => exprAt budget Binding.lowest) [] c
        (itemsAfter (fun _ => exprAt budget Binding.lowest) (c.rest.length + 1) [] c)) ∧
      (∀ level left c, Loops (chainRound level) left c (extendAt c.budget level left c)) ∧
      ∀ tokens, Module.ofTokens (throughEnd tokens) false = Module.ofTokens tokens false :=
  ⟨fun level => ⟨progresses_expr level, sparesEnd_expr level⟩,
    ⟨progresses_statement, sparesEnd_statement⟩,
    ⟨sparesEnd_block, sparesEnd_expectLineEnd, sparesEnd_program, sparesEnd_onlyExpr⟩,
    loops_manyUntil progresses_statement,
    fun budget => loops_manyUntil (progresses_deeperStatement budget),
    fun budget => loops_manyUntil (progresses_method budget),
    loops_itemsAfter fun before _ _ _ h => Nat.le_of_lt (progresses_param before h),
    fun budget => loops_itemsAfter fun _ _ _ _ h =>
      Nat.le_of_lt (progresses_exprAt budget Binding.lowest h),
    loops_extendAt, Module.ofTokens_throughEnd⟩

end Parser

end Offside
