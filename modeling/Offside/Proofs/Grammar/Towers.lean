/-
The tallest expressions: in every pair of parentheses as many attributes as there are levels left,
and as many again behind the closing one.
-/
import Offside.Grammar.Statement
import Offside.Proofs.Grammar.Nesting

namespace Offside

/-- A token without text or place. -/
def Token.ofKind (kind : TokenKind) : Token := ⟨kind, "", Span.absent⟩

namespace Tower

/-- `.x`, so many times. -/
def trailTokens : Nat → List Token
  | 0 => []
  | n + 1 => .ofKind (.symbol .dot) :: .ofKind (.identifier "x") :: trailTokens n

/-- The attribute `x` of an expression, so many times over. -/
def trail (e : Expr) : Nat → Expr
  | 0 => e
  | n + 1 => trail (.member e "x" (e.span.through Span.absent)) n

/-- `a`, `(a).x`, `((a).x).x.x` and so on. -/
def tokens : Nat → List Token
  | 0 => [.ofKind (.identifier "a")]
  | n + 1 => .ofKind (.symbol .openParen) ::
      (tokens n ++ .ofKind (.symbol .closeParen) :: trailTokens (n + 1))

def expr : Nat → Expr
  | 0 => .name "a" Span.absent
  | n + 1 => trail (expr n) (n + 1)

theorem height_trail (e : Expr) (n : Nat) : (trail e n).height = e.height + n := by
  induction n generalizing e with
  | zero => rfl
  | succ n ih =>
    rw [trail, ih, Expr.height]
    omega

theorem height_expr (n : Nat) : (expr n).height = Parser.tallest (n + 1) := by
  induction n with
  | zero => rfl
  | succ n ih => rw [expr, height_trail, ih, Parser.tallest_succ (n + 1)]

theorem isAssignable_trail {e : Expr} (h : e.isAssignable = true) (n : Nat) :
    (trail e n).isAssignable = true := by
  induction n generalizing e with
  | zero => exact h
  | succ n ih => exact ih rfl

theorem isAssignable_expr (n : Nat) : (expr n).isAssignable = true := by
  induction n with
  | zero => rfl
  | succ n ih => exact isAssignable_trail ih _

open Offside.Parser

/-- No parenthesis follows the attributes. -/
theorem kind_ne_of_trail {n : Nat} {c after : Cursor} (hreads : c.Reads (trailTokens n) after)
    (hends : after.kind.continuesExpr = false) : c.kind ≠ .symbol .openParen := by
  cases n with
  | zero =>
    rw [hreads.eq_of_nil]
    intro hkind
    rw [show after.kind = .symbol .openParen from hkind] at hends
    cases hends
  | succ n =>
    rw [hreads.kind]
    simp [Token.ofKind]

/-- Reading the attributes takes one level for each. -/
theorem extendAt_trail {n budget : Nat} (hn : n ≤ budget) (e : Expr) {c after : Cursor}
    (hdepth : budget + c.depth ≤ c.maxDepth) (hreads : c.Reads (trailTokens n) after)
    (hends : after.kind.continuesExpr = false) :
    ∃ depth, extendAt budget Binding.lowest e c =
      .ok (trail e n) { after with depth := depth } := by
  induction n generalizing budget e c with
  | zero =>
    rw [hreads.eq_of_nil]
    exact ⟨c.depth, extendAt_of_none (extension?_lowest_eq_none_iff.mpr hends)⟩
  | succ n ih =>
    obtain ⟨fewer, rfl⟩ : ∃ fewer, budget = fewer + 1 := Nat.exists_eq_succ_of_ne_zero (by omega)
    have hdot : extension? Binding.lowest c.kind = some .member := by
      rw [hreads.kind]
      rfl
    have hdeeper := hreads.setDepth (c.depth + 1)
    have hopen : ({ c with depth := c.depth + 1 } : Cursor).next.next.isAt
        (.symbol .openParen) = false := by
      rw [Bool.eq_false_iff, Ne, Cursor.isAt, TokenKind.isA_symbol]
      exact kind_ne_of_trail hdeeper.tail.tail hends
    have hmember : memberOf (exprAt fewer) e { c with depth := c.depth + 1 } =
        .ok (.member e "x" (e.span.through Span.absent))
          ({ c with depth := c.depth + 1 } : Cursor).next.next := by
      rw [memberOf_of_word hdeeper.tail.rest rfl, bind_ok (skip_of_not_isAt hopen)]
      rfl
    rw [extendAt_succ_of_some hdot (by omega), extend, bind_ok hmember]
    apply ih (by omega) _ _ hdeeper.tail.tail
    simp only [Cursor.depth_next, Cursor.maxDepth_next]
    omega

/-- An expression of one token. -/
theorem exprAt_single {budget : Nat} {e : Expr} {token : Token} {c after : Cursor}
    (hdepth : c.depth < c.maxDepth) (hreads : c.Reads [token] after)
    (hends : after.kind.continuesExpr = false)
    (hoperand : operand (exprAt budget) Binding.lowest { c with depth := c.depth + 1 } =
      .ok e ({ c with depth := c.depth + 1 } : Cursor).next) :
    exprAt (budget + 1) Binding.lowest c = .ok e { after with depth := c.depth } := by
  have hstop : extension? Binding.lowest after.kind = none :=
    extension?_lowest_eq_none_iff.mpr hends
  rw [exprAt_succ hdepth, bind_ok hoperand, (hreads.setDepth (c.depth + 1)).next_eq,
    extendAt_of_none (c := { after with depth := c.depth + 1 }) hstop]
  rfl

theorem exprAt_tower (n : Nat) {c after : Cursor} (hdepth : n + 1 + c.depth ≤ c.maxDepth)
    (hreads : c.Reads (tokens n) after) (hends : after.kind.continuesExpr = false) :
    exprAt (n + 1) Binding.lowest c = .ok (expr n) { after with depth := c.depth } := by
  induction n generalizing c after with
  | zero =>
    have hdeeper := hreads.setDepth (c.depth + 1)
    refine exprAt_single (by omega) hreads hends ?_
    rw [operand_name hdeeper.kind, hdeeper.span]
    rfl
  | succ n ih =>
    have hdeeper := hreads.setDepth (c.depth + 1)
    obtain ⟨mid, -, hinner, hclose⟩ := hdeeper.split_cons
    obtain ⟨last, -, hstop, htrail⟩ :=
      (show mid.Reads ([.ofKind (.symbol .closeParen)] ++ trailTokens (n + 1)) after
        from hclose).split
    have hkind : mid.kind = .symbol .closeParen := hclose.kind
    have hgroup := ih (c := ({ c with depth := c.depth + 1 } : Cursor).next)
      (by simp only [Cursor.depth_next, Cursor.maxDepth_next]; omega) hinner.tail
      (by rw [hkind]; rfl)
    have hoperand : operand (exprAt (n + 1)) Binding.lowest { c with depth := c.depth + 1 } =
        .ok (expr n) { last with depth := c.depth + 1 } := by
      rw [operand_group hdeeper.kind, bind_ok hgroup,
        bind_ok (expect_of_reads (hstop.setDepth _) rfl _), Cursor.depth_next]
      rfl
    have hlimit : last.maxDepth = c.maxDepth := hstop.maxDepth.trans hinner.maxDepth
    have hdepth' : n + 1 + (c.depth + 1) ≤ last.maxDepth := by omega
    obtain ⟨depth, hextend⟩ := extendAt_trail (Nat.le_refl (n + 1)) (expr n)
      (c := { last with depth := c.depth + 1 }) hdepth' (htrail.setDepth _) hends
    rw [exprAt_succ (by omega), bind_ok hoperand, hextend]
    rfl

/-! ### A program -/

/-- The tokens of an augmented assignment to a tower. -/
def programTokens (n : Nat) : List Token :=
  tokens n ++ [.ofKind (.symbol .plusAssign), .ofKind (.literal (.int 1))]

def one : Expr := .constant (.int 1) Span.absent

/-- The sum of a tower and one. -/
def sum (n : Nat) : Expr := .binary .add (expr n) one ((expr n).span.through one.span)

theorem height_sum (n : Nat) : (sum n).height = tallest (n + 1) + 1 := by
  have hpos := tallest_pos (n + 1)
  rw [sum, Expr.height, height_expr, one, Expr.height, Nat.max_eq_left hpos]

theorem exprAt_one {budget : Nat} {c after : Cursor} (hdepth : c.depth < c.maxDepth)
    (hreads : c.Reads [.ofKind (.literal (.int 1))] after)
    (hends : after.kind.continuesExpr = false) :
    exprAt (budget + 1) Binding.lowest c = .ok one { after with depth := c.depth } := by
  have hdeeper := hreads.setDepth (c.depth + 1)
  refine exprAt_single hdepth hreads hends ?_
  rw [operand_literal hdeeper.kind, hdeeper.span]
  rfl

/-- With just as many levels as the tower needs, the assignment is read to its end. -/
theorem simpleStatement_tower (n : Nat) {c after : Cursor} (hlimit : c.maxDepth = n + 1)
    (hdepth : c.depth = 0) (hreads : c.Reads (programTokens n) after)
    (hafter : after.rest = []) :
    ∃ span last, simpleStatement c = .ok (.assign (expr n) (sum n) span) last ∧
      last.rest = [] := by
  obtain ⟨mid, hmid, htower, hrest⟩ := hreads.split
  have hkind : mid.kind = .symbol .plusAssign := hrest.kind
  have hend : after.kind = .layout .endOfInput := by simp [Cursor.kind, hafter]
  have htarget : Parser.expr Binding.lowest c = .ok (expr n) mid := by
    have hbudget : c.budget = n + 1 := by rw [Cursor.budget, hlimit, hdepth, Nat.sub_zero]
    rw [Parser.expr, hbudget, exprAt_tower n (by omega) htower (by rw [hkind]; rfl), ← hmid]
  have hvalue : Parser.expr Binding.lowest mid.next = .ok one { after with depth := 0 } := by
    have hbudget : mid.next.budget = n + 1 := by
      rw [Cursor.budget, Cursor.maxDepth_next, Cursor.depth_next, htower.maxDepth, hlimit, hmid,
        hdepth, Nat.sub_zero]
    rw [Parser.expr, hbudget, exprAt_one (by simp [htower.maxDepth, hlimit, hmid, hdepth])
      hrest.tail (by rw [hend]; rfl), Cursor.depth_next, hmid, hdepth]
  have hline : expectLineEnd { after with depth := 0 } = .ok () { after with depth := 0 } := by
    simp [expectLineEnd, Cursor.isAt, Cursor.atEnd, Cursor.kind, hafter, TokenKind.isA]
  have hcheck : checkTarget (expr n) mid = .ok () mid := by
    rw [checkTarget, if_pos (isAssignable_expr n)]
    rfl
  refine ⟨c.span.through ({ after with depth := 0 } : Cursor).lastSpan,
    { after with depth := 0 }, ?_, hafter⟩
  rw [simpleStatement, get_bind, bind_ok htarget, get_bind]
  simp only [hkind, TokenKind.augmentation?]
  rw [if_neg (by decide), bind_ok hcheck, bump_bind, bind_ok hvalue, bind_ok (pure_eq _ _),
    get_bind, bind_ok hline]
  rfl

/-- The first token of a tower starts no statement of another kind. -/
theorem statementOf_tower {statement alternative : Parser Stmt} {n : Nat} {c after : Cursor}
    (hreads : c.Reads (programTokens n) after) :
    statementOf statement alternative c = simpleStatement c := by
  rw [statementOf, get_bind]
  cases n with
  | zero => simp only [hreads.kind, Token.ofKind]
  | succ n => simp only [hreads.kind, Token.ofKind]

theorem program_tower (n : Nat) :
    ∃ span place last, program (Cursor.ofTokens (programTokens n) (n + 1)) =
      .ok ⟨[.assign (expr n) (sum n) span], place⟩ last := by
  obtain ⟨start, hstart⟩ : ∃ c, c = Cursor.ofTokens (programTokens n) (n + 1) := ⟨_, rfl⟩
  let after : Cursor := { start with past := (programTokens n).reverse, rest := [] }
  have hreads : start.Reads (programTokens n) after := by
    subst hstart
    exact ⟨by simp [Cursor.ofTokens, after], by simp [Cursor.ofTokens, after], rfl, rfl, rfl⟩
  obtain ⟨span, last, hsimple, hlast⟩ := simpleStatement_tower n (c := start)
    (by rw [hstart]; rfl) (by rw [hstart]; rfl) hreads rfl
  have hstatement : statement start = .ok (.assign (expr n) (sum n) span) last := by
    have hbudget : start.budget = n + 1 := by rw [hstart]; rfl
    rw [statement, hbudget, statementAt]
    exact (statementOf_tower hreads).trans hsimple
  have hopen : start.atEnd = false := by
    cases n with
    | zero => simp only [Cursor.atEnd, hreads.kind]; rfl
    | succ n => simp only [Cursor.atEnd, hreads.kind]; rfl
  have hend : last.atEnd = true := by simp [Cursor.atEnd, Cursor.kind, hlast]
  have hbody : manyUntil Cursor.atEnd statement start =
      .ok [.assign (expr n) (sum n) span] last := by
    rw [manyUntil, get_bind, repeatUntil_succ hopen, bind_ok hstatement,
      bind_ok (repeatUntil_of_stop hend _)]
    rfl
  rw [← hstart]
  exact ⟨span, _, last, by rw [program, bind_ok hbody]; rfl⟩

end Tower

end Offside
