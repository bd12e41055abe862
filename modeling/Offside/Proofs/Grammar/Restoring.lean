/-
What parsers restore.  Whether it answers or fails, a parser leaves the nesting of expressions and
of blocks as it was; it goes forward in the tokens, and it forgets no class.  While it runs, nesting
never gets more than one level deeper than allowed, which bounds how many readings are open at a
time, however long the input is.
-/
import Offside.Proofs.Grammar.PlannedParsers

namespace Offside

namespace Parser

variable {α : Type}

/-- What holds of every run of a parser, from whatever cursor and however it ends.  The plan names
the moves of the parser, so that the moments of its runs are known. -/
structure RestoresNesting (plan : Plan false α) (p : Parser α) : Prop where
  run : plan.run = p
  depth (c : Cursor) : (reached (p c)).depth = c.depth
  blockDepth (c : Cursor) : (reached (p c)).blockDepth = c.blockDepth
  tokens (c : Cursor) :
    (reached (p c)).past.reverse ++ (reached (p c)).rest = c.past.reverse ++ c.rest
  position_le (c : Cursor) : c.past.length ≤ (reached (p c)).past.length
  position_le_length (c : Cursor) :
    (reached (p c)).past.length ≤ (c.past.reverse ++ c.rest).length
  classes (c : Cursor) : c.classes <+: (reached (p c)).classes
  /-- No moment is nested more than one level deeper than it may be. -/
  depth_le {c moment : Cursor} {frames : Nat} (h : plan.Passes c frames moment) :
    moment.depth ≤ max c.depth c.maxDepth + 1
  /-- No more expressions, bodies of blocks and further alternatives are being read at a time. -/
  frames_le {c moment : Cursor} {frames : Nat} (h : plan.Passes c frames moment) :
    frames ≤ c.maxDepth + 1

theorem restoresNesting_run (plan : Plan false α) : RestoresNesting plan plan.run where
  run := rfl
  depth c := (plan.leaves_run c).steady rfl
  blockDepth c := (plan.leaves_run c).advances.blockDepth
  tokens c := by
    obtain ⟨read, hrest, hpast, -⟩ := (plan.leaves_run c).advances.tokens
    rw [hrest, hpast, List.reverse_append, List.reverse_reverse, List.append_assoc]
  position_le c := by
    obtain ⟨read, -, hpast, -⟩ := (plan.leaves_run c).advances.tokens
    rw [hpast, List.length_append]
    exact Nat.le_add_left _ _
  position_le_length c := by
    obtain ⟨read, hrest, hpast, -⟩ := (plan.leaves_run c).advances.tokens
    rw [hrest, hpast]
    simp only [List.length_append, List.length_reverse]
    omega
  classes c := (plan.leaves_run c).advances.classes
  depth_le := Plan.Passes.depth_le
  frames_le := Plan.Passes.frames_le

theorem RestoresNesting.of_run {plan : Plan false α} {p : Parser α} (h : plan.run = p) :
    RestoresNesting plan p :=
  h ▸ restoresNesting_run plan

/-- Expressions of every level, blocks, statements and the ends of lines: nesting is as before. -/
theorem restoresNesting :
    (∀ level, RestoresNesting (Plan.expr level) (expr level)) ∧
      RestoresNesting Plan.block block ∧
      RestoresNesting Plan.statement statement ∧
      RestoresNesting Plan.expectLineEnd expectLineEnd :=
  ⟨fun level => .of_run (Plan.run_expr level), .of_run Plan.run_block, .of_run Plan.run_statement,
    .of_run Plan.run_expectLineEnd⟩

end Parser

end Offside
