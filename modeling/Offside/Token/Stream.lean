/-
Running the lexer: the next token on demand, and all tokens of a text up to its end or its first
error.
-/
import Offside.Token.Effort

namespace Offside

variable [IdentifierTables]

namespace Lexer

/-- The next token; nothing once the end of the input has been handed out. -/
def next (lexer : Lexer) : Answer × Lexer :=
  match _h : lexer.move with
  | .answer answer after => (answer, after)
  | .silent after => next after
termination_by lexer.effort
decreasing_by
  have := move_spends lexer
  rw [_h] at this
  exact this

/-- Every answer but the last leaves less to do than before. -/
theorem next_spends (lexer : Lexer) :
    lexer.next.2.effort ≤ lexer.effort ∧
      (lexer.next.1.isLast = false → lexer.next.2.effort < lexer.effort) := by
  fun_induction next lexer with
  | case1 lexer answer after h =>
    have hmove := move_spends lexer
    simp only [h, Move.Spends] at hmove
    split at hmove
    · next hlast =>
      subst hmove
      exact ⟨Nat.le_refl _, fun h => absurd (hlast.symm.trans h) (by decide)⟩
    · exact ⟨Nat.le_of_lt hmove, fun _ => hmove⟩
  | case2 lexer after h ih =>
    have hmove := move_spends lexer
    simp only [h, Move.Spends] at hmove
    have hlt := Nat.lt_of_le_of_lt ih.1 hmove
    exact ⟨Nat.le_of_lt hlt, fun _ => hlt⟩

theorem next_lt {lexer after : Lexer} {token : Token}
    (h : lexer.next = (.ok (some token), after)) : after.effort < lexer.effort := by
  have hspends := (next_spends lexer).2
  rw [h] at hspends
  exact hspends rfl

/-- Every token up to the end of the input or the first failure, and that failure. -/
def run (lexer : Lexer) : List Token × Option (Failure LexicalError) :=
  match _h : lexer.next with
  | (.error error, _) => ([], some error)
  | (.ok none, _) => ([], none)
  | (.ok (some token), after) =>
    let (tokens, error) := run after
    (token :: tokens, error)
termination_by lexer.effort
decreasing_by exact next_lt _h

end Lexer

/-- The tokens of a text, or the first reason why it has none. -/
def tokenize (text : String) (tabWidth : Nat) : Except (Failure LexicalError) (List Token) :=
  match (Lexer.ofString text tabWidth).run with
  | (tokens, none) => .ok tokens
  | (_, some error) => .error error

end Offside
