/-
What the limit of nesting means for the height of the expressions of a program.
-/
import Offside.Proofs.Grammar.Readings
import Offside.Proofs.Grammar.Towers

namespace Offside

/-- Nothing at all is read without a level of nesting. -/
theorem Expr.ReadIn.height_le {origin : Cursor} {e : Expr} (h : e.ReadIn origin) :
    0 < origin.maxDepth ∧ e.height ≤ Parser.tallest origin.maxDepth := by
  obtain ⟨c, c', hfollows, hread⟩ := h
  obtain ⟨_, _, _, fewer, hfewer, -⟩ := Parser.exprAt_ok hread
  have hle : c.budget ≤ origin.maxDepth := hfollows.shares.maxDepth ▸ Nat.sub_le _ _
  exact ⟨by omega,
    Nat.le_trans (Parser.exprAt_height c.budget hread).1 (Parser.tallest_mono hle)⟩

/-- An augmented assignment may be one taller than what has been read. -/
theorem Expr.Made.height_le {origin : Cursor} {assignments : List Assignment} {e : Expr}
    (h : e.Made origin assignments) :
    0 < origin.maxDepth ∧ e.height ≤ Parser.tallest origin.maxDepth + 1 := by
  cases h with
  | read hread =>
    obtain ⟨hpos, hheight⟩ := hread.height_le
    exact ⟨hpos, Nat.le_succ_of_le hheight⟩
  | augmented _ htarget hright =>
    obtain ⟨hpos, hleft⟩ := htarget.height_le
    have hother := hright.height_le.2
    rw [Expr.height]
    exact ⟨hpos, by omega⟩

namespace Parser

variable {limit : Nat}

theorem program_height {c last : Cursor} {program : Module} {e : Expr}
    (hlimit : c.maxDepth = limit) (h : Parser.program c = .ok program last)
    (he : program.Holds e) : 0 < limit ∧ e.height ≤ limit * (limit - 1) / 2 + 2 := by
  obtain ⟨stmt, hstmt, whole, hwhole, hpart⟩ := he
  obtain ⟨hpos, hheight⟩ := (program_readIn h stmt hstmt whole hwhole).height_le
  rw [hlimit] at hpos hheight
  exact ⟨hpos, Nat.le_trans hpart.height_le hheight⟩

theorem exists_program_height (hlimit : 0 < limit) :
    ∃ tokens program last e, Parser.program (Cursor.ofTokens tokens limit) = .ok program last ∧
      program.Holds e ∧ e.height = limit * (limit - 1) / 2 + 2 := by
  obtain ⟨n, rfl⟩ : ∃ n, limit = n + 1 := Nat.exists_eq_succ_of_ne_zero (by omega)
  obtain ⟨span, place, last, h⟩ := Tower.program_tower n
  exact ⟨_, _, last, Tower.sum n, h, ⟨_, List.mem_singleton.mpr rfl, _, .value, .self⟩,
    Tower.height_sum n⟩

/-- The limit of nesting bounds the height of all expressions of a program by two more than a
triangular number.  Every positive limit lets an expression of just that height pass, so the limit
itself bounds the heights only where it lets no expression pass at all. -/
theorem program_height_le_limit_iff (limit : Nat) :
    (∀ c program last e, c.maxDepth = limit → Parser.program c = .ok program last →
      program.Holds e → e.height ≤ limit * (limit - 1) / 2 + 2) ∧
    (0 < limit → ∃ tokens program last e,
      Parser.program (Cursor.ofTokens tokens limit) = .ok program last ∧ program.Holds e ∧
        e.height = limit * (limit - 1) / 2 + 2) ∧
    ((∀ tokens program last e,
      Parser.program (Cursor.ofTokens tokens limit) = .ok program last → program.Holds e →
        e.height ≤ limit) ↔ limit = 0) := by
  refine ⟨fun c program last e hlimit h he => (program_height hlimit h he).2,
    exists_program_height, ?_, ?_⟩
  · intro h
    by_contra hne
    obtain ⟨tokens, program, last, e, hprogram, he, hheight⟩ :=
      exists_program_height (Nat.pos_of_ne_zero hne)
    have hle := h tokens program last e hprogram he
    have htallest : limit ≤ limit * (limit - 1) / 2 + 1 := le_tallest limit
    omega
  · rintro rfl tokens program last e h he
    exact absurd (program_height rfl h he).1 (Nat.lt_irrefl 0)

end Parser

namespace NestingLimitWitness

/-- `((a).x).x.x += 1` -/
def tokens : List Token := Tower.programTokens 2

/-- With three levels of nesting an expression of height five is read. -/
theorem not_height_le_limit :
    ¬ ∀ limit tokens program last e,
      Parser.program (Cursor.ofTokens tokens limit) = .ok program last → program.Holds e →
        e.height ≤ limit := by
  intro h
  obtain ⟨span, place, last, hread⟩ := Tower.program_tower 2
  have hle := h 3 tokens _ last (Tower.sum 2) hread
    ⟨_, List.mem_singleton.mpr rfl, _, .value, .self⟩
  exact absurd hle (by decide)

/-- The default limit lets an expression of height 4952 pass. -/
theorem exists_height_default :
    0 < Cursor.defaultMaxDepth ∧ ∃ tokens program last e,
      Parser.program (Cursor.ofTokens tokens Cursor.defaultMaxDepth) = .ok program last ∧
        program.Holds e ∧ e.height = 4952 := by
  have hpos : 0 < Cursor.defaultMaxDepth := by decide
  exact ⟨hpos, (Parser.program_height_le_limit_iff Cursor.defaultMaxDepth).2.1 hpos⟩

end NestingLimitWitness

end Offside
