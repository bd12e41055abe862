/-
The open levels behind any history of lines, refused lines included.  They always lie one within the
other, and therefore the levels and the width of a line decide how the line is answered and which
levels it leaves.
-/
import Offside.Proofs.Token.Levels

namespace Offside.Indentation

/-- What open levels are asked for: to meet a line, or to close at the end of the input. -/
inductive Request where
  | meet (width : Nat) (place : Position)
  | close (place : Position)
  deriving Repr, DecidableEq

/-- The levels that a request leaves, whether it succeeds or not. -/
def serve (blocks : Indentation) : Request → Indentation
  | .meet width place => (blocks.meet width place).2
  | .close place => (blocks.close place).2

/-- The levels behind a history of requests. -/
def behind (requests : List Request) : Indentation := requests.foldl serve base

variable {blocks after : Indentation} {width : Nat} {place : Position} {marks : List Token}
  {error : LexicalError}

/-- The levels that a line of this width stands within, the base outermost. -/
def around (blocks : Indentation) (width : Nat) : List Nat := blocks.stack.filter (· < width)

/-! ### One request -/

namespace Nested

/-- Whatever is asked for leaves levels that lie one within the other. -/
theorem serve (h : blocks.Nested) (request : Request) : (blocks.serve request).Nested := by
  cases request with
  | close place => exact nested_base
  | meet width place =>
    rw [Indentation.serve, meet]
    split
    · next hdeeper => exact h.cons hdeeper
    · dsimp only
      split
      · exact h.keep width
      · exact h.keep width

/-- A line is met on a new level or on one that is open. -/
theorem exists_meet_ok_iff (h : blocks.Nested) :
    (∃ marks, (blocks.meet width place).1 = .ok marks) ↔
      blocks.top < width ∨ width ∈ blocks.stack := by
  rw [← h.top_keep_iff, meet]
  split
  · next hdeeper => exact ⟨fun _ => .inl hdeeper, fun _ => ⟨_, rfl⟩⟩
  · next hdeeper =>
    dsimp only
    split
    · next htop => exact ⟨fun _ => .inr htop, fun _ => ⟨_, rfl⟩⟩
    · next htop =>
      refine ⟨?_, fun hmet => (hmet.elim hdeeper htop).elim⟩
      rintro ⟨marks, hmarks⟩
      cases hmarks

/-- The innermost level stands within all others. -/
theorem stack_eq (h : blocks.Nested) : blocks.stack = blocks.around blocks.top ++ [blocks.top] := by
  obtain ⟨outer, houter⟩ := List.getLast?_eq_some_iff.mp blocks.getLast?_stack
  have hwithin : ∀ v ∈ outer, v < blocks.top := by
    rw [Nested, houter, List.pairwise_append] at h
    exact fun v hv => h.2.2 v hv blocks.top (List.mem_singleton_self _)
  rw [around, houter, List.filter_append, List.filter_eq_self.mpr (by simpa using hwithin),
    List.filter_cons_of_neg (by simp), List.filter_nil, List.append_nil]

/-- Closing the levels deeper than a line keeps those that it stands within. -/
theorem around_keep (h : blocks.Nested) (width : Nat) :
    (⟨blocks.keep width⟩ : Indentation).around width = blocks.around width := by
  rw [around, around, h.stack_keep, List.filter_filter]
  refine List.filter_congr fun v _ => ?_
  rw [← Bool.decide_and]
  exact decide_eq_decide.mpr ⟨fun hv => hv.1, fun hlt => ⟨hlt, Nat.le_of_lt hlt⟩⟩

/-- The width of a line that is met is the innermost level behind it. -/
theorem stack_of_meet (h : blocks.Nested) (hmeet : blocks.meet width place = (.ok marks, after)) :
    after.stack = blocks.around width ++ [width] := by
  rcases meet_ok hmeet with ⟨hdeeper, -, rfl⟩ | ⟨-, rfl, htop, -⟩
  · have hwithin : blocks.stack.filter (· < width) = blocks.stack :=
      List.filter_eq_self.mpr fun v hv =>
        decide_eq_true (Nat.lt_of_le_of_lt (h.le_top hv) hdeeper)
    rw [stack_cons, around, hwithin]
  · rw [(h.keep width).stack_eq, htop, h.around_keep]

/-- Behind a line that is refused just the levels are open that it stands within. -/
theorem stack_of_meet_error (h : blocks.Nested)
    (hmeet : blocks.meet width place = (.error error, after)) :
    after.stack = blocks.around width := by
  obtain ⟨-, -, rfl, htop⟩ := meet_error hmeet
  have hne : ∀ v ∈ blocks.stack, v ≠ width := by
    rintro v hv rfl
    exact htop (h.top_keep_iff.mpr hv)
  rw [h.stack_keep, around]
  refine List.filter_congr fun v hv => decide_eq_decide.mpr ⟨fun hle => ?_, Nat.le_of_lt⟩
  exact Nat.lt_of_le_of_ne hle (hne v hv)

/-- A line that goes back closes at least one level, any other line closes none. -/
theorem depth_keep_lt_iff (h : blocks.Nested) :
    (⟨blocks.keep width⟩ : Indentation).depth < blocks.depth ↔ width < blocks.top := by
  have hlengths := congrArg List.length (h.stack_keep width)
  have hless : (blocks.stack.filter (· ≤ width)).length < blocks.stack.length ↔
      ∃ v ∈ blocks.stack, ¬ v ≤ width := by
    rw [List.length_filter_lt_length_iff_exists]
    simp
  rw [← hlengths, length_stack, length_stack, Nat.add_lt_add_iff_right] at hless
  rw [hless]
  constructor
  · rintro ⟨v, hv, hdeeper⟩
    exact Nat.lt_of_lt_of_le (Nat.not_le.mp hdeeper) (h.le_top hv)
  · exact fun hback => ⟨blocks.top, blocks.top_mem_stack, Nat.not_le.mpr hback⟩

/-- A line is met with one mark for every level that it opens or closes. -/
theorem marks_of_meet (h : blocks.Nested) (hmeet : blocks.meet width place = (.ok marks, after)) :
    (blocks.top < width → marks = [Token.mark .indent place]) ∧
      (width = blocks.top → marks = []) ∧
      (width < blocks.top → after.depth < blocks.depth ∧
        marks = List.replicate (blocks.depth - after.depth) (Token.mark .dedent place)) := by
  rcases meet_ok hmeet with ⟨hdeeper, rfl, -⟩ | ⟨hle, rfl, -, rfl⟩
  · exact ⟨fun _ => rfl, fun heq => absurd hdeeper (by omega), fun hlt => absurd hdeeper (by omega)⟩
  · refine ⟨fun hdeeper => absurd hdeeper (by omega), fun heq => ?_, fun hback => ?_⟩
    · have hsame : ¬ (⟨blocks.keep width⟩ : Indentation).depth < blocks.depth := by
        rw [h.depth_keep_lt_iff]
        omega
      rw [Nat.sub_eq_zero_of_le (Nat.not_lt.mp hsame), List.replicate_zero]
    · exact ⟨h.depth_keep_lt_iff.mpr hback, rfl⟩

end Nested

/-! ### Any history -/

theorem Nested.foldl_serve (h : blocks.Nested) (requests : List Request) :
    (requests.foldl Indentation.serve blocks).Nested := by
  induction requests generalizing blocks with
  | nil => exact h
  | cons request requests ih => exact ih (h.serve request)

theorem nested_behind (requests : List Request) : (behind requests).Nested :=
  nested_base.foldl_serve requests

/-- Behind any history of requests, failures included, the open levels start with the base and lie
one within the other.  A line is met just when it is deeper than the innermost of them or has the
width of one of them.  Then its width is the innermost level, within the same levels as before, and
there is one mark for every level that is opened or closed; a line that is refused leaves just the
levels that it stands within.  At the end of the input every level is closed, with one mark each. -/
theorem answers_behind (requests : List Request) :
    let blocks := behind requests
    (blocks.stack.head? = some 0 ∧ blocks.stack.getLast? = some blocks.top ∧
      blocks.stack.length = blocks.depth + 1 ∧ blocks.stack.Pairwise (· < ·)) ∧
    (∀ width place,
      ((∃ marks, (blocks.meet width place).1 = .ok marks) ↔
        blocks.top < width ∨ width ∈ blocks.stack) ∧
      (∀ marks after, blocks.meet width place = (.ok marks, after) →
        after.top = width ∧ after.stack = blocks.stack.filter (· < width) ++ [width] ∧
        (blocks.top < width → marks = [Token.mark .indent place]) ∧
        (width = blocks.top → marks = []) ∧
        (width < blocks.top → after.depth < blocks.depth ∧
          marks = List.replicate (blocks.depth - after.depth) (Token.mark .dedent place))) ∧
      ∀ error after, blocks.meet width place = (.error error, after) →
        error = .inconsistentDedent width place ∧
          after.stack = blocks.stack.filter (· < width)) ∧
    ∀ place, (blocks.close place).1 = List.replicate blocks.depth (Token.mark .dedent place) ∧
      (blocks.close place).2.stack = [0] ∧ (blocks.close place).2.depth = 0 := by
  intro blocks
  have h : blocks.Nested := nested_behind requests
  refine ⟨⟨rfl, blocks.getLast?_stack, blocks.length_stack, h⟩, fun width place => ?_,
    fun place => ⟨rfl, rfl, rfl⟩⟩
  refine ⟨h.exists_meet_ok_iff, fun marks after hmeet => ?_, fun error after hmeet => ?_⟩
  · have hstack := h.stack_of_meet hmeet
    have htop := after.getLast?_stack
    rw [hstack, List.getLast?_concat] at htop
    exact ⟨(Option.some.inj htop).symm, hstack, h.marks_of_meet hmeet⟩
  · exact ⟨(meet_error hmeet).1, h.stack_of_meet_error hmeet⟩

end Offside.Indentation

namespace Offside.LevelHistoryWitness

open Indentation

def place : Position := ⟨7, 1, 60⟩

/-- Two blocks, a line between their levels, which is refused, and a block at its width. -/
def history : List Request :=
  [.meet 4 ⟨1, 5, 4⟩, .meet 8 ⟨2, 9, 20⟩, .meet 6 ⟨3, 7, 30⟩, .meet 6 ⟨4, 7, 40⟩]

theorem answers_behind_refusal :
    (behind history).stack = [0, 4, 6] ∧ (behind history).stack.Pairwise (· < ·) ∧
      (behind history).meet 0 place =
        (.ok [Token.mark .dedent place, Token.mark .dedent place], base) ∧ base.top = 0 ∧
      (behind history).meet 5 place = (.error (.inconsistentDedent 5 place), ⟨[4]⟩) ∧
      (⟨[4]⟩ : Indentation).stack = (behind history).stack.filter (· < 5) := by
  have hback : (behind history).meet 0 place =
      (.ok [Token.mark .dedent place, Token.mark .dedent place], base) := by decide
  have hrefused : (behind history).meet 5 place =
      (.error (.inconsistentDedent 5 place), ⟨[4]⟩) := by decide
  obtain ⟨⟨-, -, -, hordered⟩, hmeets, -⟩ := answers_behind history
  obtain ⟨-, hmet, -⟩ := hmeets 0 place
  obtain ⟨-, -, hunmet⟩ := hmeets 5 place
  exact ⟨by decide, hordered, hback, (hmet _ _ hback).1, hrefused, (hunmet _ _ hrefused).2⟩

end Offside.LevelHistoryWitness
