/-
How the open indentation levels answer to the width of a line: what each answer says about the
levels before it and after it.
-/
import Mathlib.Data.List.DropRight
import Mathlib.Data.List.TakeWhile
import Offside.Token.Indentation

namespace Offside

namespace Indentation

variable {blocks after : Indentation} {width : Nat} {place : Position} {marks : List Token}
  {error : LexicalError}

/-- A line that is met opens the level of its width or goes back to it. -/
theorem meet_ok (h : blocks.meet width place = (.ok marks, after)) :
    (blocks.top < width ∧ marks = [Token.mark .indent place] ∧ after = ⟨width :: blocks.levels⟩) ∨
    (width ≤ blocks.top ∧ after = ⟨blocks.keep width⟩ ∧ after.top = width ∧
      marks = List.replicate (blocks.depth - after.depth) (Token.mark .dedent place)) := by
  rw [meet] at h
  split at h
  · next hdeeper =>
    cases h
    exact .inl ⟨hdeeper, rfl, rfl⟩
  · next hdeeper =>
    dsimp only at h
    split at h
    · next htop =>
      cases h
      exact .inr ⟨Nat.not_lt.mp hdeeper, rfl, htop, rfl⟩
    · cases h

/-- A line that is refused stands between two levels. -/
theorem meet_error (h : blocks.meet width place = (.error error, after)) :
    error = .inconsistentDedent width place ∧ width ≤ blocks.top ∧ after = ⟨blocks.keep width⟩ ∧
      after.top ≠ width := by
  rw [meet] at h
  split at h
  · cases h
  · next hdeeper =>
    dsimp only at h
    split at h
    · cases h
    · next htop =>
      cases h
      exact ⟨rfl, Nat.not_lt.mp hdeeper, rfl, htop⟩

theorem top_keep_le (blocks : Indentation) (width : Nat) :
    (⟨blocks.keep width⟩ : Indentation).top ≤ width := by
  have hstop := List.head?_dropWhile_not (fun level => decide (width < level)) blocks.levels
  cases hkept : blocks.keep width with
  | nil => exact Nat.zero_le width
  | cons level levels =>
    rw [keep] at hkept
    rw [hkept] at hstop
    exact Nat.not_lt.mp (of_decide_eq_false hstop)

/-- No line leaves levels deeper than itself. -/
theorem top_meet_le (blocks : Indentation) (width : Nat) (place : Position) :
    (blocks.meet width place).2.top ≤ width := by
  rw [meet]
  split
  · exact Nat.le_refl width
  · dsimp only
    split <;> exact blocks.top_keep_le width

/-- Whatever a line closes or opens is marked where the line starts. -/
theorem eq_mark_of_meet (h : blocks.meet width place = (.ok marks, after)) :
    ∀ token ∈ marks, ∃ layout, token = Token.mark layout place := by
  intro token htoken
  rcases meet_ok h with ⟨-, rfl, -⟩ | ⟨-, -, -, rfl⟩
  · exact ⟨_, List.mem_singleton.mp htoken⟩
  · exact ⟨_, List.eq_of_mem_replicate htoken⟩

/-- Levels above the base. -/
def Raised (blocks : Indentation) : Prop := ∀ level ∈ blocks.levels, 0 < level

theorem raised_base : base.Raised := List.forall_mem_nil _

theorem Raised.meet (hblocks : blocks.Raised) (h : blocks.meet width place = (.ok marks, after)) :
    after.Raised := by
  rcases meet_ok h with ⟨hdeeper, -, rfl⟩ | ⟨-, rfl, -, -⟩
  · exact List.forall_mem_cons.mpr ⟨Nat.zero_lt_of_lt hdeeper, hblocks⟩
  · exact fun level hlevel => hblocks level ((List.dropWhile_sublist _).subset hlevel)

/-- A line that is not indented closes every level. -/
theorem Raised.meet_zero (hblocks : blocks.Raised) (place : Position) :
    blocks.meet 0 place = (.ok (List.replicate blocks.depth (Token.mark .dedent place)), base) := by
  have hkeep : blocks.keep 0 = [] :=
    List.dropWhile_eq_nil_iff.mpr fun level hlevel => decide_eq_true (hblocks level hlevel)
  rw [Indentation.meet, if_neg (Nat.not_lt_zero _), hkeep]
  exact if_pos rfl

/-! ### Levels one within the other -/

theorem length_stack (blocks : Indentation) : blocks.stack.length = blocks.depth + 1 := by
  rw [stack, List.length_cons, List.length_reverse, depth]

theorem mem_stack {v : Nat} : v ∈ blocks.stack ↔ v = 0 ∨ v ∈ blocks.levels := by
  rw [stack, List.mem_cons, List.mem_reverse]

theorem stack_cons (width : Nat) (levels : List Nat) :
    (⟨width :: levels⟩ : Indentation).stack = (⟨levels⟩ : Indentation).stack ++ [width] := by
  simp [stack]

theorem getLast?_stack (blocks : Indentation) : blocks.stack.getLast? = some blocks.top := by
  obtain ⟨levels⟩ := blocks
  cases levels with
  | nil => rfl
  | cons level levels =>
    rw [stack_cons, List.getLast?_concat]
    rfl

theorem top_mem_stack (blocks : Indentation) : blocks.top ∈ blocks.stack :=
  List.mem_of_getLast? blocks.getLast?_stack

/-- Closing levels from the inside stops at the base at the latest. -/
theorem stack_keep (blocks : Indentation) (width : Nat) :
    (⟨blocks.keep width⟩ : Indentation).stack = blocks.stack.rdropWhile (width < ·) := by
  rw [stack, stack, keep, List.rdropWhile, List.reverse_cons, List.reverse_reverse,
    List.dropWhile_append]
  split
  · next hnone =>
    rw [List.isEmpty_iff.mp hnone]
    rfl
  · rw [List.reverse_append]
    rfl

theorem rdropWhile_eq_filter {widths : List Nat} (h : widths.Pairwise (· < ·)) (width : Nat) :
    widths.rdropWhile (width < ·) = widths.filter (· ≤ width) := by
  induction widths using List.reverseRecOn with
  | nil => rfl
  | append_singleton widths last ih =>
    obtain ⟨hinner, -, hlast⟩ := List.pairwise_append.mp h
    rw [List.rdropWhile_concat]
    by_cases hdeeper : width < last
    · rw [if_pos (decide_eq_true hdeeper), ih hinner, List.filter_append,
        List.filter_cons_of_neg (by simpa using hdeeper), List.filter_nil, List.append_nil]
    · rw [if_neg (by simpa using hdeeper), eq_comm, List.filter_eq_self]
      intro v hv
      have hle : last ≤ width := Nat.not_lt.mp hdeeper
      rcases List.mem_append.mp hv with hv | hv
      · exact decide_eq_true (Nat.le_trans (Nat.le_of_lt (hlast v hv last (by simp))) hle)
      · rw [List.mem_singleton.mp hv]
        exact decide_eq_true hle

/-- Every level lies within the one before it, the first one within the base. -/
def Nested (blocks : Indentation) : Prop := blocks.stack.Pairwise (· < ·)

theorem nested_base : base.Nested := List.pairwise_singleton _ _

namespace Nested

theorem le_top (h : blocks.Nested) {v : Nat} (hv : v ∈ blocks.stack) : v ≤ blocks.top := by
  obtain ⟨front, hfront⟩ := List.getLast?_eq_some_iff.mp blocks.getLast?_stack
  rw [Nested, hfront, List.pairwise_append] at h
  rw [hfront] at hv
  rcases List.mem_append.mp hv with hv | hv
  · exact Nat.le_of_lt (h.2.2 v hv blocks.top (by simp))
  · exact Nat.le_of_eq (List.mem_singleton.mp hv)

theorem stack_keep (h : blocks.Nested) (width : Nat) :
    (⟨blocks.keep width⟩ : Indentation).stack = blocks.stack.filter (· ≤ width) := by
  rw [Indentation.stack_keep, rdropWhile_eq_filter h]

theorem keep (h : blocks.Nested) (width : Nat) : (⟨blocks.keep width⟩ : Indentation).Nested := by
  rw [Nested, h.stack_keep]
  exact h.filter _

theorem cons (h : blocks.Nested) (hdeeper : blocks.top < width) :
    (⟨width :: blocks.levels⟩ : Indentation).Nested := by
  rw [Nested, stack_cons, List.pairwise_append]
  refine ⟨h, List.pairwise_singleton _ _, fun v hv w hw => ?_⟩
  rw [List.mem_singleton.mp hw]
  exact Nat.lt_of_le_of_lt (h.le_top hv) hdeeper

/-- A line goes back to a level just when its width is that of a level. -/
theorem top_keep_iff (h : blocks.Nested) :
    (⟨blocks.keep width⟩ : Indentation).top = width ↔ width ∈ blocks.stack := by
  have hkept (v : Nat) :
      v ∈ (⟨blocks.keep width⟩ : Indentation).stack ↔ v ∈ blocks.stack ∧ v ≤ width := by
    simp [h.stack_keep]
  constructor
  · intro htop
    have hmem := top_mem_stack ⟨blocks.keep width⟩
    rw [htop] at hmem
    exact ((hkept width).mp hmem).1
  · intro hwidth
    have hge := (h.keep width).le_top ((hkept width).mpr ⟨hwidth, Nat.le_refl width⟩)
    exact Nat.le_antisymm (blocks.top_keep_le width) hge

end Nested

end Indentation

end Offside
