/-
Two ways to the place of a character: counting while a text is read, and looking its byte offset
up in the table of lines.  They agree at every place between two characters of the text.
-/
import Mathlib.Data.List.Induction
import Mathlib.Data.String.Basic
import Offside.Source.Text

namespace Offside

open String (utf8Len)

/-- What a text has behind its last line feed. -/
def lastLine (cs : List Char) : List Char := (cs.reverse.takeWhile (· != '\n')).reverse

theorem lastLine_lineFeed (cs : List Char) : lastLine (cs ++ ['\n']) = [] := by
  simp [lastLine]

theorem lastLine_concat {c : Char} (hc : c ≠ '\n') (cs : List Char) :
    lastLine (cs ++ [c]) = lastLine cs ++ [c] := by
  simp [lastLine, hc]

theorem lastLine_concat_ne_nil {c : Char} (hc : c ≠ '\n') (cs : List Char) :
    lastLine (cs ++ [c]) ≠ [] := by
  rw [lastLine_concat hc]
  exact List.append_ne_nil_of_right_ne_nil _ (List.cons_ne_nil _ _)

theorem lastLine_append {run : List Char} (hrun : '\n' ∉ run) (cs : List Char) :
    lastLine (cs ++ run) = lastLine cs ++ run := by
  induction run using List.reverseRecOn with
  | nil => simp
  | append_singleton run c ih =>
    simp only [List.mem_append, List.mem_singleton, not_or] at hrun
    rw [← List.append_assoc, lastLine_concat (Ne.symm hrun.2), ih hrun.1, List.append_assoc]

/-- In front of the last line a text is empty, or ends with a line feed. -/
theorem exists_lastLine (cs : List Char) :
    ∃ front, cs = front ++ lastLine cs ∧ lastLine front = [] ∧ '\n' ∉ lastLine cs := by
  induction cs using List.reverseRecOn with
  | nil => exact ⟨[], rfl, rfl, List.not_mem_nil⟩
  | append_singleton cs c ih =>
    by_cases hc : c = '\n'
    · subst hc
      refine ⟨cs ++ ['\n'], ?_, lastLine_lineFeed cs, ?_⟩
      · rw [lastLine_lineFeed, List.append_nil]
      · rw [lastLine_lineFeed]
        exact List.not_mem_nil
    · obtain ⟨front, hfront, hstart, hplain⟩ := ih
      refine ⟨front, ?_, hstart, ?_⟩
      · rw [lastLine_concat hc, ← List.append_assoc, ← hfront]
      · rw [lastLine_concat hc]
        exact List.not_mem_append hplain (by simpa using Ne.symm hc)

/-! ### Counting while reading -/

namespace Position

theorem offset_next (place : Position) (c : Char) :
    (place.next c).offset = place.offset + c.utf8Size := by
  unfold next
  split
  · next hc =>
    subst hc
    rfl
  · rfl

theorem line_next (place : Position) (c : Char) :
    (place.next c).line = place.line + if c = '\n' then 1 else 0 := by
  unfold next
  split <;> rfl

theorem offset_after (place : Position) (run : List Char) :
    (place.after run).offset = place.offset + utf8Len run := by
  induction run generalizing place with
  | nil => rfl
  | cons c run ih =>
    rw [after_cons, ih, offset_next, String.utf8Len_cons]
    omega

theorem line_after (place : Position) (run : List Char) :
    (place.after run).line = place.line + run.count '\n' := by
  induction run generalizing place with
  | nil => rfl
  | cons c run ih =>
    rw [after_cons, ih, line_next, List.count_cons]
    simp only [beq_iff_eq]
    omega

theorem after_concat (place : Position) (run : List Char) (c : Char) :
    place.after (run ++ [c]) = (place.after run).next c := by
  rw [after_append, after_cons, after_nil]

theorem column_after_first (run : List Char) :
    (first.after run).column = 1 + (lastLine run).length := by
  induction run using List.reverseRecOn with
  | nil => rfl
  | append_singleton run c ih =>
    rw [after_concat]
    by_cases hc : c = '\n'
    · subst hc
      rw [lastLine_lineFeed]
      rfl
    · rw [lastLine_concat hc, List.length_append, next, if_neg hc]
      simp only [ih, List.length_singleton]
      omega

theorem offset_after_first (run : List Char) : (first.after run).offset = utf8Len run := by
  rw [offset_after]
  exact Nat.zero_add _

theorem offset_after_le (place : Position) (run : List Char) :
    place.offset ≤ (place.after run).offset := by
  rw [offset_after]
  exact Nat.le_add_right _ _

end Position

/-! ### Looking up an offset -/

namespace SourceText

theorem leading?_append (before rest : List Char) :
    leading? (utf8Len before) (before ++ rest) = some before := by
  induction before with
  | nil => cases rest <;> rfl
  | cons c before ih =>
    obtain ⟨bytes, hbytes⟩ : ∃ bytes, utf8Len before + c.utf8Size = bytes + 1 :=
      Nat.exists_eq_succ_of_ne_zero (by have := c.utf8Size_pos; omega)
    rw [String.utf8Len_cons, hbytes, List.cons_append, leading?, if_pos (by omega), ← hbytes,
      Nat.add_sub_cancel, ih]
    rfl

theorem between?_append (before run rest : List Char) :
    between? (utf8Len before) (utf8Len (before ++ run)) (before ++ run ++ rest) = some run := by
  have hbefore := leading?_append before (run ++ rest)
  rw [← List.append_assoc] at hbefore
  simp only [between?, hbefore, leading?_append, Option.bind_eq_bind, Option.bind_some,
    List.drop_left]
  rfl

theorem startsFrom_append (offset : Nat) (left right : List Char) :
    startsFrom offset (left ++ right) =
      startsFrom offset left ++ startsFrom (offset + utf8Len left) right := by
  induction left generalizing offset with
  | nil => rfl
  | cons c left ih =>
    have hoffset : offset + c.utf8Size + utf8Len left = offset + utf8Len (c :: left) := by
      rw [String.utf8Len_cons]
      omega
    rw [List.cons_append, startsFrom, startsFrom, ih, hoffset]
    split <;> rfl

theorem length_startsFrom (offset : Nat) (cs : List Char) :
    (startsFrom offset cs).length = cs.count '\n' := by
  induction cs generalizing offset with
  | nil => rfl
  | cons c cs ih =>
    rw [startsFrom, List.count_cons]
    split
    · next hc => simp [hc, ih]
    · next hc => simp [hc, ih]

theorem mem_startsFrom {offset start : Nat} {cs : List Char} (h : start ∈ startsFrom offset cs) :
    offset < start ∧ start ≤ offset + utf8Len cs := by
  induction cs generalizing offset with
  | nil => simp [startsFrom] at h
  | cons c cs ih =>
    have hsize := c.utf8Size_pos
    rw [String.utf8Len_cons]
    rw [startsFrom] at h
    split at h
    · rcases List.mem_cons.mp h with rfl | h
      · omega
      · have := ih h
        omega
    · have := ih h
      omega

/-- The lines that start up to a place are those behind the line feeds before it. -/
theorem takeWhile_startsFrom (before rest : List Char) :
    (startsFrom 0 (before ++ rest)).takeWhile (· ≤ utf8Len before) = startsFrom 0 before := by
  have hbefore : ∀ start ∈ startsFrom 0 before, decide (start ≤ utf8Len before) = true := by
    intro start hstart
    have := mem_startsFrom hstart
    exact decide_eq_true (by omega)
  rw [startsFrom_append, List.takeWhile_append_of_pos hbefore]
  cases hrest : startsFrom (0 + utf8Len before) rest with
  | nil => simp
  | cons start others =>
    have := mem_startsFrom (hrest ▸ List.mem_cons_self : start ∈ startsFrom _ rest)
    rw [List.takeWhile_cons_of_neg (by simp; omega), List.append_nil]

/-- The last line of a text starts at the last entry of its table. -/
theorem exists_getLastD_startsFrom (cs : List Char) :
    ∃ front, cs = front ++ lastLine cs ∧ (0 :: startsFrom 0 cs).getLastD 0 = utf8Len front := by
  induction cs using List.reverseRecOn with
  | nil => exact ⟨[], rfl, rfl⟩
  | append_singleton cs c ih =>
    obtain ⟨front, hfront, hlast⟩ := ih
    rw [startsFrom_append]
    by_cases hc : c = '\n'
    · subst hc
      refine ⟨cs ++ ['\n'], by rw [lastLine_lineFeed, List.append_nil], ?_⟩
      rw [startsFrom, if_pos rfl, startsFrom, ← List.cons_append, List.getLastD_concat]
      simp
    · refine ⟨front, ?_, ?_⟩
      · rw [lastLine_concat hc, ← List.append_assoc, ← hfront]
      · simpa [startsFrom, hc] using hlast

/-- Looking an offset up gives the place that counting gives. -/
theorem positionAt?_after {source : SourceText} {before rest : List Char}
    (h : source.content.toList = before ++ rest) :
    source.positionAt? (Position.first.after before).offset =
      some (Position.first.after before) := by
  obtain ⟨front, hfront, hlast⟩ := exists_getLastD_startsFrom before
  have hstarts : source.lineStarts.takeWhile (· ≤ utf8Len before) = 0 :: startsFrom 0 before := by
    rw [lineStarts, h, List.takeWhile_cons_of_pos (by simp), takeWhile_startsFrom]
  have hline : between? (utf8Len front) (utf8Len before) (before ++ rest) =
      some (lastLine before) := by
    have := between?_append front (lastLine before) rest
    rwa [← hfront] at this
  rw [Position.offset_after_first, positionAt?]
  simp only [hstarts, hlast, h, hline, Option.map_some, Option.some.injEq]
  have hcount := Position.line_after Position.first before
  have hcolumn := Position.column_after_first before
  have hoffset := Position.offset_after_first before
  rw [List.length_cons, length_startsFrom, Nat.add_comm (lastLine before).length, ← hcolumn,
    ← hoffset, Nat.add_comm (before.count '\n')]
  exact congrArg (fun line => (⟨line, _, _⟩ : Position)) hcount.symm

end SourceText

end Offside
