/-
Lines of a text.  Around a place between two characters stands a line: what the text has behind the
last line feed in front, and what it has in front of the next line feed.  The table of lines has
this line at the number of the place.
-/
import Mathlib.Data.List.DropRight
import Offside.Proofs.Source.Positions

namespace Offside

open String (utf8Len)

/-! ### The rest of a line -/

/-- A text up to the end of its first line. -/
def firstLine (cs : List Char) : List Char := cs.takeWhile (· != '\n')

section

variable {p : Char → Bool} {c : Char} {cs run tail : List Char} {count : Nat}

@[simp] theorem firstLine_lineFeed (cs : List Char) : firstLine ('\n' :: cs) = [] := rfl

theorem firstLine_cons (hc : c ≠ '\n') (cs : List Char) :
    firstLine (c :: cs) = c :: firstLine cs := by
  simp [firstLine, hc]

theorem firstLine_append (hrun : '\n' ∉ run) (tail : List Char) :
    firstLine (run ++ tail) = run ++ firstLine tail := by
  induction run with
  | nil => rfl
  | cons c run ih =>
    rw [List.mem_cons, not_or] at hrun
    rw [List.cons_append, firstLine_cons (Ne.symm hrun.1), ih hrun.2, List.cons_append]

theorem exists_cons_of_firstLine (h : firstLine cs = c :: run) :
    ∃ tail, cs = c :: tail ∧ c ≠ '\n' := by
  cases cs with
  | nil => cases h
  | cons d tail =>
    by_cases hd : d = '\n'
    · rw [hd, firstLine_lineFeed] at h
      cases h
    · rw [firstLine_cons hd, List.cons.injEq] at h
      obtain ⟨rfl, -⟩ := h
      exact ⟨tail, rfl, hd⟩

theorem lineFeed_not_mem_firstLine (cs : List Char) : '\n' ∉ firstLine cs :=
  fun hmem => absurd (List.mem_takeWhile_imp hmem) (by decide)

/-- Behind its first line a text is empty, or goes on with a line feed. -/
theorem exists_firstLine (cs : List Char) :
    ∃ tail, cs = firstLine cs ++ tail ∧ (tail = [] ∨ ∃ others, tail = '\n' :: others) := by
  induction cs with
  | nil => exact ⟨[], rfl, .inl rfl⟩
  | cons c cs ih =>
    by_cases hc : c = '\n'
    · subst hc
      exact ⟨'\n' :: cs, rfl, .inr ⟨cs, rfl⟩⟩
    · obtain ⟨tail, htail, hend⟩ := ih
      refine ⟨tail, ?_, hend⟩
      rw [firstLine_cons hc, List.cons_append, ← htail]

/-- A run that no line feed is part of ends with its line. -/
theorem takeWhile_firstLine (hline : p '\n' = false) (cs : List Char) :
    (firstLine cs).takeWhile p = cs.takeWhile p := by
  induction cs with
  | nil => rfl
  | cons c cs ih =>
    by_cases hc : c = '\n'
    · rw [hc, firstLine_lineFeed, List.takeWhile_cons_of_neg (by simp [hline])]
      rfl
    · rw [firstLine_cons hc, List.takeWhile_cons, List.takeWhile_cons, ih]

theorem head?_firstLine (hline : p '\n' = false) (cs : List Char) :
    ((firstLine cs).head?.map p).getD false = (cs.head?.map p).getD false := by
  cases cs with
  | nil => rfl
  | cons c cs =>
    by_cases hc : c = '\n'
    · simp [hc, hline]
    · rw [firstLine_cons hc, List.head?_cons, List.head?_cons]

theorem take_firstLine (h : count ≤ (firstLine cs).length) :
    (firstLine cs).take count = cs.take count := by
  have hprefix : firstLine cs <+: cs := List.takeWhile_prefix _
  rw [List.prefix_iff_eq_take.mp hprefix, List.take_take, Nat.min_eq_left h]

theorem firstLine_drop (h : count ≤ (firstLine cs).length) :
    firstLine (cs.drop count) = (firstLine cs).drop count := by
  induction count generalizing cs with
  | zero => rfl
  | succ count ih =>
    cases cs with
    | nil => rfl
    | cons c cs =>
      by_cases hc : c = '\n'
      · rw [hc, firstLine_lineFeed] at h
        cases h
      · rw [firstLine_cons hc] at h ⊢
        exact ih (Nat.le_of_succ_le_succ h)

end

/-! ### The table of lines -/

namespace SourceText

/-- The pieces between line feeds; there is always at least one. -/
def pieces : List Char → List (List Char)
  | [] => [[]]
  | c :: rest =>
    if c = '\n' then [] :: pieces rest
    else match pieces rest with
      | [] => [[c]]
      | piece :: others => (c :: piece) :: others

theorem exists_pieces (cs : List Char) : ∃ others, pieces cs = firstLine cs :: others := by
  induction cs with
  | nil => exact ⟨[], rfl⟩
  | cons c cs ih =>
    by_cases hc : c = '\n'
    · rw [hc]
      exact ⟨pieces cs, rfl⟩
    · obtain ⟨others, hothers⟩ := ih
      rw [pieces, if_neg hc, hothers, firstLine_cons hc]
      exact ⟨others, rfl⟩

/-- A line feed parts the lines of a text. -/
theorem pieces_append (front rest : List Char) :
    pieces (front ++ '\n' :: rest) = pieces front ++ pieces rest := by
  induction front with
  | nil => rfl
  | cons c front ih =>
    by_cases hc : c = '\n'
    · rw [List.cons_append, pieces, if_pos hc, ih, pieces, if_pos hc]
      rfl
    · obtain ⟨others, hothers⟩ := exists_pieces front
      rw [List.cons_append, pieces, if_neg hc, ih, pieces, if_neg hc, hothers]
      rfl

theorem length_pieces (cs : List Char) : (pieces cs).length = cs.count '\n' + 1 := by
  induction cs with
  | nil => rfl
  | cons c cs ih =>
    by_cases hc : c = '\n'
    · rw [pieces, if_pos hc, List.length_cons, ih, hc, List.count_cons_self]
    · obtain ⟨others, hothers⟩ := exists_pieces cs
      rw [hothers, List.length_cons] at ih
      rw [pieces, if_neg hc, hothers, List.count_cons_of_ne hc]
      exact ih

/-- The line around a place. -/
theorem pieces_getElem? (before rest : List Char) :
    (pieces (before ++ rest))[before.count '\n']? = some (lastLine before ++ firstLine rest) := by
  induction before using List.reverseRecOn generalizing rest with
  | nil =>
    obtain ⟨others, hothers⟩ := exists_pieces rest
    rw [List.nil_append, hothers]
    rfl
  | append_singleton before c ih =>
    rw [List.append_assoc, List.singleton_append]
    by_cases hc : c = '\n'
    · obtain ⟨others, hothers⟩ := exists_pieces rest
      have hcount : (before ++ [c]).count '\n' = (pieces before).length := by
        rw [length_pieces, hc, List.count_append]
        rfl
      rw [hcount, hc, pieces_append, List.getElem?_append_right (Nat.le_refl _), Nat.sub_self,
        hothers, lastLine_lineFeed]
      rfl
    · have hcount : (before ++ [c]).count '\n' = before.count '\n' := by
        simp [List.count_append, hc]
      rw [hcount, ih, firstLine_cons hc, lastLine_concat hc, List.append_assoc]
      rfl

/-! ### Carriage returns in front of the end of a line -/

/-- The text of a line leaves out only carriage returns at its end. -/
theorem exists_returns (line : List Char) :
    ∃ returns, line = trimReturns line ++ List.replicate returns '\r' := by
  have hreturns : ∀ c ∈ line.rtakeWhile (· == '\r'), c = '\r' := by
    intro c hc
    rw [List.rtakeWhile, List.mem_reverse] at hc
    simpa using List.mem_takeWhile_imp hc
  refine ⟨(line.rtakeWhile (· == '\r')).length, ?_⟩
  rw [← List.eq_replicate_of_mem hreturns]
  exact List.rdropWhile_append_rtakeWhile.symm

/-- What ends in front of the carriage returns is part of the text of a line. -/
theorem length_le_trimReturns {run : List Char} (h : run.getLast? ≠ some '\r')
    (tail : List Char) : run.length ≤ (trimReturns (run ++ tail)).length := by
  have hkept : run.reverse.dropWhile (· == '\r') = run.reverse := by
    cases hlast : run.reverse with
    | nil => rfl
    | cons c others =>
      rw [List.getLast?_eq_head?_reverse, hlast, List.head?_cons] at h
      exact List.dropWhile_cons_of_neg (by simpa using h)
  rw [trimReturns, List.length_reverse, List.reverse_append, List.dropWhile_append]
  split
  · rw [hkept, List.length_reverse]
  · rw [List.length_append, List.length_reverse]
    exact Nat.le_add_left _ _

/-! ### The text of a line -/

section

variable {source : SourceText} {front before rest : List Char}

theorem length_lineStarts (source : SourceText) :
    source.lineStarts.length = source.content.toList.count '\n' + 1 := by
  rw [lineStarts, List.length_cons, length_startsFrom]

/-- The table has the start of every line at the number of the line feeds in front. -/
theorem lineStarts_getElem? (h : source.content.toList = front ++ rest)
    (hstart : lastLine front = []) :
    source.lineStarts[front.count '\n']? = some (utf8Len front) := by
  obtain ⟨passed, hpassed, hlast⟩ := exists_getLastD_startsFrom front
  rw [hstart, List.append_nil] at hpassed
  subst hpassed
  have hlength : (0 :: startsFrom 0 front).length = front.count '\n' + 1 := by
    rw [List.length_cons, length_startsFrom]
  rw [lineStarts, h, startsFrom_append, ← List.cons_append,
    List.getElem?_append_left (by omega), ← hlast, List.getLastD_eq_getLast?,
    List.getLast?_eq_getElem?, hlength, Nat.add_sub_cancel,
    List.getElem?_eq_getElem (by omega), Option.getD_some]

/-- A line ends in front of the next line feed. -/
theorem lineStop_eq (h : source.content.toList = front ++ rest) :
    source.lineStop (front.count '\n' + 1) = utf8Len (front ++ firstLine rest) := by
  obtain ⟨tail, htail, hend⟩ := exists_firstLine rest
  have hline := List.count_eq_zero.mpr (lineFeed_not_mem_firstLine rest)
  rw [lineStop]
  rcases hend with rfl | ⟨others, rfl⟩
  · rw [List.append_nil] at htail
    have hlength : source.lineStarts.length = front.count '\n' + 1 := by
      rw [length_lineStarts, h, List.count_append, htail, hline]
    rw [List.getElem?_eq_none (by omega), ← String.utf8Len_toList, h, ← htail]
  · have hnext : source.content.toList = (front ++ firstLine rest ++ ['\n']) ++ others := by
      rw [h, List.append_assoc, List.append_assoc, List.singleton_append, ← htail]
    have hcount : (front ++ firstLine rest ++ ['\n']).count '\n' = front.count '\n' + 1 := by
      rw [List.count_append, List.count_append, hline]
      rfl
    rw [← hcount, lineStarts_getElem? hnext (lastLine_lineFeed _), String.utf8Len_append]
    rfl

/-- The text of a line is what stands between its start and the next line feed. -/
theorem lineText?_eq (h : source.content.toList = front ++ rest) (hstart : lastLine front = [])
    (hcount : front.count '\n' < source.lineCount) :
    source.lineText? (front.count '\n' + 1) =
      some (String.ofList (trimReturns (firstLine rest))) := by
  obtain ⟨tail, htail, -⟩ := exists_firstLine rest
  have hline := between?_append front (firstLine rest) tail
  rw [List.append_assoc, ← htail, ← h, ← lineStop_eq h] at hline
  rw [lineText?, if_neg (by omega), Nat.add_sub_cancel, lineStarts_getElem? h hstart]
  simp only [Option.bind_eq_bind, Option.bind_some, hline]
  rfl

/-- The text of the line that a place stands in. -/
theorem lineText?_after (h : source.content.toList = before ++ rest)
    (hline : (Position.first.after before).line ≤ source.lineCount) :
    source.lineText? (Position.first.after before).line =
      some (String.ofList (trimReturns (lastLine before ++ firstLine rest))) := by
  obtain ⟨front, hfront, hstart, hplain⟩ := exists_lastLine before
  have hcount : before.count '\n' = front.count '\n' := by
    rw [hfront, List.count_append, List.count_eq_zero.mpr hplain, Nat.add_zero]
  have hnumber : (Position.first.after before).line = front.count '\n' + 1 := by
    rw [Position.line_after, hcount, Nat.add_comm]
    rfl
  have hsplit : source.content.toList = front ++ (lastLine before ++ rest) := by
    rw [h, ← List.append_assoc, ← hfront]
  rw [hnumber] at hline ⊢
  rw [lineText?_eq hsplit hstart hline, firstLine_append hplain]

end

end SourceText

end Offside
