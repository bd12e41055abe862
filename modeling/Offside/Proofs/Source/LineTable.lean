/-
The table of lines of a text, as a whole.  Its lines are what stands between the line feeds, and
the place that it tells for a character is the line and the column where that character is shown.
-/
import Offside.Proofs.Source.Lines

namespace Offside

open String (utf8Len)

/-! ### Places in order -/

namespace Position

/-- An earlier line, or an earlier column of the same line. -/
def Precedes (place other : Position) : Prop :=
  place.line < other.line ∨ place.line = other.line ∧ place.column < other.column

variable {place middle other : Position}

theorem Precedes.trans (h : place.Precedes middle) (hother : middle.Precedes other) :
    place.Precedes other := by
  simp only [Precedes] at h hother ⊢
  omega

theorem precedes_next (place : Position) (c : Char) : place.Precedes (place.next c) := by
  unfold next
  split
  · exact .inl (Nat.lt_succ_self _)
  · exact .inr ⟨rfl, Nat.lt_succ_self _⟩

/-- Reading goes on to later places. -/
theorem precedes_after (place : Position) (c : Char) (run : List Char) :
    place.Precedes (place.after (c :: run)) := by
  induction run generalizing place c with
  | nil => exact precedes_next place c
  | cons d run ih => exact (precedes_next place c).trans (ih (place.next c) d)

end Position

/-! ### Characters of a text -/

/-- The character `c` stands at a byte offset of a text, in front of `rest`. -/
def StandsAt (offset : Nat) (c : Char) (rest text : List Char) : Prop :=
  ∃ before, text = before ++ c :: rest ∧ utf8Len before = offset

/-- A line feed, or a carriage return with nothing but carriage returns up to the end of its
line. -/
def EndsItsLine (c : Char) (rest : List Char) : Prop :=
  c = '\n' ∨ c = '\r' ∧ ∀ d ∈ firstLine rest, d = '\r'

namespace SourceText

section

variable {source : SourceText} {before rest run cs : List Char} {c : Char} {index : Nat}

/-! ### Lines between line feeds -/

/-- The pieces between line feeds, but for an empty one behind a final line feed. -/
def writtenLines (cs : List Char) : List (List Char) :=
  if endsLine cs then (cs.splitOn '\n').dropLast else cs.splitOn '\n'

/-- The texts of the lines, without the carriage returns at their ends. -/
def lines (source : SourceText) : List String :=
  (writtenLines source.content.toList).map fun line =>
    String.ofList (line.rdropWhile (· == '\r'))

/-- The line feed behind the last line, if there is one. -/
def lastEnd (source : SourceText) : String :=
  if endsLine source.content.toList then "\n" else ""

theorem pieces_eq_splitOn (cs : List Char) : pieces cs = cs.splitOn '\n' := by
  induction cs with
  | nil => rfl
  | cons c cs ih =>
    rw [pieces, List.splitOn_cons_eq_if_modifyHead, ← ih]
    by_cases hc : c = '\n'
    · simp [hc]
    · obtain ⟨others, hothers⟩ := exists_pieces cs
      simp [hc, hothers]

theorem length_splitOn (cs : List Char) : (cs.splitOn '\n').length = cs.count '\n' + 1 := by
  rw [← pieces_eq_splitOn, length_pieces]

/-- Without a final line feed every piece is a line; a final line feed ends the last one. -/
theorem exists_body (cs : List Char) :
    ∃ body, writtenLines cs = body.splitOn '\n' ∧
      cs = body ++ if endsLine cs then ['\n'] else [] := by
  cases hend : endsLine cs with
  | false =>
    refine ⟨cs, ?_, ?_⟩
    · rw [writtenLines, hend]
      rfl
    · simp
  | true =>
    obtain ⟨body, rfl⟩ := List.getLast?_eq_some_iff.mp (beq_iff_eq.mp hend)
    refine ⟨body, ?_, rfl⟩
    rw [writtenLines, hend, if_pos rfl, List.splitOn_append_cons_self, List.splitOn_nil,
      List.dropLast_concat]

theorem lineCount_eq (source : SourceText) :
    source.lineCount = (writtenLines source.content.toList).length := by
  rw [lineCount, length_lineStarts, writtenLines]
  split
  · rw [List.length_dropLast, length_splitOn]
  · rw [length_splitOn]

theorem exists_front (h : index ≤ cs.count '\n') :
    ∃ front rest, cs = front ++ rest ∧ lastLine front = [] ∧ front.count '\n' = index := by
  induction index with
  | zero => exact ⟨[], cs, rfl, rfl, rfl⟩
  | succ index ih =>
    obtain ⟨front, rest, rfl, -, rfl⟩ := ih (Nat.le_of_succ_le h)
    rw [List.count_append] at h
    have hmem : '\n' ∈ rest := List.count_pos_iff.mp (by omega)
    obtain ⟨line, tail, rfl, hline⟩ := List.eq_append_cons_of_mem hmem
    refine ⟨front ++ line ++ ['\n'], tail, by simp, lastLine_lineFeed _, ?_⟩
    rw [List.count_append, List.count_append, List.count_eq_zero.mpr hline]
    rfl

/-- Every line is the rest of the text behind some line feeds, up to the next one. -/
theorem exists_of_writtenLines {line : List Char} (h : (writtenLines cs)[index]? = some line) :
    ∃ front rest, cs = front ++ rest ∧ lastLine front = [] ∧ front.count '\n' = index ∧
      line = firstLine rest := by
  have hpiece : (cs.splitOn '\n')[index]? = some line := by
    rw [writtenLines] at h
    split at h
    · rw [List.getElem?_dropLast, Option.ite_none_right_eq_some] at h
      exact h.2
    · exact h
  obtain ⟨hindex, -⟩ := List.getElem?_eq_some_iff.mp hpiece
  rw [length_splitOn] at hindex
  obtain ⟨front, rest, rfl, hstart, rfl⟩ := exists_front (Nat.le_of_lt_succ hindex)
  refine ⟨front, rest, rfl, hstart, rfl, ?_⟩
  rw [← pieces_eq_splitOn, pieces_getElem?, hstart, List.nil_append] at hpiece
  exact (Option.some.inj hpiece).symm

/-- The table has all lines between line feeds, in order. -/
theorem lineText?_succ (source : SourceText) (index : Nat) :
    source.lineText? (index + 1) = source.lines[index]? := by
  rw [lines, List.getElem?_map]
  cases hline : (writtenLines source.content.toList)[index]? with
  | none =>
    rw [List.getElem?_eq_none_iff, ← lineCount_eq] at hline
    exact if_pos (.inr (Nat.lt_succ_of_le hline))
  | some line =>
    have hindex : index < source.lineCount := by
      rw [lineCount_eq]
      exact (List.getElem?_eq_some_iff.mp hline).1
    obtain ⟨front, rest, hsplit, hstart, rfl, rfl⟩ := exists_of_writtenLines hline
    exact lineText?_eq hsplit hstart hindex

theorem isSome_lineText?_iff (source : SourceText) (number : Nat) :
    (source.lineText? number).isSome = true ↔ 1 ≤ number ∧ number ≤ source.lineCount := by
  cases number with
  | zero => simp [lineText?]
  | succ index =>
    rw [lineText?_succ, Option.isSome_iff_ne_none, Ne, List.getElem?_eq_none_iff, lines,
      List.length_map, ← lineCount_eq]
    omega

/-- Without carriage returns nothing is left out of a line. -/
theorem map_toList_lines (h : '\r' ∉ source.content.toList) :
    source.lines.map String.toList = writtenLines source.content.toList := by
  rw [lines, List.map_map, ← List.map_id (writtenLines source.content.toList), List.map_map]
  refine List.map_congr_left fun line hline => ?_
  obtain ⟨index, hindex⟩ := List.mem_iff_getElem?.mp hline
  obtain ⟨front, rest, hsplit, -, -, rfl⟩ := exists_of_writtenLines hindex
  have hplain : '\r' ∉ firstLine rest := by
    refine fun hmem => h ?_
    rw [hsplit]
    exact List.mem_append_right _ ((List.takeWhile_sublist _).subset hmem)
  have hlast : (firstLine rest).rdropWhile (· == '\r') = firstLine rest := by
    refine List.rdropWhile_eq_self_iff.mpr fun hne hreturn => hplain ?_
    rw [← beq_iff_eq.mp hreturn]
    exact List.getLast_mem hne
  simp [hlast]

/-- The lines of a text without carriage returns make up the text. -/
theorem intercalate_lines (h : '\r' ∉ source.content.toList) :
    "\n".intercalate source.lines ++ source.lastEnd = source.content := by
  obtain ⟨body, hlines, hbody⟩ := exists_body source.content.toList
  have hend : source.lastEnd.toList = if endsLine source.content.toList then ['\n'] else [] := by
    rw [lastEnd]
    split <;> rfl
  apply String.toList_inj.mp
  rw [String.toList_append, String.toList_intercalate, map_toList_lines h, hlines, hend]
  exact (congrArg (· ++ _) (List.intercalate_splitOn '\n')).trans hbody.symm

/-! ### Places of characters -/

theorem positionAt?_utf8Len (h : source.content.toList = before ++ c :: rest) :
    source.positionAt? (utf8Len before) = some (Position.first.after before) := by
  rw [← Position.offset_after_first]
  exact positionAt?_after h

/-- Of two characters the one at the smaller offset has the earlier place. -/
theorem precedes_of_lt {front others : List Char} {d : Char} (h : cs = before ++ c :: rest)
    (hlater : cs = front ++ d :: others) (hlt : utf8Len before < utf8Len front) :
    (Position.first.after before).Precedes (Position.first.after front) := by
  have hprefix : before <+: front := by
    refine (List.prefix_or_prefix_of_prefix ⟨_, h.symm⟩ ⟨_, hlater.symm⟩).resolve_right
      fun hshorter => ?_
    exact Nat.not_le_of_gt hlt (String.utf8Len_le_of_prefix hshorter)
  obtain ⟨more, rfl⟩ := hprefix
  cases more with
  | nil =>
    rw [List.append_nil] at hlt
    exact absurd hlt (Nat.lt_irrefl _)
  | cons e more =>
    rw [Position.after_append]
    exact Position.precedes_after _ e more

/-- A character stands in one of the lines of the table. -/
theorem line_le_lineCount (h : source.content.toList = before ++ c :: rest) :
    (Position.first.after before).line ≤ source.lineCount := by
  have hcount : source.content.toList.count '\n' = before.count '\n' + (c :: rest).count '\n' := by
    rw [h, List.count_append]
  rw [Position.line_after, lineCount, length_lineStarts, hcount]
  change 1 + _ ≤ _
  split
  · next hend =>
    rw [endsLine, h, List.getLast?_append_of_ne_nil _ (List.cons_ne_nil c rest), beq_iff_eq] at hend
    have hpos := List.count_pos_iff.mpr (List.mem_of_getLast? hend)
    omega
  · omega

/-- What is kept of a line reaches up to its last character that is no carriage return. -/
theorem getElem?_trimReturns_iff (run tail : List Char) (c : Char) :
    (trimReturns (run ++ c :: tail))[run.length]? = some c ↔ ∃ d ∈ c :: tail, d ≠ '\r' := by
  constructor
  · intro hkept
    by_contra hreturns
    push Not at hreturns
    have hdropped : trimReturns (run ++ c :: tail) = trimReturns run := by
      rw [trimReturns, List.reverse_append, List.dropWhile_append_of_pos]
      · rfl
      · intro d hd
        exact beq_iff_eq.mpr (hreturns d (List.mem_reverse.mp hd))
    have hlength : (trimReturns run).length ≤ run.length :=
      (List.rdropWhile_prefix (· == '\r') run).length_le
    rw [hdropped, List.getElem?_eq_none hlength] at hkept
    cases hkept
  · rintro ⟨d, hd, hne⟩
    obtain ⟨front, back, hsplit⟩ := List.append_of_mem hd
    have hsame : run ++ c :: tail = run ++ front ++ [d] ++ back := by
      rw [hsplit]
      simp
    have hlong : (run ++ front ++ [d]).length ≤ (trimReturns (run ++ c :: tail)).length := by
      rw [hsame]
      exact length_le_trimReturns (by simpa using hne) back
    obtain ⟨returns, hreturns⟩ := exists_returns (run ++ c :: tail)
    have hinside : run.length < (trimReturns (run ++ c :: tail)).length := by
      simp only [List.length_append, List.length_singleton] at hlong
      omega
    have hshown :
        (trimReturns (run ++ c :: tail) ++ List.replicate returns '\r')[run.length]? = _ :=
      List.getElem?_append_left hinside
    rw [← hshown, ← hreturns]
    simp

/-- A character is shown in its column unless it belongs to the end of its line. -/
theorem getElem?_line_iff (before rest : List Char) (c : Char) :
    (trimReturns (lastLine before ++ firstLine (c :: rest)))[(lastLine before).length]? = some c ↔
      ¬ EndsItsLine c rest := by
  by_cases hc : c = '\n'
  · subst hc
    have hlength : (trimReturns (lastLine before)).length ≤ (lastLine before).length :=
      (List.rdropWhile_prefix (· == '\r') _).length_le
    rw [firstLine_lineFeed, List.append_nil, List.getElem?_eq_none hlength]
    simp [EndsItsLine]
  · rw [firstLine_cons hc, getElem?_trimReturns_iff]
    simp only [EndsItsLine, hc, false_or, not_and_or, not_forall, List.mem_cons,
      or_and_right, exists_or, exists_eq_left, exists_prop]

end

/-- The table of lines of a text is consistent.  It has a text for just the numbers from one to the
number of lines: what stands between the line feeds, without the carriage returns at its end; where
the text has no carriage returns, its lines make it up again.  The place of every character is in a
line of the table, later characters have later places, and the character is shown at its place
unless it belongs to the end of its line. -/
theorem lines_and_places_agree (source : SourceText) :
    ((∀ number, (source.lineText? number).isSome = true ↔
        1 ≤ number ∧ number ≤ source.lineCount) ∧
      (∀ index, source.lineText? (index + 1) = source.lines[index]?) ∧
      ('\r' ∉ source.content.toList →
        "\n".intercalate source.lines ++ source.lastEnd = source.content)) ∧
    (∀ offset c rest, StandsAt offset c rest source.content.toList →
      ∃ place line, source.positionAt? offset = some place ∧ place.line ≤ source.lineCount ∧
        source.lineText? place.line = some line ∧ 0 < place.column ∧
        (line.toList[place.column - 1]? = some c ↔ ¬ EndsItsLine c rest)) ∧
    ∀ offset c rest later d others place other, StandsAt offset c rest source.content.toList →
      StandsAt later d others source.content.toList → offset < later →
      source.positionAt? offset = some place → source.positionAt? later = some other →
      place.Precedes other := by
  refine ⟨⟨isSome_lineText?_iff source, lineText?_succ source, intercalate_lines⟩, ?_, ?_⟩
  · rintro offset c rest ⟨before, hsplit, rfl⟩
    have hline := line_le_lineCount hsplit
    refine ⟨_, _, positionAt?_utf8Len hsplit, hline, lineText?_after hsplit hline, ?_, ?_⟩
    · rw [Position.column_after_first]
      omega
    · rw [Position.column_after_first, Nat.add_sub_cancel_left, String.toList_ofList]
      exact getElem?_line_iff before rest c
  · rintro offset c rest later d others place other ⟨before, hsplit, rfl⟩ ⟨front, hfront, rfl⟩
      hlater hplace hother
    rw [positionAt?_utf8Len hsplit] at hplace
    rw [positionAt?_utf8Len hfront] at hother
    cases hplace
    cases hother
    exact precedes_of_lt hsplit hfront hlater

end SourceText

namespace LineTableWitness

/-- Letters of two bytes, a carriage return, and an empty line. -/
def greek : SourceText := ⟨"greek", "αβ\r\n\n\tc"⟩

/-- Two line feeds at the end, of which the first one ends an empty line. -/
def doubled : SourceText := ⟨"doubled", "a\n\n"⟩

theorem standsAt_letter : StandsAt 2 'β' "\r\n\n\tc".toList greek.content.toList :=
  ⟨['α'], rfl, by decide⟩

theorem standsAt_tab : StandsAt 7 '\t' ['c'] greek.content.toList :=
  ⟨"αβ\r\n\n".toList, rfl, by decide⟩

theorem places_of_greek :
    ('\r' ∉ doubled.content.toList ∧ doubled.lineCount = 2 ∧ doubled.lineText? 3 = none ∧
      "\n".intercalate doubled.lines ++ doubled.lastEnd = "a\n\n") ∧
    greek.positionAt? 2 = some ⟨1, 2, 2⟩ ∧ greek.lineText? 1 = some "αβ" ∧
      ¬ EndsItsLine 'β' "\r\n\n\tc".toList ∧ "αβ".toList[1]? = some 'β' ∧
    greek.positionAt? 7 = some ⟨3, 1, 7⟩ ∧ Position.Precedes ⟨1, 2, 2⟩ ⟨3, 1, 7⟩ := by
  have hplain : '\r' ∉ doubled.content.toList := by decide
  have hletter : greek.positionAt? 2 = some ⟨1, 2, 2⟩ := by decide
  have htab : greek.positionAt? 7 = some ⟨3, 1, 7⟩ := by decide
  have hshown : greek.lineText? 1 = some "αβ" := by decide
  have hinside : ¬ EndsItsLine 'β' "\r\n\n\tc".toList := by
    rintro (heq | ⟨heq, -⟩)
    · exact absurd heq (by decide)
    · exact absurd heq (by decide)
  obtain ⟨⟨hsome, -, hjoined⟩, -, -⟩ := SourceText.lines_and_places_agree doubled
  obtain ⟨-, hplaces, hordered⟩ := SourceText.lines_and_places_agree greek
  refine ⟨⟨hplain, by decide, ?_, hjoined hplain⟩, hletter, hshown, hinside, ?_, htab, ?_⟩
  · exact Option.not_isSome_iff_eq_none.mp fun h => absurd ((hsome 3).mp h) (by decide)
  · obtain ⟨place, line, hplace, -, hline, -, hcolumn⟩ := hplaces _ _ _ standsAt_letter
    rw [hletter] at hplace
    cases hplace
    rw [hshown] at hline
    cases hline
    exact hcolumn.mpr hinside
  · exact hordered _ _ _ _ _ _ _ _ standsAt_letter standsAt_tab (by decide) hletter htab

end LineTableWitness

end Offside
