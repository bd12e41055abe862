/-
The effort a lexer still has to spend.  Every move but the last one spends some, so a text is
always driven to its end.
-/
import Offside.Token.Lexer

namespace Offside

namespace Lexer

/-- A bound on the moves that are left: characters to read, levels to close, tokens that are due,
and the flags that a move can still clear. -/
def effort (lexer : Lexer) : Nat :=
  4 * lexer.rest.length + 2 * lexer.blocks.depth + lexer.queue.length +
    lexer.atLineStart.toNat + lexer.lineOpen.toNat + 3 * (!lexer.finished).toNat

/-- Reading changes neither the layout nor the queue. -/
theorem effort_take (lexer : Lexer) (count : Nat) :
    (lexer.take count).effort = lexer.effort - 4 * min count lexer.rest.length := by
  simp only [effort, take, List.length_drop]
  omega

theorem effort_take_le (lexer : Lexer) (count : Nat) :
    (lexer.take count).effort ≤ lexer.effort := by
  rw [effort_take]; omega

theorem effort_takeWhile_le (lexer : Lexer) (p : Char → Bool) :
    (lexer.takeWhile p).effort ≤ lexer.effort := effort_take_le _ _

/-- Reading at least one character takes at least four units of effort. -/
theorem effort_take_lt (lexer : Lexer) {count : Nat} (hcount : 0 < count)
    (hrest : lexer.rest ≠ []) : (lexer.take count).effort + 4 ≤ lexer.effort := by
  have hlength : 0 < lexer.rest.length := List.length_pos_iff.mpr hrest
  rw [effort_take]
  simp only [effort]
  omega

theorem effort_advance_lt (lexer : Lexer) (hrest : lexer.rest ≠ []) :
    lexer.advance.effort + 4 ≤ lexer.effort :=
  effort_take_lt lexer (by decide) hrest

/-- A run that begins with a character of the class is not empty. -/
theorem effort_takeWhile_lt (lexer : Lexer) {p : Char → Bool} {c : Char} {cs : List Char}
    (hrest : lexer.rest = c :: cs) (hc : p c = true) :
    (lexer.takeWhile p).effort + 4 ≤ lexer.effort := by
  apply effort_take_lt
  · simp [hrest, hc]
  · simp [hrest]

@[simp] theorem effort_markStart (lexer : Lexer) : lexer.markStart.effort = lexer.effort := rfl

/-! ### Tokens of the text -/

theorem effort_scanNumber_le [IdentifierTables] (lexer : Lexer) :
    lexer.scanNumber.2.effort ≤ lexer.effort := by
  simp only [scanNumber]
  split
  · exact Nat.le_trans (effort_takeWhile_le _ _) (effort_take_le _ _)
  · split
    · exact effort_take_le _ _
    · exact effort_take_le _ _

theorem effort_scanString_le (lexer : Lexer) : lexer.scanString.2.effort ≤ lexer.effort := by
  simp only [scanString]
  split <;> exact effort_take_le _ _

theorem effort_scanWord_le [IdentifierTables] (lexer : Lexer) :
    lexer.scanWord.2.effort ≤ lexer.effort :=
  effort_takeWhile_le _ _

theorem text_length_pos (sign : Symbol) : 0 < sign.text.length := by
  cases sign <;> decide

/-- A token of the text takes at least one character, also when it is malformed. -/
theorem effort_scanToken_lt [IdentifierTables] (lexer : Lexer) (hrest : lexer.rest ≠ []) :
    lexer.scanToken.2.effort + 4 ≤ lexer.effort := by
  have hadvance : lexer.markStart.advance.effort + 4 ≤ lexer.effort :=
    effort_advance_lt lexer.markStart hrest
  simp only [scanToken]
  split
  · exact absurd (by assumption) hrest
  · split
    · exact Nat.le_trans (Nat.add_le_add_right (effort_scanWord_le _) 4) hadvance
    · split
      · exact Nat.le_trans (Nat.add_le_add_right (effort_scanNumber_le _) 4) hadvance
      · split
        · exact Nat.le_trans (Nat.add_le_add_right (effort_scanString_le _) 4) hadvance
        · split
          · next sign _ => exact effort_take_lt lexer.markStart (text_length_pos sign) hrest
          · exact hadvance

/-! ### Layout -/

theorem indentWidth?_nil (tabWidth : Nat) : indentWidth? tabWidth [] = some 0 := rfl

/-- Meeting a line that stands on no open level closes at least one level. -/
theorem depth_meet_error {blocks after : Indentation} {width : Nat} {place : Position}
    {error : LexicalError} (h : blocks.meet width place = (.error error, after)) :
    after.depth < blocks.depth := by
  simp only [Indentation.meet] at h
  split at h
  · simp at h
  · split at h
    · simp at h
    · next hwidth htop =>
      simp only [Prod.mk.injEq] at h
      obtain ⟨-, rfl⟩ := h
      cases hlevels : blocks.levels with
      | nil =>
        simp only [Indentation.top, Indentation.keep, hlevels, List.dropWhile_nil,
          List.headD_nil] at htop hwidth
        omega
      | cons level levels =>
        simp only [Indentation.top, hlevels, List.headD_cons] at hwidth
        by_cases hlevel : width < level
        · have := Indentation.depth_keep_le ⟨levels⟩ width
          simp only [Indentation.keep, Indentation.depth] at this
          simp only [Indentation.keep, Indentation.depth, hlevels, List.dropWhile_cons, hlevel,
            decide_true, if_true, List.length_cons]
          omega
        · exfalso
          simp only [Indentation.keep, Indentation.top, hlevels, List.dropWhile_cons, hlevel,
            decide_false, Bool.false_eq_true, if_false, List.headD_cons] at htop
          omega

/-- What meeting a line puts into the queue is paid for by the levels it closes, or by the blanks
of a deeper line. -/
theorem depth_meet_ok {blocks after : Indentation} {width : Nat} {place : Position}
    {marks : List Token} (h : blocks.meet width place = (.ok marks, after)) :
    2 * after.depth + marks.length ≤ 2 * blocks.depth + if width = 0 then 0 else 3 := by
  simp only [Indentation.meet] at h
  split at h
  · next hwidth =>
    simp only [Prod.mk.injEq, Except.ok.injEq] at h
    obtain ⟨rfl, rfl⟩ := h
    have : width ≠ 0 := by omega
    simp [Indentation.depth, this]
    omega
  · split at h
    · simp only [Prod.mk.injEq, Except.ok.injEq] at h
      obtain ⟨rfl, rfl⟩ := h
      have := Indentation.depth_keep_le blocks width
      simp only [Indentation.depth, List.length_replicate] at this ⊢
      omega
    · simp at h

/-- Answers that nothing follows: the end has been handed out, or a width left its range. -/
def Answer.isLast : Answer → Bool
  | .ok none => true
  | .error .overflow => true
  | _ => false

/-- Effort that is left after a move, unless its answer is the last. -/
def Move.Spends (lexer : Lexer) : Move → Prop
  | .answer result after =>
    if result.isLast then after = lexer else after.effort < lexer.effort
  | .silent after => after.effort < lexer.effort

theorem Move.spends_answer {lexer after : Lexer} {result : Answer} (hlast : result.isLast = false)
    (h : after.effort < lexer.effort) : (Move.answer result after).Spends lexer := by
  rw [Spends, hlast]
  exact h

/-- Behind a line that was met, its marks are paid for: without blanks by the levels they close. -/
theorem effort_met_lt {lexer : Lexer} {width : Nat} {place : Position} {marks : List Token}
    {blocks : Indentation} (hqueue : lexer.queue = []) (hstart : lexer.atLineStart = true)
    (hwidth : indentWidth? lexer.tabWidth (lexer.rest.takeWhile isBlank) = some width)
    (hmeet : lexer.blocks.meet width place = (.ok marks, blocks)) :
    effort { lexer.skipBlanks with atLineStart := false, blocks := blocks, queue := marks } <
      lexer.effort := by
  have hpaid := depth_meet_ok hmeet
  by_cases hblank : lexer.rest.takeWhile isBlank = []
  · rw [hblank, indentWidth?_nil, Option.some.injEq] at hwidth
    rw [if_pos hwidth.symm] at hpaid
    simp only [effort, skipBlanks, takeWhile, take, hblank, hqueue, hstart]
    simp
    omega
  · have hlength : 0 < (lexer.rest.takeWhile isBlank).length := List.length_pos_iff.mpr hblank
    have hle : (lexer.rest.takeWhile isBlank).length ≤ lexer.rest.length :=
      (List.takeWhile_sublist _).length_le
    simp only [effort, skipBlanks, takeWhile, take, hqueue, hstart]
    simp only [List.length_drop, List.length_nil, Bool.toNat_true, Bool.toNat_false]
    split at hpaid <;> omega

theorem effort_unmet_lt {lexer : Lexer} {width : Nat} {place : Position} {error : LexicalError}
    {blocks : Indentation} (hmeet : lexer.blocks.meet width place = (.error error, blocks)) :
    effort { lexer.skipBlanks with atLineStart := false, blocks := blocks } < lexer.effort := by
  have hskip : lexer.skipBlanks.effort ≤ lexer.effort := effort_takeWhile_le lexer isBlank
  have hclosed : blocks.depth < lexer.skipBlanks.blocks.depth := depth_meet_error hmeet
  simp only [effort, Bool.toNat_false] at hskip ⊢
  omega

theorem meetLine_spends (lexer : Lexer) {width : Nat} (hqueue : lexer.queue = [])
    (hstart : lexer.atLineStart = true)
    (hwidth : indentWidth? lexer.tabWidth (lexer.rest.takeWhile isBlank) = some width) :
    (lexer.skipBlanks.meetLine width).Spends lexer := by
  have hskip := effort_takeWhile_le lexer isBlank
  simp only [meetLine]
  split
  · next hrest =>
    have hflag : lexer.skipBlanks.atLineStart = true := hstart
    change lexer.skipBlanks.effort ≤ lexer.effort at hskip
    simp only [Move.Spends]
    simp only [effort, hflag, Bool.toNat_true, Bool.toNat_false] at hskip ⊢
    omega
  · next c cs hrest =>
    have hne : lexer.skipBlanks.rest ≠ [] := by simp [hrest]
    split
    · have := effort_advance_lt _ hne
      simp only [Move.Spends]
      simp only [skipBlanks] at this ⊢
      omega
    · split
      · next hc =>
        have := effort_takeWhile_lt (p := (· != '\n')) _ hrest (by subst hc; decide)
        simp only [Move.Spends]
        simp only [skipBlanks, skipComment] at this ⊢
        omega
      · split
        · next marks blocks hmeet => exact effort_met_lt hqueue hstart hwidth hmeet
        · next error blocks hmeet => exact Move.spends_answer rfl (effort_unmet_lt hmeet)

theorem measureLine_spends (lexer : Lexer) (hqueue : lexer.queue = [])
    (hstart : lexer.atLineStart = true) : lexer.measureLine.Spends lexer := by
  rw [measureLine]
  split
  · exact meetLine_spends lexer hqueue hstart (by assumption)
  · rfl

theorem finish_spends (lexer : Lexer) (hqueue : lexer.queue = [])
    (hfinished : lexer.finished = false) : lexer.finish.effort < lexer.effort := by
  simp only [effort, finish, Indentation.close, hqueue, hfinished]
  cases lexer.lineOpen <;>
    simp [Indentation.depth, Indentation.base] <;> omega

/-- Every move but the last one spends effort. -/
theorem move_spends [IdentifierTables] (lexer : Lexer) : lexer.move.Spends lexer := by
  simp only [move]
  split
  · next hqueue =>
    refine Move.spends_answer rfl ?_
    simp only [effort, hqueue, List.length_cons]
    omega
  · next hqueue =>
    split
    · rfl
    · next hfinished =>
      split
      · next hstart =>
        simp only [Bool.and_eq_true] at hstart
        exact measureLine_spends lexer hqueue hstart.1
      · have hskip := effort_takeWhile_le lexer isBlank
        split
        · exact Nat.lt_of_lt_of_le
            (finish_spends lexer.skipBlanks hqueue ((Bool.not_eq_true _).mp hfinished)) hskip
        · next c cs hrest =>
          have hne : lexer.skipBlanks.rest ≠ [] := by simp [hrest]
          split
          · next hc =>
            have := effort_takeWhile_lt (p := (· != '\n')) _ hrest (by subst hc; decide)
            simp only [Move.Spends]
            simp only [skipBlanks, skipComment] at this ⊢
            omega
          · have hadvance := effort_advance_lt lexer.skipBlanks.markStart hne
            split
            · split
              · refine Move.spends_answer rfl ?_
                simp only [effort, skipBlanks, markStart] at hadvance hskip ⊢
                cases lexer.atLineStart <;> cases hopen : lexer.lineOpen <;>
                  simp [advance, take, takeWhile, hopen] at hadvance hskip ⊢ <;> omega
              · simp only [Move.Spends]
                simp only [skipBlanks, effort_markStart] at hadvance hskip ⊢
                omega
            · have hscan := effort_scanToken_lt lexer.skipBlanks hne
              split
              · next token after heq =>
                rw [heq] at hscan
                refine Move.spends_answer rfl ?_
                have : lexer.skipBlanks.effort ≤ lexer.effort := hskip
                have hopen : Bool.toNat true ≤ 1 := by decide
                simp only [effort] at hscan this ⊢
                omega
              · next error after heq =>
                rw [heq] at hscan
                refine Move.spends_answer rfl ?_
                have : lexer.skipBlanks.effort ≤ lexer.effort := hskip
                simp only at hscan
                omega

end Lexer

end Offside
