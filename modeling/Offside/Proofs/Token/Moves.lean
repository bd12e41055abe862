/-
What one move of a lexer does.  There is a case for everything that can stand in front of a lexer,
and each case says which text is passed and which lexer is left; what holds along a run is read off
these cases.
-/
import Offside.Proofs.Token.CutRun

namespace Offside.Lexer

variable {lexer begun after : Lexer} {blanks ahead text tail code : List Char}

/-! ### In front of a lexer -/

/-- The blanks in front of a lexer, and what stands behind them. -/
structure Faces (lexer : Lexer) (blanks ahead : List Char) : Prop where
  rest : lexer.rest = blanks ++ ahead
  blanks : ∀ c ∈ blanks, isBlank c = true
  stop : EndsRun isBlank ahead

theorem Faces.skipBlanks (h : lexer.Faces blanks ahead) :
    lexer.skipBlanks = lexer.past blanks ahead :=
  (takeWhile_of_split h.rest h.blanks h.stop).2

theorem Faces.takeWhile (h : lexer.Faces blanks ahead) : lexer.rest.takeWhile isBlank = blanks :=
  (takeWhile_of_split h.rest h.blanks h.stop).1

theorem Faces.dropWhile (h : lexer.Faces blanks ahead) : lexer.rest.dropWhile isBlank = ahead := by
  have hsplit := List.takeWhile_append_dropWhile (p := isBlank) (l := lexer.rest)
  rw [h.takeWhile, h.rest] at hsplit
  rw [h.rest]
  exact List.append_cancel_left hsplit

/-- What can stand behind the blanks: nothing, the end of the line, a comment, or a token. -/
inductive Ahead : List Char → Prop
  | textEnd : Ahead []
  | lineFeed (tail : List Char) : Ahead ('\n' :: tail)
  | comment {text tail : List Char} (htext : '\n' ∉ text) (htail : LineEnds tail) :
    Ahead ('#' :: text ++ tail)
  | code {c : Char} {cs : List Char} (hcode : startsCode (c :: cs) = true) : Ahead (c :: cs)

theorem ne_of_startsCode {c : Char} {cs : List Char} (h : startsCode (c :: cs) = true) :
    c ≠ '#' ∧ c ≠ '\n' := by
  simp only [startsCode, Bool.and_eq_true, bne_iff_ne] at h
  exact ⟨h.1.2, h.2⟩

theorem exists_faces (lexer : Lexer) : ∃ blanks ahead, lexer.Faces blanks ahead ∧ Ahead ahead := by
  obtain ⟨blanks, ahead, hrest, -, -, hblanks, hstop⟩ := exists_run isBlank lexer.rest
  refine ⟨blanks, ahead, ⟨hrest, hblanks, hstop⟩, ?_⟩
  cases ahead with
  | nil => exact .textEnd
  | cons c cs =>
    by_cases hline : c = '\n'
    · subst hline
      exact .lineFeed cs
    by_cases hcomment : c = '#'
    · subst hcomment
      obtain ⟨text, tail, rfl, -, -, htext, hend⟩ := exists_run (· != '\n') cs
      apply Ahead.comment
      · exact fun hmem => absurd (htext _ hmem) (by decide)
      · cases tail with
        | nil => exact .inl rfl
        | cons d tail => exact .inr ⟨tail, by rw [bne_eq_false_iff_eq.mp (hend d tail rfl)]⟩
    · apply Ahead.code
      simp [startsCode, hstop c cs rfl, hline, hcomment]

/-! ### Moves -/

/-- A lexer that has to measure a line next. -/
structure BeforeLine (lexer : Lexer) : Prop where
  queue : lexer.queue = []
  finished : lexer.finished = false
  atLineStart : lexer.atLineStart = true
  brackets : lexer.brackets = 0

/-- A lexer that has a line under way, or goes on inside of brackets. -/
structure InLine (lexer : Lexer) : Prop where
  queue : lexer.queue = []
  finished : lexer.finished = false
  underWay : (lexer.atLineStart && lexer.brackets == 0) = false

/-- What a move can do. -/
inductive Moves [IdentifierTables] (lexer : Lexer) : Move → Prop
  /-- A layout token is due. -/
  | due {token : Token} {queue : List Token} (hqueue : lexer.queue = token :: queue) :
    Moves lexer (.answer (.ok (some token)) { lexer with queue := queue })
  /-- Everything has been handed out. -/
  | done (hqueue : lexer.queue = []) (hfinished : lexer.finished = true) :
    Moves lexer (.answer (.ok none) lexer)
  /-- The line in front is too wide for a number, and is never passed. -/
  | tooWide (hline : lexer.BeforeLine) (hwide : ¬ Fits lexer.tabWidth lexer.rest) :
    Moves lexer (.answer (.error .overflow) lexer)
  | emptyLine {blanks tail : List Char} (hline : lexer.BeforeLine)
    (hfaces : lexer.Faces blanks ('\n' :: tail)) :
    Moves lexer (.silent (lexer.past (blanks ++ ['\n']) tail))
  | noLine {blanks : List Char} (hline : lexer.BeforeLine) (hfaces : lexer.Faces blanks []) :
    Moves lexer (.silent { lexer.past blanks [] with atLineStart := false })
  /-- The blanks in front of a token tell the level of its line. -/
  | line {blanks code : List Char} {marks : List Token} {inner : Indentation}
    (hline : lexer.BeforeLine) (hfaces : lexer.Faces blanks code) (hcode : startsCode code = true)
    (hmeet : lexer.blocks.meet (lineWidth lexer.tabWidth blanks) (lexer.place.after blanks) =
      (.ok marks, inner)) :
    Moves lexer (.silent { lexer.past blanks code with
      atLineStart := false
      blocks := inner
      queue := marks })
  | unmetLine {blanks code : List Char} {error : LexicalError} {inner : Indentation}
    (hline : lexer.BeforeLine) (hfaces : lexer.Faces blanks code) (hcode : startsCode code = true)
    (hmeet : lexer.blocks.meet (lineWidth lexer.tabWidth blanks) (lexer.place.after blanks) =
      (.error error, inner)) :
    Moves lexer (.answer (.error (.reported error)) { lexer.past blanks code with
      atLineStart := false
      blocks := inner })
  /-- A comment is passed in front of a line and in a line. -/
  | comment {blanks text tail : List Char} (hline : lexer.BeforeLine ∨ lexer.InLine)
    (hfaces : lexer.Faces blanks ('#' :: text ++ tail)) (htext : '\n' ∉ text)
    (htail : LineEnds tail) :
    Moves lexer (.silent (lexer.past (blanks ++ '#' :: text) tail))
  | textEnd {blanks : List Char} (hline : lexer.InLine) (hfaces : lexer.Faces blanks []) :
    Moves lexer (.silent (lexer.past blanks []).finish)
  | lineEnd {blanks tail : List Char} (hline : lexer.InLine)
    (hfaces : lexer.Faces blanks ('\n' :: tail)) (hclosed : lexer.brackets = 0) :
    Moves lexer (.answer
      (.ok (some (((lexer.past blanks ('\n' :: tail)).markStart.past ['\n'] tail).token
        (.layout .newline))))
      { (lexer.past blanks ('\n' :: tail)).markStart.past ['\n'] tail with
        atLineStart := true
        lineOpen := false })
  | joinedLine {blanks tail : List Char} (hline : lexer.InLine)
    (hfaces : lexer.Faces blanks ('\n' :: tail)) (hopen : lexer.brackets ≠ 0) :
    Moves lexer (.silent ((lexer.past blanks ('\n' :: tail)).markStart.past ['\n'] tail))
  | token {blanks code : List Char} {token : Token} {after : Lexer} (hline : lexer.InLine)
    (hfaces : lexer.Faces blanks code) (hcode : startsCode code = true)
    (hscan : (lexer.past blanks code).scanToken = (.ok token, after)) :
    Moves lexer (.answer (.ok (some token)) { after with lineOpen := true })
  | fault {blanks code : List Char} {error : LexicalError} {after : Lexer} (hline : lexer.InLine)
    (hfaces : lexer.Faces blanks code) (hcode : startsCode code = true)
    (hscan : (lexer.past blanks code).scanToken = (.error error, after)) :
    Moves lexer (.answer (.error (.reported error)) after)

theorem Faces.skipComment (h : lexer.Faces blanks ('#' :: text ++ tail)) (htext : '\n' ∉ text)
    (htail : LineEnds tail) :
    lexer.skipBlanks.skipComment = lexer.past (blanks ++ '#' :: text) tail := by
  rw [h.skipBlanks, ← past_past lexer blanks _ ('#' :: text ++ tail) tail]
  exact skipComment_of_split _ rfl htext htail

variable [IdentifierTables]

theorem BeforeLine.move_eq (h : lexer.BeforeLine) : lexer.move = lexer.measureLine := by
  rw [move.eq_def, h.queue]
  simp [h.finished, h.atLineStart, h.brackets]

theorem BeforeLine.move_of_not_fits (h : lexer.BeforeLine)
    (hwide : ¬ Fits lexer.tabWidth lexer.rest) :
    lexer.move = .answer (.error .overflow) lexer := by
  rw [h.move_eq, measureLine, indentWidth?_of_not_fits hwide]

/-- A line that fits is met behind its blanks. -/
theorem BeforeLine.move_of_fits (h : lexer.BeforeLine) (hfaces : lexer.Faces blanks ahead)
    (hfits : Fits lexer.tabWidth lexer.rest) :
    lexer.move = lexer.skipBlanks.meetLine (lineWidth lexer.tabWidth blanks) := by
  rw [h.move_eq, measureLine, hfits.indentWidth?, hfaces.takeWhile]

/-- In front of a line of tokens the next move measures the blanks. -/
theorem BeforeLine.move_code (h : lexer.BeforeLine) (hfaces : lexer.Faces blanks code)
    (hcode : startsCode code = true) (hfits : Fits lexer.tabWidth lexer.rest) :
    lexer.move =
      match lexer.blocks.meet (lineWidth lexer.tabWidth blanks) (lexer.place.after blanks) with
      | (.ok marks, inner) => .silent { lexer.past blanks code with
          atLineStart := false
          blocks := inner
          queue := marks }
      | (.error error, inner) => .answer (.error (.reported error)) { lexer.past blanks code with
          atLineStart := false
          blocks := inner } := by
  rw [h.move_of_fits hfaces hfits, hfaces.skipBlanks, meetLine]
  cases code with
  | nil => cases hcode
  | cons c cs =>
    obtain ⟨hcomment, hline⟩ := ne_of_startsCode hcode
    have hrest : (lexer.past blanks (c :: cs)).rest = c :: cs := rfl
    simp only [hrest, hcomment, hline, if_false]
    rfl

theorem BeforeLine.moves (h : lexer.BeforeLine) : lexer.Moves lexer.move := by
  by_cases hfits : Fits lexer.tabWidth lexer.rest
  swap
  · rw [h.move_of_not_fits hfits]
    exact .tooWide h hfits
  obtain ⟨blanks, ahead, hfaces, hahead⟩ := exists_faces lexer
  cases hahead with
  | textEnd =>
    rw [h.move_of_fits hfaces hfits, hfaces.skipBlanks]
    exact .noLine h hfaces
  | lineFeed tail =>
    have hadvance : (lexer.past blanks ('\n' :: tail)).advance = _ := advance_cons rfl
    rw [past_past] at hadvance
    rw [h.move_of_fits hfaces hfits, hfaces.skipBlanks, meetLine]
    simp only [past, if_true] at hadvance ⊢
    rw [hadvance]
    exact .emptyLine h hfaces
  | comment htext htail =>
    have hmove := h.move_of_fits hfaces hfits
    rw [meetLine, hfaces.skipComment htext htail, hfaces.skipBlanks] at hmove
    rw [hmove]
    exact .comment (.inl h) hfaces htext htail
  | code hcode =>
    rw [h.move_code hfaces hcode hfits]
    split
    · next marks inner hmeet => exact .line h hfaces hcode hmeet
    · next error inner hmeet => exact .unmetLine h hfaces hcode hmeet

theorem InLine.moves (h : lexer.InLine) : lexer.Moves lexer.move := by
  obtain ⟨blanks, ahead, hfaces, hahead⟩ := exists_faces lexer
  rw [move.eq_def, h.queue]
  simp only [h.finished, h.underWay, Bool.false_eq_true, if_false]
  have hrest : (lexer.past blanks ahead).rest = ahead := rfl
  cases hahead with
  | textEnd =>
    rw [hfaces.skipBlanks]
    exact .textEnd h hfaces
  | lineFeed tail =>
    have hadvance : (lexer.past blanks ('\n' :: tail)).markStart.advance = _ := advance_cons rfl
    rw [hfaces.skipBlanks]
    simp only [hrest, Char.reduceEq, if_false, if_true]
    split
    · next hclosed =>
      rw [hadvance] at hclosed ⊢
      exact .lineEnd h hfaces hclosed
    · next hopen =>
      rw [hadvance] at hopen ⊢
      exact .joinedLine h hfaces hopen
  | comment htext htail =>
    rw [hfaces.skipComment htext htail, hfaces.skipBlanks]
    exact .comment (.inr h) hfaces htext htail
  | code hcode =>
    obtain ⟨hcomment, hline⟩ := ne_of_startsCode hcode
    rw [hfaces.skipBlanks]
    simp only [hrest, hcomment, hline, if_false]
    split
    · next token after hscan => exact .token h hfaces hcode hscan
    · next error after hscan => exact .fault h hfaces hcode hscan

/-- A move does what stands in front of the lexer asks for. -/
theorem moves (lexer : Lexer) : lexer.Moves lexer.move := by
  cases hqueue : lexer.queue with
  | cons token queue =>
    rw [move_of_queue hqueue]
    exact .due hqueue
  | nil =>
    by_cases hfinished : lexer.finished = true
    · have hmove : lexer.move = .answer (.ok none) lexer := by
        rw [move.eq_def, hqueue]
        simp [hfinished]
      rw [hmove]
      exact .done hqueue hfinished
    have hfinished := (Bool.not_eq_true _).mp hfinished
    by_cases hstart : (lexer.atLineStart && lexer.brackets == 0) = true
    · obtain ⟨hstart, hbrackets⟩ := Bool.and_eq_true_iff.mp hstart
      exact BeforeLine.moves ⟨hqueue, hfinished, hstart, beq_iff_eq.mp hbrackets⟩
    · exact InLine.moves ⟨hqueue, hfinished, (Bool.not_eq_true _).mp hstart⟩

/-- What holds of every move that answers, and is passed on by every silent one, holds of every
call. -/
theorem next_induction {motive : Lexer → Answer × Lexer → Prop}
    (answer : ∀ {lexer after : Lexer} {result : Answer},
      lexer.Moves (.answer result after) → motive lexer (result, after))
    (silent : ∀ {lexer after : Lexer} {result : Answer × Lexer},
      lexer.Moves (.silent after) → motive after result → motive lexer result)
    (lexer : Lexer) : motive lexer lexer.next := by
  fun_induction next lexer with
  | case1 lexer result after hmove => exact answer (hmove ▸ lexer.moves)
  | case2 lexer after hmove ih => exact silent (hmove ▸ lexer.moves) ih

/-! ### Where tokens of the text begin -/

/-- A call for the next token comes to read a token of the text: the lexer is silent up to a line
that is under way, and passes the blanks in it, so that `begun` stands in front of the token. -/
inductive Begins : Lexer → Lexer → Prop
  | here {lexer : Lexer} {blanks code : List Char} (hline : lexer.InLine)
    (hfaces : lexer.Faces blanks code) (hcode : startsCode code = true) :
    Begins lexer (lexer.past blanks code)
  | later {lexer after begun : Lexer} (hmove : lexer.move = .silent after)
    (h : after.Begins begun) : Begins lexer begun

/-- What a call answers that comes to read a token, with the lexer that it leaves. -/
def readToken (begun : Lexer) : Answer × Lexer :=
  match begun.scanToken with
  | (.ok token, after) => (.ok (some token), { after with lineOpen := true })
  | (.error error, after) => (.error (.reported error), after)

theorem readToken_answer (begun : Lexer) :
    begun.readToken.1 = (begun.scanToken.1.map some).mapError .reported := by
  rw [readToken]
  split <;> next hscan => rw [hscan]; rfl

theorem readToken_rest (begun : Lexer) : begun.readToken.2.rest = begun.scanToken.2.rest := by
  rw [readToken]
  split <;> next hscan => rw [hscan]

theorem readToken_place (begun : Lexer) : begun.readToken.2.place = begun.scanToken.2.place := by
  rw [readToken]
  split <;> next hscan => rw [hscan]

theorem InLine.move_code (h : lexer.InLine) (hfaces : lexer.Faces blanks code)
    (hcode : startsCode code = true) :
    lexer.move = .answer (lexer.past blanks code).readToken.1
      (lexer.past blanks code).readToken.2 := by
  cases code with
  | nil => cases hcode
  | cons c cs =>
    obtain ⟨hcomment, hline⟩ := ne_of_startsCode hcode
    have hrest : (lexer.past blanks (c :: cs)).rest = c :: cs := rfl
    rw [move.eq_def, h.queue]
    simp only [h.finished, h.underWay, Bool.false_eq_true, if_false]
    rw [hfaces.skipBlanks]
    simp only [hrest, hcomment, hline, if_false, readToken]
    cases hscan : (lexer.past blanks (c :: cs)).scanToken with
    | mk result after =>
      cases result with
      | ok token => rfl
      | error error => rfl

theorem Begins.next_eq (h : lexer.Begins begun) : lexer.next = begun.readToken := by
  induction h with
  | here hline hfaces hcode => exact next_of_answer (hline.move_code hfaces hcode)
  | later hmove _ ih => rw [next_of_silent hmove, ih]

/-- A text that starts with a token is read from there. -/
theorem begins_ofString {source : String} (tabWidth : Nat)
    (hcode : startsCode source.toList = true) :
    (ofString source tabWidth).Begins
      ({ ofString source tabWidth with atLineStart := false }.past [] source.toList) := by
  have hblanks : ∀ c ∈ ([] : List Char), isBlank c = true := List.forall_mem_nil _
  have hmove := (at_ofString source tabWidth).move_code hblanks hcode (fits_nil tabWidth)
  refine .later hmove (.here ⟨rfl, rfl, rfl⟩ ⟨rfl, List.forall_mem_nil _, ?_⟩ hcode)
  exact not_isBlank_of_startsCode hcode

/-- The characters of a text are at fault only where a token begins. -/
theorem exists_begins_of_error {error : LexicalError}
    (h : lexer.next = (.error (.reported error), after)) (hfault : error.isFault = true) :
    ∃ begun, lexer.Begins begun := by
  fun_induction next lexer with
  | case1 lexer result last hmove =>
    have hmoves := lexer.moves
    rw [hmove] at hmoves
    cases h
    cases hmoves with
    | unmetLine _ _ _ hmeet =>
      rw [(Indentation.meet_error hmeet).1] at hfault
      cases hfault
    | fault hline hfaces hcode _ => exact ⟨_, .here hline hfaces hcode⟩
  | case2 lexer last hmove ih =>
    obtain ⟨begun, hbegins⟩ := ih h
    exact ⟨begun, .later hmove hbegins⟩

end Offside.Lexer
