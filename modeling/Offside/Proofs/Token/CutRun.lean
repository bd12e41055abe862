/-
Every run of a lexer follows the text: between two tokens the lexer is at a stage of the text, and
from there it hands out the tokens that the text is cut into.
-/
import Offside.Proofs.Token.Cut
import Offside.Token.Stream

namespace Offside

namespace Lexer

/-! ### Stages of a lexer -/

/-- A lexer between two tokens, at a stage of a text. -/
structure At (lexer : Lexer) (tabWidth : Nat) (stage : Stage) (before : List Char)
    (blocks : Indentation) (rest : List Char) : Prop where
  rest : lexer.rest = rest
  place : lexer.place = Position.first.after before
  tabWidth : lexer.tabWidth = tabWidth
  blocks : lexer.blocks = blocks
  queue : lexer.queue = []
  atLineStart : lexer.atLineStart = stage.isFresh
  lineOpen : lexer.lineOpen = !stage.isFresh
  brackets : lexer.brackets = stage.brackets
  finished : lexer.finished = false

variable {lexer other after : Lexer} {token : Token} {failure : Failure LexicalError}
  {tabWidth : Nat} {stage : Stage} {before rest : List Char} {blocks : Indentation}

theorem at_ofString (source : String) (tabWidth : Nat) :
    (Lexer.ofString source tabWidth).At tabWidth .fresh [] Indentation.base source.toList :=
  ⟨rfl, rfl, rfl, rfl, rfl, rfl, rfl, rfl, rfl⟩

theorem At.past {run tail : List Char} (h : lexer.At tabWidth stage before blocks (run ++ tail)) :
    (lexer.past run tail).At tabWidth stage (before ++ run) blocks tail where
  rest := rfl
  place := by rw [Position.after_append, ← h.place]; rfl
  tabWidth := h.tabWidth
  blocks := h.blocks
  queue := h.queue
  atLineStart := h.atLineStart
  lineOpen := h.lineOpen
  brackets := h.brackets
  finished := h.finished

theorem At.markStart (h : lexer.At tabWidth stage before blocks rest) :
    lexer.markStart.At tabWidth stage before blocks rest :=
  ⟨h.rest, h.place, h.tabWidth, h.blocks, h.queue, h.atLineStart, h.lineOpen, h.brackets,
    h.finished⟩

/-- Behind a token a lexer is in its line. -/
theorem At.scanned {brackets : Nat} {run tail : List Char} {token : Token}
    (h : lexer.At tabWidth (.inLine brackets) before blocks (run ++ tail)) :
    ({ lexer.markStart.past run tail with
      brackets := token.kind.brackets lexer.brackets
      lineOpen := true } : Lexer).At tabWidth (.inLine (token.kind.brackets brackets))
        (before ++ run) blocks tail where
  rest := rfl
  place := h.past.place
  tabWidth := h.tabWidth
  blocks := h.blocks
  queue := h.queue
  atLineStart := h.atLineStart
  lineOpen := rfl
  brackets := congrArg token.kind.brackets h.brackets
  finished := h.finished

theorem skipBlanks_of_split (lexer : Lexer) {blanks tail : List Char}
    (hrest : lexer.rest = blanks ++ tail) (hblanks : ∀ c ∈ blanks, isBlank c = true)
    (htail : ∀ c cs, tail = c :: cs → isBlank c = false) :
    lexer.rest.takeWhile isBlank = blanks ∧ lexer.skipBlanks = lexer.past blanks tail :=
  takeWhile_of_split hrest hblanks htail

theorem skipBlanks_of_head (lexer : Lexer) (h : ∀ c cs, lexer.rest = c :: cs → isBlank c = false) :
    lexer.skipBlanks = lexer :=
  (skipBlanks_of_split lexer (List.nil_append lexer.rest).symm (List.forall_mem_nil _) h).2

theorem not_isBlank_of_startsCode {tail : List Char} (h : startsCode tail = true) :
    ∀ c cs, tail = c :: cs → isBlank c = false := by
  rintro c cs rfl
  simp only [startsCode, Bool.and_eq_true, Bool.not_eq_true'] at h
  exact h.1.1

/-- A comment is skipped up to the end of its line. -/
theorem skipComment_of_split (lexer : Lexer) {text tail : List Char}
    (hrest : lexer.rest = '#' :: text ++ tail) (htext : '\n' ∉ text) (htail : LineEnds tail) :
    lexer.skipComment = lexer.past ('#' :: text) tail := by
  refine (takeWhile_of_split hrest (fun c hc => ?_) htail.stop).2
  rcases List.mem_cons.mp hc with rfl | hc
  · rfl
  · exact bne_iff_ne.mpr fun hline => htext (hline ▸ hc)

variable [IdentifierTables]

/-! ### Runs of a lexer -/

theorem run_eq_of_next (h : lexer.next = other.next) :
    lexer.run = other.run := by
  rw [run.eq_def lexer, run.eq_def other, h]

theorem next_of_silent (h : lexer.move = .silent after) :
    lexer.next = after.next := by
  rw [next.eq_def lexer]
  split
  · next hmove =>
    rw [h] at hmove
    cases hmove
  · next hmove =>
    rw [h] at hmove
    cases hmove
    rfl

theorem next_of_answer {answer : Answer} (h : lexer.move = .answer answer after) :
    lexer.next = (answer, after) := by
  rw [next.eq_def lexer]
  split
  · next hmove =>
    rw [h] at hmove
    cases hmove
    rfl
  · next hmove =>
    rw [h] at hmove
    cases hmove

theorem run_eq_of_move (h : lexer.move = other.move) :
    lexer.run = other.run := by
  apply run_eq_of_next
  cases hmove : other.move with
  | answer answer after => rw [next_of_answer (h.trans hmove), next_of_answer hmove]
  | silent after => rw [next_of_silent (h.trans hmove), next_of_silent hmove]

theorem run_of_silent (h : lexer.move = .silent after) : lexer.run = after.run :=
  run_eq_of_next (next_of_silent h)

theorem run_of_token (h : lexer.move = .answer (.ok (some token)) after) :
    lexer.run = (token :: after.run.1, after.run.2) := by
  have hnext := next_of_answer h
  rw [run.eq_def lexer]
  split <;> simp_all

theorem run_of_error (h : lexer.move = .answer (.error failure) after) :
    lexer.run = ([], some failure) := by
  have hnext := next_of_answer h
  rw [run.eq_def lexer]
  split <;> simp_all

theorem run_of_done (h : lexer.move = .answer (.ok none) after) :
    lexer.run = ([], none) := by
  have hnext := next_of_answer h
  rw [run.eq_def lexer]
  split <;> simp_all

theorem move_of_queue {queue : List Token} (h : lexer.queue = token :: queue) :
    lexer.move = .answer (.ok (some token)) { lexer with queue := queue } := by
  rw [move.eq_def, h]

/-- Tokens that are due are handed out before anything else. -/
theorem run_queue (lexer : Lexer) :
    lexer.run = (lexer.queue ++ ({ lexer with queue := [] } : Lexer).run.1,
      ({ lexer with queue := [] } : Lexer).run.2) := by
  generalize hqueue : lexer.queue = queue
  induction queue generalizing lexer with
  | nil =>
    have : ({ lexer with queue := [] } : Lexer) = lexer := by rw [← hqueue]
    rw [this]
    rfl
  | cons token queue ih =>
    rw [run_of_token (move_of_queue hqueue), ih _ rfl]
    rfl

/-! ### Starts of lines -/

/-- Between lines the next move measures a line. -/
theorem At.move_fresh (h : lexer.At tabWidth .fresh before blocks rest) :
    lexer.move = lexer.measureLine := by
  have hstart : lexer.atLineStart = true := h.atLineStart
  have hbrackets : lexer.brackets = 0 := h.brackets
  rw [move.eq_def, h.queue]
  simp [h.finished, hstart, hbrackets]

/-- A line that fits is measured, and met behind its blanks. -/
theorem At.move_of_fits (h : lexer.At tabWidth .fresh before blocks rest)
    (hfits : Fits tabWidth rest) :
    lexer.move = lexer.skipBlanks.meetLine (lineWidth tabWidth (rest.takeWhile isBlank)) := by
  rw [h.move_fresh, measureLine, h.tabWidth, h.rest, hfits.indentWidth?]

theorem At.run_of_not_fits (h : lexer.At tabWidth .fresh before blocks rest)
    (hwide : ¬ Fits tabWidth rest) : lexer.run = ([], some .overflow) := by
  apply run_of_error
  rw [h.move_fresh, measureLine, h.tabWidth, h.rest, indentWidth?_of_not_fits hwide]

theorem At.run_filler {filler tail : List Char}
    (h : lexer.At tabWidth .fresh before blocks (filler ++ tail)) (hfiller : Filler filler)
    (hfits : Fits tabWidth filler) (htail : LineEnds tail) :
    lexer.run = (lexer.past filler tail).run := by
  have hmove := h.move_of_fits (hfits.append htail.not_isBlank)
  rcases hfiller.cases with hblanks | ⟨blanks, text, rfl, hblanks, htext⟩
  · obtain ⟨-, hskip⟩ := skipBlanks_of_split lexer h.rest hblanks htail.not_isBlank
    have hagain : (lexer.past filler tail).skipBlanks = lexer.past filler tail :=
      skipBlanks_of_head _ htail.not_isBlank
    apply run_eq_of_move
    rw [hmove, h.past.move_of_fits (htail.fits tabWidth), hskip, hagain]
    rcases htail with rfl | ⟨cs, rfl⟩ <;> rfl
  · obtain ⟨-, hskip⟩ := skipBlanks_of_split lexer
      (show lexer.rest = blanks ++ ('#' :: text ++ tail) by rw [h.rest, List.append_assoc]) hblanks
      (by rintro c cs ⟨⟩; rfl)
    have hcomment := skipComment_of_split (lexer.past blanks ('#' :: text ++ tail)) rfl
      htext htail
    apply run_of_silent
    rw [hmove, hskip, ← past_past, ← hcomment]
    rfl

/-- An empty line is skipped. -/
theorem At.run_lineFeed {cs : List Char} (h : lexer.At tabWidth .fresh before blocks ('\n' :: cs)) :
    lexer.run = (lexer.past ['\n'] cs).run := by
  have hskip : lexer.skipBlanks = lexer :=
    skipBlanks_of_head lexer (h.rest ▸ LineEnds.not_isBlank (.inr ⟨cs, rfl⟩))
  apply run_of_silent
  rw [h.move_of_fits (LineEnds.fits (.inr ⟨cs, rfl⟩) tabWidth), hskip, meetLine]
  simp only [h.rest, if_true]
  rw [advance_cons h.rest]

theorem run_finish (lexer : Lexer) :
    lexer.finish.run = (lexer.finish.queue, none) := by
  have hdone : ({ lexer.finish with queue := [] } : Lexer).run = ([], none) := run_of_done rfl
  rw [run_queue, hdone, List.append_nil]

/-- A lexer inside of a line that has come to the end of the text. -/
theorem run_of_end (lexer : Lexer) (hqueue : lexer.queue = []) (hfinished : lexer.finished = false)
    (hstart : lexer.atLineStart = false) (hrest : lexer.rest = []) :
    lexer.run = (lexer.finish.queue, none) := by
  have hskip : lexer.skipBlanks = lexer := skipBlanks_of_head lexer (by simp [hrest])
  have hmove : lexer.move = .silent lexer.finish := by
    rw [move.eq_def, hqueue]
    simp [hfinished, hstart, hskip, hrest]
  rw [run_of_silent hmove, run_finish]

/-- At the end of the text everything is closed. -/
theorem At.run_textEnd (h : lexer.At tabWidth .fresh before blocks []) :
    lexer.run = (closing blocks before, none) := by
  have hskip : lexer.skipBlanks = lexer := skipBlanks_of_head lexer (by simp [h.rest])
  have hmove : lexer.move = .silent { lexer with atLineStart := false } := by
    rw [h.move_of_fits (fits_nil tabWidth), hskip, meetLine]
    simp only [h.rest]
  have hopen : lexer.lineOpen = false := h.lineOpen
  rw [run_of_silent hmove]
  refine (run_of_end { lexer with atLineStart := false } h.queue h.finished rfl h.rest).trans ?_
  simp [finish, hopen, closing, h.blocks, h.place]

/-! ### Lines with tokens -/

/-- A lexer inside of a line in front of a token. -/
structure Ready (lexer : Lexer) : Prop where
  queue : lexer.queue = []
  finished : lexer.finished = false
  atLineStart : lexer.atLineStart = false
  code : startsCode lexer.rest = true

/-- The next move in front of a token reads it. -/
theorem Ready.move (h : lexer.Ready) : lexer.move =
    match lexer.scanToken with
    | (.ok token, after) => .answer (.ok (some token)) { after with lineOpen := true }
    | (.error error, after) => .answer (.error (.reported error)) after := by
  have hskip : lexer.skipBlanks = lexer :=
    skipBlanks_of_head lexer (not_isBlank_of_startsCode h.code)
  have hcode := h.code
  cases hrest : lexer.rest with
  | nil => simp [hrest, startsCode] at hcode
  | cons c cs =>
    simp only [hrest, startsCode, Bool.and_eq_true, bne_iff_ne] at hcode
    rw [move.eq_def, h.queue]
    cases hscan : lexer.scanToken with
    | mk result after =>
      cases result <;>
        simp [h.finished, h.atLineStart, hskip, hrest, hcode.1.2, hcode.2, hscan]

/-- In front of a token a lexer reads the token or stops at the fault. -/
theorem Ready.run (h : lexer.Ready) (hplace : lexer.place = Position.first.after before) :
    (∃ run tail token, lexer.rest = run ++ tail ∧ Scans before run tail token ∧
      ∃ after : Lexer, after = { lexer.markStart.past run tail with
          brackets := token.kind.brackets lexer.brackets
          lineOpen := true } ∧
        lexer.run = (token :: after.run.1, after.run.2)) ∨
    ∃ error, Faults before lexer.rest error ∧ lexer.run = ([], some (.reported error)) := by
  have hne : lexer.rest ≠ [] := by
    intro hnil
    have hcode := h.code
    rw [hnil] at hcode
    cases hcode
  have hmove := h.move
  have hread : lexer.scanToken.1 = (reading before lexer.rest).scanToken.1 :=
    scanToken_congr rfl hplace
  cases hscan : lexer.scanToken with
  | mk result after =>
    rw [hscan] at hmove hread
    cases result with
    | ok token =>
      obtain ⟨run, tail, hrest, hreads, rfl, htoken⟩ := scanToken_readsAs hne hscan
      refine .inl ⟨run, tail, token, hrest, ⟨?_, ?_, ?_⟩, _, rfl, run_of_token hmove⟩
      · rw [← hrest]
        exact hread.symm
      · rw [htoken]
        simp [Lexer.token, lexeme, Lexer.past, markStart]
      · obtain ⟨c, cs, rfl, -⟩ := hreads.isLexeme.exists_head
        exact List.cons_ne_nil c cs
    | error error => exact .inr ⟨error, ⟨hread.symm, h.code⟩, run_of_error hmove⟩

/-- The next move measures a line of tokens. -/
theorem At.move_code {blanks tail : List Char}
    (h : lexer.At tabWidth .fresh before blocks (blanks ++ tail))
    (hblanks : ∀ c ∈ blanks, isBlank c = true) (hcode : startsCode tail = true)
    (hfits : Fits tabWidth blanks) :
    lexer.move =
      match blocks.meet (lineWidth tabWidth blanks) (Position.first.after (before ++ blanks)) with
      | (.ok marks, inner) => .silent { lexer.past blanks tail with
          atLineStart := false
          blocks := inner
          queue := marks }
      | (.error error, inner) => .answer (.error (.reported error)) { lexer.past blanks tail with
          atLineStart := false
          blocks := inner } := by
  obtain ⟨hrun, hskip⟩ := skipBlanks_of_split lexer h.rest hblanks (not_isBlank_of_startsCode hcode)
  have hplace : (lexer.past blanks tail).place = Position.first.after (before ++ blanks) :=
    h.past.place
  have hblocks : (lexer.past blanks tail).blocks = blocks := h.blocks
  have hrest : (lexer.past blanks tail).rest = tail := rfl
  rw [h.move_of_fits (hfits.append (not_isBlank_of_startsCode hcode)), hskip, ← h.rest, hrun,
    meetLine]
  cases tail with
  | nil => cases hcode
  | cons c cs =>
    simp only [startsCode, Bool.and_eq_true, bne_iff_ne] at hcode
    cases hmeet : blocks.meet (lineWidth tabWidth blanks)
        (Position.first.after (before ++ blanks)) with
    | mk result inner => cases result <;> simp [hrest, hcode.1.2, hcode.2, hplace, hblocks, hmeet]

/-- Inside of a line blanks in front of a token are skipped. -/
theorem At.run_blanks {brackets : Nat} {blanks tail : List Char}
    (h : lexer.At tabWidth (.inLine brackets) before blocks (blanks ++ tail))
    (hblanks : ∀ c ∈ blanks, isBlank c = true)
    (htail : ∀ c cs, tail = c :: cs → isBlank c = false) :
    lexer.run = (lexer.past blanks tail).run := by
  obtain ⟨-, hskip⟩ := skipBlanks_of_split lexer h.rest hblanks htail
  have hagain : (lexer.past blanks tail).skipBlanks = lexer.past blanks tail :=
    skipBlanks_of_head _ htail
  have hstart : lexer.atLineStart = false := h.atLineStart
  have hstart' : (lexer.past blanks tail).atLineStart = false := h.atLineStart
  apply run_eq_of_move
  rw [move.eq_def, move.eq_def (lexer.past blanks tail), h.queue, h.past.queue]
  simp only [h.finished, h.past.finished, hstart, hstart', Bool.false_and, Bool.false_eq_true,
    if_false, hskip, hagain]

/-- Inside of a line filler is skipped up to the end of the line. -/
theorem At.run_lineFiller {brackets : Nat} {filler tail : List Char}
    (h : lexer.At tabWidth (.inLine brackets) before blocks (filler ++ tail))
    (hfiller : Filler filler) (htail : LineEnds tail) :
    lexer.run = (lexer.past filler tail).run := by
  rcases hfiller.cases with hblanks | ⟨blanks, text, rfl, hblanks, htext⟩
  · exact h.run_blanks hblanks htail.not_isBlank
  · have hsplit : lexer.At tabWidth (.inLine brackets) before blocks
        (blanks ++ ('#' :: text ++ tail)) := by
      rw [← List.append_assoc]
      exact h
    have hhead : ∀ c cs, '#' :: text ++ tail = c :: cs → isBlank c = false := by
      rintro c cs ⟨⟩
      rfl
    have hcomment := skipComment_of_split (lexer.past blanks ('#' :: text ++ tail)) rfl
      htext htail
    rw [hsplit.run_blanks hblanks hhead, ← past_past _ _ _ ('#' :: text ++ tail), ← hcomment]
    apply run_of_silent
    have hstart : (lexer.past blanks ('#' :: text ++ tail)).atLineStart = false := h.atLineStart
    rw [move.eq_def, hsplit.past.queue]
    simp only [hsplit.past.finished, hstart, Bool.false_and, Bool.false_eq_true, if_false,
      skipBlanks_of_head (lexer.past blanks ('#' :: text ++ tail)) hhead]
    rfl

/-- A line feed ends the line unless it stands inside of brackets. -/
theorem At.move_lineFeed {brackets : Nat} {cs : List Char}
    (h : lexer.At tabWidth (.inLine brackets) before blocks ('\n' :: cs)) :
    lexer.move =
      if brackets = 0 then
        .answer (.ok (some (lineEnd before))) { lexer.markStart.past ['\n'] cs with
          atLineStart := true
          lineOpen := false }
      else .silent (lexer.markStart.past ['\n'] cs) := by
  have hskip : lexer.skipBlanks = lexer :=
    skipBlanks_of_head lexer (h.rest ▸ LineEnds.not_isBlank (.inr ⟨cs, rfl⟩))
  have hadvance : lexer.markStart.advance = lexer.markStart.past ['\n'] cs := advance_cons h.rest
  have hstart : lexer.atLineStart = false := h.atLineStart
  have hbrackets : (lexer.markStart.past ['\n'] cs).brackets = brackets := h.brackets
  have htoken : (lexer.markStart.past ['\n'] cs).token (.layout .newline) = lineEnd before := by
    simp [Lexer.token, lexeme, span, Lexer.past, Lexer.markStart, lineEnd, h.place,
      Position.after_append]
  rw [move.eq_def, h.queue]
  simp only [h.finished, hstart, Bool.false_and, Bool.false_eq_true, if_false, hskip, h.rest,
    hadvance, hbrackets, htoken]
  rfl

/-! ### Every run follows the text -/

/-- Runs over shorter texts than this are known to cut them. -/
def CutsBelow (tabWidth length : Nat) : Prop :=
  ∀ ⦃lexer : Lexer⦄ ⦃stage before blocks rest⦄, rest.length < length →
    lexer.At tabWidth stage before blocks rest →
      Cut tabWidth stage before blocks rest lexer.run.1 lexer.run.2

theorem At.cut_fresh_filler {filler tail : List Char}
    (hbelow : CutsBelow tabWidth (filler ++ tail).length)
    (h : lexer.At tabWidth .fresh before blocks (filler ++ tail)) (hfiller : Filler filler)
    (htail : LineEnds tail) :
    Cut tabWidth .fresh before blocks (filler ++ tail) lexer.run.1 lexer.run.2 := by
  by_cases hfits : Fits tabWidth filler
  · rw [h.run_filler hfiller hfits htail]
    rcases htail with rfl | ⟨cs, rfl⟩
    · rw [h.past.run_textEnd, List.append_nil]
      exact .textEnd hfiller hfits
    · rw [h.past.run_lineFeed]
      exact .emptyLine hfiller hfits (hbelow (by simp; omega) (At.past h.past))
  · rw [h.run_of_not_fits fun hall => hfits hall.of_append]
    exact .of_not_fits hfits

theorem At.cut_line_filler {brackets : Nat} {filler tail : List Char}
    (hbelow : CutsBelow tabWidth (filler ++ tail).length)
    (h : lexer.At tabWidth (.inLine brackets) before blocks (filler ++ tail))
    (hfiller : Filler filler) (htail : LineEnds tail) :
    Cut tabWidth (.inLine brackets) before blocks (filler ++ tail) lexer.run.1 lexer.run.2 := by
  rw [h.run_lineFiller hfiller htail]
  have hpast := h.past
  have hopen : (lexer.past filler tail).lineOpen = true := hpast.lineOpen
  have hstart : (lexer.past filler tail).atLineStart = false := hpast.atLineStart
  have hbrackets : (lexer.past filler tail).brackets = brackets := hpast.brackets
  rcases htail with rfl | ⟨cs, rfl⟩
  · rw [run_of_end _ hpast.queue hpast.finished hstart hpast.rest, List.append_nil]
    have hqueue : (lexer.past filler []).finish.queue =
        Token.mark .newline (Position.first.after (before ++ filler)) ::
          closing blocks (before ++ filler) := by
      simp [finish, hopen, closing, hpast.blocks, hpast.place]
    rw [hqueue]
    exact .lastLine hfiller
  · have hnext : ((lexer.past filler ('\n' :: cs)).markStart.past ['\n'] cs).At tabWidth
        (.inLine brackets) (before ++ filler ++ ['\n']) blocks cs := At.past hpast.markStart
    by_cases hzero : brackets = 0
    · subst hzero
      rw [run_of_token hpast.move_lineFeed]
      refine .lineEnd hfiller (hbelow (by simp; omega) ?_)
      exact ⟨rfl, hnext.place, hnext.tabWidth, hnext.blocks, hnext.queue, rfl, rfl, hnext.brackets,
        hnext.finished⟩
    · have hmove := hpast.move_lineFeed
      rw [if_neg hzero] at hmove
      rw [run_of_silent hmove]
      exact .joinedLine hfiller (Nat.pos_of_ne_zero hzero) (hbelow (by simp; omega) hnext)

theorem At.cut_line_code {brackets : Nat} {blanks tail : List Char}
    (hbelow : CutsBelow tabWidth (blanks ++ tail).length)
    (h : lexer.At tabWidth (.inLine brackets) before blocks (blanks ++ tail))
    (hblanks : ∀ c ∈ blanks, isBlank c = true) (hcode : startsCode tail = true) :
    Cut tabWidth (.inLine brackets) before blocks (blanks ++ tail) lexer.run.1 lexer.run.2 := by
  have hpast := h.past
  rw [h.run_blanks hblanks (not_isBlank_of_startsCode hcode)]
  have hready : (lexer.past blanks tail).Ready :=
    ⟨hpast.queue, hpast.finished, hpast.atLineStart, hcode⟩
  rcases hready.run hpast.place with
    ⟨run, others, token, hrest, hscan, after, rfl, hrun⟩ | ⟨error, hfault, hrun⟩
  · cases hrest
    rw [hrun]
    have hshorter := List.length_pos_iff.mpr hscan.run_ne_nil
    exact .token hblanks hscan (hbelow (by simp; omega) hpast.scanned)
  · rw [hrun]
    exact .fault hblanks hfault

theorem At.cut_fresh_code {blanks tail : List Char}
    (hbelow : CutsBelow tabWidth (blanks ++ tail).length)
    (h : lexer.At tabWidth .fresh before blocks (blanks ++ tail))
    (hblanks : ∀ c ∈ blanks, isBlank c = true) (hcode : startsCode tail = true) :
    Cut tabWidth .fresh before blocks (blanks ++ tail) lexer.run.1 lexer.run.2 := by
  by_cases hfits : Fits tabWidth blanks
  swap
  · rw [h.run_of_not_fits fun hall => hfits hall.of_append]
    exact .of_not_fits hfits
  have hpast := h.past
  have hmove := h.move_code hblanks hcode hfits
  cases hmeet : blocks.meet (lineWidth tabWidth blanks)
      (Position.first.after (before ++ blanks)) with
  | mk result inner =>
    rw [hmeet] at hmove
    cases result with
    | error error =>
      rw [run_of_error hmove]
      exact .unmetLine hblanks hcode hfits hmeet
    | ok marks =>
      rw [run_of_silent hmove, run_queue]
      -- the line opens with its first token; until then only its levels are known
      have hopened : ({ lexer.past blanks tail with
          atLineStart := false
          blocks := inner
          queue := []
          lineOpen := true } : Lexer).At tabWidth (.inLine 0) (before ++ blanks) inner tail :=
        ⟨rfl, hpast.place, hpast.tabWidth, rfl, rfl, rfl, rfl, hpast.brackets, hpast.finished⟩
      have hready : ({ lexer.past blanks tail with
          atLineStart := false
          blocks := inner
          queue := [] } : Lexer).Ready := ⟨rfl, hpast.finished, rfl, hcode⟩
      rcases hready.run hpast.place with
        ⟨run, others, token, hrest, hscan, after, rfl, hrun⟩ | ⟨error, hfault, hrun⟩
      · cases hrest
        dsimp only
        rw [hrun]
        have hshorter := List.length_pos_iff.mpr hscan.run_ne_nil
        exact .line hblanks hfits hmeet hscan (hbelow (by simp; omega) hopened.scanned)
      · dsimp only
        rw [hrun, List.append_nil]
        exact .faultyLine hblanks hfits hmeet hfault

/-- From every stage of a text a lexer hands out the tokens that the rest is cut into. -/
theorem At.cut_run (h : lexer.At tabWidth stage before blocks rest) :
    Cut tabWidth stage before blocks rest lexer.run.1 lexer.run.2 := by
  induction hlength : rest.length using Nat.strong_induction_on generalizing lexer stage before
    blocks rest with
  | _ length ih =>
    have hbelow : CutsBelow tabWidth rest.length :=
      fun _ _ _ _ _ hlt hat => ih _ (hlength ▸ hlt) hat rfl
    rcases filler_or_code rest with
      ⟨filler, tail, rfl, hfiller, htail⟩ | ⟨blanks, tail, rfl, hblanks, hcode⟩
    · cases stage with
      | fresh => exact h.cut_fresh_filler hbelow hfiller htail
      | inLine brackets => exact h.cut_line_filler hbelow hfiller htail
    · cases stage with
      | fresh => exact h.cut_fresh_code hbelow hblanks hcode
      | inLine brackets => exact h.cut_line_code hbelow hblanks hcode

end Lexer

/-- Every text is cut into tokens from every stage on. -/
theorem Cut.total [IdentifierTables] (tabWidth : Nat) (stage : Stage) (before : List Char)
    (blocks : Indentation) (rest : List Char) :
    ∃ tokens error, Cut tabWidth stage before blocks rest tokens error := by
  let lexer : Lexer := { Lexer.ofChars rest tabWidth with
    place := Position.first.after before
    blocks := blocks
    atLineStart := stage.isFresh
    lineOpen := !stage.isFresh
    brackets := stage.brackets }
  have hat : lexer.At tabWidth stage before blocks rest :=
    ⟨rfl, rfl, rfl, rfl, rfl, rfl, rfl, rfl, rfl⟩
  exact ⟨_, _, hat.cut_run⟩

/-- The tokens of a text are those that it is cut into. -/
theorem cut_of_tokenize [IdentifierTables] {text : String} {tabWidth : Nat} {tokens : List Token}
    (h : tokenize text tabWidth = .ok tokens) :
    Cut tabWidth .fresh [] Indentation.base text.toList tokens none := by
  have hcut := (Lexer.at_ofString text tabWidth).cut_run
  rw [tokenize] at h
  split at h
  · next hrun =>
    cases h
    rwa [hrun] at hcut
  · cases h

/-- A text that has no tokens is cut up to its first failure. -/
theorem cut_of_tokenize_error [IdentifierTables] {text : String} {tabWidth : Nat}
    {error : Failure LexicalError} (h : tokenize text tabWidth = .error error) :
    ∃ tokens, Cut tabWidth .fresh [] Indentation.base text.toList tokens (some error) := by
  have hcut := (Lexer.at_ofString text tabWidth).cut_run
  rw [tokenize] at h
  split at h
  · cases h
  · next tokens _ hrun =>
    cases h
    rw [hrun] at hcut
    exact ⟨tokens, hcut⟩

end Offside
