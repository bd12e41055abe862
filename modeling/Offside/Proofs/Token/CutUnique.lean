/-
A text is cut into tokens in one way only, which is the one that a lexer follows.  So the tokens of
a text may be found by cutting it, without running a lexer.
-/
import Offside.Proofs.Token.CutRun
import Offside.Proofs.Token.Faults

namespace Offside

variable [IdentifierTables]

namespace Lexer

variable {lexer : Lexer} {tabWidth : Nat} {stage : Stage} {before rest : List Char}
  {blocks : Indentation} {tokens : List Token} {error : Option (Failure LexicalError)}

/-- In front of a token that the text has, a lexer reads this token. -/
theorem Ready.run_of_scans {run tail : List Char} {token : Token} (h : lexer.Ready)
    (hplace : lexer.place = Position.first.after before) (hrest : lexer.rest = run ++ tail)
    (hscan : Scans before run tail token) :
    ∃ after : Lexer, after = { lexer.markStart.past run tail with
        brackets := token.kind.brackets lexer.brackets
        lineOpen := true } ∧
      lexer.run = (token :: after.run.1, after.run.2) := by
  rcases h.run hplace with ⟨run', tail', token', hrest', hscan', after, hafter, hrun⟩ |
    ⟨error, hfault, -⟩
  · obtain ⟨rfl, rfl⟩ := hscan'.unique hscan (hrest'.symm.trans hrest)
    have htoken : token' = token := Except.ok.inj (hscan'.scan.symm.trans hscan.scan)
    subst htoken
    exact ⟨after, hafter, hrun⟩
  · have hok := hscan.scan
    rw [← hrest, hfault.scan] at hok
    cases hok

theorem Ready.run_of_faults {error : LexicalError} (h : lexer.Ready)
    (hplace : lexer.place = Position.first.after before) (hfault : Faults before lexer.rest error) :
    lexer.run = ([], some (.reported error)) := by
  rcases h.run hplace with ⟨run, tail, token, hrest, hscan, -⟩ | ⟨error', hfault', hrun⟩
  · have hok := hscan.scan
    rw [← hrest, hfault.scan] at hok
    cases hok
  · have herror : error' = error := Except.error.inj (hfault'.scan.symm.trans hfault.scan)
    rw [hrun, herror]

/-- A lexer at a stage of a text hands out the tokens into which the rest of it is cut. -/
theorem At.run_eq_of_cut (h : lexer.At tabWidth stage before blocks rest)
    (hcut : Cut tabWidth stage before blocks rest tokens error) : lexer.run = (tokens, error) := by
  induction hcut generalizing lexer with
  | tooWide hwide => exact h.run_of_not_fits hwide
  | emptyLine hfiller hfits _ ih =>
    rw [h.run_filler hfiller hfits (.inr ⟨_, rfl⟩), h.past.run_lineFeed]
    exact ih (At.past h.past)
  | @textEnd before filler blocks hfiller hfits =>
    have hend : lexer.At tabWidth .fresh before blocks (filler ++ []) := by rwa [List.append_nil]
    rw [hend.run_filler hfiller hfits (.inl rfl), hend.past.run_textEnd]
  | @line before blanks run rest blocks inner marks token tokens error hblanks hfits hmeet hscan
      _ ih =>
    have hmove := h.move_code hblanks hscan.startsCode hfits
    rw [hmeet] at hmove
    have hpast := h.past
    -- the line opens with its first token; until then only its levels are known
    have hopened : ({ lexer.past blanks (run ++ rest) with
        atLineStart := false
        blocks := inner
        queue := []
        lineOpen := true } : Lexer).At tabWidth (.inLine 0) (before ++ blanks) inner
          (run ++ rest) :=
      ⟨rfl, hpast.place, hpast.tabWidth, rfl, rfl, rfl, rfl, hpast.brackets, hpast.finished⟩
    have hready : ({ lexer.past blanks (run ++ rest) with
        atLineStart := false
        blocks := inner
        queue := [] } : Lexer).Ready := ⟨rfl, hpast.finished, rfl, hscan.startsCode⟩
    obtain ⟨after, hafter, hrun⟩ := hready.run_of_scans hpast.place rfl hscan
    have hnext : after.run = (tokens, error) := by
      rw [hafter]
      exact ih hopened.scanned
    rw [run_of_silent hmove, run_queue]
    dsimp only
    rw [hrun, hnext]
  | @faultyLine before blanks rest blocks inner marks error hblanks hfits hmeet hfault =>
    have hmove := h.move_code hblanks hfault.code hfits
    rw [hmeet] at hmove
    have hpast := h.past
    have hready : ({ lexer.past blanks rest with
        atLineStart := false
        blocks := inner
        queue := [] } : Lexer).Ready := ⟨rfl, hpast.finished, rfl, hfault.code⟩
    rw [run_of_silent hmove, run_queue]
    dsimp only
    rw [hready.run_of_faults hpast.place hfault, List.append_nil]
  | unmetLine hblanks hcode hfits hmeet =>
    have hmove := h.move_code hblanks hcode hfits
    rw [hmeet] at hmove
    exact run_of_error hmove
  | @token brackets before blanks run rest blocks token tokens error hblanks hscan _ ih =>
    have hpast := h.past
    have hready : (lexer.past blanks (run ++ rest)).Ready :=
      ⟨hpast.queue, hpast.finished, hpast.atLineStart, hscan.startsCode⟩
    obtain ⟨after, hafter, hrun⟩ := hready.run_of_scans hpast.place rfl hscan
    have hnext : after.run = (tokens, error) := by
      rw [hafter]
      exact ih hpast.scanned
    rw [h.run_blanks hblanks (not_isBlank_of_startsCode hscan.startsCode), hrun, hnext]
  | fault hblanks hfault =>
    have hpast := h.past
    have hready : (lexer.past _ _).Ready :=
      ⟨hpast.queue, hpast.finished, hpast.atLineStart, hfault.code⟩
    rw [h.run_blanks hblanks (not_isBlank_of_startsCode hfault.code),
      hready.run_of_faults hpast.place hfault]
  | joinedLine hfiller hopen _ ih =>
    have hmove := h.past.move_lineFeed
    rw [if_neg (Nat.pos_iff_ne_zero.mp hopen)] at hmove
    rw [h.run_lineFiller hfiller (.inr ⟨_, rfl⟩), run_of_silent hmove]
    exact ih (At.past h.past.markStart)
  | @lineEnd before filler rest blocks tokens error hfiller _ ih =>
    have hmove := h.past.move_lineFeed
    rw [if_pos rfl] at hmove
    have hnext : ((lexer.past filler ('\n' :: rest)).markStart.past ['\n'] rest).At tabWidth
        (.inLine 0) (before ++ filler ++ ['\n']) blocks rest := At.past h.past.markStart
    rw [h.run_lineFiller hfiller (.inr ⟨_, rfl⟩), run_of_token hmove, ih]
    exact ⟨rfl, hnext.place, hnext.tabWidth, hnext.blocks, hnext.queue, rfl, rfl, hnext.brackets,
      hnext.finished⟩
  | @lastLine brackets before filler blocks hfiller =>
    have hend : lexer.At tabWidth (.inLine brackets) before blocks (filler ++ []) := by
      rwa [List.append_nil]
    have hpast := hend.past
    have hopen : (lexer.past filler []).lineOpen = true := hpast.lineOpen
    rw [hend.run_lineFiller hfiller (.inl rfl),
      run_of_end _ hpast.queue hpast.finished hpast.atLineStart rfl]
    simp [finish, hopen, closing, hpast.blocks, hpast.place]

end Lexer

/-- A text has just the tokens into which it is cut. -/
theorem tokenize_eq_of_cut {text : String} {tabWidth : Nat} {tokens : List Token}
    (h : Cut tabWidth .fresh [] Indentation.base text.toList tokens none) :
    tokenize text tabWidth = .ok tokens := by
  rw [tokenize, (Lexer.at_ofString text tabWidth).run_eq_of_cut h]

/-- A text that is cut up to a failure has no tokens. -/
theorem tokenize_eq_of_cut_error {text : String} {tabWidth : Nat} {tokens : List Token}
    {error : Failure LexicalError}
    (h : Cut tabWidth .fresh [] Indentation.base text.toList tokens (some error)) :
    tokenize text tabWidth = .error error := by
  rw [tokenize, (Lexer.at_ofString text tabWidth).run_eq_of_cut h]

end Offside
