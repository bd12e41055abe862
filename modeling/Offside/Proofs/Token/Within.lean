/-
Where a lexer stands in a text.  Whatever it has met on its way, also errors, it has a first part of
the text behind it, and measures a line only where one starts.
-/
import Offside.Proofs.Token.LineStarts
import Offside.Proofs.Token.Moves

namespace Offside.Lexer

/-- The lexer that a move leaves. -/
def Move.lexer : Move → Lexer
  | .answer _ after => after
  | .silent after => after

variable {lexer after begun : Lexer} {next : Move} {result : Answer} {error : LexicalError}
  {token : Token} {text before run : List Char}

/-! ### What is read on the way -/

theorem Faces.length_rest {blanks ahead : List Char} (h : lexer.Faces blanks ahead) :
    lexer.rest.length = blanks.length + ahead.length := by
  rw [h.rest, List.length_append]

theorem ne_nil_of_startsCode {code : List Char} (h : startsCode code = true) : code ≠ [] := by
  rintro rfl
  cases h

/-- A token takes characters of the text, and leaves the layout as it is. -/
theorem exists_run_of_scanToken_ok [IdentifierTables] (hcode : startsCode begun.rest = true)
    (h : begun.scanToken = (.ok token, after)) :
    token.kind.isLayout = false ∧ ∃ run tail brackets, run ≠ [] ∧ begun.rest = run ++ tail ∧
      after = { begun.markStart.past run tail with brackets := brackets } := by
  obtain ⟨run, tail, hrest, hreads, hafter, -⟩ := scanToken_readsAs (ne_nil_of_startsCode hcode) h
  obtain ⟨c, cs, hcons, -⟩ := hreads.isLexeme.exists_head
  exact ⟨hreads.isLexeme.isLayout, run, tail, _, by rw [hcons]; simp, hrest, hafter⟩

theorem exists_run_of_scanToken_error [IdentifierTables] (hcode : startsCode begun.rest = true)
    (h : begun.scanToken = (.error error, after)) :
    ∃ run tail, run ≠ [] ∧ begun.rest = run ++ tail ∧ after = begun.markStart.past run tail := by
  obtain ⟨run, tail, hrest, hafter, -⟩ := scanToken_error h
  refine ⟨run, tail, ?_, hrest, hafter⟩
  rintro rfl
  -- reading nothing spends no effort
  have hspends := effort_scanToken_lt begun (ne_nil_of_startsCode hcode)
  have hsame : after.effort = begun.effort := by
    rw [hafter, effort, effort, hrest]
    rfl
  rw [h] at hspends
  dsimp only at hspends
  omega

/-! ### Parts of a text -/

/-- A lexer that has come so far in a text.  Where it has to measure a line, it stands at the start
of one, or behind a comment in front of the end of one. -/
structure Within (lexer : Lexer) (text before : List Char) : Prop where
  text : text = before ++ lexer.rest
  place : lexer.place = Position.first.after before
  lineStart : lexer.atLineStart = true →
    lexer.brackets = 0 ∧ (lastLine before = [] ∨ LineEnds lexer.rest)

theorem within_ofString (source : String) (tabWidth : Nat) :
    (ofString source tabWidth).Within source.toList [] :=
  ⟨rfl, rfl, fun _ => ⟨rfl, .inl rfl⟩⟩

theorem Within.past (h : lexer.Within text before) (hrest : lexer.rest = run ++ after.rest)
    (hplace : after.place = lexer.place.after run)
    (hstart : after.atLineStart = true →
      after.brackets = 0 ∧ (lastLine (before ++ run) = [] ∨ LineEnds after.rest)) :
    after.Within text (before ++ run) where
  text := by rw [h.text, hrest, List.append_assoc]
  place := by rw [hplace, h.place, Position.after_append]
  lineStart := hstart

theorem Within.inLine (h : lexer.Within text before) (hline : lexer.InLine) :
    lexer.atLineStart = false := by
  by_contra hstart
  have hstart := (Bool.not_eq_false _).mp hstart
  have hline := hline.underWay
  rw [hstart, (h.lineStart hstart).1] at hline
  cases hline

/-- Reading a token leads no line to its start. -/
theorem Within.read {blanks code : List Char} (h : lexer.Within text before) (hline : lexer.InLine)
    (hfaces : lexer.Faces blanks code) (hrest : code = run ++ after.rest)
    (hplace : after.place = lexer.place.after (blanks ++ run))
    (hstart : after.atLineStart = lexer.atLineStart) :
    after.Within text (before ++ (blanks ++ run)) := by
  refine h.past (by rw [hfaces.rest, hrest, List.append_assoc]) hplace fun hafter => ?_
  rw [hstart, h.inLine hline] at hafter
  cases hafter

theorem lastLine_behind_lineFeed (before blanks : List Char) :
    lastLine (before ++ (blanks ++ ['\n'])) = [] := by
  rw [← List.append_assoc, lastLine_lineFeed]

section

variable [IdentifierTables]

theorem Moves.within (h : lexer.Moves next)
    (hwithin : lexer.Within text before) :
    ∃ before, next.lexer.Within text before := by
  cases h with
  | due | done | tooWide => exact ⟨before, hwithin.text, hwithin.place, hwithin.lineStart⟩
  | @emptyLine blanks tail hline hfaces =>
    have hrest : lexer.rest = blanks ++ ['\n'] ++ tail := by simp [hfaces.rest]
    refine ⟨_, hwithin.past hrest rfl fun _ => ⟨hline.brackets, .inl ?_⟩⟩
    exact lastLine_behind_lineFeed before blanks
  | noLine hline hfaces | line hline hfaces | unmetLine hline hfaces =>
    exact ⟨_, hwithin.past hfaces.rest rfl nofun⟩
  | @comment blanks text tail hline hfaces htext htail =>
    have hrest : lexer.rest = blanks ++ '#' :: text ++ tail := by simp [hfaces.rest]
    refine ⟨_, hwithin.past hrest rfl fun hstart => ?_⟩
    exact ⟨(hwithin.lineStart hstart).1, .inr htail⟩
  | textEnd hline hfaces =>
    refine ⟨_, hwithin.past hfaces.rest rfl fun hstart => ?_⟩
    exact ⟨(hwithin.lineStart hstart).1, .inr (.inl rfl)⟩
  | @lineEnd blanks tail hline hfaces hclosed =>
    have hrest : lexer.rest = blanks ++ ['\n'] ++ tail := by simp [hfaces.rest]
    refine ⟨_, hwithin.past hrest (Position.after_append _ _ _).symm fun _ => ⟨hclosed, .inl ?_⟩⟩
    exact lastLine_behind_lineFeed before blanks
  | @joinedLine blanks tail hline hfaces hopen =>
    have hrest : lexer.rest = blanks ++ ['\n'] ++ tail := by simp [hfaces.rest]
    refine ⟨_, hwithin.past hrest (Position.after_append _ _ _).symm fun hstart => ?_⟩
    exact absurd (hwithin.lineStart hstart).1 hopen
  | token hline hfaces hcode hscan =>
    obtain ⟨-, run, tail, brackets, -, hrest, rfl⟩ := exists_run_of_scanToken_ok hcode hscan
    exact ⟨_, hwithin.read hline hfaces hrest (Position.after_append _ _ _).symm rfl⟩
  | fault hline hfaces hcode hscan =>
    obtain ⟨run, tail, -, hrest, rfl⟩ := exists_run_of_scanToken_error hcode hscan
    exact ⟨_, hwithin.read hline hfaces hrest (Position.after_append _ _ _).symm rfl⟩

theorem Moves.tabWidth_eq (h : lexer.Moves next) :
    next.lexer.tabWidth = lexer.tabWidth := by
  cases h with
  | token _ _ hcode hscan =>
    obtain ⟨-, run, tail, brackets, -, -, rfl⟩ := exists_run_of_scanToken_ok hcode hscan
    rfl
  | fault _ _ hcode hscan =>
    obtain ⟨run, tail, -, -, rfl⟩ := exists_run_of_scanToken_error hcode hscan
    rfl
  | _ => rfl

theorem Within.within_next (h : lexer.Within text before) :
    ∃ before, lexer.next.2.Within text before := by
  have hnext : ∀ before, lexer.Within text before → ∃ before, lexer.next.2.Within text before := by
    refine next_induction (motive := fun lexer result => ∀ before, lexer.Within text before →
      ∃ before, result.2.Within text before) ?_ ?_ lexer
    · exact fun hmoves before hwithin => hmoves.within hwithin
    · intro lexer after result hmoves ih before hwithin
      obtain ⟨before, hafter⟩ := hmoves.within hwithin
      exact ih before hafter
  exact hnext before h

theorem tabWidth_next (lexer : Lexer) : lexer.next.2.tabWidth = lexer.tabWidth :=
  next_induction (motive := fun lexer result => result.2.tabWidth = lexer.tabWidth)
    (fun hmoves => hmoves.tabWidth_eq) (fun hmoves ih => ih.trans hmoves.tabWidth_eq) lexer

/-! ### Lines that are too wide -/

/-- A lexer in front of a line that is too wide for a number.  It never passes that line. -/
structure Stuck (lexer : Lexer) : Prop where
  line : lexer.BeforeLine
  wide : ¬ Fits lexer.tabWidth lexer.rest

theorem Stuck.next_eq (h : lexer.Stuck) :
    lexer.next = (.error .overflow, lexer) :=
  next_of_answer (h.line.move_of_not_fits h.wide)

end

/-- Only a line that is measured can be too wide, and there a line starts. -/
theorem Within.lastLine_of_stuck (hwithin : lexer.Within text before) (h : lexer.Stuck) :
    lastLine before = [] :=
  (hwithin.lineStart h.line.atLineStart).2.resolve_right fun hends => h.wide (hends.fits _)

end Offside.Lexer
