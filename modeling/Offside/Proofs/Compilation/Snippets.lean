/-
Snippets of failed compilations.  The line of an error is shown without the carriage returns at its
end, but its columns are counted with them.  So the marks under the line start where the error does,
and reach at most one column past the line that is shown, unless the error starts behind carriage
returns that are not shown.
-/
import Offside.Diagnostic.Rendering
import Offside.Proofs.Compilation.ErrorPlaces
import Offside.Proofs.Grammar.SpanTree
import Offside.Proofs.Source.Lines
import Offside.Proofs.Token.LineEndings
import Offside.Text.IdentifierRanges

namespace Offside

/-! ### Spans that end in front of the end of a line -/

/-- A span over a run of a text that does not end with a carriage return. -/
def Span.Clear (span : Span) (text : List Char) : Prop :=
  ∃ before run rest, text = before ++ run ++ rest ∧ run.getLast? ≠ some '\r' ∧
    span = ⟨Position.first.after before, Position.first.after (before ++ run)⟩

theorem Span.Clear.point {place : Position} {text : List Char} (h : place.In text) :
    (Span.point place).Clear text := by
  obtain ⟨before, rest, hsplit, rfl⟩ := h
  exact ⟨before, [], rest, by rw [List.append_nil, hsplit], nofun, by rw [List.append_nil]; rfl⟩

/-- The text of a row ends as the text of its last token. -/
theorem Row.getLast?_ne_return [IdentifierTables] {before run tail : List Char}
    {tokens : List Token} (h : Row before run tokens tail) :
    run ≠ [] ∧ run.getLast? ≠ some '\r' := by
  induction h with
  | last hscan => exact ⟨hscan.run_ne_nil, hscan.token_eq.1.getLast?_ne_return⟩
  | more hscan _ _ ih =>
    refine ⟨List.append_ne_nil_of_left_ne_nil hscan.run_ne_nil _, ?_⟩
    rw [← List.append_assoc, List.getLast?_append_of_ne_nil _ ih.1]
    exact ih.2

section

variable [IdentifierTables] {source : String} {tabWidth : Nat} {tokens : List Token} {span : Span}

theorem Token.span_clear {token : Token} (hlex : tokenize source tabWidth = .ok tokens)
    (htoken : token ∈ tokens) : token.span.Clear source.toList := by
  obtain ⟨before, run, rest, hsplit, hspells, hlexeme, hspan⟩ :=
    (tiles_of_tokenize hlex).exists_of_mem htoken
  refine ⟨before, run, rest, hsplit, ?_, hspan⟩
  cases hspells with
  | plain hkind =>
    have hreads := (inText_of_tokenize hlex).reads token htoken hkind
    rw [hlexeme, String.toList_ofList] at hreads
    exact hreads.isLexeme.getLast?_ne_return
  | lineEnd _ hrun => rw [hrun]; decide
  | textEnd _ hrun | mark _ _ hrun => rw [hrun]; nofun

theorem Span.OfInline.clear (h : span.OfInline tokens)
    (hlex : tokenize source tabWidth = .ok tokens) : span.Clear source.toList := by
  obtain ⟨piece, hne, ⟨front, back, hpiece⟩, hinline, rfl⟩ := h
  rw [List.append_assoc] at hpiece
  obtain ⟨passed, found, tail, hsplit, hrow, -⟩ :=
    (cut_of_tokenize hlex).exists_row rfl hpiece.symm hne hinline
  exact ⟨passed, found, tail, by rw [hsplit, List.append_assoc], hrow.getLast?_ne_return.2,
    hrow.span_eq⟩

/-- Whatever a compilation fails over does not end with a carriage return. -/
theorem CompileOptions.span_clear_of_compile {options : CompileOptions} {error : CompileError}
    (h : options.compile source = .error (.reported error)) :
    error.span.Clear source.toList := by
  rcases compile_error h with ⟨lexical, rfl, hlex⟩ |
    ⟨tokens, hlex, ⟨grammar, rfl, hparse⟩ | ⟨program, hparse, lowering, rfl, hlower⟩⟩
  · exact .point (place_in_of_tokenize hlex)
  · rcases (Module.due_of_ofTokens hparse).span_cases (ne_nil_of_tokenize hlex) with
      ⟨token, htoken, hspan⟩ | hinline
    · have hclear := Token.span_clear hlex htoken
      rw [← hspan] at hclear
      exact hclear
    · exact hinline.clear hlex
  · exact (LoweringError.span_ofInline hparse hlower).clear hlex

end

/-! ### Columns and the line that is shown -/

/-- How a span lies in the line where it starts, of which `line` is shown, in front of so many
carriage returns. -/
structure Span.LiesIn (span : Span) (line : String) (returns : Nat) : Prop where
  column_pos : 0 < span.start.column
  column_le : span.start.column ≤ line.length + returns + 1
  /-- On one line a span is empty or ends in front of the carriage returns. -/
  stop_le : span.start.line = span.stop.line →
    span.stop.column ≤ span.start.column ∨ span.stop.column ≤ line.length + 1

theorem Span.Clear.exists_line {span : Span} {source : SourceText}
    (h : span.Clear source.content.toList) (hline : span.start.line ≤ source.lineCount) :
    ∃ line returns, source.lineText? span.start.line = some line ∧
      (SourceText.pieces source.content.toList)[span.start.line - 1]? =
        some (line.toList ++ List.replicate returns '\r') ∧ span.LiesIn line returns := by
  obtain ⟨before, run, rest, hsplit, hlast, rfl⟩ := h
  rw [List.append_assoc] at hsplit
  have hshown := SourceText.lineText?_after hsplit hline
  have hpiece := SourceText.pieces_getElem? before (run ++ rest)
  obtain ⟨returns, hreturns⟩ :=
    SourceText.exists_returns (lastLine before ++ firstLine (run ++ rest))
  have hnumber : (Position.first.after before).line - 1 = before.count '\n' := by
    rw [Position.line_after, Position.first, Nat.add_sub_cancel_left]
  have hlength := congrArg List.length hreturns
  rw [List.length_append, List.length_append, List.length_replicate] at hlength
  refine ⟨_, returns, hshown, ?_, ⟨?_, ?_, fun hsame => ?_⟩⟩
  · rw [hsplit, hnumber, hpiece, String.toList_ofList, ← hreturns]
  · rw [Position.column_after_first]
    omega
  · rw [Position.column_after_first, String.length_ofList]
    omega
  · have hplain : '\n' ∉ run := by
      dsimp only at hsame
      rw [Position.after_append, Position.line_after _ run] at hsame
      exact List.count_eq_zero.mp (by omega)
    rw [Position.column_after_first, Position.column_after_first, lastLine_append hplain,
      String.length_ofList, firstLine_append hplain, ← List.append_assoc]
    by_cases hrun : run = []
    · rw [hrun, List.append_nil]
      exact .inl (Nat.le_refl _)
    · have hend : (lastLine before ++ run).getLast? ≠ some '\r' := by
        rwa [List.getLast?_append_of_ne_nil _ hrun]
      have hle := SourceText.length_le_trimReturns hend (firstLine rest)
      omega

/-! ### Marks -/

namespace Rendering

variable {rendering : Rendering} {span : Span} {line : String} {returns : Nat}

/-- How far the marks under a line reach. -/
theorem markWidth_spec (h : span.LiesIn line returns) :
    0 < markWidth span line.length ∧
      span.start.column - 1 + markWidth span line.length ≤ line.length + returns + 1 ∧
      (span.start.column - 1 + markWidth span line.length ≤ line.length + 1 ↔
        span.start.column ≤ line.length + 1) := by
  obtain ⟨hpos, hle, hstop⟩ := h
  have hcolumn : markColumn span = span.start.column := Nat.max_eq_left hpos
  rw [markWidth, hcolumn]
  split
  · next hsame =>
    have hstop := hstop hsame
    omega
  · omega

/-- The text of a diagnostic shows this line of the source, with so many marks under it from the
column where the span starts. -/
structure ShowsLine (rendering : Rendering) (diagnostic : Diagnostic) (source : SourceText)
    (span : Span) (line : String) (width : Nat) : Prop where
  lineText_eq : source.lineText? span.start.line = some line
  width_pos : 0 < width
  render_eq : rendering.render diagnostic (some source) =
    rendering.headerLine diagnostic ++ (placeLine (some source) span ++
      ("     |\n" ++ gutter span.start.line ++ " | " ++ line ++ "\n     | " ++
        String.ofList (List.replicate (span.start.column - 1) ' ') ++
        String.ofList (List.replicate width rendering.indicator) ++ "\n")) ++
      rendering.helpLine diagnostic

end Rendering

/-- The snippet of a failed compilation.  It shows the line where the error starts, and the marks
under it start in the column of the error.  They reach at most one column past the end of the line,
and past the end of what is shown of the line just where the error starts behind carriage returns
that are not shown. -/
theorem CompileOptions.showsLine_of_compile [IdentifierTables] {options : CompileOptions}
    {source : SourceText} {error : CompileError} {rendering : Rendering}
    (h : options.compile source.content = .error (.reported error))
    (hline : error.span.start.line ≤ source.lineCount) (hcolors : rendering.colors = false)
    (hsource : rendering.showSource = true) :
    ∃ line returns width, rendering.ShowsLine error.diagnostic source error.span line width ∧
      (SourceText.pieces source.content.toList)[error.span.start.line - 1]? =
        some (line.toList ++ List.replicate returns '\r') ∧
      error.span.start.column - 1 + width ≤ line.length + returns + 1 ∧
      (error.span.start.column - 1 + width ≤ line.length + 1 ↔
        error.span.start.column ≤ line.length + 1) := by
  obtain ⟨line, returns, hshown, hpiece, hlies⟩ := (span_clear_of_compile h).exists_line hline
  obtain ⟨hpos, hreach, hiff⟩ := Rendering.markWidth_spec hlies
  refine ⟨line, returns, _, ⟨hshown, hpos, ?_⟩, hpiece, hreach, hiff⟩
  have hcolumn : Rendering.markColumn error.span = error.span.start.column :=
    Nat.max_eq_left hlies.column_pos
  rw [Rendering.render, place?_of_compile h]
  simp [hsource, Rendering.snippet?, hshown, Rendering.snippet, Rendering.paint, hcolors, hcolumn]

namespace SnippetsWitness

/-- A value is missing in a line with a carriage return at its end. -/
def source : SourceText := ⟨"value", "x =\r\n"⟩

def error : CompileError :=
  .grammar (.expectedToken "expression" (.layout .newline) ⟨⟨1, 5, 4⟩, ⟨2, 1, 5⟩⟩)

theorem compile_source :
    CompileOptions.default.compile source.content = .error (.reported error) := by
  rw [← failure?_eq_some_iff]
  decide +kernel

/-- The line is shown without its carriage return, behind which the mark stands. -/
theorem showsLine_return : ∃ line returns width,
    Rendering.plain.ShowsLine error.diagnostic source error.span line width ∧
      (SourceText.pieces source.content.toList)[error.span.start.line - 1]? =
        some (line.toList ++ List.replicate returns '\r') ∧
      error.span.start.column - 1 + width ≤ line.length + returns + 1 ∧
      (error.span.start.column - 1 + width ≤ line.length + 1 ↔
        error.span.start.column ≤ line.length + 1) :=
  CompileOptions.showsLine_of_compile compile_source (by decide) rfl rfl

theorem not_marks_within_line : ¬ ∀ (options : CompileOptions) (source : SourceText)
    (error : CompileError), options.compile source.content = .error (.reported error) →
      error.span.start.line ≤ source.lineCount →
      ∃ line width, Rendering.plain.ShowsLine error.diagnostic source error.span line width ∧
        error.span.start.column - 1 + width ≤ line.length + 1 := by
  intro hclaim
  obtain ⟨line, width, ⟨hline, hpos, -⟩, hreach⟩ :=
    hclaim .default source error compile_source (by decide)
  have hshown : source.lineText? error.span.start.line = some "x =" := by decide
  rw [hshown] at hline
  cases hline
  have hcolumn : error.span.start.column = 5 := rfl
  have hlength : "x =".length = 3 := rfl
  omega

end SnippetsWitness

end Offside
