/-
Where compilations fail.  Every error is told at a place of the source: a lexical error where the
lexer stands, any other error at tokens, and tokens are runs of the source.  So no failure is
reported without a line and a column.
-/
import Offside.Compilation.Payload
import Offside.Proofs.Code.WellFormed
import Offside.Proofs.Compilation.Lines
import Offside.Proofs.Token.Places
import Offside.Text.IdentifierRanges

open String (utf8Len)

namespace Offside

/-! ### Spans in texts -/

section

variable {text first second : List Char}

/-- Of two beginnings of a text, the one with fewer bytes is a beginning of the other. -/
theorem prefix_of_utf8Len_le (hfirst : first <+: text) (hsecond : second <+: text)
    (h : utf8Len first ≤ utf8Len second) : first <+: second := by
  rcases List.prefix_or_prefix_of_prefix hfirst hsecond with hprefix | ⟨more, rfl⟩
  · exact hprefix
  · rw [String.utf8Len_append] at h
    have hmore : more = [] := String.utf8Len_eq_zero.mp (by omega)
    simp [hmore]

end

/-- A span over a run of a text. -/
def Span.In (span : Span) (text : List Char) : Prop :=
  ∃ before run rest, text = before ++ run ++ rest ∧
    span = ⟨Position.first.after before, Position.first.after (before ++ run)⟩

namespace Span.In

variable {span first last : Span} {text : List Char}

theorem point {place : Position} (h : place.In text) : (Span.point place).In text := by
  obtain ⟨before, rest, hsplit, rfl⟩ := h
  exact ⟨before, [], rest, by rw [List.append_nil, hsplit], by rw [List.append_nil]; rfl⟩

theorem start_in (h : span.In text) : span.start.In text := by
  obtain ⟨before, run, rest, hsplit, rfl⟩ := h
  exact ⟨before, run ++ rest, by rw [hsplit, List.append_assoc], rfl⟩

theorem stop_in (h : span.In text) : span.stop.In text := by
  obtain ⟨before, run, rest, hsplit, rfl⟩ := h
  exact ⟨before ++ run, rest, hsplit, rfl⟩

theorem start_le_stop (h : span.In text) : span.start.offset ≤ span.stop.offset := by
  obtain ⟨before, run, rest, -, rfl⟩ := h
  rw [Position.after_append]
  exact Position.offset_after_le _ _

theorem through (hfirst : first.In text) (hlast : last.In text)
    (h : first.start.offset ≤ last.stop.offset) : (first.through last).In text := by
  obtain ⟨before, rest, hsplit, hstart⟩ := hfirst.start_in
  obtain ⟨upTo, after, hsplit', hstop⟩ := hlast.stop_in
  rw [hstart, hstop, Position.offset_after_first, Position.offset_after_first] at h
  obtain ⟨run, rfl⟩ := prefix_of_utf8Len_le ⟨rest, hsplit.symm⟩ ⟨after, hsplit'.symm⟩ h
  exact ⟨before, run, after, hsplit', by rw [Span.through, hstart, hstop]⟩

end Span.In

/-- The span of tokens that follow each other in a text. -/
theorem spanOf_in {text : List Char} {tokens : List Token} (hne : tokens ≠ [])
    (hin : ∀ token ∈ tokens, token.span.In text) (htokens : Ascending tokens) :
    (spanOf tokens).In text := by
  obtain ⟨first, others, rfl⟩ := List.exists_cons_of_ne_nil hne
  obtain ⟨hfirst, hothers⟩ := List.forall_mem_cons.mp hin
  rcases List.eq_nil_or_concat others with rfl | ⟨init, last, hlast⟩
  · exact hfirst
  · rw [List.concat_eq_append] at hlast
    subst hlast
    have hmem : last ∈ init ++ [last] := List.mem_append_right _ (List.mem_singleton.mpr rfl)
    have hspan : spanOf (first :: (init ++ [last])) = first.span.through last.span :=
      spanOf_append (List.cons_ne_nil first []) (List.cons_ne_nil last []) init
    rw [hspan]
    exact hfirst.through (hothers last hmem) (hfirst.start_le_stop.trans
      ((htokens.head_le last hmem).trans (hothers last hmem).start_le_stop))

theorem Span.OfPiece.in_text [IdentifierTables] {source : String} {tabWidth : Nat}
    {tokens : List Token} {span : Span} (h : span.OfPiece tokens)
    (hlex : tokenize source tabWidth = .ok tokens) :
    span.In source.toList := by
  obtain ⟨piece, hne, hpiece, rfl⟩ := h
  refine spanOf_in hne (fun token htoken => ?_)
    ((ascending_of_tokenize hlex).sublist hpiece.sublist)
  obtain ⟨before, run, rest, hsplit, -, -, hspan⟩ :=
    (tiles_of_tokenize hlex).exists_of_mem (hpiece.subset htoken)
  exact ⟨before, run, rest, hsplit, hspan⟩

/-! ### The errors of each phase -/

/-- The error that ends a run of a lexer is told at a place of the text. -/
theorem Lexer.Follows.error_in [IdentifierTables] {text : List Char} {lexer : Lexer}
    {error : LexicalError} (h : lexer.Follows text) (hrun : lexer.run.2 = some (.reported error)) :
    error.place.In text := by
  fun_induction Lexer.run lexer with
  | case1 lexer found after hnext =>
    cases hrun
    have hanswer := h.next.1
    rwa [hnext] at hanswer
  | case2 => cases hrun
  | case3 lexer token after hnext tokens error hrest ih =>
    have hafter := h.next.2
    rw [hnext] at hafter
    exact ih hafter (by rw [hrest]; exact hrun)

theorem place_in_of_tokenize [IdentifierTables] {source : String} {tabWidth : Nat}
    {error : LexicalError} (h : tokenize source tabWidth = .error (.reported error)) :
    error.place.In source.toList := by
  refine (Lexer.Follows.ofString source tabWidth).error_in ?_
  rw [tokenize] at h
  split at h
  · cases h
  · next hrun =>
    cases h
    rw [hrun]

theorem ne_nil_of_tokenize [IdentifierTables] {source : String} {tabWidth : Nat}
    {tokens : List Token} (h : tokenize source tabWidth = .ok tokens) : tokens ≠ [] := by
  obtain ⟨last, hsplit, -⟩ := Module.exists_last_of_inLines (inLines_of_tokenize h)
  rw [hsplit]
  exact List.append_ne_nil_of_right_ne_nil _ (List.cons_ne_nil _ _)

/-- Past the last token, the current span is still the span of a token. -/
theorem Cursor.On.exists_span {c : Cursor} {tokens : List Token} (h : c.On tokens)
    (hne : tokens ≠ []) : ∃ token ∈ tokens, c.span = token.span := by
  subst h
  rw [span]
  split
  · next token rest hrest => exact ⟨token, by simp [hrest], rfl⟩
  · next token past hrest hpast => exact ⟨token, by simp [hpast], rfl⟩
  · next hrest hpast => exact absurd (by rw [hrest, hpast]; rfl) hne

/-- An error of the grammar is told at a token, or at an expression. -/
theorem GrammarError.Due.span_cases {tokens : List Token} {error : GrammarError}
    (h : error.Due tokens) (hne : tokens ≠ []) :
    (∃ token ∈ tokens, error.span = token.span) ∨ error.span.OfInline tokens := by
  cases h with
  | expected hc | duplicateParameter hc | nestedDefinition hc | nestingTooDeep hc =>
    exact .inl (hc.exists_span hne)
  | @unexpected c hc =>
    have hspan : c.unexpected.span = c.span := by
      rw [Cursor.unexpected]
      split <;> rfl
    rw [hspan]
    exact .inl (hc.exists_span hne)
  | emptyBlock htokens => exact .inl ⟨_, by simp [htokens], rfl⟩
  | invalidTarget hpiece htarget =>
    exact .inr ((htarget.span_ofPiece _ (List.mem_singleton.mpr rfl)).inline htarget.isLayout
      hpiece)

theorem GrammarError.Due.span_ofPiece {tokens : List Token} {error : GrammarError}
    (h : error.Due tokens) (hne : tokens ≠ []) : error.span.OfPiece tokens := by
  rcases h.span_cases hne with ⟨token, htoken, hspan⟩ | hinline
  · rw [hspan]
    exact .single htoken
  · exact hinline.ofPiece

/-- Lowering fails at a jump, which stands on one line. -/
theorem LoweringError.span_ofInline {tokens : List Token} {predeclare : Bool} {program : Module}
    {error : LoweringError} (hparse : Module.ofTokens tokens predeclare = .ok program)
    (h : program.lower = .error error) : error.span.OfInline tokens := by
  have hread := Module.readFrom_of_ofTokens hparse
  obtain ⟨listing, hlisting⟩ | ⟨visit, hvisit, found, hfound, hmisplaced, hjump⟩ :=
    Module.lower_of_wellFormed fun visit hvisit => (hread visit hvisit).wellFormed
  · rw [h] at hlisting
    cases hlisting
  · rw [h] at hfound
    obtain rfl := Except.error.inj hfound
    have hinline : visit.stmt.blocks = [] → visit.stmt.span.OfInline tokens := fun hblocks =>
      ((hread visit hvisit).inline hblocks).mono (List.takeWhile_prefix _).isInfix
    cases hmisplaced with
    | breakLoop | continueLoop | leave => exact hinline rfl
    | function | classDef | assign => rcases hjump with hjump | hjump | hjump <;> cases hjump

theorem CompileOptions.span_in_of_compile [IdentifierTables] {options : CompileOptions}
    {source : String} {error : CompileError}
    (h : options.compile source = .error (.reported error)) :
    error.span.In source.toList := by
  rcases compile_error h with ⟨lexical, rfl, hlex⟩ |
    ⟨tokens, hlex, ⟨grammar, rfl, hparse⟩ | ⟨program, hparse, lowering, rfl, hlower⟩⟩
  · exact .point (place_in_of_tokenize hlex)
  · exact ((Module.due_of_ofTokens hparse).span_ofPiece (ne_nil_of_tokenize hlex)).in_text hlex
  · exact (LoweringError.span_ofInline hparse hlower).ofPiece.in_text hlex

/-! ### Reports of failures -/

/-- The value of a field. -/
def Json.field? (key : String) : Json → Option Json
  | object fields => fields.lookup key
  | _ => none

/-- A span of a source: both of its ends are shown by the source, in their order. -/
structure SourceText.Locates (source : SourceText) (span : Span) : Prop where
  start : source.Shows span.start
  stop : source.Shows span.stop
  line_pos : 1 ≤ span.start.line
  start_le_stop : span.start.offset ≤ span.stop.offset
  stop_le : span.stop.offset ≤ source.content.utf8ByteSize

theorem SourceText.locates_of_in {source : SourceText} {span : Span}
    (h : span.In source.content.toList) : source.Locates span where
  start := shows_of_in h.start_in
  stop := shows_of_in h.stop_in
  line_pos := by
    obtain ⟨before, rest, -, hstart⟩ := h.start_in
    rw [hstart, Position.line_after]
    exact Nat.le_add_right _ _
  start_le_stop := h.start_le_stop
  stop_le := by
    obtain ⟨before, rest, hsplit, hstop⟩ := h.stop_in
    rw [hstop, Position.offset_after_first, ← String.utf8Len_toList, hsplit, String.utf8Len_append]
    exact Nat.le_add_right _ _

theorem CompileOptions.place?_of_compile [IdentifierTables] {options : CompileOptions}
    {source : String} {error : CompileError}
    (h : options.compile source = .error (.reported error)) :
    error.diagnostic.place? = some error.span := by
  obtain ⟨before, run, rest, -, hspan⟩ := span_in_of_compile h
  have hpresent : error.span.isAbsent = false := by
    rw [hspan, Span.isAbsent, Position.line_after]
    exact beq_eq_false_iff_ne.mpr (by simp [Position.first])
  simp [Diagnostic.place?, CompileError.diagnostic, hpresent]

/-- A compilation that fails, in whatever phase, is reported at a span of its source, with the line
and the column where that span starts. -/
theorem Session.locates_of_run [IdentifierTables] {session after : Session} {clock : Phase → Nat}
    {source : SourceText} {run : Run} {error : CompileError}
    (hrun : session.run clock source.content = some (run, after)) (h : run.outcome = .error error) :
    source.Locates error.span ∧ error.span ≠ .absent ∧
      error.diagnostic.place? = some error.span ∧
      (payload (.error error)).field? "line" = some (.number error.span.start.line) ∧
      (payload (.error error)).field? "column" = some (.number error.span.start.column) := by
  have hfails := compile_of_run hrun h
  have hlocates := SourceText.locates_of_in (CompileOptions.span_in_of_compile hfails)
  have hplace := CompileOptions.place?_of_compile hfails
  refine ⟨hlocates, ?_, hplace, ?_, ?_⟩
  · intro habsent
    exact absurd hlocates.line_pos (by rw [habsent]; decide)
  · rw [payload, CompileError.json, Diagnostic.report, hplace]
    rfl
  · rw [payload, CompileError.json, Diagnostic.report, hplace]
    rfl

namespace ErrorPlacesWitness

/-- A sum cannot be assigned to; its parentheses are not part of its span. -/
def source : SourceText := ⟨"sum", "\"é\"\n(a) + b = 2"⟩

def session : Session := .new .default

def error : CompileError :=
  .grammar (.invalidTarget "an operator expression" ⟨⟨2, 2, 6⟩, ⟨2, 8, 12⟩⟩)

theorem locates_sum :
    (∃ run after, session.run (fun _ => 0) source.content = some (run, after) ∧
        run.outcome = .error error) ∧
      source.Locates ⟨⟨2, 2, 6⟩, ⟨2, 8, 12⟩⟩ ∧
      (payload (.error error)).field? "line" = some (.number 2) ∧
      (payload (.error error)).field? "column" = some (.number 2) := by
  have hfails : (session.run (fun _ => 0) source.content).bind
      (fun result => failure? result.1.outcome) = some error := by
    decide +kernel
  obtain ⟨⟨run, after⟩, hrun, hfound⟩ := Option.bind_eq_some_iff.mp hfails
  have herror : run.outcome = .error error := failure?_eq_some_iff.mp hfound
  obtain ⟨hlocates, -, -, hline, hcolumn⟩ := Session.locates_of_run hrun herror
  exact ⟨⟨run, after, hrun, herror⟩, hlocates, hline, hcolumn⟩

end ErrorPlacesWitness

end Offside
