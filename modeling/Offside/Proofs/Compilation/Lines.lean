/-
What the shape of token streams means for compiling: the parser never comes upon an empty block.
-/
import Offside.Proofs.Compilation.Sessions
import Offside.Proofs.Grammar.Blame
import Offside.Proofs.Token.Shape
import Offside.Text.IdentifierRanges

namespace Offside

section

variable [IdentifierTables] {text : String} {tabWidth : Nat} {tokens : List Token}

theorem inLines_of_tokenize (h : tokenize text tabWidth = .ok tokens) : InLines tokens :=
  (cut_of_tokenize h).lines_of_stage rfl

theorem levelsAfter?_of_tokenize (h : tokenize text tabWidth = .ok tokens) :
    levelsAfter? 0 tokens = some 0 :=
  (cut_of_tokenize h).levelsAfter?_eq rfl

/-- Tokens that come from a text leave no block empty. -/
theorem emptyBlock_not_due (h : tokenize text tabWidth = .ok tokens) (span : Span) :
    ¬ (GrammarError.emptyBlock span).Due tokens := by
  intro hdue
  obtain ⟨before, opening, closing, after, rfl, hopening, hclosing⟩ := hdue.exists_of_emptyBlock
  obtain ⟨token, others, hnext, hplain⟩ := (inLines_of_tokenize h).exists_of_indent hopening
  cases hnext
  rw [hclosing] at hplain
  cases hplain

end

/-- A compilation that has an error has it in one of its phases, and those before it have gone
well. -/
theorem CompileOptions.compile_error [IdentifierTables] {options : CompileOptions} {source : String}
    {error : CompileError} (h : options.compile source = .error (.reported error)) :
    (∃ lexical, error = .lexical lexical ∧
      tokenize source options.tabWidth = .error (.reported lexical)) ∨
    ∃ tokens, tokenize source options.tabWidth = .ok tokens ∧
      ((∃ grammar, error = .grammar grammar ∧
        Module.ofTokens tokens options.predeclare = .error grammar) ∨
      ∃ program, Module.ofTokens tokens options.predeclare = .ok program ∧
        ∃ lowering, error = .lowering lowering ∧ program.lower = .error lowering) := by
  rw [compile, lex] at h
  cases hlex : tokenize source options.tabWidth with
  | error failure =>
    rw [hlex] at h
    cases failure with
    | reported lexical =>
      cases h
      exact .inl ⟨lexical, rfl, rfl⟩
    | overflow => cases h
  | ok tokens =>
    rw [hlex] at h
    refine .inr ⟨tokens, rfl, ?_⟩
    simp only [Except.mapError, bind, Except.bind, parse] at h
    cases hparse : Module.ofTokens tokens options.predeclare with
    | error grammar =>
      rw [hparse] at h
      cases h
      exact .inl ⟨grammar, rfl, rfl⟩
    | ok program =>
      rw [hparse] at h
      refine .inr ⟨program, rfl, ?_⟩
      simp only [lower] at h
      cases hlower : program.lower with
      | error lowering =>
        rw [hlower] at h
        cases h
        exact ⟨lowering, rfl, rfl⟩
      | ok code =>
        rw [hlower] at h
        cases h

/-- The tokens of a text come in lines, and every level that is opened in front of the tokens of a
line is closed later on; so no compilation fails over an empty block. -/
theorem tokens_inLines_and_no_emptyBlock [IdentifierTables] :
    (∀ text tabWidth tokens, tokenize text tabWidth = .ok tokens →
      InLines tokens ∧
        (∀ first, first <+: tokens →
          countLayout .dedent first ≤ countLayout .indent first) ∧
        countLayout .dedent tokens = countLayout .indent tokens ∧
        ∀ before mark after, tokens = before ++ mark :: after → mark.kind = .layout .indent →
          ∃ token others, after = token :: others ∧ token.kind.isLayout = false) ∧
    ∀ (session : Session) clock source span run after,
      session.run clock source = some (run, after) →
        run.outcome ≠ .error (.grammar (.emptyBlock span)) := by
  refine ⟨fun text tabWidth tokens h => ⟨inLines_of_tokenize h, ?_, ?_, ?_⟩, ?_⟩
  · intro first hfirst
    exact countLayout_le_of_prefix (levelsAfter?_of_tokenize h) hfirst
  · have hcount := depth_add_countLayout (levelsAfter?_of_tokenize h)
    omega
  · rintro before mark after rfl hmark
    exact (inLines_of_tokenize h).exists_of_indent hmark
  · intro session clock source span run after hrun herror
    rcases CompileOptions.compile_error (Session.compile_of_run hrun herror) with
      ⟨lexical, hlexical, -⟩ |
      ⟨tokens, htokens, ⟨grammar, hgrammar, hparse⟩ | ⟨-, -, lowering, hlowering, -⟩⟩
    · cases hlexical
    · cases hgrammar
      exact emptyBlock_not_due htokens span (Module.due_of_ofTokens hparse)
    · cases hlowering

namespace LinesWitness

/-- A line, a block with a comment behind its header, and an end within the block. -/
def source : String := "a\nif a: # so\n\n  b"

def tokens : List Token :=
  let word (name : String) (line column offset : Nat) : Token :=
    ⟨.identifier name, name, ⟨⟨line, column, offset⟩, ⟨line, column + 1, offset + 1⟩⟩⟩
  [word "a" 1 1 0, ⟨.layout .newline, "\n", ⟨⟨1, 2, 1⟩, ⟨2, 1, 2⟩⟩⟩,
    ⟨.keyword .ifTest, "if", ⟨⟨2, 1, 2⟩, ⟨2, 3, 4⟩⟩⟩, word "a" 2 4 5,
    ⟨.symbol .colon, ":", ⟨⟨2, 5, 6⟩, ⟨2, 6, 7⟩⟩⟩,
    ⟨.layout .newline, "\n", ⟨⟨2, 11, 12⟩, ⟨3, 1, 13⟩⟩⟩, Token.mark .indent ⟨4, 3, 16⟩,
    word "b" 4 3 16, Token.mark .newline ⟨4, 4, 17⟩, Token.mark .dedent ⟨4, 4, 17⟩,
    Token.mark .endOfInput ⟨4, 4, 17⟩]

theorem inLines_block :
    tokenize source 4 = .ok tokens ∧ InLines tokens ∧
      countLayout .dedent tokens = countLayout .indent tokens := by
  have htokens : tokenize source 4 = .ok tokens := by decide +kernel
  obtain ⟨hlines, -, hcount, -⟩ := tokens_inLines_and_no_emptyBlock.1 source 4 tokens htokens
  exact ⟨htokens, hlines, hcount⟩

end LinesWitness

end Offside
