/-
How a text is cut into tokens, as a relation on the text alone: line by line, with the levels that
are open and the brackets that a line has opened.  It says what comes next at every place where a
lexer stands between two tokens.
-/
import Offside.Proofs.Source.Positions
import Offside.Proofs.Token.Levels
import Offside.Proofs.Token.Scanning
import Offside.Proofs.Token.Widths

namespace Offside

/-! ### Parts of lines -/

/-- Blanks with a comment behind them, or without: a line that holds no token. -/
def isFiller (line : List Char) : Bool :=
  match line.dropWhile Lexer.isBlank with
  | [] => true
  | c :: _ => c == '#'

/-- Whether a token, or a fault, is in front. -/
def startsCode : List Char → Bool
  | [] => false
  | c :: _ => !Lexer.isBlank c && c != '#' && c != '\n'

/-- What may stand in front of the end of a line. -/
structure Filler (cs : List Char) : Prop where
  isFiller : isFiller cs = true
  lineFeed_not_mem : '\n' ∉ cs

theorem lineFeed_not_mem_of_isBlank {blanks : List Char}
    (h : ∀ c ∈ blanks, Lexer.isBlank c = true) : '\n' ∉ blanks :=
  fun hmem => absurd (h _ hmem) (by decide)

theorem Filler.of_blanks {blanks : List Char} (h : ∀ c ∈ blanks, Lexer.isBlank c = true) :
    Filler blanks := by
  refine ⟨?_, lineFeed_not_mem_of_isBlank h⟩
  rw [Offside.isFiller, List.dropWhile_eq_nil_iff.mpr h]

theorem Filler.of_comment {blanks text : List Char} (h : ∀ c ∈ blanks, Lexer.isBlank c = true)
    (htext : '\n' ∉ text) : Filler (blanks ++ '#' :: text) := by
  constructor
  · rw [Offside.isFiller, List.dropWhile_append_of_pos h]
    rfl
  · have hblanks := lineFeed_not_mem_of_isBlank h
    simp [hblanks, htext]

/-- Filler is blanks, or blanks and a comment. -/
theorem Filler.cases {filler : List Char} (h : Filler filler) :
    (∀ c ∈ filler, Lexer.isBlank c = true) ∨
      ∃ blanks text, filler = blanks ++ '#' :: text ∧ (∀ c ∈ blanks, Lexer.isBlank c = true) ∧
        '\n' ∉ text := by
  obtain ⟨blanks, tail, hsplit, -, htail, hblanks, -⟩ := exists_run Lexer.isBlank filler
  have hkind := h.isFiller
  rw [Offside.isFiller, ← htail] at hkind
  cases tail with
  | nil =>
    rw [List.append_nil] at hsplit
    exact .inl (hsplit ▸ hblanks)
  | cons c text =>
    rw [beq_iff_eq.mp hkind] at hsplit
    refine .inr ⟨blanks, text, hsplit, hblanks, fun hmem => h.lineFeed_not_mem ?_⟩
    rw [hsplit]
    simp [hmem]

/-- What ends a line of filler. -/
def LineEnds (tail : List Char) : Prop := tail = [] ∨ ∃ cs, tail = '\n' :: cs

theorem LineEnds.not_isBlank {tail : List Char} (h : LineEnds tail) :
    ∀ c cs, tail = c :: cs → Lexer.isBlank c = false := by
  rintro c cs rfl
  rcases h with h | ⟨cs, h⟩
  · cases h
  · cases h
    rfl

/-- The end of a line is as wide as nothing. -/
theorem LineEnds.fits {tail : List Char} (h : LineEnds tail) (tabWidth : Nat) :
    Fits tabWidth tail :=
  (fits_nil tabWidth).append h.not_isBlank

theorem LineEnds.stop {tail : List Char} (h : LineEnds tail) :
    ∀ c cs, tail = c :: cs → (c != '\n') = false := by
  rintro c cs rfl
  rcases h with h | ⟨cs, h⟩
  · cases h
  · cases h
    rfl

/-- A text goes on with filler up to the end of its line, or with blanks up to a token. -/
theorem filler_or_code (rest : List Char) :
    (∃ filler tail, rest = filler ++ tail ∧ Filler filler ∧ LineEnds tail) ∨
    ∃ blanks tail, rest = blanks ++ tail ∧ (∀ c ∈ blanks, Lexer.isBlank c = true) ∧
      startsCode tail = true := by
  obtain ⟨blanks, tail, rfl, -, -, hblanks, hhead⟩ := exists_run Lexer.isBlank rest
  cases tail with
  | nil => exact .inl ⟨blanks, [], rfl, .of_blanks hblanks, .inl rfl⟩
  | cons c cs =>
    by_cases hline : c = '\n'
    · exact .inl ⟨blanks, _, rfl, .of_blanks hblanks, .inr ⟨cs, by rw [hline]⟩⟩
    · by_cases hcomment : c = '#'
      · subst hcomment
        obtain ⟨text, others, rfl, -, -, htext, hend⟩ := exists_run (· != '\n') cs
        refine .inl ⟨blanks ++ '#' :: text, others, by simp, .of_comment hblanks ?_, ?_⟩
        · exact fun hmem => by simpa using htext _ hmem
        · cases others with
          | nil => exact .inl rfl
          | cons d others => exact .inr ⟨others, by simpa using hend d others rfl⟩
      · exact .inr ⟨blanks, _, rfl, hblanks, by simp [startsCode, hhead c cs rfl, hline, hcomment]⟩

/-! ### Tokens in their places -/

/-- A lexer in front of the rest of a text, outside of any layout. -/
def Lexer.reading (before rest : List Char) : Lexer :=
  { Lexer.ofChars rest 0 with place := Position.first.after before }

variable [IdentifierTables]

/-- The next token of a text is written as `run`. -/
structure Scans (before run tail : List Char) (token : Token) : Prop where
  scan : (Lexer.reading before (run ++ tail)).scanToken.1 = .ok token
  lexeme : token.lexeme = String.ofList run
  run_ne_nil : run ≠ []

/-- The next token of a text cannot be read. -/
structure Faults (before rest : List Char) (error : LexicalError) : Prop where
  scan : (Lexer.reading before rest).scanToken.1 = .error error
  code : startsCode rest = true

/-- The line feed that ends a line of tokens. -/
def lineEnd (before : List Char) : Token where
  kind := .layout .newline
  lexeme := "\n"
  span := ⟨Position.first.after before, Position.first.after (before ++ ['\n'])⟩

/-- What is due at the end of a text. -/
def closing (blocks : Indentation) (before : List Char) : List Token :=
  (blocks.close (Position.first.after before)).1 ++
    [Token.mark .endOfInput (Position.first.after before)]

/-- A token that is read is the token of its run, and spans it. -/
theorem Scans.readsAs {before run tail : List Char} {token : Token}
    (h : Scans before run tail token) :
    Lexer.ReadsAs run tail token.kind ∧
      token = ⟨token.kind, String.ofList run,
        ⟨Position.first.after before, Position.first.after (before ++ run)⟩⟩ := by
  have hne : (Lexer.reading before (run ++ tail)).rest ≠ [] :=
    List.append_ne_nil_of_left_ne_nil h.run_ne_nil tail
  cases hscan : (Lexer.reading before (run ++ tail)).scanToken with
  | mk result after =>
    have hresult := h.scan
    rw [hscan] at hresult
    cases hresult
    obtain ⟨read, others, hsplit, hreads, rfl, htoken⟩ := Lexer.scanToken_readsAs hne hscan
    have heq : token = ⟨token.kind, String.ofList read,
        ⟨Position.first.after before, Position.first.after (before ++ read)⟩⟩ := by
      rw [htoken]
      simp [Lexer.token, Lexer.lexeme, Lexer.span, Lexer.past, Lexer.markStart, Lexer.reading,
        Position.after_append]
    have hread : read = run :=
      String.ofList_injective ((congrArg Token.lexeme heq).symm.trans h.lexeme)
    subst hread
    obtain rfl : tail = others := List.append_cancel_left hsplit
    exact ⟨hreads, heq⟩

/-- A token that is read is written as the lexeme of its kind, and spans it. -/
theorem Scans.token_eq {before run tail : List Char} {token : Token}
    (h : Scans before run tail token) :
    IsLexeme run token.kind ∧
      token = ⟨token.kind, String.ofList run,
        ⟨Position.first.after before, Position.first.after (before ++ run)⟩⟩ :=
  ⟨h.readsAs.1.isLexeme, h.readsAs.2⟩

theorem Scans.isLayout {before run tail : List Char} {token : Token}
    (h : Scans before run tail token) : token.kind.isLayout = false :=
  h.token_eq.1.isLayout

theorem Scans.lineFeed_not_mem {before run tail : List Char} {token : Token}
    (h : Scans before run tail token) : '\n' ∉ run :=
  h.token_eq.1.lineFeed_not_mem

theorem Scans.span_start {before run tail : List Char} {token : Token}
    (h : Scans before run tail token) : token.span.start = Position.first.after before := by
  rw [h.token_eq.2]

/-! ### Cutting -/

/-- Where a text stands between two tokens. -/
inductive Stage where
  /-- In front of a line that is not part of the one before. -/
  | fresh
  /-- Behind a token, with this many brackets open. -/
  | inLine (brackets : Nat)
  deriving Repr, DecidableEq

namespace Stage

def isFresh : Stage → Bool
  | fresh => true
  | inLine _ => false

def brackets : Stage → Nat
  | fresh => 0
  | inLine brackets => brackets

end Stage

/-- The tokens of the rest of a text, and the failure that ends them if there is one, at a stage
behind `before` with these levels open.  Every line that starts between two lines is measured, also
an empty one. -/
inductive Cut (tabWidth : Nat) : Stage → List Char → Indentation → List Char → List Token →
    Option (Failure LexicalError) → Prop
  | tooWide {before rest : List Char} {blocks : Indentation} (hwide : ¬ Fits tabWidth rest) :
    Cut tabWidth .fresh before blocks rest [] (some .overflow)
  | emptyLine {before filler rest : List Char} {blocks : Indentation} {tokens : List Token}
    {error : Option (Failure LexicalError)} (hfiller : Filler filler)
    (hfits : Fits tabWidth filler)
    (next : Cut tabWidth .fresh (before ++ filler ++ ['\n']) blocks rest tokens error) :
    Cut tabWidth .fresh before blocks (filler ++ '\n' :: rest) tokens error
  | textEnd {before filler : List Char} {blocks : Indentation} (hfiller : Filler filler)
    (hfits : Fits tabWidth filler) :
    Cut tabWidth .fresh before blocks filler (closing blocks (before ++ filler)) none
  | line {before blanks run rest : List Char} {blocks inner : Indentation} {marks : List Token}
    {token : Token} {tokens : List Token} {error : Option (Failure LexicalError)}
    (hblanks : ∀ c ∈ blanks, Lexer.isBlank c = true) (hfits : Fits tabWidth blanks)
    (hmeet : blocks.meet (lineWidth tabWidth blanks)
      (Position.first.after (before ++ blanks)) = (.ok marks, inner))
    (hscan : Scans (before ++ blanks) run rest token)
    (next : Cut tabWidth (.inLine (token.kind.brackets 0)) (before ++ blanks ++ run) inner rest
      tokens error) :
    Cut tabWidth .fresh before blocks (blanks ++ (run ++ rest)) (marks ++ token :: tokens) error
  | faultyLine {before blanks rest : List Char} {blocks inner : Indentation} {marks : List Token}
    {error : LexicalError} (hblanks : ∀ c ∈ blanks, Lexer.isBlank c = true)
    (hfits : Fits tabWidth blanks)
    (hmeet : blocks.meet (lineWidth tabWidth blanks)
      (Position.first.after (before ++ blanks)) = (.ok marks, inner))
    (hfault : Faults (before ++ blanks) rest error) :
    Cut tabWidth .fresh before blocks (blanks ++ rest) marks (some (.reported error))
  | unmetLine {before blanks rest : List Char} {blocks inner : Indentation} {error : LexicalError}
    (hblanks : ∀ c ∈ blanks, Lexer.isBlank c = true) (hcode : startsCode rest = true)
    (hfits : Fits tabWidth blanks)
    (hmeet : blocks.meet (lineWidth tabWidth blanks)
      (Position.first.after (before ++ blanks)) = (.error error, inner)) :
    Cut tabWidth .fresh before blocks (blanks ++ rest) [] (some (.reported error))
  | token {brackets : Nat} {before blanks run rest : List Char} {blocks : Indentation}
    {token : Token} {tokens : List Token} {error : Option (Failure LexicalError)}
    (hblanks : ∀ c ∈ blanks, Lexer.isBlank c = true)
    (hscan : Scans (before ++ blanks) run rest token)
    (next : Cut tabWidth (.inLine (token.kind.brackets brackets)) (before ++ blanks ++ run) blocks
      rest tokens error) :
    Cut tabWidth (.inLine brackets) before blocks (blanks ++ (run ++ rest)) (token :: tokens)
      error
  | fault {brackets : Nat} {before blanks rest : List Char} {blocks : Indentation}
    {error : LexicalError} (hblanks : ∀ c ∈ blanks, Lexer.isBlank c = true)
    (hfault : Faults (before ++ blanks) rest error) :
    Cut tabWidth (.inLine brackets) before blocks (blanks ++ rest) [] (some (.reported error))
  | joinedLine {brackets : Nat} {before filler rest : List Char} {blocks : Indentation}
    {tokens : List Token} {error : Option (Failure LexicalError)} (hfiller : Filler filler)
    (hopen : 0 < brackets)
    (next : Cut tabWidth (.inLine brackets) (before ++ filler ++ ['\n']) blocks rest tokens
      error) :
    Cut tabWidth (.inLine brackets) before blocks (filler ++ '\n' :: rest) tokens error
  | lineEnd {before filler rest : List Char} {blocks : Indentation} {tokens : List Token}
    {error : Option (Failure LexicalError)} (hfiller : Filler filler)
    (next : Cut tabWidth .fresh (before ++ filler ++ ['\n']) blocks rest tokens error) :
    Cut tabWidth (.inLine 0) before blocks (filler ++ '\n' :: rest)
      (Offside.lineEnd (before ++ filler) :: tokens) error
  | lastLine {brackets : Nat} {before filler : List Char} {blocks : Indentation}
    (hfiller : Filler filler) :
    Cut tabWidth (.inLine brackets) before blocks filler
      (Token.mark .newline (Position.first.after (before ++ filler)) ::
        closing blocks (before ++ filler)) none

/-- A part of a line that is too wide stops everything, whatever stands behind it. -/
theorem Cut.of_not_fits {tabWidth : Nat} {before run rest : List Char} {blocks : Indentation}
    (hwide : ¬ Fits tabWidth run) :
    Cut tabWidth .fresh before blocks (run ++ rest) [] (some .overflow) :=
  .tooWide fun hfits => hwide hfits.of_append

end Offside
