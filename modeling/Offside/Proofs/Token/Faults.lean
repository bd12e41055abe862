/-
The fault that keeps a text from being read as tokens, whatever its lines and their indentation.
-/
import Offside.Proofs.Token.Cut

namespace Offside

/-- The first fault behind `before`, where blanks, line ends and comments are passed over and
tokens are read one after the other. -/
inductive FaultIn [IdentifierTables] : List Char → List Char → LexicalError → Prop
  | here {before rest : List Char} {error : LexicalError} (hfault : Faults before rest error) :
    FaultIn before rest error
  | gap {before rest : List Char} {c : Char} {error : LexicalError}
    (hc : Lexer.isBlank c = true ∨ c = '\n') (next : FaultIn (before ++ [c]) rest error) :
    FaultIn before (c :: rest) error
  | comment {before text rest : List Char} {error : LexicalError} (htext : '\n' ∉ text)
    (hrest : LineEnds rest) (next : FaultIn (before ++ '#' :: text) rest error) :
    FaultIn before ('#' :: text ++ rest) error
  | token {before run rest : List Char} {token : Token} {error : LexicalError}
    (hscan : Scans before run rest token) (next : FaultIn (before ++ run) rest error) :
    FaultIn before (run ++ rest) error

section

variable {before rest run : List Char} {token : Token} {error : LexicalError} {c : Char}

/-- A fault is reported at a place in the line where its token starts. -/
theorem Faults.exists_passed [IdentifierTables] (h : Faults before rest error) :
    error.isFault = true ∧ ∃ passed, passed <+: rest ∧ '\n' ∉ passed ∧
      error.place = Position.first.after (before ++ passed) := by
  cases hscan : (Lexer.reading before rest).scanToken with
  | mk result after =>
    have hresult := h.scan
    rw [hscan] at hresult
    cases hresult
    obtain ⟨run, tail, hrest, -, hfault, passed, hpassed, hline, hplace⟩ :=
      Lexer.scanToken_error hscan
    refine ⟨hfault, passed, hpassed.trans ⟨tail, hrest.symm⟩, hline, ?_⟩
    rw [hplace, Position.after_append]
    rfl

/-- A token starts with a character that is neither passed over nor opens a comment. -/
theorem Scans.startsCode [IdentifierTables] (h : Scans before run rest token) :
    startsCode (run ++ rest) = true := by
  obtain ⟨c, cs, rfl, hblank, hcomment, hline⟩ := h.token_eq.1.exists_head
  simp [Offside.startsCode, hblank, hcomment, hline]

/-- A text has only one next token. -/
theorem Scans.unique [IdentifierTables] {other tail : List Char} {found : Token}
    (h : Scans before run rest token) (hother : Scans before other tail found)
    (hsplit : run ++ rest = other ++ tail) :
    run = other ∧ rest = tail := by
  have hscan := h.scan
  rw [hsplit, hother.scan] at hscan
  cases hscan
  have hrun : other = run := String.ofList_injective (hother.lexeme.symm.trans h.lexeme)
  subst hrun
  exact ⟨rfl, List.append_cancel_left hsplit⟩

theorem takeWhile_of_lineEnds {text : List Char} (htext : '\n' ∉ text) (hrest : LineEnds rest) :
    (text ++ rest).takeWhile (· != '\n') = text := by
  have hall : ∀ c ∈ text, (c != '\n') = true := by
    intro c hc
    rw [bne_iff_ne]
    rintro rfl
    exact htext hc
  rw [List.takeWhile_append_of_pos hall]
  rcases hrest with rfl | ⟨cs, rfl⟩
  · simp
  · simp

variable [IdentifierTables]

namespace FaultIn

theorem le_place (h : FaultIn before rest error) :
    (Position.first.after before).offset ≤ error.place.offset := by
  induction h with
  | here hfault =>
    obtain ⟨-, passed, -, -, hplace⟩ := hfault.exists_passed
    rw [hplace, Position.after_append]
    exact Position.offset_after_le _ _
  | gap _ _ ih | comment _ _ _ ih | token _ _ ih =>
    rw [Position.after_append] at ih
    exact Nat.le_trans (Position.offset_after_le _ _) ih

theorem isFault (h : FaultIn before rest error) : error.isFault = true := by
  induction h with
  | here hfault => exact hfault.exists_passed.1
  | gap _ _ ih | comment _ _ _ ih | token _ _ ih => exact ih

theorem gap_iff (hc : Lexer.isBlank c = true ∨ c = '\n') :
    FaultIn before (c :: rest) error ↔ FaultIn (before ++ [c]) rest error := by
  have hstart : startsCode (c :: rest) = false := by
    rcases hc with hc | rfl
    · simp [startsCode, hc]
    · rfl
  refine ⟨fun h => ?_, .gap hc⟩
  generalize hrest : c :: rest = whole at h
  cases h with
  | here hfault =>
    rw [hrest, hfault.code] at hstart
    cases hstart
  | gap _ next =>
    cases hrest
    exact next
  | comment =>
    cases hrest
    exact absurd hc (by decide)
  | token hscan _ =>
    rw [hrest, hscan.startsCode] at hstart
    cases hstart

theorem comment_iff {text : List Char} (htext : '\n' ∉ text) (htail : LineEnds rest) :
    FaultIn before ('#' :: text ++ rest) error ↔ FaultIn (before ++ '#' :: text) rest error := by
  have hstart : startsCode ('#' :: text ++ rest) = false := rfl
  refine ⟨fun h => ?_, .comment htext htail⟩
  generalize hrest : '#' :: text ++ rest = whole at h
  cases h with
  | here hfault =>
    rw [hrest, hfault.code] at hstart
    cases hstart
  | gap hc _ =>
    cases hrest
    exact absurd hc (by decide)
  | @comment _ other tail _ hother hends next =>
    simp only [List.cons_append, List.cons.injEq, true_and] at hrest
    have hsame : text = other := by
      rw [← takeWhile_of_lineEnds htext htail, hrest, takeWhile_of_lineEnds hother hends]
    subst hsame
    rwa [List.append_cancel_left hrest]
  | token hscan _ =>
    rw [hrest, hscan.startsCode] at hstart
    cases hstart

theorem token_iff (hscan : Scans before run rest token) :
    FaultIn before (run ++ rest) error ↔ FaultIn (before ++ run) rest error := by
  have hstart := hscan.startsCode
  refine ⟨fun h => ?_, .token hscan⟩
  generalize hrest : run ++ rest = whole at h
  cases h with
  | here hfault =>
    have hread := hscan.scan
    rw [hrest, hfault.scan] at hread
    cases hread
  | gap hc _ =>
    rw [hrest] at hstart
    rcases hc with hc | rfl
    · simp [Offside.startsCode, hc] at hstart
    · cases hstart
  | comment =>
    rw [hrest] at hstart
    cases hstart
  | token hother next =>
    obtain ⟨rfl, rfl⟩ := hscan.unique hother hrest
    exact next

theorem blanks_iff {blanks : List Char} (hblanks : ∀ c ∈ blanks, Lexer.isBlank c = true) :
    FaultIn before (blanks ++ rest) error ↔ FaultIn (before ++ blanks) rest error := by
  induction blanks generalizing before with
  | nil => rw [List.append_nil, List.nil_append]
  | cons c blanks ih =>
    obtain ⟨hc, hblanks⟩ := List.forall_mem_cons.mp hblanks
    rw [List.cons_append, gap_iff (.inl hc), ih hblanks, List.append_assoc]
    rfl

theorem filler_iff {filler : List Char} (hfiller : Filler filler) (htail : LineEnds rest) :
    FaultIn before (filler ++ rest) error ↔ FaultIn (before ++ filler) rest error := by
  rcases hfiller.cases with hblanks | ⟨blanks, text, rfl, hblanks, htext⟩
  · exact blanks_iff hblanks
  · rw [List.append_assoc, blanks_iff hblanks, comment_iff htext htail, List.append_assoc]

/-- A line that ends in filler has no fault there. -/
theorem fillerLine_iff {filler : List Char} (hfiller : Filler filler) :
    FaultIn before (filler ++ '\n' :: rest) error ↔
      FaultIn (before ++ filler ++ ['\n']) rest error := by
  rw [filler_iff hfiller (.inr ⟨rest, rfl⟩), gap_iff (.inr rfl)]

end FaultIn

end

end Offside
