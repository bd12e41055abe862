/-
Lines of tokens as they are written, with four blanks for every level in front of a line and one
blank between two tokens.  Such a text is cut into just these tokens, with the layout that the
levels call for.
-/
import Offside.Proofs.Token.CutUnique
import Offside.Proofs.Token.LineStarts
import Offside.Proofs.Token.Words

namespace Offside

/-- A line of a text: how many levels it is indented, and what stands on it. -/
structure Line where
  level : Nat
  kinds : List TokenKind
  deriving Repr, DecidableEq

namespace Line

def margin (level : Nat) : List Char := List.replicate (4 * level) ' '

def text (line : Line) : String :=
  String.ofList (margin line.level) ++ " ".intercalate (line.kinds.map TokenKind.text) ++ "\n"

def textAll (lines : List Line) : String := String.join (lines.map text)

/-- Brackets that are open behind these tokens. -/
def bracketsAfter (before : Nat) (kinds : List TokenKind) : Nat :=
  kinds.foldl (fun count kind => kind.brackets count) before

/-- A line that can be written, and on which every bracket is closed. -/
structure Sound [IdentifierTables] (line : Line) : Prop where
  nonempty : line.kinds ≠ []
  writable : ∀ kind ∈ line.kinds, kind.isWritable = true
  closed : bracketsAfter 0 line.kinds = 0

/-- No line is more than one level deeper than the one before it. -/
inductive Stepped : Nat → List Line → Prop
  | nil (level : Nat) : Stepped level []
  | cons {level : Nat} {line : Line} {lines : List Line} (step : line.level ≤ level + 1)
    (rest : Stepped line.level lines) : Stepped level (line :: lines)

/-- The layout tokens between two lines. -/
def shift (level next : Nat) : List TokenKind :=
  if level < next then [.layout .indent] else List.replicate (level - next) (.layout .dedent)

/-- The tokens of lines behind a line of some level. -/
def tokenKinds : Nat → List Line → List TokenKind
  | level, [] => shift level 0 ++ [.layout .endOfInput]
  | level, line :: lines =>
    shift level line.level ++ (line.kinds ++ .layout .newline :: tokenKinds line.level lines)

/-! ### Levels -/

/-- The open levels around a line. -/
def levels : Nat → List Nat
  | 0 => []
  | level + 1 => 4 * (level + 1) :: levels level

theorem length_levels (level : Nat) : (levels level).length = level := by
  induction level with
  | zero => rfl
  | succ level ih => rw [levels, List.length_cons, ih]

theorem top_levels (level : Nat) : Indentation.top ⟨levels level⟩ = 4 * level := by
  cases level <;> rfl

theorem keep_levels {level next : Nat} (h : next ≤ level) :
    Indentation.keep ⟨levels level⟩ (4 * next) = levels next := by
  induction level with
  | zero =>
    obtain rfl := Nat.le_zero.mp h
    rfl
  | succ level ih =>
    by_cases hle : next ≤ level
    · rw [← ih hle]
      exact List.dropWhile_cons_of_pos (decide_eq_true (by omega))
    · obtain rfl : next = level + 1 := by omega
      exact List.dropWhile_cons_of_neg (by simp)

theorem meet_levels {level next : Nat} (h : next ≤ level + 1) (place : Position) :
    ∃ marks : List Token, marks.map Token.kind = shift level next ∧
      Indentation.meet ⟨levels level⟩ (4 * next) place = (.ok marks, ⟨levels next⟩) := by
  rw [Indentation.meet, top_levels, shift]
  by_cases hdeeper : level < next
  · obtain rfl : next = level + 1 := by omega
    rw [if_pos hdeeper, if_pos (by omega)]
    exact ⟨_, rfl, rfl⟩
  · rw [if_neg hdeeper, if_neg (by omega), keep_levels (by omega)]
    dsimp only
    rw [top_levels, if_pos rfl, Indentation.depth, Indentation.depth, length_levels, length_levels]
    exact ⟨_, List.map_replicate, rfl⟩

theorem lineWidth_margin (tabWidth level : Nat) :
    lineWidth tabWidth (margin level) = 4 * level := by
  simp [lineWidth, margin, List.count_replicate]

theorem isBlank_of_mem_margin {level : Nat} : ∀ c ∈ margin level, Lexer.isBlank c = true := by
  intro c hc
  rw [List.eq_of_mem_replicate hc]
  rfl

theorem fits_margin {level : Nat} (h : 4 * level < Lexer.widthBound) (tabWidth : Nat) :
    Fits tabWidth (margin level) := by
  rwa [fits_iff_of_blanks isBlank_of_mem_margin, lineWidth_margin]

/-! ### Tokens of a line -/

/-- Tokens with a blank in front of each, up to the end of their line. -/
def tailChars (kinds : List TokenKind) : List Char :=
  kinds.flatMap fun kind => ' ' :: kind.text.toList

theorem toList_intercalate_blank (word : String) (words : List String) :
    (" ".intercalate (word :: words)).toList =
      word.toList ++ words.flatMap fun word => ' ' :: word.toList := by
  rw [toList_intercalate_cons]
  rfl

theorem toList_intercalate_text (kind : TokenKind) (kinds : List TokenKind) :
    (" ".intercalate ((kind :: kinds).map TokenKind.text)).toList =
      kind.text.toList ++ tailChars kinds := by
  rw [List.map_cons, toList_intercalate_blank, List.flatMap_map]
  rfl

theorem toList_text {line : Line} {kind : TokenKind} {kinds : List TokenKind}
    (h : line.kinds = kind :: kinds) :
    line.text.toList = margin line.level ++ (kind.text.toList ++ (tailChars kinds ++ ['\n'])) := by
  rw [text, String.toList_append, String.toList_append, h, toList_intercalate_text]
  simp

theorem spaced_tailChars (kinds : List TokenKind) (rest : List Char) :
    Spaced (tailChars kinds ++ '\n' :: rest) := by
  cases kinds with
  | nil => exact .lineEnd rest
  | cons kind kinds => exact .blank _

variable {tabWidth : Nat} {blocks : Indentation} {rest : List Char} {others : List TokenKind}

section

variable [IdentifierTables]

/-- The rest of a text behind any text is cut into tokens of these kinds. -/
def Cuts (tabWidth : Nat) (stage : Stage) (blocks : Indentation)
    (rest : List Char) (kinds : List TokenKind) : Prop :=
  ∀ before, ∃ tokens, tokens.map Token.kind = kinds ∧
    Cut tabWidth stage before blocks rest tokens none

theorem cuts_lineEnd (h : Cuts tabWidth .fresh blocks rest others) :
    Cuts tabWidth (.inLine 0) blocks ('\n' :: rest) (.layout .newline :: others) := by
  intro before
  obtain ⟨tokens, hkinds, hcut⟩ := h (before ++ [] ++ ['\n'])
  exact ⟨_, by rw [List.map_cons, hkinds]; rfl,
    .lineEnd (.of_blanks (List.forall_mem_nil _)) hcut⟩

/-- Behind a token each further one is read with the blank in front of it. -/
theorem cuts_tailChars {kinds : List TokenKind}
    (hkinds : ∀ kind ∈ kinds, kind.isWritable = true) {brackets : Nat}
    (h : Cuts tabWidth (.inLine (bracketsAfter brackets kinds)) blocks ('\n' :: rest) others) :
    Cuts tabWidth (.inLine brackets) blocks (tailChars kinds ++ '\n' :: rest)
      (kinds ++ others) := by
  induction kinds generalizing brackets with
  | nil => exact h
  | cons kind kinds ih =>
    intro before
    obtain ⟨hkind, hrest⟩ := List.forall_mem_cons.mp hkinds
    obtain ⟨token, rfl, hscan⟩ := TokenKind.exists_scans hkind (before ++ [' '])
      (spaced_tailChars kinds rest)
    obtain ⟨tokens, hmap, hcut⟩ := ih hrest h (before ++ [' '] ++ token.kind.text.toList)
    have hblank : ∀ c ∈ [' '], Lexer.isBlank c = true := List.forall_mem_singleton.mpr rfl
    refine ⟨token :: tokens, by rw [List.map_cons, hmap, List.cons_append], ?_⟩
    have hall := Cut.token hblank hscan hcut
    simpa [tailChars] using hall

theorem cuts_line {line : Line} (hline : line.Sound) {level : Nat}
    (hstep : line.level ≤ level + 1) (hwidth : 4 * line.level < Lexer.widthBound)
    (h : Cuts tabWidth .fresh ⟨levels line.level⟩ rest others) :
    Cuts tabWidth .fresh ⟨levels level⟩ (line.text.toList ++ rest)
      (shift level line.level ++ (line.kinds ++ .layout .newline :: others)) := by
  intro before
  obtain ⟨kind, kinds, hcons⟩ := List.exists_cons_of_ne_nil hline.nonempty
  have hwritable := hline.writable
  have hclosed := hline.closed
  rw [hcons] at hwritable hclosed
  obtain ⟨hkind, hkinds⟩ := List.forall_mem_cons.mp hwritable
  obtain ⟨token, rfl, hscan⟩ := TokenKind.exists_scans hkind (before ++ margin line.level)
    (spaced_tailChars kinds rest)
  have hend : Cuts tabWidth (.inLine (bracketsAfter (token.kind.brackets 0) kinds))
      ⟨levels line.level⟩ ('\n' :: rest) (.layout .newline :: others) := by
    rw [show bracketsAfter (token.kind.brackets 0) kinds = 0 from hclosed]
    exact cuts_lineEnd h
  obtain ⟨tokens, hmap, hcut⟩ := cuts_tailChars hkinds hend
    (before ++ margin line.level ++ token.kind.text.toList)
  obtain ⟨marks, hmarks, hmeet⟩ := meet_levels hstep
    (Position.first.after (before ++ margin line.level))
  rw [← lineWidth_margin tabWidth] at hmeet
  refine ⟨marks ++ token :: tokens, by simp [hmarks, hmap, hcons], ?_⟩
  have hall := Cut.line isBlank_of_mem_margin (fits_margin hwidth tabWidth) hmeet hscan hcut
  rw [toList_text hcons]
  simpa using hall

theorem cuts_textEnd (level : Nat) :
    Cuts tabWidth .fresh ⟨levels level⟩ [] (shift level 0 ++ [.layout .endOfInput]) := by
  intro before
  refine ⟨_, ?_, .textEnd (.of_blanks (List.forall_mem_nil _)) (fits_nil tabWidth)⟩
  simp [closing, Indentation.close, Indentation.depth, length_levels, shift, Token.mark]

theorem cuts_lines {lines : List Line} (hlines : ∀ line ∈ lines, line.Sound)
    (hwidths : ∀ line ∈ lines, 4 * line.level < Lexer.widthBound) {level : Nat}
    (hstepped : Stepped level lines) :
    Cuts tabWidth .fresh ⟨levels level⟩ (lines.flatMap fun line => line.text.toList)
      (tokenKinds level lines) := by
  induction hstepped with
  | nil level => exact cuts_textEnd level
  | cons step _ ih =>
    obtain ⟨hline, hlines⟩ := List.forall_mem_cons.mp hlines
    obtain ⟨hwidth, hwidths⟩ := List.forall_mem_cons.mp hwidths
    rw [List.flatMap_cons]
    exact cuts_line hline step hwidth (ih hlines hwidths)

end

/-! ### Texts -/

theorem margin_le_length_textAll {lines : List Line} {line : Line} (h : line ∈ lines) :
    4 * line.level ≤ (textAll lines).length := by
  induction lines with
  | nil => cases h
  | cons first lines ih =>
    rw [textAll, List.map_cons, String.join_cons, String.length_append]
    rcases List.mem_cons.mp h with rfl | h
    · simp only [text, String.length_append, String.length_ofList, margin, List.length_replicate]
      omega
    · exact Nat.le_trans (ih h) (Nat.le_add_left _ _)

/-- Lines are cut into the tokens that were written, with a line end behind each line and the
layout between two lines that their levels call for.  The length of a text is bounded because
widths are. -/
theorem tokenize_textAll [IdentifierTables] {lines : List Line}
    (hlines : ∀ line ∈ lines, line.Sound) (hstepped : Stepped 0 lines)
    (hlength : (textAll lines).length < Lexer.widthBound) (tabWidth : Nat) :
    ∃ tokens, tokens.map Token.kind = tokenKinds 0 lines ∧
      tokenize (textAll lines) tabWidth = .ok tokens := by
  have hwidths : ∀ line ∈ lines, 4 * line.level < Lexer.widthBound :=
    fun line hline => Nat.lt_of_le_of_lt (margin_le_length_textAll hline) hlength
  have hcuts : Cuts tabWidth .fresh ⟨levels 0⟩ (lines.flatMap fun line => line.text.toList)
      (tokenKinds 0 lines) := cuts_lines hlines hwidths hstepped
  obtain ⟨tokens, hkinds, hcut⟩ := hcuts []
  refine ⟨tokens, hkinds, tokenize_eq_of_cut ?_⟩
  rw [textAll, String.toList_join, List.flatMap_map]
  exact hcut

end Line

end Offside
