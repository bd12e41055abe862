/-
Texts in a fixed format: every logical line on one physical line, with four blanks for each level
in front and one blank between two tokens.  Whatever text the tokens come from, the formatted text
is cut into the same tokens again.
-/
import Mathlib.Data.List.Forall2
import Offside.Proofs.Token.WrittenLines

open String (utf8Len)

namespace Offside

/-! ### Formatting -/

/-- The tokens of a text that stand on one logical line, and how many levels are open there. -/
structure SourceLine where
  level : Nat
  tokens : List Token

/-- The line as it is written: four blanks for each level, the lexemes with single blanks between
them, and a line feed. -/
def SourceLine.text (line : SourceLine) : String :=
  String.ofList (Line.margin line.level) ++ " ".intercalate (line.tokens.map Token.lexeme) ++ "\n"

/-- The logical lines of a token stream, where `level` levels are open and the current line has
these tokens so far. -/
def sourceLines (level : Nat) (line : List Token) : List Token → List SourceLine
  | [] => []
  | token :: tokens =>
    match token.kind with
    | .layout .indent => sourceLines (level + 1) line tokens
    | .layout .dedent => sourceLines (level - 1) line tokens
    | .layout .newline => ⟨level, line⟩ :: sourceLines level [] tokens
    | .layout .endOfInput => sourceLines level line tokens
    | _ => sourceLines level (line ++ [token]) tokens

/-- The formatted text of a token stream. -/
def formatted (tokens : List Token) : String :=
  String.join ((sourceLines 0 [] tokens).map SourceLine.text)

/-- A token of the same kind and, if it is one of the text, with the same lexeme. -/
structure Token.SpelledAs (token other : Token) : Prop where
  kind : other.kind = token.kind
  lexeme : token.kind.isLayout = false → other.lexeme = token.lexeme

section

variable {level : Nat} {line other marks tokens others : List Token} {token : Token}

theorem sourceLines_cons_of_isLayout (h : token.kind.isLayout = false) :
    sourceLines level line (token :: tokens) = sourceLines level (line ++ [token]) tokens := by
  rw [sourceLines]
  split <;> simp_all [TokenKind.isLayout]

theorem sourceLines_dedents {count : Nat} {place : Position} :
    sourceLines level line (List.replicate count (Token.mark .dedent place) ++ tokens) =
      sourceLines (level - count) line tokens := by
  induction count generalizing level with
  | zero => rfl
  | succ count ih =>
    rw [List.replicate_succ, List.cons_append, Nat.sub_succ', Nat.sub_right_comm]
    exact ih

theorem sourceLines_closing (blocks : Indentation) (before : List Char) :
    sourceLines level line (closing blocks before) = [] :=
  sourceLines_dedents

/-- What a line opens and closes leads to the level of the line. -/
theorem sourceLines_of_meet {blocks inner : Indentation} {width : Nat} {place : Position}
    (h : blocks.meet width place = (.ok marks, inner)) :
    sourceLines blocks.depth line (marks ++ tokens) = sourceLines inner.depth line tokens := by
  rcases Indentation.meet_ok h with ⟨-, rfl, rfl⟩ | ⟨-, hinner, -, rfl⟩
  · rfl
  · have hle : inner.depth ≤ blocks.depth := hinner ▸ Indentation.depth_keep_le blocks width
    rw [sourceLines_dedents, Nat.sub_sub_self hle]

/-- Only kinds and lexemes matter to how a text is formatted. -/
theorem map_text_sourceLines (h : List.Forall₂ Token.SpelledAs tokens others)
    (hline : other.map Token.lexeme = line.map Token.lexeme) :
    (sourceLines level other others).map SourceLine.text =
      (sourceLines level line tokens).map SourceLine.text := by
  induction h generalizing level line other with
  | nil => rfl
  | @cons token spelled tokens others hspelled _ ih =>
    by_cases hlayout : token.kind.isLayout = false
    · have hother : spelled.kind.isLayout = false := hspelled.kind ▸ hlayout
      rw [sourceLines_cons_of_isLayout hlayout, sourceLines_cons_of_isLayout hother]
      refine ih ?_
      rw [List.map_append, List.map_append, hline, List.map_singleton, List.map_singleton,
        hspelled.lexeme hlayout]
    · rw [sourceLines, sourceLines, hspelled.kind]
      cases hkind : token.kind with
      | layout layout =>
        cases layout with
        | indent | dedent | endOfInput => exact ih hline
        | newline =>
          dsimp only
          rw [List.map_cons, List.map_cons, ih rfl, SourceLine.text, SourceLine.text, hline]
      | literal | identifier | keyword | reserved | symbol =>
        rw [hkind] at hlayout
        exact absurd rfl hlayout

theorem map_kind_of_spelledAs (h : List.Forall₂ Token.SpelledAs tokens others) :
    others.map Token.kind = tokens.map Token.kind := by
  induction h with
  | nil => rfl
  | cons hfirst _ ih => rw [List.map_cons, List.map_cons, hfirst.kind, ih]

theorem formatted_eq_of_spelledAs (h : List.Forall₂ Token.SpelledAs tokens others) :
    formatted others = formatted tokens := by
  rw [formatted, formatted, map_text_sourceLines h rfl]

end

/-! ### Room -/

/-- Every open level has taken two characters at least, and no margin of the rest is too wide. -/
structure Roomy (blocks : Indentation) (before rest : List Char) : Prop where
  depth : 2 * blocks.depth ≤ before.length
  size : 2 * (before.length + rest.length) < Lexer.widthBound

namespace Roomy

variable {blocks inner : Indentation} {before run rest : List Char}

theorem margin (h : Roomy blocks before rest) : 4 * blocks.depth < Lexer.widthBound := by
  have hdepth := h.depth
  have hsize := h.size
  omega

theorem pass (h : Roomy blocks before (run ++ rest)) : Roomy blocks (before ++ run) rest := by
  have hdepth := h.depth
  have hsize := h.size
  simp only [List.length_append] at hsize
  constructor <;> rw [List.length_append] <;> omega

theorem lineFeed {filler : List Char} (h : Roomy blocks before (filler ++ '\n' :: rest)) :
    Roomy blocks (before ++ filler ++ ['\n']) rest :=
  have hline : Roomy blocks (before ++ filler) (['\n'] ++ rest) := h.pass
  hline.pass

/-- A line that opens a level has a blank in front of its first token. -/
theorem line {blanks : List Char} {tabWidth : Nat} {place : Position} {marks : List Token}
    (h : Roomy blocks before (blanks ++ (run ++ rest)))
    (hmeet : blocks.meet (lineWidth tabWidth blanks) place = (.ok marks, inner))
    (hrun : run ≠ []) : Roomy inner (before ++ blanks ++ run) rest := by
  have hdepth := h.depth
  have hsize := h.size
  have hpos : 0 < run.length := List.length_pos_iff.mpr hrun
  simp only [List.length_append] at hsize
  rcases Indentation.meet_ok hmeet with ⟨hdeeper, -, rfl⟩ | ⟨-, hinner, -, -⟩
  · have hblanks : 0 < blanks.length := by
      refine List.length_pos_iff.mpr ?_
      rintro rfl
      exact absurd hdeeper (Nat.not_lt_zero _)
    have hcount : Indentation.depth ⟨lineWidth tabWidth blanks :: blocks.levels⟩ =
        blocks.depth + 1 := rfl
    constructor <;> simp only [List.length_append, hcount] <;> omega
  · have hle : inner.depth ≤ blocks.depth := hinner ▸ Indentation.depth_keep_le blocks _
    constructor <;> simp only [List.length_append] <;> omega

end Roomy

/-! ### Cutting a formatted text -/

/-- The rest of a text is cut into tokens spelled as these, whatever stands before it and however
wide a tab is. -/
def CutsAs [IdentifierTables] (stage : Stage) (level : Nat) (rest : List Char)
    (tokens : List Token) : Prop :=
  ∀ tabWidth before, ∃ others, List.Forall₂ Token.SpelledAs tokens others ∧
    Cut tabWidth stage before ⟨Line.levels level⟩ rest others none

theorem Token.SpelledAs.of_layout {token other : Token} {layout : Layout}
    (htoken : token.kind = .layout layout) (hother : other.kind = .layout layout) :
    token.SpelledAs other :=
  ⟨hother.trans htoken.symm, fun h => by rw [htoken] at h; cases h⟩

theorem Scans.spelledAs [IdentifierTables] {before front run tail back : List Char}
    {token other : Token} (h : Scans before run tail token) (hother : Scans front run back other)
    (hkind : other.kind = token.kind) : token.SpelledAs other :=
  ⟨hkind, fun _ => hother.lexeme.trans h.lexeme.symm⟩

/-- Marks of the same kinds are spelled in the same way. -/
theorem spelledAs_marks {marks others : List Token}
    (hmarks : ∀ mark ∈ marks, mark.kind.isLayout = true)
    (h : others.map Token.kind = marks.map Token.kind) :
    List.Forall₂ Token.SpelledAs marks others := by
  induction marks generalizing others with
  | nil => rw [List.map_eq_nil_iff.mp h]; exact .nil
  | cons mark marks ih =>
    obtain ⟨hmark, hmarks⟩ := List.forall_mem_cons.mp hmarks
    cases others with
    | nil => cases h
    | cons other others =>
      rw [List.map_cons, List.map_cons, List.cons.injEq] at h
      refine .cons ⟨h.1, fun hlayout => ?_⟩ (ih hmarks h.2)
      rw [hmark] at hlayout
      cases hlayout

/-- What a line opens and closes, by the number of levels before it and behind it. -/
theorem Indentation.map_kind_of_meet {blocks inner : Indentation} {width : Nat} {place : Position}
    {marks : List Token} (h : blocks.meet width place = (.ok marks, inner)) :
    inner.depth ≤ blocks.depth + 1 ∧
      marks.map Token.kind = Line.shift blocks.depth inner.depth := by
  rcases meet_ok h with ⟨-, rfl, rfl⟩ | ⟨-, hinner, -, rfl⟩
  · exact ⟨Nat.le_refl _, (if_pos (Nat.lt_succ_self _)).symm⟩
  · have hle : inner.depth ≤ blocks.depth := hinner ▸ depth_keep_le blocks width
    refine ⟨Nat.le_succ_of_le hle, ?_⟩
    rw [Line.shift, if_neg (Nat.not_lt.mpr hle), List.map_replicate]
    rfl

theorem spelledAs_closing (blocks : Indentation) (before front : List Char) :
    List.Forall₂ Token.SpelledAs (closing blocks before)
      (closing ⟨Line.levels blocks.depth⟩ front) := by
  refine spelledAs_marks (List.forall_mem_append.mpr ⟨fun mark hmark => ?_,
    List.forall_mem_singleton.mpr rfl⟩) ?_
  · rw [List.eq_of_mem_replicate hmark]
    rfl
  · simp [closing, Indentation.close, Indentation.depth, Line.length_levels, Token.mark]

namespace CutsAs

variable [IdentifierTables]
  {brackets level : Nat} {before run rest tail : List Char} {tokens : List Token}
  {token : Token}

theorem textEnd (blocks : Indentation) (before : List Char) :
    CutsAs .fresh blocks.depth [] (closing blocks before) := fun tabWidth _ =>
  ⟨_, spelledAs_closing _ _ _, .textEnd (.of_blanks (List.forall_mem_nil _)) (fits_nil tabWidth)⟩

theorem lineEnd (place : List Char) (h : CutsAs .fresh level rest tokens) :
    CutsAs (.inLine 0) level ('\n' :: rest) (Offside.lineEnd place :: tokens) := by
  intro tabWidth front
  obtain ⟨others, hothers, hcut⟩ := h tabWidth (front ++ [] ++ ['\n'])
  exact ⟨_, .cons (.of_layout rfl rfl) hothers, .lineEnd (.of_blanks (List.forall_mem_nil _)) hcut⟩

/-- The last line is ended by a line feed, also where brackets are open and this ends no line. -/
theorem lastLine (blocks : Indentation) (place before : List Char) :
    CutsAs (.inLine brackets) blocks.depth ['\n']
      (Token.mark .newline (Position.first.after place) :: closing blocks before) := by
  intro tabWidth front
  have hfiller : Filler [] := .of_blanks (List.forall_mem_nil _)
  cases brackets with
  | zero =>
    exact ⟨_, .cons (.of_layout rfl rfl) (spelledAs_closing _ _ _),
      .lineEnd hfiller (.textEnd hfiller (fits_nil tabWidth))⟩
  | succ brackets =>
    exact ⟨_, .cons (.of_layout rfl rfl) (spelledAs_closing _ _ _),
      .joinedLine hfiller (Nat.succ_pos _) (.lastLine hfiller)⟩

/-- A token behind another one is read with the blank in front of it. -/
theorem scanned (hscan : Scans before run rest token) (htail : Spaced tail)
    (h : CutsAs (.inLine (token.kind.brackets brackets)) level tail tokens) :
    CutsAs (.inLine brackets) level (' ' :: (run ++ tail)) (token :: tokens) := by
  intro tabWidth front
  obtain ⟨other, hkind, hother⟩ := hscan.respaced (front ++ [' ']) htail
  obtain ⟨others, hothers, hcut⟩ := h tabWidth (front ++ [' '] ++ run)
  rw [← hkind] at hcut
  have hblank : ∀ c ∈ [' '], Lexer.isBlank c = true := List.forall_mem_singleton.mpr rfl
  exact ⟨other :: others, .cons (hscan.spelledAs hother hkind) hothers, .token hblank hother hcut⟩

/-- The first token of a line is read with the margin in front of it. -/
theorem line {blocks inner : Indentation} {width : Nat} {place : Position} {marks : List Token}
    (hmeet : blocks.meet width place = (.ok marks, inner)) (hscan : Scans before run rest token)
    (hmargin : 4 * inner.depth < Lexer.widthBound) (htail : Spaced tail)
    (h : CutsAs (.inLine (token.kind.brackets 0)) inner.depth tail tokens) :
    CutsAs .fresh blocks.depth (Line.margin inner.depth ++ (run ++ tail))
      (marks ++ token :: tokens) := by
  intro tabWidth front
  obtain ⟨hstep, hkinds⟩ := Indentation.map_kind_of_meet hmeet
  obtain ⟨others, hothers, hnext⟩ := Line.meet_levels hstep
    (Position.first.after (front ++ Line.margin inner.depth))
  rw [← Line.lineWidth_margin tabWidth] at hnext
  obtain ⟨other, hkind, hother⟩ := hscan.respaced (front ++ Line.margin inner.depth) htail
  obtain ⟨later, hlater, hcut⟩ := h tabWidth (front ++ Line.margin inner.depth ++ run)
  rw [← hkind] at hcut
  have hmarks : ∀ mark ∈ marks, mark.kind.isLayout = true := by
    intro mark hmark
    obtain ⟨layout, rfl⟩ := Indentation.eq_mark_of_meet hmeet mark hmark
    rfl
  exact ⟨others ++ other :: later,
    List.rel_append (spelledAs_marks hmarks (hothers.trans hkinds.symm))
      (.cons (hscan.spelledAs hother hkind) hlater),
    .line Line.isBlank_of_mem_margin (Line.fits_margin hmargin tabWidth) hnext hother hcut⟩

end CutsAs

/-! ### Lines of a formatted text -/

/-- The characters of lines. -/
def charsOf (lines : List SourceLine) : List Char := lines.flatMap fun line => line.text.toList

theorem toList_formatted (tokens : List Token) :
    (formatted tokens).toList = charsOf (sourceLines 0 [] tokens) := by
  rw [formatted, String.toList_join, List.flatMap_map, charsOf]

/-- Tokens with a blank in front of each. -/
def blankWords (tokens : List Token) : List Char :=
  tokens.flatMap fun token => ' ' :: token.lexeme.toList

theorem SourceLine.toList_text (level : Nat) (first : Token) (others : List Token) :
    (SourceLine.text ⟨level, first :: others⟩).toList =
      Line.margin level ++ (first.lexeme.toList ++ (blankWords others ++ ['\n'])) := by
  rw [SourceLine.text, String.toList_append, String.toList_append, List.map_cons,
    Line.toList_intercalate_blank, List.flatMap_map]
  simp [blankWords]

/-- From within a line, whatever stands on it so far, the formatted text goes on with `tail`. -/
def GoesOn (level : Nat) (tokens : List Token) (tail : List Char) : Prop :=
  ∀ first others, charsOf (sourceLines level (first :: others) tokens) =
    Line.margin level ++ (first.lexeme.toList ++ (blankWords others ++ tail))

namespace GoesOn

variable {level : Nat} {tokens : List Token} {token : Token} {tail : List Char}

theorem scanned (htoken : token.kind.isLayout = false) (h : GoesOn level tokens tail) :
    GoesOn level (token :: tokens) (' ' :: (token.lexeme.toList ++ tail)) := by
  intro first others
  rw [sourceLines_cons_of_isLayout htoken, List.cons_append, h]
  simp [blankWords]

theorem lineEnd (htoken : token.kind = .layout .newline) :
    GoesOn level (token :: tokens) ('\n' :: charsOf (sourceLines level [] tokens)) := by
  intro first others
  rw [sourceLines, htoken, charsOf, List.flatMap_cons, SourceLine.toList_text]
  simp [charsOf]

end GoesOn

/-- The formatted text of tokens is cut into the same tokens. -/
theorem Cut.cutsAs [IdentifierTables] {tabWidth : Nat} {stage : Stage} {before rest : List Char}
    {blocks : Indentation} {tokens : List Token} {error : Option (Failure LexicalError)}
    (h : Cut tabWidth stage before blocks rest tokens error) (hnone : error = none)
    (hroom : Roomy blocks before rest) :
    match stage with
    | .fresh => CutsAs .fresh blocks.depth (charsOf (sourceLines blocks.depth [] tokens)) tokens
    | .inLine brackets => ∃ tail, Spaced tail ∧ GoesOn blocks.depth tokens tail ∧
        CutsAs (.inLine brackets) blocks.depth tail tokens := by
  induction h with
  | emptyLine _ _ _ ih => exact ih hnone hroom.lineFeed
  | textEnd _ _ =>
    rw [sourceLines_closing]
    exact .textEnd _ _
  | @line before blanks run rest blocks inner marks token tokens error _ _ hmeet hscan _ ih =>
    have hinner := hroom.line hmeet hscan.run_ne_nil
    obtain ⟨tail, htail, hgoes, hcuts⟩ := ih hnone hinner
    have htext : charsOf (sourceLines blocks.depth [] (marks ++ token :: tokens)) =
        Line.margin inner.depth ++ (run ++ tail) := by
      rw [sourceLines_of_meet hmeet, sourceLines_cons_of_isLayout hscan.isLayout]
      refine (hgoes token []).trans ?_
      rw [hscan.lexeme, String.toList_ofList]
      rfl
    rw [htext]
    exact .line hmeet hscan hinner.margin htail hcuts
  | tooWide | faultyLine | unmetLine | fault => cases hnone
  | token _ hscan _ ih =>
    obtain ⟨tail, htail, hgoes, hcuts⟩ := ih hnone hroom.pass.pass
    refine ⟨_, .blank _, hgoes.scanned hscan.isLayout, ?_⟩
    rw [hscan.lexeme, String.toList_ofList]
    exact hcuts.scanned hscan htail
  | joinedLine _ _ _ ih => exact ih hnone hroom.lineFeed
  | lineEnd _ _ ih => exact ⟨_, .lineEnd _, .lineEnd rfl, (ih hnone hroom.lineFeed).lineEnd _⟩
  | @lastLine brackets before filler blocks _ =>
    refine ⟨_, .lineEnd _, .lineEnd rfl, ?_⟩
    rw [sourceLines_closing]
    exact .lastLine _ _ _

/-! ### Texts -/

theorem length_le_utf8Len (cs : List Char) : cs.length ≤ utf8Len cs := by
  induction cs with
  | nil => exact Nat.le_refl _
  | cons c cs ih =>
    have hpos := c.utf8Size_pos
    rw [List.length_cons, String.utf8Len_cons]
    omega

/-- The formatted text has the same tokens as the text that it is made from, whatever the width of
a tab.  A text in memory has less than 2^63 bytes; in a larger one margins could be too wide. -/
theorem exists_tokenize_formatted [IdentifierTables] {text : String} {tabWidth : Nat}
    {tokens : List Token} (h : tokenize text tabWidth = .ok tokens)
    (hsize : text.utf8ByteSize < 2 ^ 63) (width : Nat) :
    ∃ others, List.Forall₂ Token.SpelledAs tokens others ∧
      tokenize (formatted tokens) width = .ok others := by
  have hlength := length_le_utf8Len text.toList
  rw [String.utf8Len_toList] at hlength
  have hroom : Roomy .base [] text.toList := by
    have hbound : Lexer.widthBound = 2 * 2 ^ 63 := rfl
    refine ⟨Nat.le_refl _, ?_⟩
    rw [List.length_nil, Nat.zero_add, hbound]
    omega
  obtain ⟨others, hothers, hcut⟩ := (cut_of_tokenize h).cutsAs rfl hroom width []
  refine ⟨others, hothers, tokenize_eq_of_cut ?_⟩
  rw [toList_formatted]
  exact hcut

end Offside
