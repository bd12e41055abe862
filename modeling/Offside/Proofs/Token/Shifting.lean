/-
Texts that stand further down in another text.  What is read at a place depends on the rest of its
line and on the place itself.  So a text that moves down by whole lines keeps its tokens and its
faults, and their places move with it.
-/
import Offside.Proofs.Source.Lines
import Offside.Proofs.Token.Faults

open String (utf8Len)

namespace Offside

/-! ### What readers see of a text -/

namespace Lexer

theorem numberRun_firstLine (cs : List Char) : numberRun (firstLine cs) = numberRun cs := by
  have hwhole : (cs.takeWhile Char.isDigit).length ≤ (firstLine cs).length := by
    rw [← takeWhile_firstLine (by decide)]
    exact (List.takeWhile_prefix _).length_le
  unfold numberRun
  dsimp only
  rw [takeWhile_firstLine (by decide), ← firstLine_drop hwhole]
  generalize cs.drop (cs.takeWhile Char.isDigit).length = rest
  cases rest with
  | nil => rfl
  | cons c rest =>
    by_cases hc : c = '\n'
    · rw [hc]
      rfl
    · rw [firstLine_cons hc]
      by_cases hpoint : c = '.'
      · subst hpoint
        change (_ + 1 + ((firstLine rest).takeWhile Char.isDigit).length, true) =
          (_ + 1 + (rest.takeWhile Char.isDigit).length, true)
        rw [takeWhile_firstLine (by decide)]
      · split
        · next heq => exact absurd (List.cons.inj heq).1 hpoint
        · split
          · next heq => exact absurd (List.cons.inj heq).1 hpoint
          · rfl

theorem stringRun_firstLine (cs : List Char) : stringRun (firstLine cs) = stringRun cs := by
  fun_induction stringRun cs with
  | case1 | case2 | case3 | case4 | case5 => rfl
  | case6 c rest hline meant hmeant ih =>
    rw [firstLine_cons (by decide), firstLine_cons hline, stringRun, hmeant]
    · dsimp only
      rw [ih]
    · exact hline
  | case7 c rest hline hnone =>
    rw [firstLine_cons (by decide), firstLine_cons hline, stringRun, hnone]
    exact hline
  | case8 c rest hline hquote hend hnext hescape ih =>
    -- a backslash here would have been one of the cases before
    have hslash : c ≠ '\\' := by
      rintro rfl
      cases rest with
      | nil => exact hend rfl rfl
      | cons d others => exact hescape d others rfl rfl
    rw [firstLine_cons hline, stringRun, ih]
    all_goals simp_all

end Lexer

theorem Symbol.longest?_firstLine (cs : List Char) :
    longest? (firstLine cs) = longest? cs := by
  have hfirst (d : Char) : ofPair? '\n' d = none := by
    unfold ofPair?
    split <;> simp_all
  have hsecond (c : Char) : ofPair? c '\n' = none := by
    unfold ofPair?
    split <;> simp_all
  cases cs with
  | nil => rfl
  | cons c cs =>
    by_cases hc : c = '\n'
    · subst hc
      cases cs with
      | nil => rfl
      | cons d cs => rw [firstLine_lineFeed, longest?, longest?, hfirst]; rfl
    · rw [firstLine_cons hc]
      cases cs with
      | nil => rfl
      | cons d cs =>
        by_cases hd : d = '\n'
        · subst hd
          rw [firstLine_lineFeed, longest?, longest?, hsecond]
          rfl
        · rw [firstLine_cons hd, longest?, longest?]

/-! ### Moving down -/

/-- The place so many lines and bytes further down. -/
def Position.shift (lines bytes : Nat) (place : Position) : Position :=
  ⟨place.line + lines, place.column, place.offset + bytes⟩

def Span.shift (lines bytes : Nat) (span : Span) : Span :=
  ⟨span.start.shift lines bytes, span.stop.shift lines bytes⟩

/-- The same token further down. -/
def Token.shift (lines bytes : Nat) (token : Token) : Token :=
  { token with span := token.span.shift lines bytes }

/-- The same error further down. -/
def LexicalError.shift (lines bytes : Nat) : LexicalError → LexicalError
  | unexpectedChar char place => unexpectedChar char (place.shift lines bytes)
  | unterminatedString place => unterminatedString (place.shift lines bytes)
  | invalidEscape char place => invalidEscape char (place.shift lines bytes)
  | invalidNumber lexeme place => invalidNumber lexeme (place.shift lines bytes)
  | inconsistentDedent width place => inconsistentDedent width (place.shift lines bytes)

/-- What is read further down. -/
def shiftRead (lines bytes : Nat) (read : Except LexicalError Token) : Except LexicalError Token :=
  (read.map (Token.shift lines bytes)).mapError (LexicalError.shift lines bytes)

section

variable {lines bytes : Nat}

theorem Position.next_shift (place : Position) (c : Char) :
    (place.shift lines bytes).next c = (place.next c).shift lines bytes := by
  simp only [shift, next]
  split
  · rw [Nat.add_right_comm, Nat.add_right_comm place.offset]
  · rw [Nat.add_right_comm]

theorem Position.after_shift (place : Position) (run : List Char) :
    (place.shift lines bytes).after run = (place.after run).shift lines bytes := by
  induction run generalizing place with
  | nil => rfl
  | cons c run ih => rw [after_cons, after_cons, next_shift, ih]

theorem Token.shift_mark (layout : Layout) (place : Position) :
    (mark layout place).shift lines bytes = mark layout (place.shift lines bytes) := rfl

end

/-! ### Readers further down -/

namespace Lexer

/-- Lexers in front of the same rest of a line, in the same token; the second one is further
down. -/
structure Below (lines bytes : Nat) (lexer other : Lexer) : Prop where
  rest : firstLine other.rest = firstLine lexer.rest
  place : other.place = lexer.place.shift lines bytes
  start : other.start = lexer.start.shift lines bytes
  taken : other.taken = lexer.taken

namespace Below

variable {lines bytes : Nat} {lexer other : Lexer}

theorem take (h : Below lines bytes lexer other) {count : Nat}
    (hcount : count ≤ (firstLine lexer.rest).length) :
    Below lines bytes (lexer.take count) (other.take count) := by
  have hother : count ≤ (firstLine other.rest).length := by rwa [h.rest]
  have hrun : other.rest.take count = lexer.rest.take count := by
    rw [← take_firstLine hother, h.rest, take_firstLine hcount]
  constructor
  · change firstLine (other.rest.drop count) = firstLine (lexer.rest.drop count)
    rw [firstLine_drop hother, firstLine_drop hcount, h.rest]
  · simp only [Lexer.take, hrun, h.place, Position.after_shift]
  · exact h.start
  · simp only [Lexer.take, hrun, h.taken]

theorem takeWhile (h : Below lines bytes lexer other) {p : Char → Bool} (hline : p '\n' = false) :
    Below lines bytes (lexer.takeWhile p) (other.takeWhile p) := by
  have hsame : other.rest.takeWhile p = lexer.rest.takeWhile p := by
    rw [← takeWhile_firstLine hline, h.rest, takeWhile_firstLine hline]
  rw [Lexer.takeWhile, Lexer.takeWhile, hsame]
  apply h.take
  rw [← takeWhile_firstLine hline]
  exact (List.takeWhile_prefix _).length_le

theorem lexeme_eq (h : Below lines bytes lexer other) : other.lexeme = lexer.lexeme := by
  rw [lexeme, lexeme, h.taken]

theorem token_eq (h : Below lines bytes lexer other) (kind : TokenKind) :
    other.token kind = (lexer.token kind).shift lines bytes := by
  rw [token, token, h.lexeme_eq, span, h.place, h.start]
  rfl

theorem scanWord [IdentifierTables] (h : Below lines bytes lexer other) :
    other.scanWord.1 = lexer.scanWord.1.shift lines bytes := by
  have hword := h.takeWhile (p := isIdentifierChar) (by simp)
  simp only [Lexer.scanWord, hword.lexeme_eq, hword.token_eq]

theorem invalidNumber (h : Below lines bytes lexer other) :
    other.invalidNumber.1 = shiftRead lines bytes lexer.invalidNumber.1 := by
  rw [Lexer.invalidNumber, Lexer.invalidNumber, h.lexeme_eq, h.start]
  rfl

theorem scanNumber [IdentifierTables] (h : Below lines bytes lexer other) :
    other.scanNumber.1 = shiftRead lines bytes lexer.scanNumber.1 := by
  have hrun : numberRun other.rest = numberRun lexer.rest := by
    rw [← numberRun_firstLine, h.rest, numberRun_firstLine]
  have hlength : (numberRun lexer.rest).1 ≤ (firstLine lexer.rest).length := by
    obtain ⟨run, tail, hsplit, hlength, -⟩ := exists_numberRun (firstLine lexer.rest)
    rw [← numberRun_firstLine, ← hlength, hsplit, List.length_append]
    exact Nat.le_add_right _ _
  have htake := h.take hlength
  have hglued : ((other.take (numberRun lexer.rest).1).rest.head?.map isNumberChar).getD false =
      ((lexer.take (numberRun lexer.rest).1).rest.head?.map isNumberChar).getD false := by
    rw [← head?_firstLine (by simp), htake.rest, head?_firstLine (by simp)]
  simp only [Lexer.scanNumber, hrun, hglued, htake.taken]
  split
  · exact (htake.takeWhile (by simp)).invalidNumber
  · split
    · exact congrArg Except.ok (htake.token_eq _)
    · exact htake.invalidNumber

theorem scanString (h : Below lines bytes lexer other) :
    other.scanString.1 = shiftRead lines bytes lexer.scanString.1 := by
  have hrun : stringRun other.rest = stringRun lexer.rest := by
    rw [← stringRun_firstLine, h.rest, stringRun_firstLine]
  have hlength : (stringRun lexer.rest).length ≤ (firstLine lexer.rest).length := by
    obtain ⟨run, tail, hsplit, hlength, -⟩ := exists_stringRun (firstLine lexer.rest)
    rw [← stringRun_firstLine, ← hlength, hsplit, List.length_append]
    exact Nat.le_add_right _ _
  simp only [Lexer.scanString, hrun]
  split
  · exact congrArg Except.ok ((h.take hlength).token_eq _)
  · rw [h.start]
    rfl
  · rw [(h.take (Nat.le_trans (Nat.sub_le _ 1) hlength)).place]
    rfl

/-- In front of a token or a fault the same is read further down. -/
theorem scanToken [IdentifierTables] (hrest : firstLine other.rest = firstLine lexer.rest)
    (hplace : other.place = lexer.place.shift lines bytes) (hne : firstLine lexer.rest ≠ []) :
    other.scanToken.1 = shiftRead lines bytes lexer.scanToken.1 := by
  have h : Below lines bytes lexer.markStart other.markStart := ⟨hrest, hplace, hplace, rfl⟩
  obtain ⟨c, line, hline⟩ := List.exists_cons_of_ne_nil hne
  obtain ⟨cs, hlexer, hc⟩ := exists_cons_of_firstLine hline
  obtain ⟨others, hother, -⟩ := exists_cons_of_firstLine (hrest.trans hline)
  have hfirst : 1 ≤ (firstLine lexer.markStart.rest).length := List.length_pos_of_ne_nil hne
  have hsign : Symbol.longest? other.markStart.rest = Symbol.longest? lexer.markStart.rest := by
    rw [← Symbol.longest?_firstLine, h.rest, Symbol.longest?_firstLine]
  have hbegun : lexer.markStart.rest = c :: cs := hlexer
  have hbegun' : other.markStart.rest = c :: others := hother
  rw [Lexer.scanToken, Lexer.scanToken]
  dsimp only
  rw [hsign]
  simp only [hbegun, hbegun']
  split
  · exact congrArg Except.ok (h.take hfirst).scanWord
  · split
    · exact (h.take hfirst).scanNumber
    · split
      · exact (h.take hfirst).scanString
      · split
        · next sign hfound =>
          refine congrArg Except.ok ((h.take ?_).token_eq _)
          rw [← hbegun, ← Symbol.longest?_firstLine] at hfound
          obtain ⟨tail, hsplit⟩ := Symbol.exists_tail_of_longest? hfound
          rw [hsplit, List.length_append, String.length_toList]
          exact Nat.le_add_right _ _
        · rw [h.start]
          rfl

end Below

end Lexer

/-! ### Texts further down -/

/-- The second text ends so many lines and bytes further down than the first, in the same
column. -/
def EndsBelow (lines bytes : Nat) (before front : List Char) : Prop :=
  Position.first.after front = (Position.first.after before).shift lines bytes

section

variable {lines bytes : Nat} {before front run tail back : List Char} {token : Token}

theorem EndsBelow.append (h : EndsBelow lines bytes before front) (run : List Char) :
    EndsBelow lines bytes (before ++ run) (front ++ run) := by
  rw [EndsBelow, Position.after_append, Position.after_append, h, Position.after_shift]

/-- Where lines start, only whole lines lie between. -/
theorem EndsBelow.of_lines {more : List Char} (hbefore : lastLine before = [])
    (hmore : lastLine (before ++ more) = []) :
    EndsBelow (more.count '\n') (utf8Len more) before (before ++ more) := by
  have hline := Position.line_after (Position.first.after before) more
  have hcolumn := Position.column_after_first (before ++ more)
  have hcolumn' := Position.column_after_first before
  have hoffset := Position.offset_after (Position.first.after before) more
  rw [hmore] at hcolumn
  rw [hbefore] at hcolumn'
  rw [EndsBelow, Position.shift, ← hline, ← hoffset, hcolumn', ← hcolumn, Position.after_append]

theorem Scans.shift [IdentifierTables] (h : Scans before run tail token)
    (hfront : EndsBelow lines bytes before front) (hback : firstLine back = firstLine tail) :
    Scans front run back (token.shift lines bytes) := by
  have hplain := h.lineFeed_not_mem
  have hline : firstLine (run ++ back) = firstLine (run ++ tail) := by
    rw [firstLine_append hplain, firstLine_append hplain, hback]
  have hne : firstLine (run ++ tail) ≠ [] := by
    rw [firstLine_append hplain]
    exact List.append_ne_nil_of_left_ne_nil h.run_ne_nil _
  refine ⟨?_, h.lexeme, h.run_ne_nil⟩
  have hread : (Lexer.reading front (run ++ back)).scanToken.1 =
      shiftRead lines bytes (Lexer.reading before (run ++ tail)).scanToken.1 :=
    Lexer.Below.scanToken hline hfront hne
  rw [hread, h.scan]
  rfl

theorem startsCode_of_firstLine {rest other : List Char} (h : startsCode rest = true)
    (hother : firstLine other = firstLine rest) :
    firstLine rest ≠ [] ∧ startsCode other = true := by
  cases rest with
  | nil => cases h
  | cons c cs =>
    have hc : c ≠ '\n' := by
      rintro rfl
      cases h
    rw [firstLine_cons hc] at hother
    obtain ⟨others, rfl, -⟩ := exists_cons_of_firstLine hother
    rw [firstLine_cons hc]
    exact ⟨List.cons_ne_nil _ _, h⟩

theorem Faults.shift [IdentifierTables] {rest other : List Char} {error : LexicalError}
    (h : Faults before rest error) (hfront : EndsBelow lines bytes before front)
    (hother : firstLine other = firstLine rest) :
    Faults front other (error.shift lines bytes) := by
  obtain ⟨hne, hcode⟩ := startsCode_of_firstLine h.code hother
  refine ⟨?_, hcode⟩
  have hread : (Lexer.reading front other).scanToken.1 =
      shiftRead lines bytes (Lexer.reading before rest).scanToken.1 :=
    Lexer.Below.scanToken hother hfront hne
  rw [hread, h.scan]
  rfl

theorem closing_shift (blocks : Indentation) (h : EndsBelow lines bytes before front) :
    closing blocks front = (closing blocks before).map (Token.shift lines bytes) := by
  rw [closing, closing, h]
  simp [Indentation.close, Token.shift_mark]

theorem lineEnd_shift (h : EndsBelow lines bytes before front) :
    lineEnd front = (lineEnd before).shift lines bytes := by
  have hnext : EndsBelow lines bytes (before ++ ['\n']) (front ++ ['\n']) := h.append ['\n']
  rw [lineEnd, h, hnext]
  rfl

namespace Indentation

variable {blocks inner : Indentation} {width : Nat} {place : Position}

theorem meet_shift (lines bytes : Nat) {marks : List Token}
    (h : blocks.meet width place = (.ok marks, inner)) :
    blocks.meet width (place.shift lines bytes) =
      (.ok (marks.map (Token.shift lines bytes)), inner) := by
  rcases meet_ok h with ⟨hdeeper, rfl, rfl⟩ | ⟨hle, hinner, htop, rfl⟩
  · exact if_pos hdeeper
  · rw [meet, if_neg (Nat.not_lt.mpr hle), ← hinner, List.map_replicate]
    exact if_pos htop

theorem meet_error_shift (lines bytes : Nat) {error : LexicalError}
    (h : blocks.meet width place = (.error error, inner)) :
    blocks.meet width (place.shift lines bytes) = (.error (error.shift lines bytes), inner) := by
  obtain ⟨rfl, hle, hinner, htop⟩ := meet_error h
  rw [meet, if_neg (Nat.not_lt.mpr hle), ← hinner]
  exact if_neg htop

end Indentation

/-- The rest of a text is cut in the same way further down. -/
theorem Cut.shift [IdentifierTables] {tabWidth : Nat} {stage : Stage} {rest : List Char}
    {blocks : Indentation} {tokens : List Token} {error : Option (Failure LexicalError)}
    (h : Cut tabWidth stage before blocks rest tokens error)
    (hfront : EndsBelow lines bytes before front) :
    Cut tabWidth stage front blocks rest (tokens.map (Token.shift lines bytes))
      (error.map (Failure.map (LexicalError.shift lines bytes))) := by
  induction h generalizing front with
  | tooWide hwide => exact .tooWide hwide
  | emptyLine hfiller hfits _ ih =>
    exact .emptyLine hfiller hfits (ih ((hfront.append _).append _))
  | textEnd hfiller hfits =>
    rw [← closing_shift _ (hfront.append _)]
    exact .textEnd hfiller hfits
  | @line before blanks run rest blocks inner marks token tokens error hblanks hfits hmeet hscan _
      ih =>
    have hbegin := hfront.append blanks
    have hmeet' := Indentation.meet_shift lines bytes hmeet
    rw [← hbegin] at hmeet'
    rw [List.map_append, List.map_cons]
    exact .line hblanks hfits hmeet' (hscan.shift hbegin rfl) (ih (hbegin.append _))
  | @faultyLine before blanks rest blocks inner marks error hblanks hfits hmeet hfault =>
    have hbegin := hfront.append blanks
    have hmeet' := Indentation.meet_shift lines bytes hmeet
    rw [← hbegin] at hmeet'
    exact .faultyLine hblanks hfits hmeet' (hfault.shift hbegin rfl)
  | unmetLine hblanks hcode hfits hmeet =>
    have hmeet' := Indentation.meet_error_shift lines bytes hmeet
    rw [← hfront.append _] at hmeet'
    exact .unmetLine hblanks hcode hfits hmeet'
  | @token brackets before blanks run rest blocks token tokens error hblanks hscan _ ih =>
    have hbegin := hfront.append blanks
    exact .token hblanks (hscan.shift hbegin rfl) (ih (hbegin.append _))
  | fault hblanks hfault => exact .fault hblanks (hfault.shift (hfront.append _) rfl)
  | joinedLine hfiller hopen _ ih =>
    exact .joinedLine hfiller hopen (ih ((hfront.append _).append _))
  | lineEnd hfiller _ ih =>
    rw [List.map_cons, ← lineEnd_shift (hfront.append _)]
    exact .lineEnd hfiller (ih ((hfront.append _).append _))
  | @lastLine brackets before filler blocks hfiller =>
    have hend := hfront.append filler
    rw [List.map_cons, ← closing_shift _ hend, Token.shift_mark, ← hend]
    exact .lastLine hfiller

end

end Offside
