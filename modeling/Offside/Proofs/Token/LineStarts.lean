/-
The logical lines of a text, told from the text alone: lines that start outside of brackets and
hold more than blanks and a comment.  The widths of all lines that start outside of brackets are
measured, and only these can be too wide.
-/
import Offside.Proofs.Token.CutRun
import Offside.Proofs.Token.Stages

open String (utf8Len)

namespace Offside

/-- A logical line: how far it is indented, and where its first token starts. -/
structure LineStart where
  width : Nat
  place : Position
  deriving Repr, DecidableEq

/-- The logical line that starts behind `before`, if there is one. -/
def lineStart? (tabWidth : Nat) (before rest : List Char) : Option LineStart :=
  let blanks := rest.takeWhile Lexer.isBlank
  if lastLine before = [] ∧ Enclosure.outside.after before = .outside ∧
      startsCode (rest.dropWhile Lexer.isBlank) then
    some ⟨lineWidth tabWidth blanks, Position.first.after (before ++ blanks)⟩
  else none

/-- The logical lines that start behind `before` or later. -/
def lineStartsFrom (tabWidth : Nat) : List Char → List Char → List LineStart
  | _, [] => []
  | before, c :: rest =>
    (lineStart? tabWidth before (c :: rest)).toList ++ lineStartsFrom tabWidth (before ++ [c]) rest

def logicalLines (tabWidth : Nat) (text : String) : List LineStart :=
  lineStartsFrom tabWidth [] text.toList

section

variable {tabWidth : Nat} {before rest run : List Char}

theorem lineStart?_of_lastLine (h : lastLine before ≠ []) :
    lineStart? tabWidth before rest = none :=
  if_neg fun hstart => h hstart.1

theorem lineStart?_of_startsCode (h : startsCode (rest.dropWhile Lexer.isBlank) = false) :
    lineStart? tabWidth before rest = none := by
  apply if_neg
  rintro ⟨-, -, hcode⟩
  rw [h] at hcode
  cases hcode

theorem lineStartsFrom_of_lastLine (hbefore : lastLine before ≠ []) (hrun : '\n' ∉ run) :
    lineStartsFrom tabWidth before (run ++ rest) =
      lineStartsFrom tabWidth (before ++ run) rest := by
  induction run generalizing before with
  | nil => rw [List.append_nil, List.nil_append]
  | cons c run ih =>
    simp only [List.mem_cons, not_or] at hrun
    have hnext := lastLine_concat_ne_nil (Ne.symm hrun.1) before
    rw [List.cons_append, lineStartsFrom, lineStart?_of_lastLine hbefore, ih hnext hrun.2,
      List.append_assoc]
    rfl

/-- Within one line only its start can be the start of a logical line. -/
theorem lineStartsFrom_append (hne : run ≠ []) (hrun : '\n' ∉ run) :
    lineStartsFrom tabWidth before (run ++ rest) =
      (lineStart? tabWidth before (run ++ rest)).toList ++
        lineStartsFrom tabWidth (before ++ run) rest := by
  obtain ⟨c, run, rfl⟩ := List.exists_cons_of_ne_nil hne
  simp only [List.mem_cons, not_or] at hrun
  have hnext := lastLine_concat_ne_nil (Ne.symm hrun.1) before
  rw [List.cons_append, lineStartsFrom, lineStartsFrom_of_lastLine hnext hrun.2,
    List.append_assoc]
  rfl

/-- No logical line starts in front of filler. -/
theorem lineStart?_of_filler {filler tail : List Char} (hfiller : Filler filler)
    (htail : LineEnds tail) : lineStart? tabWidth before (filler ++ tail) = none := by
  apply lineStart?_of_startsCode
  rcases hfiller.cases with hblanks | ⟨blanks, text, rfl, hblanks, -⟩
  · rw [List.dropWhile_append_of_pos hblanks]
    rcases htail with rfl | ⟨cs, rfl⟩
    · rfl
    · rfl
  · rw [List.append_assoc, List.dropWhile_append_of_pos hblanks]
    rfl

theorem lineStartsFrom_lineFeed :
    lineStartsFrom tabWidth before ('\n' :: rest) =
      lineStartsFrom tabWidth (before ++ ['\n']) rest := by
  rw [lineStartsFrom, lineStart?_of_startsCode rfl]
  rfl

theorem lineStartsFrom_filler {filler : List Char} (hfiller : Filler filler) :
    lineStartsFrom tabWidth before (filler ++ '\n' :: rest) =
      lineStartsFrom tabWidth (before ++ filler ++ ['\n']) rest := by
  rw [← lineStartsFrom_lineFeed]
  by_cases hne : filler = []
  · rw [hne, List.append_nil, List.nil_append]
  · rw [lineStartsFrom_append hne hfiller.lineFeed_not_mem,
      lineStart?_of_filler hfiller (.inr ⟨rest, rfl⟩)]
    rfl

theorem lineStartsFrom_of_filler {filler : List Char} (hfiller : Filler filler) :
    lineStartsFrom tabWidth before filler = [] := by
  by_cases hne : filler = []
  · rw [hne, lineStartsFrom]
  · rw [← List.append_nil filler, lineStartsFrom_append hne hfiller.lineFeed_not_mem,
      lineStart?_of_filler hfiller (.inl rfl), lineStartsFrom]
    rfl

/-- Between lines a logical line starts wherever a token does. -/
theorem lineStart?_of_fresh {blanks : List Char} (h : Stage.fresh.Reached before)
    (hblanks : ∀ c ∈ blanks, Lexer.isBlank c = true) (hcode : startsCode rest = true) :
    lineStart? tabWidth before (blanks ++ rest) =
      some ⟨lineWidth tabWidth blanks, Position.first.after (before ++ blanks)⟩ := by
  cases rest with
  | nil => cases hcode
  | cons c rest =>
    have hc : Lexer.isBlank c = false := by
      simp only [startsCode, Bool.and_eq_true, Bool.not_eq_true'] at hcode
      exact hcode.1.1
    have htake : (blanks ++ c :: rest).takeWhile Lexer.isBlank = blanks := by
      rw [List.takeWhile_append_of_pos hblanks, List.takeWhile_cons_of_neg (by simp [hc]),
        List.append_nil]
    have hdrop : (blanks ++ c :: rest).dropWhile Lexer.isBlank = c :: rest := by
      rw [List.dropWhile_append_of_pos hblanks, List.dropWhile_cons_of_neg (by simp [hc])]
    rw [lineStart?, htake, hdrop]
    exact if_pos ⟨h.lastLine rfl, h.after, hcode⟩

/-- Inside of a line of tokens no logical line starts. -/
theorem lineStart?_of_inLine {brackets : Nat} (h : (Stage.inLine brackets).Reached before) :
    lineStart? tabWidth before rest = none := by
  apply if_neg
  rintro ⟨hstart, houtside, -⟩
  have hopen : 0 < brackets := h.brackets (by simp) hstart
  have hafter := h.after
  rw [houtside] at hafter
  cases hafter
  exact Nat.lt_irrefl 0 hopen

/-- A logical line starts behind the end of another line. -/
theorem exists_of_mem_lineStartsFrom {line : LineStart}
    (h : line ∈ lineStartsFrom tabWidth before rest) :
    ∃ front tail, rest = front ++ tail ∧ lastLine (before ++ front) = [] ∧
      (Position.first.after (before ++ front)).offset ≤ line.place.offset := by
  induction rest generalizing before with
  | nil => cases h
  | cons c rest ih =>
    rw [lineStartsFrom, List.mem_append, Option.mem_toList] at h
    rcases h with hhere | hlater
    · rw [lineStart?, Option.ite_none_right_eq_some] at hhere
      obtain ⟨⟨hstart, -⟩, hline⟩ := hhere
      cases hline
      refine ⟨[], _, rfl, by rwa [List.append_nil], ?_⟩
      rw [List.append_nil, Position.after_append]
      exact Position.offset_after_le _ _
    · obtain ⟨front, tail, rfl, hstart, hle⟩ := ih hlater
      rw [List.append_assoc] at hstart hle
      exact ⟨c :: front, tail, rfl, hstart, hle⟩

/-- Whatever belongs to the current line lies before all logical lines to come. -/
theorem lt_place_of_mem_lineStartsFrom {passed : List Char} {c : Char} {line : LineStart}
    (h : line ∈ lineStartsFrom tabWidth (before ++ [c]) rest) (hpassed : passed <+: c :: rest)
    (hline : '\n' ∉ passed) :
    (Position.first.after (before ++ passed)).offset < line.place.offset := by
  obtain ⟨front, tail, rfl, hstart, hle⟩ := exists_of_mem_lineStartsFrom h
  have hfront : '\n' ∈ c :: front := by
    by_contra hno
    rw [List.append_assoc, List.singleton_append, lastLine_append hno] at hstart
    simp at hstart
  have hshorter : passed <+: c :: front := by
    refine (List.prefix_or_prefix_of_prefix hpassed ⟨tail, rfl⟩).resolve_right fun hlonger => ?_
    exact hline (hlonger.subset hfront)
  obtain ⟨others, hothers⟩ := hshorter
  have hne : others ≠ [] := by
    rintro rfl
    rw [List.append_nil] at hothers
    exact hline (hothers ▸ hfront)
  refine Nat.lt_of_lt_of_le ?_ hle
  have hlength : 0 < utf8Len others := Nat.pos_of_ne_zero (by simpa using hne)
  rw [List.append_assoc, List.singleton_append, ← hothers, Position.offset_after_first,
    Position.offset_after_first, String.utf8Len_append, String.utf8Len_append,
    String.utf8Len_append]
  omega

end

/-! ### Lines that are too wide -/

/-- Every line that starts outside of brackets, also an empty one, has a width that is a number. -/
def Narrow (tabWidth : Nat) (text : List Char) : Prop :=
  ∀ count ≤ text.length, lastLine (text.take count) = [] →
    Enclosure.outside.after (text.take count) = .outside → Fits tabWidth (text.drop count)

instance (tabWidth : Nat) (text : List Char) : Decidable (Narrow tabWidth text) :=
  inferInstanceAs (Decidable (∀ count ≤ text.length, lastLine (text.take count) = [] →
    Enclosure.outside.after (text.take count) = .outside → Fits tabWidth (text.drop count)))

/-- Cutting comes upon a line that is too wide only where one starts outside of brackets. -/
theorem Cut.not_narrow [IdentifierTables] {tabWidth : Nat} {stage : Stage}
    {before rest text : List Char} {blocks : Indentation} {tokens : List Token}
    {error : Option (Failure LexicalError)} (h : Cut tabWidth stage before blocks rest tokens error)
    (herror : error = some .overflow) (hreached : stage.Reached before)
    (hsplit : text = before ++ rest) : ¬ Narrow tabWidth text := by
  induction h with
  | @tooWide before rest blocks hwide =>
    subst hsplit
    intro hnarrow
    have hfits := hnarrow before.length (by simp)
    rw [List.take_left, List.drop_left] at hfits
    exact hwide (hfits (hreached.lastLine rfl) hreached.after)
  | emptyLine hfiller _ _ ih => exact ih herror (hreached.emptyLine hfiller) (by simp [hsplit])
  | joinedLine hfiller hopen _ ih =>
    exact ih herror (hreached.joinedLine hfiller hopen) (by simp [hsplit])
  | lineEnd hfiller _ ih => exact ih herror (hreached.lineEnd hfiller) (by simp [hsplit])
  | line hblanks _ _ hscan _ ih | token hblanks hscan _ ih =>
    exact ih herror (hreached.scanned hblanks hscan) (by simp [hsplit])
  | textEnd | lastLine | faultyLine | unmetLine | fault => cases herror

theorem tokenize_ne_overflow [IdentifierTables] {text : String} {tabWidth : Nat}
    (h : Narrow tabWidth text.toList) :
    tokenize text tabWidth ≠ .error .overflow := by
  intro hoverflow
  obtain ⟨tokens, hcut⟩ := cut_of_tokenize_error hoverflow
  exact hcut.not_narrow rfl .start rfl h

end Offside
