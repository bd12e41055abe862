/-
The width of a tab.  It is asked for only where a logical line starts with tabs, and then only the
marks of levels, and the one error about levels, depend on it.
-/
import Offside.Proofs.Token.CutUnique
import Offside.Proofs.Token.LineStarts
import Offside.Text.IdentifierRanges

namespace Offside

/-- Whether a token marks a level that is opened or closed. -/
def Token.isLevel (token : Token) : Bool :=
  match token.kind with
  | .layout .indent | .layout .dedent => true
  | _ => false

/-- Where a logical line starts, no tab is among its blanks, whatever the width of a tab. -/
def Untabbed (text : List Char) : Prop :=
  ∀ count ≤ text.length, (lineStart? 1 (text.take count) (text.drop count)).isSome = true →
    '\t' ∉ (text.drop count).takeWhile Lexer.isBlank

instance (text : List Char) : Decidable (Untabbed text) :=
  inferInstanceAs (Decidable (∀ count ≤ text.length,
    (lineStart? 1 (text.take count) (text.drop count)).isSome = true →
      '\t' ∉ (text.drop count).takeWhile Lexer.isBlank))

section

variable {narrow wide : Nat} {stage : Stage} {before rest text blanks : List Char}
  {blocks inner : Indentation} {width : Nat} {place : Position} {marks tokens : List Token}
  {error : Option (Failure LexicalError)}

/-! ### Marks of levels -/

theorem filter_eq_nil_of_isLevel (h : ∀ token ∈ marks, token.isLevel = true) :
    marks.filter (!·.isLevel) = [] := by
  rw [List.filter_eq_nil_iff]
  intro token htoken
  rw [h token htoken]
  exact Bool.false_ne_true

/-- A line is met with marks of levels. -/
theorem Indentation.filter_meet (h : blocks.meet width place = (.ok marks, inner)) :
    marks.filter (!·.isLevel) = [] := by
  apply filter_eq_nil_of_isLevel
  intro token htoken
  rcases meet_ok h with ⟨-, rfl, -⟩ | ⟨-, -, -, rfl⟩
  · rw [List.mem_singleton.mp htoken]
    rfl
  · rw [List.eq_of_mem_replicate htoken]
    rfl

theorem filter_closing (blocks : Indentation) (before : List Char) :
    (closing blocks before).filter (!·.isLevel) =
      [Token.mark .endOfInput (Position.first.after before)] := by
  have hlevels : (blocks.close (Position.first.after before)).1.filter (!·.isLevel) = [] := by
    apply filter_eq_nil_of_isLevel
    intro token htoken
    rw [List.eq_of_mem_replicate htoken]
    rfl
  rw [closing, List.filter_append, hlevels]
  rfl

/-! ### Cutting with two widths -/

/-- Whatever the levels and the width of a tab, the same tokens are found up to the first line
that stands on no level. -/
theorem Cut.with_width [IdentifierTables] (h : Cut narrow stage before blocks rest tokens error)
    (hnone : error = none) (wide : Nat) (levels : Indentation) :
    ∃ others found, Cut wide stage before levels rest others found ∧
      (found = none → others.filter (!·.isLevel) = tokens.filter (!·.isLevel)) := by
  induction h generalizing levels with
  | @emptyLine before filler rest blocks tokens error hfiller _ _ ih =>
    by_cases hfits : Fits wide filler
    · obtain ⟨others, found, hcut, hsame⟩ := ih hnone levels
      exact ⟨others, found, .emptyLine hfiller hfits hcut, hsame⟩
    · exact ⟨[], _, .of_not_fits hfits, nofun⟩
  | @textEnd before filler blocks hfiller _ =>
    by_cases hfits : Fits wide filler
    · refine ⟨_, none, .textEnd hfiller hfits, fun _ => ?_⟩
      rw [filter_closing, filter_closing]
    · exact ⟨[], _, .tooWide hfits, nofun⟩
  | @line before blanks run rest blocks inner marks token tokens error hblanks _ hmeet hscan _ ih =>
    by_cases hfits : Fits wide blanks
    swap
    · exact ⟨[], _, .of_not_fits hfits, nofun⟩
    cases hmeet' : levels.meet (lineWidth wide blanks)
        (Position.first.after (before ++ blanks)) with
    | mk result inner' =>
      cases result with
      | error error =>
        exact ⟨[], _, .unmetLine hblanks hscan.startsCode hfits hmeet', nofun⟩
      | ok marks' =>
        obtain ⟨others, found, hcut, hsame⟩ := ih hnone inner'
        refine ⟨_, found, .line hblanks hfits hmeet' hscan hcut, fun hfound => ?_⟩
        rw [List.filter_append, List.filter_append, Indentation.filter_meet hmeet,
          Indentation.filter_meet hmeet', List.filter_cons, List.filter_cons, hsame hfound]
  | tooWide | faultyLine | unmetLine | fault => cases hnone
  | token hblanks hscan _ ih =>
    obtain ⟨others, found, hcut, hsame⟩ := ih hnone levels
    refine ⟨_, found, .token hblanks hscan hcut, fun hfound => ?_⟩
    rw [List.filter_cons, List.filter_cons, hsame hfound]
  | joinedLine hfiller hopen _ ih =>
    obtain ⟨others, found, hcut, hsame⟩ := ih hnone levels
    exact ⟨others, found, .joinedLine hfiller hopen hcut, hsame⟩
  | lineEnd hfiller _ ih =>
    obtain ⟨others, found, hcut, hsame⟩ := ih hnone levels
    refine ⟨_, found, .lineEnd hfiller hcut, fun hfound => ?_⟩
    rw [List.filter_cons, List.filter_cons, hsame hfound]
  | lastLine hfiller =>
    refine ⟨_, none, .lastLine hfiller, fun _ => ?_⟩
    rw [List.filter_cons, List.filter_cons, filter_closing, filter_closing]

/-- The blanks of a logical line of an untabbed text are of the same width whatever a tab is. -/
theorem Untabbed.lineWidth_eq (htext : Untabbed text) (hreached : Stage.fresh.Reached before)
    (hblanks : ∀ c ∈ blanks, Lexer.isBlank c = true) (hcode : startsCode rest = true)
    (hsplit : text = before ++ (blanks ++ rest)) (narrow wide : Nat) :
    lineWidth narrow blanks = lineWidth wide blanks := by
  subst hsplit
  have hstart : lineStart? 1 before (blanks ++ rest) = _ :=
    lineStart?_of_fresh hreached hblanks hcode
  have hnone := htext before.length (by simp)
  rw [List.take_left, List.drop_left, hstart, List.takeWhile_append_of_pos hblanks] at hnone
  exact lineWidth_of_not_mem narrow wide fun hmem =>
    hnone rfl (List.mem_append_left _ hmem)

theorem Untabbed.fits (htext : Untabbed text) (hreached : Stage.fresh.Reached before)
    (hblanks : ∀ c ∈ blanks, Lexer.isBlank c = true) (hcode : startsCode rest = true)
    (hsplit : text = before ++ (blanks ++ rest)) (wide : Nat) (hfits : Fits narrow blanks) :
    Fits wide blanks := by
  rw [fits_iff_of_blanks hblanks] at hfits ⊢
  rwa [← htext.lineWidth_eq hreached hblanks hcode hsplit narrow wide]

/-- An untabbed text is cut in the same way whatever the width of a tab, as long as the empty lines
in it have widths that are numbers. -/
theorem Cut.of_untabbed [IdentifierTables] (h : Cut narrow stage before blocks rest tokens error)
    (htext : Untabbed text) (hreached : stage.Reached before) (hsplit : text = before ++ rest)
    (wide : Nat) (herror : error ≠ some .overflow) :
    (∃ others, Cut wide stage before blocks rest others (some .overflow)) ∨
      Cut wide stage before blocks rest tokens error := by
  induction h with
  | tooWide => exact absurd rfl herror
  | @emptyLine before filler rest blocks tokens error hfiller _ _ ih =>
    by_cases hfits : Fits wide filler
    · exact (ih (hreached.emptyLine hfiller) (by simp [hsplit]) herror).imp
        (fun ⟨_, hcut⟩ => ⟨_, .emptyLine hfiller hfits hcut⟩) (.emptyLine hfiller hfits)
    · exact .inl ⟨_, .of_not_fits hfits⟩
  | @textEnd before filler blocks hfiller _ =>
    by_cases hfits : Fits wide filler
    · exact .inr (.textEnd hfiller hfits)
    · exact .inl ⟨_, .tooWide hfits⟩
  | line hblanks hfits hmeet hscan _ ih =>
    have hfits' := htext.fits hreached hblanks hscan.startsCode hsplit wide hfits
    rw [htext.lineWidth_eq hreached hblanks hscan.startsCode hsplit narrow wide] at hmeet
    exact (ih (hreached.scanned hblanks hscan) (by simp [hsplit]) herror).imp
      (fun ⟨_, hcut⟩ => ⟨_, .line hblanks hfits' hmeet hscan hcut⟩)
      (.line hblanks hfits' hmeet hscan)
  | faultyLine hblanks hfits hmeet hfault =>
    have hfits' := htext.fits hreached hblanks hfault.code hsplit wide hfits
    rw [htext.lineWidth_eq hreached hblanks hfault.code hsplit narrow wide] at hmeet
    exact .inr (.faultyLine hblanks hfits' hmeet hfault)
  | unmetLine hblanks hcode hfits hmeet =>
    have hfits' := htext.fits hreached hblanks hcode hsplit wide hfits
    rw [htext.lineWidth_eq hreached hblanks hcode hsplit narrow wide] at hmeet
    exact .inr (.unmetLine hblanks hcode hfits' hmeet)
  | token hblanks hscan _ ih =>
    exact (ih (hreached.scanned hblanks hscan) (by simp [hsplit]) herror).imp
      (fun ⟨_, hcut⟩ => ⟨_, .token hblanks hscan hcut⟩) (.token hblanks hscan)
  | fault hblanks hfault => exact .inr (.fault hblanks hfault)
  | joinedLine hfiller hopen _ ih =>
    exact (ih (hreached.joinedLine hfiller hopen) (by simp [hsplit]) herror).imp
      (fun ⟨_, hcut⟩ => ⟨_, .joinedLine hfiller hopen hcut⟩) (.joinedLine hfiller hopen)
  | lineEnd hfiller _ ih =>
    exact (ih (hreached.lineEnd hfiller) (by simp [hsplit]) herror).imp
      (fun ⟨_, hcut⟩ => ⟨_, .lineEnd hfiller hcut⟩) (.lineEnd hfiller)
  | lastLine hfiller => exact .inr (.lastLine hfiller)

end

section

variable [IdentifierTables] {text : String}

theorem tokenize_of_untabbed (htext : Untabbed text.toList) (narrow wide : Nat) :
    tokenize text narrow = .error .overflow ∨ tokenize text wide = .error .overflow ∨
      tokenize text narrow = tokenize text wide := by
  cases h : tokenize text narrow with
  | ok tokens =>
    right
    rcases (cut_of_tokenize h).of_untabbed htext .start rfl wide nofun with ⟨others, hcut⟩ | hcut
    · exact .inl (tokenize_eq_of_cut_error hcut)
    · exact .inr (tokenize_eq_of_cut hcut).symm
  | error failure =>
    cases failure with
    | overflow => exact .inl rfl
    | reported error =>
      right
      obtain ⟨tokens, hcut⟩ := cut_of_tokenize_error h
      rcases hcut.of_untabbed htext .start rfl wide nofun with ⟨others, hcut⟩ | hcut
      · exact .inl (tokenize_eq_of_cut_error hcut)
      · exact .inr (tokenize_eq_of_cut_error hcut).symm

end

/-- The width of a tab affects layout only.  With two widths that both cut a text, the tokens are
the same up to the marks of levels; and where no logical line is indented with tabs, the answer is
the same, an error or all tokens, unless with one of the widths an empty line is too wide for a
number. -/
theorem tokenize_of_tabWidths [IdentifierTables] (text : String) (narrow wide : Nat) :
    (∀ tokens others, tokenize text narrow = .ok tokens → tokenize text wide = .ok others →
      tokens.filter (!·.isLevel) = others.filter (!·.isLevel)) ∧
    (Untabbed text.toList → Narrow narrow text.toList → Narrow wide text.toList →
      tokenize text narrow = tokenize text wide) ∧
    (Untabbed text.toList → tokenize text narrow ≠ tokenize text wide →
      tokenize text narrow = .error .overflow ∨ tokenize text wide = .error .overflow) := by
  refine ⟨fun tokens others htokens hothers => ?_, fun htext hnarrow hwide => ?_,
    fun htext hne => ?_⟩
  · obtain ⟨found, error, hcut, hsame⟩ :=
      (cut_of_tokenize htokens).with_width rfl wide Indentation.base
    cases error with
    | none =>
      rw [tokenize_eq_of_cut hcut] at hothers
      cases hothers
      exact (hsame rfl).symm
    | some error =>
      rw [tokenize_eq_of_cut_error hcut] at hothers
      cases hothers
  · rcases tokenize_of_untabbed htext narrow wide with hfails | hfails | hsame
    · exact absurd hfails (tokenize_ne_overflow hnarrow)
    · exact absurd hfails (tokenize_ne_overflow hwide)
    · exact hsame
  · rcases tokenize_of_untabbed htext narrow wide with hfails | hfails | hsame
    · exact .inl hfails
    · exact .inr hfails
    · exact absurd hsame hne

namespace TabWidthsWitness

/-- A line behind two blanks, and one behind a tab. -/
def source : String := "  a\n\tb"

/-- The tokens between the mark of the first level and the marks in front of the second line. -/
def first : List Token :=
  [⟨.identifier "a", "a", ⟨⟨1, 3, 2⟩, ⟨1, 4, 3⟩⟩⟩, ⟨.layout .newline, "\n", ⟨⟨1, 4, 3⟩, ⟨2, 1, 4⟩⟩⟩]

def second : List Token :=
  [⟨.identifier "b", "b", ⟨⟨2, 2, 5⟩, ⟨2, 3, 6⟩⟩⟩, Token.mark .newline ⟨2, 3, 6⟩]

def last : Position := ⟨2, 3, 6⟩

/-- Where a tab is as wide as two blanks, both lines stand on one level. -/
def narrow : List Token :=
  Token.mark .indent ⟨1, 3, 2⟩ :: first ++ second ++
    [Token.mark .dedent last, Token.mark .endOfInput last]

def wide : List Token :=
  Token.mark .indent ⟨1, 3, 2⟩ :: first ++ Token.mark .indent ⟨2, 2, 5⟩ :: second ++
    [Token.mark .dedent last, Token.mark .dedent last, Token.mark .endOfInput last]

/-- Tabs behind a token, inside of brackets and in front of a comment. -/
def untabbed : String := "f(\n\t1)\t+ 2\n\t# so\n"

theorem tokens_of_tabWidths :
    (tokenize source 2 = .ok narrow ∧ tokenize source 4 = .ok wide ∧
      narrow.filter (!·.isLevel) = wide.filter (!·.isLevel)) ∧
    Untabbed untabbed.toList ∧ tokenize untabbed 1 = tokenize untabbed 4 := by
  have hnarrow : tokenize source 2 = .ok narrow := by decide +kernel
  have hwide : tokenize source 4 = .ok wide := by decide +kernel
  have huntabbed : Untabbed untabbed.toList := by decide
  have hlines : Narrow 1 untabbed.toList ∧ Narrow 4 untabbed.toList := by decide +kernel
  exact ⟨⟨hnarrow, hwide, (tokenize_of_tabWidths source 2 4).1 _ _ hnarrow hwide⟩, huntabbed,
    (tokenize_of_tabWidths untabbed 1 4).2.1 huntabbed hlines.1 hlines.2⟩

/-- A blank line of four tabs in front of a line that is not indented. -/
def blank : String := "\t\t\t\t\na\n"

/-- Four tabs of this width are too wide. -/
def quarter : Nat := 2 ^ 62

/-- Without a condition on the widths of empty lines the answer depends on the width of a tab, also
where no logical line is indented with tabs. -/
theorem not_same_answers :
    ¬ ∀ (text : String) (narrow wide : Nat), narrow < Lexer.widthBound →
      wide < Lexer.widthBound → Untabbed text.toList →
        tokenize text narrow = tokenize text wide := by
  intro hall
  have hsame := hall blank 4 quarter (by decide) (by decide) (by decide)
  have hfails : tokenize blank quarter = .error .overflow := by decide +kernel
  have hread : (tokenize blank 4).toOption.isSome = true := by decide +kernel
  rw [hsame, hfails] at hread
  cases hread

end TabWidthsWitness

end Offside
