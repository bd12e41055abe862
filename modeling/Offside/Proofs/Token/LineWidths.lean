/-
The widths of the logical lines of a text decide how deep each of them lies, and which of them
stands on no open level.
-/
import Offside.Proofs.Token.Faults
import Offside.Proofs.Token.LineStarts
import Offside.Proofs.Token.Minima
import Offside.Proofs.Token.Shape
import Offside.Text.IdentifierRanges

namespace Offside

/-! ### Lines that are met -/

/-- Lines that are met one after the other. -/
inductive Indentation.MeetsAll : Indentation → List LineStart → Indentation → Prop
  | nil {blocks : Indentation} : MeetsAll blocks [] blocks
  | cons {blocks inner last : Indentation} {line : LineStart} {lines : List LineStart}
    {marks : List Token} (hmeet : blocks.meet line.width line.place = (.ok marks, inner))
    (next : MeetsAll inner lines last) : MeetsAll blocks (line :: lines) last

namespace Indentation.MeetsAll

variable {blocks last : Indentation} {lines earlier later : List LineStart} {line : LineStart}
  {widths : List Nat}

theorem reflects (h : blocks.MeetsAll lines last) (hblocks : blocks.Reflects widths) :
    last.Reflects (widths ++ lines.map LineStart.width) := by
  induction h generalizing widths with
  | nil => simpa using hblocks
  | cons hmeet _ ih => simpa using ih (hblocks.met hmeet)

/-- A line that is met has a level that answers to its width. -/
theorem not_unmatched (h : blocks.MeetsAll lines last) (hblocks : blocks.Reflects widths)
    (hlines : lines = earlier ++ line :: later) :
    ¬ Unmatched (widths ++ earlier.map LineStart.width) line.width := by
  induction h generalizing widths earlier with
  | nil => simp at hlines
  | @cons blocks inner last first lines marks hmeet _ ih =>
    cases earlier with
    | nil =>
      cases hlines
      rw [List.map_nil, List.append_nil, ← hblocks.exists_meet_error_iff, hmeet]
      rintro ⟨error, herror⟩
      cases herror
    | cons second earlier =>
      cases hlines
      simpa using ih (hblocks.met hmeet) rfl

end Indentation.MeetsAll

/-! ### Lines of the tokens of a text -/

/-- These tokens hold the first token of every line, behind the marks that lead to its level. -/
def Opens (blocks : Indentation) (lines : List LineStart) (tokens : List Token) : Prop :=
  ∀ earlier line later, lines = earlier ++ line :: later →
    ∃ before token after inner, tokens = before ++ token :: after ∧
      token.kind.isLayout = false ∧ token.span.start = line.place ∧
      blocks.MeetsAll (earlier ++ [line]) inner ∧
      levelsAfter? blocks.depth before = some inner.depth

namespace Opens

variable {blocks inner : Indentation} {lines : List LineStart} {tokens marks : List Token}
  {line : LineStart} {token : Token}

theorem nil : Opens blocks [] tokens := by
  intro earlier line later h
  simp at h

/-- A token that leaves the levels as they are may stand in front. -/
theorem cons (htoken : token.levelsAfter? blocks.depth = some blocks.depth)
    (h : Opens blocks lines tokens) : Opens blocks lines (token :: tokens) := by
  intro earlier line later hlines
  obtain ⟨before, found, after, inner, rfl, hplain, hstart, hmeets, hlevels⟩ :=
    h earlier line later hlines
  refine ⟨token :: before, found, after, inner, rfl, hplain, hstart, hmeets, ?_⟩
  rw [levelsAfter?_cons, htoken]
  exact hlevels

theorem met (hmeet : blocks.meet line.width line.place = (.ok marks, inner))
    (hplain : token.kind.isLayout = false) (hstart : token.span.start = line.place)
    (h : Opens inner lines tokens) : Opens blocks (line :: lines) (marks ++ token :: tokens) := by
  have hmarks := Indentation.levelsAfter?_of_meet hmeet
  intro earlier other later hlines
  cases earlier with
  | nil =>
    cases hlines
    exact ⟨marks, token, tokens, inner, rfl, hplain, hstart, .cons hmeet .nil, hmarks⟩
  | cons first earlier =>
    cases hlines
    obtain ⟨before, found, after, last, rfl, hfound, hplace, hmeets, hlevels⟩ :=
      h earlier other later rfl
    refine ⟨marks ++ token :: before, found, after, last, by simp, hfound, hplace,
      .cons hmeet hmeets, ?_⟩
    rw [levelsAfter?_append, hmarks, Option.bind_some, levelsAfter?_cons_of_isLayout hplain]
    exact hlevels

/-- All lines of the tokens are met. -/
theorem exists_meetsAll (h : Opens blocks lines tokens) : ∃ last, blocks.MeetsAll lines last := by
  rcases List.eq_nil_or_concat lines with rfl | ⟨earlier, line, rfl⟩
  · exact ⟨blocks, .nil⟩
  · rw [List.concat_eq_append] at h ⊢
    obtain ⟨-, -, -, last, -, -, -, hmeets, -⟩ := h earlier line [] rfl
    exact ⟨last, hmeets⟩

end Opens

section

variable {tabWidth brackets : Nat} {stage : Stage} {before blanks run rest : List Char}
  {blocks : Indentation} {token : Token} {tokens : List Token}
  {error : Option (Failure LexicalError)}

/-- Up to the end of a run of code only the start of its line matters. -/
theorem lineStartsFrom_code (hblanks : ∀ c ∈ blanks, Lexer.isBlank c = true) (hne : run ≠ [])
    (hrun : '\n' ∉ run) :
    lineStartsFrom tabWidth before (blanks ++ (run ++ rest)) =
      (lineStart? tabWidth before (blanks ++ (run ++ rest))).toList ++
        lineStartsFrom tabWidth (before ++ blanks ++ run) rest := by
  have hline : '\n' ∉ blanks ++ run := by simp [lineFeed_not_mem_of_isBlank hblanks, hrun]
  rw [← List.append_assoc, List.append_assoc before]
  exact lineStartsFrom_append (by simp [hne]) hline

theorem lineStartsFrom_fresh (hstage : Stage.fresh.Reached before)
    (hblanks : ∀ c ∈ blanks, Lexer.isBlank c = true) (hne : run ≠ []) (hrun : '\n' ∉ run)
    (hcode : startsCode (run ++ rest) = true) :
    lineStartsFrom tabWidth before (blanks ++ (run ++ rest)) =
      ⟨lineWidth tabWidth blanks, Position.first.after (before ++ blanks)⟩ ::
        lineStartsFrom tabWidth (before ++ blanks ++ run) rest := by
  rw [lineStartsFrom_code hblanks hne hrun, lineStart?_of_fresh hstage hblanks hcode]
  rfl

theorem lineStartsFrom_inLine (hstage : (Stage.inLine brackets).Reached before)
    (hblanks : ∀ c ∈ blanks, Lexer.isBlank c = true) (hne : run ≠ []) (hrun : '\n' ∉ run) :
    lineStartsFrom tabWidth before (blanks ++ (run ++ rest)) =
      lineStartsFrom tabWidth (before ++ blanks ++ run) rest := by
  rw [lineStartsFrom_code hblanks hne hrun, lineStart?_of_inLine hstage]
  rfl

/-- The first character of code stands in its line. -/
theorem lineFeed_not_mem_of_startsCode {c : Char} (h : startsCode (c :: rest) = true) :
    '\n' ∉ [c] := by
  simp only [startsCode, Bool.and_eq_true, bne_iff_ne] at h
  simpa using Ne.symm h.2

theorem lineStartsFrom_fresh_cons {c : Char} (hstage : Stage.fresh.Reached before)
    (hblanks : ∀ c ∈ blanks, Lexer.isBlank c = true) (hcode : startsCode (c :: rest) = true) :
    lineStartsFrom tabWidth before (blanks ++ c :: rest) =
      ⟨lineWidth tabWidth blanks, Position.first.after (before ++ blanks)⟩ ::
        lineStartsFrom tabWidth (before ++ blanks ++ [c]) rest :=
  lineStartsFrom_fresh hstage hblanks (List.cons_ne_nil c [])
    (lineFeed_not_mem_of_startsCode hcode) hcode

theorem lineStartsFrom_inLine_cons {c : Char} (hstage : (Stage.inLine brackets).Reached before)
    (hblanks : ∀ c ∈ blanks, Lexer.isBlank c = true) (hcode : startsCode (c :: rest) = true) :
    lineStartsFrom tabWidth before (blanks ++ c :: rest) =
      lineStartsFrom tabWidth (before ++ blanks ++ [c]) rest :=
  lineStartsFrom_inLine hstage hblanks (List.cons_ne_nil c [])
    (lineFeed_not_mem_of_startsCode hcode)

/-- The tokens that a text is cut into open all logical lines of the text. -/
theorem Cut.opens [IdentifierTables] (h : Cut tabWidth stage before blocks rest tokens error)
    (hnone : error = none) (hstage : stage.Reached before) :
    Opens blocks (lineStartsFrom tabWidth before rest) tokens := by
  induction h with
  | emptyLine hfiller _ _ ih =>
    rw [lineStartsFrom_filler hfiller]
    exact ih hnone (hstage.emptyLine hfiller)
  | textEnd hfiller =>
    rw [lineStartsFrom_of_filler hfiller]
    exact .nil
  | line hblanks _ hmeet hscan _ ih =>
    rw [lineStartsFrom_fresh hstage hblanks hscan.run_ne_nil hscan.lineFeed_not_mem
      hscan.startsCode]
    exact .met hmeet hscan.isLayout hscan.span_start
      (ih hnone (hstage.scanned hblanks hscan))
  | tooWide | faultyLine | unmetLine | fault => cases hnone
  | token hblanks hscan _ ih =>
    rw [lineStartsFrom_inLine hstage hblanks hscan.run_ne_nil hscan.lineFeed_not_mem]
    exact .cons (Token.levelsAfter?_of_isLayout hscan.isLayout)
      (ih hnone (hstage.scanned hblanks hscan))
  | joinedLine hfiller hopen _ ih =>
    rw [lineStartsFrom_filler hfiller]
    exact ih hnone (hstage.joinedLine hfiller hopen)
  | lineEnd hfiller _ ih =>
    rw [lineStartsFrom_filler hfiller]
    exact .cons rfl (ih hnone (hstage.lineEnd hfiller))
  | lastLine hfiller =>
    rw [lineStartsFrom_of_filler hfiller]
    exact .nil

end

/-! ### Where cutting stops -/

/-- Why a text is not cut to its end: for a fault behind the lines met so far, or for a line that
is refused before any fault. -/
inductive Stops [IdentifierTables] (tabWidth : Nat) (blocks : Indentation) (before rest : List Char)
    (error : LexicalError) : Prop
  | fault {met later : List LineStart} {last : Indentation}
    (hlines : lineStartsFrom tabWidth before rest = met ++ later)
    (hmet : blocks.MeetsAll met last) (hfault : FaultIn before rest error)
    (hlater : ∀ line ∈ later, error.place.offset < line.place.offset)
  | unmet {met later : List LineStart} {line : LineStart} {last : Indentation}
    (hlines : lineStartsFrom tabWidth before rest = met ++ line :: later)
    (hmet : blocks.MeetsAll met last)
    (hmeet : (last.meet line.width line.place).1 = .error error)
    (hfirst : ∀ fault, FaultIn before rest fault → line.place.offset ≤ fault.place.offset)

namespace Stops

variable [IdentifierTables]
  {tabWidth : Nat} {blocks inner : Indentation} {before rest before' rest' : List Char}
  {error : LexicalError} {line : LineStart} {marks : List Token}

theorem skip (hlines : lineStartsFrom tabWidth before rest = lineStartsFrom tabWidth before' rest')
    (hfaults : ∀ {fault}, FaultIn before rest fault ↔ FaultIn before' rest' fault)
    (h : Stops tabWidth blocks before' rest' error) : Stops tabWidth blocks before rest error := by
  cases h with
  | fault hsplit hmet hfault hlater =>
    exact .fault (hlines.trans hsplit) hmet (hfaults.mpr hfault) hlater
  | unmet hsplit hmet hmeet hfirst =>
    exact .unmet (hlines.trans hsplit) hmet hmeet fun fault hfault =>
      hfirst fault (hfaults.mp hfault)

theorem met (hlines : lineStartsFrom tabWidth before rest =
      line :: lineStartsFrom tabWidth before' rest')
    (hmeet : blocks.meet line.width line.place = (.ok marks, inner))
    (hfaults : ∀ {fault}, FaultIn before rest fault ↔ FaultIn before' rest' fault)
    (h : Stops tabWidth inner before' rest' error) : Stops tabWidth blocks before rest error := by
  cases h with
  | fault hsplit hmet hfault hlater =>
    rw [hsplit] at hlines
    exact .fault hlines (.cons hmeet hmet) (hfaults.mpr hfault) hlater
  | unmet hsplit hmet hrefused hfirst =>
    rw [hsplit] at hlines
    exact .unmet hlines (.cons hmeet hmet) hrefused fun fault hfault =>
      hfirst fault (hfaults.mp hfault)

end Stops

theorem exists_cons_of_startsCode {rest : List Char} (h : startsCode rest = true) :
    ∃ c cs, rest = c :: cs := by
  cases rest with
  | nil => cases h
  | cons c cs => exact ⟨c, cs, rfl⟩

/-- A fault lies before all logical lines behind the first character of its token. -/
theorem Faults.lt_place [IdentifierTables] {tabWidth : Nat} {before cs : List Char} {c : Char}
    {error : LexicalError} (h : Faults before (c :: cs) error) :
    ∀ line ∈ lineStartsFrom tabWidth (before ++ [c]) cs,
      error.place.offset < line.place.offset := by
  obtain ⟨-, passed, hpassed, hline, hplace⟩ := h.exists_passed
  intro line hmem
  rw [hplace]
  exact lt_place_of_mem_lineStartsFrom hmem hpassed hline

theorem Cut.stops [IdentifierTables] {tabWidth : Nat} {stage : Stage} {before rest : List Char}
    {blocks : Indentation} {tokens : List Token} {result : Option (Failure LexicalError)}
    {error : LexicalError} (h : Cut tabWidth stage before blocks rest tokens result)
    (hresult : result = some (.reported error)) (hstage : stage.Reached before) :
    Stops tabWidth blocks before rest error := by
  induction h with
  | tooWide => cases hresult
  | emptyLine hfiller _ _ ih =>
    exact .skip (lineStartsFrom_filler hfiller) (FaultIn.fillerLine_iff hfiller)
      (ih hresult (hstage.emptyLine hfiller))
  | textEnd | lastLine => cases hresult
  | line hblanks _ hmeet hscan _ ih =>
    have hplain := hscan.lineFeed_not_mem
    refine .met (lineStartsFrom_fresh hstage hblanks hscan.run_ne_nil hplain hscan.startsCode)
      hmeet ?_ (ih hresult (hstage.scanned hblanks hscan))
    intro fault
    rw [FaultIn.blanks_iff hblanks, FaultIn.token_iff hscan]
  | faultyLine hblanks _ hmeet hfault =>
    cases hresult
    obtain ⟨c, cs, rfl⟩ := exists_cons_of_startsCode hfault.code
    exact .fault (lineStartsFrom_fresh_cons hstage hblanks hfault.code) (.cons hmeet .nil)
      ((FaultIn.blanks_iff hblanks).mpr (.here hfault)) hfault.lt_place
  | unmetLine hblanks hcode _ hmeet =>
    cases hresult
    obtain ⟨c, cs, rfl⟩ := exists_cons_of_startsCode hcode
    refine .unmet (lineStartsFrom_fresh_cons hstage hblanks hcode) .nil (congrArg Prod.fst hmeet)
      fun fault hfault => ?_
    exact ((FaultIn.blanks_iff hblanks).mp hfault).le_place
  | token hblanks hscan _ ih =>
    have hplain := hscan.lineFeed_not_mem
    refine .skip (lineStartsFrom_inLine hstage hblanks hscan.run_ne_nil hplain) ?_
      (ih hresult (hstage.scanned hblanks hscan))
    intro fault
    rw [FaultIn.blanks_iff hblanks, FaultIn.token_iff hscan]
  | fault hblanks hfault =>
    cases hresult
    obtain ⟨c, cs, rfl⟩ := exists_cons_of_startsCode hfault.code
    exact .fault (lineStartsFrom_inLine_cons hstage hblanks hfault.code) .nil
      ((FaultIn.blanks_iff hblanks).mpr (.here hfault)) hfault.lt_place
  | joinedLine hfiller hopen _ ih =>
    exact .skip (lineStartsFrom_filler hfiller) (FaultIn.fillerLine_iff hfiller)
      (ih hresult (hstage.joinedLine hfiller hopen))
  | lineEnd hfiller _ ih =>
    exact .skip (lineStartsFrom_filler hfiller) (FaultIn.fillerLine_iff hfiller)
      (ih hresult (hstage.lineEnd hfiller))

/-! ### What the widths decide -/

/-- A line behind earlier ones that is the first to which no level answers. -/
def FirstUnmatched (earlier : List LineStart) (line : LineStart) : Prop :=
  Unmatched (earlier.map LineStart.width) line.width ∧
    ∀ before other after, earlier = before ++ other :: after →
      ¬ Unmatched (before.map LineStart.width) other.width

section

variable {lines earlier later : List LineStart} {line : LineStart} {last : Indentation}

theorem not_unmatched_of_meetsAll (h : Indentation.base.MeetsAll lines last)
    (hlines : lines = earlier ++ line :: later) :
    ¬ Unmatched (earlier.map LineStart.width) line.width := by
  simpa using h.not_unmatched Indentation.reflects_base hlines

/-- The line at which the levels are refused is the first unmatched one. -/
theorem firstUnmatched_of_meet {error : LexicalError}
    (hmet : Indentation.base.MeetsAll earlier last)
    (hmeet : (last.meet line.width line.place).1 = .error error) :
    FirstUnmatched earlier line ∧ error = .inconsistentDedent line.width line.place := by
  have hreflects := hmet.reflects Indentation.reflects_base
  rw [List.nil_append] at hreflects
  refine ⟨⟨hreflects.exists_meet_error_iff.mp ⟨error, hmeet⟩, ?_⟩, ?_⟩
  · intro before other after hsplit
    exact not_unmatched_of_meetsAll hmet hsplit
  · exact (Indentation.meet_error (Prod.ext hmeet rfl)).1

/-- Of two lines of a text one comes before the other, unless they are the same. -/
theorem line_cases {before after : List LineStart} {other : LineStart}
    (hlines : earlier ++ line :: later = before ++ other :: after) :
    (∃ between, before = earlier ++ line :: between) ∨ line = other ∨
      ∃ between, earlier = before ++ other :: between := by
  rcases List.append_eq_append_iff.mp hlines with
    ⟨between, hbefore, hrest⟩ | ⟨between, hearlier, hrest⟩
  · rcases List.cons_eq_append_iff.mp hrest with ⟨-, hsame⟩ | ⟨between, rfl, -⟩
    · exact .inr (.inl (List.cons.inj hsame).1.symm)
    · exact .inl ⟨between, hbefore⟩
  · rcases List.cons_eq_append_iff.mp hrest with ⟨-, hsame⟩ | ⟨between, rfl, -⟩
    · exact .inr (.inl (List.cons.inj hsame).1)
    · exact .inr (.inr ⟨between, hearlier⟩)

/-- There is one first unmatched line at most. -/
theorem FirstUnmatched.unique {before after : List LineStart} {other : LineStart}
    (h : FirstUnmatched earlier line) (hother : FirstUnmatched before other)
    (hlines : earlier ++ line :: later = before ++ other :: after) : line = other := by
  rcases line_cases hlines with ⟨between, hbefore⟩ | hsame | ⟨between, hearlier⟩
  · exact absurd h.1 (hother.2 _ _ _ hbefore)
  · exact hsame
  · exact absurd hother.1 (h.2 _ _ _ hearlier)

variable [IdentifierTables] {text : String} {tabWidth : Nat}

theorem opens_of_tokenize {tokens : List Token} (h : tokenize text tabWidth = .ok tokens) :
    Opens Indentation.base (logicalLines tabWidth text) tokens :=
  (cut_of_tokenize h).opens rfl .start

theorem stops_of_tokenize {error : LexicalError}
    (h : tokenize text tabWidth = .error (.reported error)) :
    Stops tabWidth Indentation.base [] text.toList error := by
  obtain ⟨tokens, hcut⟩ := cut_of_tokenize_error h
  exact hcut.stops rfl .start

/-- A refused line is the first unmatched one, and no fault comes before it. -/
theorem exists_firstUnmatched_of_tokenize {width : Nat} {place : Position}
    (h : tokenize text tabWidth = .error (.reported (.inconsistentDedent width place))) :
    ∃ earlier later, logicalLines tabWidth text = earlier ++ ⟨width, place⟩ :: later ∧
      FirstUnmatched earlier ⟨width, place⟩ ∧
      ∀ fault, FaultIn [] text.toList fault → place.offset ≤ fault.place.offset := by
  cases stops_of_tokenize h with
  | fault _ _ hfault _ => cases hfault.isFault
  | @unmet met later line last hlines hmet hmeet hfirst =>
    obtain ⟨hunmatched, herror⟩ := firstUnmatched_of_meet hmet hmeet
    cases herror
    exact ⟨met, later, hlines, hunmatched, hfirst⟩

/-- The first unmatched line is refused unless a fault comes before it. -/
theorem tokenize_of_firstUnmatched (hnarrow : Narrow tabWidth text.toList)
    (hlines : logicalLines tabWidth text = earlier ++ line :: later)
    (hunmatched : FirstUnmatched earlier line)
    (hfaults : ∀ fault, FaultIn [] text.toList fault → line.place.offset ≤ fault.place.offset) :
    tokenize text tabWidth = .error (.reported (.inconsistentDedent line.width line.place)) := by
  cases htokens : tokenize text tabWidth with
  | ok tokens =>
    obtain ⟨last, hmeets⟩ := (opens_of_tokenize htokens).exists_meetsAll
    exact absurd hunmatched.1 (not_unmatched_of_meetsAll hmeets hlines)
  | error failure =>
    cases failure with
    | overflow => exact absurd htokens (tokenize_ne_overflow hnarrow)
    | reported error =>
      cases stops_of_tokenize htokens with
      | @fault met others last hsplit hmet hfault hlater =>
        have hmem : line ∉ others := fun hmem =>
          Nat.not_lt.mpr (hfaults error hfault) (hlater line hmem)
        -- so the line is one of those that are met
        rcases List.append_eq_append_iff.mp (hlines.symm.trans hsplit) with
          ⟨between, hearlier, hrest⟩ | ⟨between, hearlier, hrest⟩
        · rcases List.cons_eq_append_iff.mp hrest with ⟨-, hothers⟩ | ⟨between, rfl, -⟩
          · exact absurd (hothers ▸ List.mem_cons_self) hmem
          · exact absurd hunmatched.1 (not_unmatched_of_meetsAll hmet hearlier)
        · exact absurd (hrest ▸ List.mem_append_right _ List.mem_cons_self) hmem
      | unmet hsplit hmet hmeet _ =>
        obtain ⟨hfirst, rfl⟩ := firstUnmatched_of_meet hmet hmeet
        rw [hfirst.unique hunmatched (hsplit.symm.trans hlines)]

end

/-- How deep every logical line lies, and which of them stands on no open level, is decided by the
widths of the lines: one level is open for every positive width that is the smallest of some of the
lines up to the last one, and the first line that goes back to no such width is refused, unless a
fault in the characters comes before it. -/
theorem widths_decide_levels [IdentifierTables] (text : String) (tabWidth : Nat)
    (hnarrow : Narrow tabWidth text.toList) :
    (∀ tokens, tokenize text tabWidth = .ok tokens →
      ∀ earlier line later, logicalLines tabWidth text = earlier ++ line :: later →
        ∃ before token after, tokens = before ++ token :: after ∧ token.kind.isLayout = false ∧
          token.span.start = line.place ∧
          countLayout .indent before = countLayout .dedent before +
            (suffixMinima (earlier.map LineStart.width ++ [line.width])).card) ∧
    ∀ width place, tokenize text tabWidth = .error (.reported (.inconsistentDedent width place)) ↔
      ∃ earlier later, logicalLines tabWidth text = earlier ++ ⟨width, place⟩ :: later ∧
        FirstUnmatched earlier ⟨width, place⟩ ∧
        ∀ fault, FaultIn [] text.toList fault → place.offset ≤ fault.place.offset := by
  refine ⟨fun tokens htokens earlier line later hlines => ?_, fun width place => ⟨fun h => ?_, ?_⟩⟩
  · obtain ⟨before, token, after, inner, hsplit, hplain, hstart, hmeets, hlevels⟩ :=
      opens_of_tokenize htokens earlier line later hlines
    have hreflects := hmeets.reflects Indentation.reflects_base
    have hdepth : inner.depth =
        (suffixMinima (earlier.map LineStart.width ++ [line.width])).card := by
      simpa using hreflects.depth_eq
    have hcount := depth_add_countLayout hlevels
    have hbase : Indentation.base.depth = 0 := rfl
    refine ⟨before, token, after, hsplit, hplain, hstart, ?_⟩
    omega
  · exact exists_firstUnmatched_of_tokenize h
  · rintro ⟨earlier, later, hlines, hunmatched, hfaults⟩
    exact tokenize_of_firstUnmatched hnarrow hlines hunmatched hfaults

namespace LineWidthsWitness

/-- Blocks of widths four, six and four, with a comment and a call over two lines between them. -/
def source : String := "a\n\tb\n\t  c(\n1)\n # so\n    d"

/-- The third line goes back to a width that no line has had. -/
def unmatched : String := "a\n\tb\n  c"

def lines : List LineStart := [⟨0, ⟨1, 1, 0⟩⟩, ⟨4, ⟨2, 2, 3⟩⟩, ⟨6, ⟨3, 4, 8⟩⟩, ⟨4, ⟨6, 5, 24⟩⟩]

theorem levels_of_lines :
    (Narrow 4 source.toList ∧ logicalLines 4 source = lines ∧
      ∃ tokens before token after, tokenize source 4 = .ok tokens ∧
        tokens = before ++ token :: after ∧ token.span.start = ⟨6, 5, 24⟩ ∧
        countLayout .indent before = countLayout .dedent before + 1) ∧
    Narrow 4 unmatched.toList ∧
      tokenize unmatched 4 = .error (.reported (.inconsistentDedent 2 ⟨3, 3, 7⟩)) ∧
      ∃ earlier later, logicalLines 4 unmatched = earlier ++ ⟨2, ⟨3, 3, 7⟩⟩ :: later ∧
        FirstUnmatched earlier ⟨2, ⟨3, 3, 7⟩⟩ := by
  have hnarrow : Narrow 4 source.toList := by decide +kernel
  have hlines : logicalLines 4 source = lines := by decide
  have hcard : (suffixMinima [0, 4, 6, 4]).card = 1 := by decide
  have hread : (tokenize source 4).toOption.isSome = true := by decide +kernel
  have hunmatched : Narrow 4 unmatched.toList := by decide +kernel
  have herror : tokenize unmatched 4 =
      .error (.reported (.inconsistentDedent 2 ⟨3, 3, 7⟩)) := by
    decide +kernel
  obtain ⟨earlier, later, hsplit, hfirst, -⟩ :=
    ((widths_decide_levels unmatched 4 hunmatched).2 2 ⟨3, 3, 7⟩).mp herror
  refine ⟨⟨hnarrow, hlines, ?_⟩, hunmatched, herror, earlier, later, hsplit, hfirst⟩
  cases htokens : tokenize source 4 with
  | error error =>
    rw [htokens] at hread
    cases hread
  | ok tokens =>
    obtain ⟨before, token, after, hsplit, -, hstart, hcount⟩ :=
      (widths_decide_levels source 4 hnarrow).1 tokens htokens (lines.take 3) ⟨4, ⟨6, 5, 24⟩⟩ []
        hlines
    refine ⟨tokens, before, token, after, rfl, hsplit, hstart, ?_⟩
    rw [hcount]
    exact congrArg (countLayout .dedent before + ·) hcard

end LineWidthsWitness

end Offside
