/-
The blanks in front of a logical line, and the width that is measured for them.  A width is measured
just when it lies below the bound of widths, and then it is exact; from the bound on, the line is
not read at all.  A line that is measured opens a level if it goes deeper into the blanks of the
line before it.
-/
import Offside.Proofs.Token.LineStarts
import Offside.Proofs.Token.Within
import Offside.Text.IdentifierRanges

namespace Offside

/-- The blanks in front of a logical line, and where its first token starts. -/
structure Margin where
  blanks : List Char
  place : Position
  deriving Repr, DecidableEq

/-- The margin lies at the start of a line of the text, in front of a token. -/
def Margin.StandsIn (margin : Margin) (text : List Char) : Prop :=
  ∃ before code, text = before ++ (margin.blanks ++ code) ∧ lastLine before = [] ∧
    (∀ c ∈ margin.blanks, Lexer.isBlank c = true) ∧ startsCode code = true ∧
    margin.place = Position.first.after (before ++ margin.blanks)

namespace Lexer

/-! ### Moves, one after the other -/

/-- The lexer that the first moves leave, through however many calls they go. -/
def afterMoves [IdentifierTables] (lexer : Lexer) : Nat → Lexer
  | 0 => lexer
  | moves + 1 => (lexer.afterMoves moves).move.lexer

/-- The margin that the next move measures, if a line of tokens is next. -/
def margin? (lexer : Lexer) : Option Margin :=
  let blanks := lexer.rest.takeWhile isBlank
  if lexer.queue = [] ∧ lexer.finished = false ∧ lexer.atLineStart = true ∧ lexer.brackets = 0 ∧
      startsCode (lexer.rest.dropWhile isBlank) = true then
    some ⟨blanks, lexer.place.after blanks⟩
  else none

/-- The margins that the first moves measure. -/
def margins [IdentifierTables] (lexer : Lexer) (moves : Nat) : List Margin :=
  (List.range moves).filterMap fun count => (lexer.afterMoves count).margin?

/-- The next move meets a line of this width. -/
structure Measures [IdentifierTables] (lexer : Lexer) (width : Nat) (place : Position) : Prop where
  blocks : lexer.move.lexer.blocks = (lexer.blocks.meet width place).2
  met : ∀ marks, (lexer.blocks.meet width place).1 = .ok marks →
    ∃ after, lexer.move = .silent after ∧ after.queue = marks
  refused : ∀ error, (lexer.blocks.meet width place).1 = .error error →
    ∃ after, lexer.move = .answer (.error (.reported error)) after

variable {lexer after : Lexer} {next : Move} {margin : Margin} {text before run : List Char}
  {width moves : Nat} {place : Position}

theorem margins_succ [IdentifierTables] (lexer : Lexer) (moves : Nat) :
    lexer.margins (moves + 1) =
      lexer.margins moves ++ (lexer.afterMoves moves).margin?.toList := by
  rw [margins, margins, List.range_succ, List.filterMap_append]
  cases h : (lexer.afterMoves moves).margin? <;> simp [h]

/-! ### Where margins stand -/

theorem exists_within [IdentifierTables] (source : String) (tabWidth moves : Nat) :
    ∃ before, ((ofString source tabWidth).afterMoves moves).Within source.toList before := by
  induction moves with
  | zero => exact ⟨[], rfl, rfl, fun _ => ⟨rfl, .inl rfl⟩⟩
  | succ moves ih =>
    obtain ⟨before, hwithin⟩ := ih
    exact (Lexer.moves _).within hwithin

/-! ### Lines that are measured -/

theorem exists_of_margin? (h : lexer.margin? = some margin) :
    lexer.BeforeLine ∧ ∃ code, lexer.Faces margin.blanks code ∧ startsCode code = true ∧
      margin.place = lexer.place.after margin.blanks := by
  obtain ⟨blanks, ahead, hfaces, -⟩ := exists_faces lexer
  rw [margin?, hfaces.takeWhile, hfaces.dropWhile, Option.ite_none_right_eq_some] at h
  obtain ⟨⟨hqueue, hfinished, hstart, hbrackets, hcode⟩, hmargin⟩ := h
  cases hmargin
  exact ⟨⟨hqueue, hfinished, hstart, hbrackets⟩, ahead, hfaces, hcode, rfl⟩

theorem BeforeLine.margin? {blanks code : List Char} (h : lexer.BeforeLine)
    (hfaces : lexer.Faces blanks code) (hcode : startsCode code = true) :
    lexer.margin? = some ⟨blanks, lexer.place.after blanks⟩ := by
  rw [Lexer.margin?, hfaces.takeWhile, hfaces.dropWhile]
  exact if_pos ⟨h.queue, h.finished, h.atLineStart, h.brackets, hcode⟩

theorem Within.standsIn (hwithin : lexer.Within text before) (h : lexer.margin? = some margin) :
    margin.StandsIn text := by
  obtain ⟨hline, code, hfaces, hcode, hplace⟩ := exists_of_margin? h
  refine ⟨before, code, by rw [hwithin.text, hfaces.rest], ?_, hfaces.blanks, hcode,
    by rw [hplace, hwithin.place, ← Position.after_append]⟩
  -- behind a comment there is nothing on the line to be measured
  refine (hwithin.lineStart hline.atLineStart).2.resolve_right fun hends => ?_
  have hrest := hfaces.rest
  cases hblanks : margin.blanks with
  | nil =>
    rw [hblanks, List.nil_append] at hrest
    rw [hrest] at hends
    rcases hends with rfl | ⟨cs, rfl⟩ <;> cases hcode
  | cons c blanks =>
    rw [hblanks] at hrest
    have hblank := hfaces.blanks c (by simp [hblanks])
    rw [hends.not_isBlank c _ hrest] at hblank
    cases hblank

/-- In front of a margin the width of its blanks decides whether the line can be read. -/
theorem fits_iff_of_margin? (h : lexer.margin? = some margin) :
    Fits lexer.tabWidth lexer.rest ↔ lineWidth lexer.tabWidth margin.blanks < widthBound := by
  obtain ⟨-, code, hfaces, -, -⟩ := exists_of_margin? h
  rw [Fits, hfaces.takeWhile]

theorem measures_of_margin? [IdentifierTables] (h : lexer.margin? = some margin)
    (hfits : lineWidth lexer.tabWidth margin.blanks < widthBound) :
    lexer.Measures (lineWidth lexer.tabWidth margin.blanks) margin.place := by
  obtain ⟨hline, code, hfaces, hcode, hplace⟩ := exists_of_margin? h
  have hmove := hline.move_code hfaces hcode ((fits_iff_of_margin? h).mpr hfits)
  rw [← hplace] at hmove
  cases hmeet : lexer.blocks.meet (lineWidth lexer.tabWidth margin.blanks) margin.place with
  | mk result inner =>
    rw [hmeet] at hmove
    cases result with
    | ok marks =>
      refine ⟨by rw [hmove, hmeet]; rfl, ?_, by rw [hmeet]; nofun⟩
      rw [hmeet]
      rintro others ⟨⟩
      exact ⟨_, hmove, rfl⟩
    | error error =>
      refine ⟨by rw [hmove, hmeet]; rfl, by rw [hmeet]; nofun, ?_⟩
      rw [hmeet]
      rintro other ⟨⟩
      exact ⟨_, hmove⟩

/-- A line from the bound on is not read, however often the lexer is asked. -/
theorem stuck_of_margin? (h : lexer.margin? = some margin)
    (hwide : widthBound ≤ lineWidth lexer.tabWidth margin.blanks) : lexer.Stuck := by
  obtain ⟨hline, -⟩ := exists_of_margin? h
  exact ⟨hline, fun hfits => Nat.not_lt.mpr hwide ((fits_iff_of_margin? h).mp hfits)⟩

variable [IdentifierTables]

theorem Measures.top_le (h : lexer.Measures width place) :
    lexer.move.lexer.blocks.top ≤ width := by
  rw [h.blocks]
  exact Indentation.top_meet_le _ _ _

/-- A line that is deeper than all levels opens one. -/
theorem Measures.next_of_deeper (h : lexer.Measures width place)
    (hdeeper : lexer.blocks.top < width) :
    lexer.next.1 = .ok (some (Token.mark .indent place)) := by
  have hmeet : (lexer.blocks.meet width place).1 = .ok [Token.mark .indent place] := by
    rw [Indentation.meet, if_pos hdeeper]
  obtain ⟨after, hmove, hqueue⟩ := h.met _ hmeet
  rw [next_of_silent hmove, next_of_answer (move_of_queue hqueue)]

/-! ### Levels between two lines -/

/-- Only a line that is measured opens a level. -/
theorem Moves.top_le (h : lexer.Moves next) (hnone : lexer.margin? = none) :
    next.lexer.blocks.top ≤ lexer.blocks.top := by
  cases h with
  | line hline hfaces hcode | unmetLine hline hfaces hcode =>
    rw [hline.margin? hfaces hcode] at hnone
    cases hnone
  | textEnd => exact Nat.zero_le _
  | token _ _ hcode hscan =>
    obtain ⟨-, run, tail, brackets, -, -, rfl⟩ := exists_run_of_scanToken_ok hcode hscan
    exact Nat.le_refl _
  | fault _ _ hcode hscan =>
    obtain ⟨run, tail, -, -, rfl⟩ := exists_run_of_scanToken_error hcode hscan
    exact Nat.le_refl _
  | _ => exact Nat.le_refl _

theorem tabWidth_afterMoves (lexer : Lexer) (moves : Nat) :
    (lexer.afterMoves moves).tabWidth = lexer.tabWidth := by
  induction moves with
  | zero => rfl
  | succ moves ih => exact (Lexer.moves _).tabWidth_eq.trans ih

/-- Between two lines no level is deeper than the line before, whether it was met or refused. -/
theorem top_afterMoves_le (h : (lexer.margins moves).getLast? = some margin)
    (hfits : lineWidth lexer.tabWidth margin.blanks < widthBound) :
    (lexer.afterMoves moves).blocks.top ≤ lineWidth lexer.tabWidth margin.blanks := by
  induction moves with
  | zero => cases h
  | succ moves ih =>
    rw [margins_succ] at h
    cases hmargin : (lexer.afterMoves moves).margin? with
    | none =>
      rw [hmargin, Option.toList_none, List.append_nil] at h
      exact Nat.le_trans ((Lexer.moves _).top_le hmargin) (ih h)
    | some last =>
      rw [hmargin, Option.toList_some, List.getLast?_concat] at h
      cases h
      rw [← tabWidth_afterMoves lexer moves] at hfits ⊢
      exact (measures_of_margin? hmargin hfits).top_le

/-- At whatever line of tokens a lexer arrives, also behind errors, it stands behind the blanks at
the start of that line.  If one for each space and the width of a tab for each tab add up to less
than the bound, this is the width that is measured and met; if not, there is no width, and the next
token is never handed out.  A line that is measured opens a level if its blanks are those of the
logical line before it and at least one space or tab more. -/
theorem measures_exactly_iff (source : String) (tabWidth moves : Nat) (margin : Margin)
    (h : ((ofString source tabWidth).afterMoves moves).margin? = some margin) :
    let lexer := (ofString source tabWidth).afterMoves moves
    margin.StandsIn source.toList ∧
    (lineWidth tabWidth margin.blanks < widthBound →
      indentWidth? tabWidth margin.blanks = some (lineWidth tabWidth margin.blanks) ∧
      lexer.Measures (lineWidth tabWidth margin.blanks) margin.place) ∧
    (widthBound ≤ lineWidth tabWidth margin.blanks →
      indentWidth? tabWidth margin.blanks = none ∧ lexer.next = (.error .overflow, lexer)) ∧
    (0 < tabWidth → lineWidth tabWidth margin.blanks < widthBound →
      ∀ previous more, ((ofString source tabWidth).margins moves).getLast? = some previous →
        margin.blanks = previous.blanks ++ more → (∃ c ∈ more, c = ' ' ∨ c = '\t') →
          lexer.next.1 = .ok (some (Token.mark .indent margin.place))) := by
  intro lexer
  obtain ⟨before, hwithin⟩ := exists_within source tabWidth moves
  have htabs : lexer.tabWidth = tabWidth := tabWidth_afterMoves _ moves
  have hmeasured (hfits : lineWidth tabWidth margin.blanks < widthBound) :
      lexer.Measures (lineWidth tabWidth margin.blanks) margin.place := by
    rw [← htabs] at hfits ⊢
    exact measures_of_margin? h hfits
  refine ⟨hwithin.standsIn h, fun hfits => ⟨?_, hmeasured hfits⟩, fun hwide => ⟨?_, ?_⟩,
    fun htab hfits previous more hprevious hblanks hmore =>
      (hmeasured hfits).next_of_deeper ?_⟩
  · rw [indentWidth?_eq, if_pos hfits]
  · rw [indentWidth?_eq, if_neg (Nat.not_lt.mpr hwide)]
  · rw [← htabs] at hwide
    exact (stuck_of_margin? h hwide).next_eq
  · have hlonger : lineWidth tabWidth previous.blanks < lineWidth tabWidth margin.blanks := by
      rw [hblanks, lineWidth_append]
      exact Nat.lt_add_of_pos_right (lineWidth_pos htab hmore)
    calc lexer.blocks.top
        ≤ lineWidth tabWidth previous.blanks :=
          top_afterMoves_le hprevious (hlonger.trans hfits)
      _ < lineWidth tabWidth margin.blanks := hlonger

end Lexer

namespace MarginsWitness

/-- A line behind a tab. -/
def source : String := "a\n\tb"

def margin : Margin := ⟨['\t'], ⟨2, 2, 3⟩⟩

theorem measures_tab :
    ((Lexer.ofString source 4).afterMoves 3).margin? = some margin ∧
    ((Lexer.ofString source 4).afterMoves 3).Measures 4 ⟨2, 2, 3⟩ ∧
    ((Lexer.ofString source 4).afterMoves 3).next.1 =
      .ok (some (Token.mark .indent ⟨2, 2, 3⟩)) := by
  have hmargin : ((Lexer.ofString source 4).afterMoves 3).margin? = some margin := by
    decide +kernel
  have hprevious : ((Lexer.ofString source 4).margins 3).getLast? = some ⟨[], ⟨1, 1, 0⟩⟩ := by
    decide +kernel
  obtain ⟨-, hmeasured, -, hindent⟩ := Lexer.measures_exactly_iff source 4 3 margin hmargin
  exact ⟨hmargin, (hmeasured (by decide)).2,
    hindent (by decide) (by decide) _ ['\t'] hprevious rfl ⟨'\t', by simp⟩⟩

/-- A block behind four tabs. -/
def block : String := "if a:\n\t\t\t\tb\n"

/-- Four tabs of this width are too wide. -/
def quarter : Nat := 4611686018427387904

def deep : Margin := ⟨['\t', '\t', '\t', '\t'], ⟨2, 5, 10⟩⟩

/-- Not every line has a width, and not every line that goes deeper into the blanks of the one
before it opens a level. -/
theorem not_measured_exactly :
    ¬ (∀ source tabWidth moves margin, tabWidth < Lexer.widthBound →
      ((Lexer.ofString source tabWidth).afterMoves moves).margin? = some margin →
        Lexer.indentWidth? tabWidth margin.blanks =
          some (lineWidth tabWidth margin.blanks)) ∧
    ¬ (∀ source tabWidth moves margin previous more, 0 < tabWidth → tabWidth < Lexer.widthBound →
      ((Lexer.ofString source tabWidth).afterMoves moves).margin? = some margin →
      ((Lexer.ofString source tabWidth).margins moves).getLast? = some previous →
      margin.blanks = previous.blanks ++ more → more ≠ [] → (∀ c ∈ more, c = ' ' ∨ c = '\t') →
        ((Lexer.ofString source tabWidth).afterMoves moves).next.1 =
          .ok (some (Token.mark .indent margin.place))) := by
  have hmargin : ((Lexer.ofString block quarter).afterMoves 5).margin? = some deep := by
    decide +kernel
  have hprevious : ((Lexer.ofString block quarter).margins 5).getLast? = some ⟨[], ⟨1, 1, 0⟩⟩ := by
    decide +kernel
  have hnext : ((Lexer.ofString block quarter).afterMoves 5).next.1 = .error .overflow := by
    decide +kernel
  have hwidth : Lexer.indentWidth? quarter deep.blanks = none := by decide +kernel
  refine ⟨fun hexact => ?_, fun hindent => ?_⟩
  · have hexact := hexact block quarter 5 deep (by decide) hmargin
    rw [hwidth] at hexact
    cases hexact
  · have hopens := hindent block quarter 5 deep _ deep.blanks (by decide) (by decide) hmargin
      hprevious rfl (by decide) (by simp [deep])
    rw [hnext] at hopens
    cases hopens

end MarginsWitness

end Offside
