/-
Lines without tokens.  Blank lines and lines of comments that are put in where a line starts move
what stands behind them down, and change nothing else: between lines, inside of blocks, inside of
brackets and in front of an error.  Outside of brackets also such a line is measured, and a line
whose width is no number ends the program.
-/
import Offside.Proofs.Token.CutUnique
import Offside.Proofs.Token.Seams
import Offside.Text.IdentifierRanges

open String (utf8Len)

namespace Offside

/-! ### Lines of filler -/

/-- Lines one below the other, each with its line feed. -/
def unlines (lines : List (List Char)) : List Char := lines.flatMap (· ++ ['\n'])

section

variable {before rest : List Char} {lines : List (List Char)} {tabWidth : Nat} {stage : Stage}
  {blocks : Indentation} {tokens : List Token} {error : Option (Failure LexicalError)}

@[simp] theorem unlines_cons (line : List Char) (lines : List (List Char)) :
    unlines (line :: lines) = line ++ '\n' :: unlines lines := by
  simp [unlines]

theorem lastLine_unlines (hbefore : lastLine before = []) (lines : List (List Char)) :
    lastLine (before ++ unlines lines) = [] := by
  induction lines generalizing before with
  | nil => rwa [unlines, List.flatMap_nil, List.append_nil]
  | cons line lines ih =>
    have hline := ih (lastLine_lineFeed (before ++ line))
    rwa [List.append_assoc, List.append_assoc, List.singleton_append, ← unlines_cons] at hline

theorem count_unlines (hlines : ∀ line ∈ lines, Filler line) :
    (unlines lines).count '\n' = lines.length := by
  induction lines with
  | nil => rfl
  | cons line lines ih =>
    obtain ⟨hline, hlines⟩ := List.forall_mem_cons.mp hlines
    rw [unlines_cons, List.count_append, List.count_cons_self, ih hlines,
      List.count_eq_zero.mpr hline.lineFeed_not_mem, Nat.zero_add, List.length_cons]

/-- Where a line starts, lines of filler may come first.  Only between lines they are measured. -/
theorem Cut.behind_lines [IdentifierTables] (hlines : ∀ line ∈ lines, Filler line)
    (hstage : stage.Reached before) (hseam : Offside.lastLine before = [])
    (hfits : stage = .fresh → ∀ line ∈ lines, Fits tabWidth line)
    (h : Cut tabWidth stage (before ++ unlines lines) blocks rest tokens error) :
    Cut tabWidth stage before blocks (unlines lines ++ rest) tokens error := by
  induction lines generalizing before with
  | nil => simpa [unlines] using h
  | cons line lines ih =>
    obtain ⟨hline, hlines⟩ := List.forall_mem_cons.mp hlines
    have hstart := lastLine_lineFeed (before ++ line)
    have hend : before ++ unlines (line :: lines) = before ++ line ++ ['\n'] ++ unlines lines := by
      simp
    rw [hend] at h
    rw [unlines_cons, List.append_assoc, List.cons_append]
    cases stage with
    | fresh =>
      obtain ⟨hfit, hfits⟩ := List.forall_mem_cons.mp (hfits rfl)
      exact .emptyLine hline hfit
        (ih hlines (hstage.emptyLine hline) hstart (fun _ => hfits) h)
    | inLine brackets =>
      have hopen : 0 < brackets := hstage.brackets nofun hseam
      exact .joinedLine hline hopen (ih hlines (hstage.joinedLine hline hopen) hstart nofun h)

/-- Between lines nothing comes past a line of filler that is too wide. -/
theorem Cut.of_wide_line [IdentifierTables] (hlines : ∀ line ∈ lines, Filler line)
    (hwide : ∃ line ∈ lines, ¬ Fits tabWidth line) :
    Cut tabWidth .fresh before blocks (unlines lines ++ rest) [] (some .overflow) := by
  induction lines generalizing before with
  | nil =>
    obtain ⟨line, hmem, -⟩ := hwide
    cases hmem
  | cons line lines ih =>
    obtain ⟨hline, hlines⟩ := List.forall_mem_cons.mp hlines
    rw [unlines_cons, List.append_assoc, List.cons_append]
    by_cases hfits : Fits tabWidth line
    · obtain ⟨other, hmem, hother⟩ := hwide
      have hothers : other ∈ lines := by
        rcases List.mem_cons.mp hmem with rfl | hmem
        · exact absurd hfits hother
        · exact hmem
      exact .emptyLine hline hfits (ih hlines ⟨other, hothers, hother⟩)
    · exact .of_not_fits hfits

end

/-- Outside of brackets a line starts at the stage between lines. -/
theorem Stage.Reached.eq_fresh {stage : Stage} {before : List Char} (h : stage.Reached before)
    (hseam : Offside.lastLine before = [])
    (houtside : Enclosure.outside.after before = .outside) : stage = .fresh := by
  by_contra hstage
  have hopen := h.brackets hstage hseam
  have hafter := h.after
  rw [houtside] at hafter
  have hclosed : 0 = stage.brackets := congrArg Enclosure.brackets hafter
  exact absurd hopen (hclosed ▸ Nat.lt_irrefl 0)

/-! ### Moving what stands behind a seam -/

/-- A token that starts behind the seam moves down. -/
def Token.shiftBehind (seam lines bytes : Nat) (token : Token) : Token :=
  if token.span.start.offset < seam then token else token.shift lines bytes

/-- An error behind the seam moves down. -/
def LexicalError.shiftBehind (seam lines bytes : Nat) (error : LexicalError) : LexicalError :=
  if error.place.offset < seam then error else error.shift lines bytes

section

variable {before mid back : List Char} {seam count bytes tabWidth : Nat}
  {lines : List (List Char)} {stage : Stage} {blocks : Indentation} {tokens : List Token}
  {error : Option (Failure LexicalError)}

theorem map_shiftBehind_of_lt (h : ∀ token ∈ tokens, token.span.start.offset < seam) :
    tokens.map (Token.shiftBehind seam count bytes) = tokens := by
  have hstays : tokens.map (Token.shiftBehind seam count bytes) = tokens.map id :=
    List.map_congr_left fun token htoken => if_pos (h token htoken)
  rw [hstays, List.map_id]

theorem map_shiftBehind_of_le (h : ∀ token ∈ tokens, seam ≤ token.span.start.offset) :
    tokens.map (Token.shiftBehind seam count bytes) = tokens.map (Token.shift count bytes) :=
  List.map_congr_left fun token htoken => if_neg (Nat.not_lt.mpr (h token htoken))

/-- Lines of filler that are put in where a line starts move down what stands behind them. -/
theorem Cut.with_lines [IdentifierTables]
    (h : Cut tabWidth stage before blocks (mid ++ back) tokens error)
    (hstage : stage.Reached before) (hblocks : blocks.Raised)
    (hseam : Offside.lastLine (before ++ mid) = []) (hlines : ∀ line ∈ lines, Filler line)
    (hfits : Enclosure.outside.after (before ++ mid) = .outside →
      ∀ line ∈ lines, Fits tabWidth line) :
    Cut tabWidth stage before blocks (mid ++ (unlines lines ++ back))
      (tokens.map (Token.shiftBehind (utf8Len (before ++ mid)) lines.length
        (utf8Len (unlines lines))))
      (error.map (Failure.map (LexicalError.shiftBehind (utf8Len (before ++ mid)) lines.length
        (utf8Len (unlines lines))))) := by
  generalize hcount : utf8Len (unlines lines) = bytes
  cases h.parted hstage hblocks hseam with
  | @stopped found herror hbefore hplace hother =>
    have hstays : error.map (Failure.map (LexicalError.shiftBehind (utf8Len (before ++ mid))
        lines.length bytes)) = error := by
      rw [herror, Option.map_some]
      cases found with
      | reported fault => rw [Failure.map, LexicalError.shiftBehind, if_pos (hplace fault rfl)]
      | overflow => rfl
    rw [map_shiftBehind_of_lt hbefore, hstays]
    exact hother _
  | @passed init tail reached inner htokens hbefore hreached _ hnext hother =>
    obtain ⟨hbehind, hfault⟩ := hnext.le_offset (List.prefix_refl _)
    have hmoved : error.map (Failure.map (LexicalError.shiftBehind (utf8Len (before ++ mid))
        lines.length bytes)) = error.map (Failure.map (LexicalError.shift lines.length bytes)) := by
      refine Option.map_congr fun found hfound => ?_
      cases found with
      | reported fault =>
        rw [Failure.map, Failure.map, LexicalError.shiftBehind,
          if_neg (Nat.not_lt.mpr (hfault fault hfound))]
      | overflow => rfl
    have hdown : EndsBelow lines.length bytes (before ++ mid) (before ++ mid ++ unlines lines) := by
      rw [← hcount, ← count_unlines hlines]
      exact EndsBelow.of_lines hseam (lastLine_unlines hseam lines)
    rw [htokens, List.map_append, map_shiftBehind_of_lt hbefore, map_shiftBehind_of_le hbehind,
      hmoved]
    have hmeasured : reached = .fresh → ∀ line ∈ lines, Fits tabWidth line := by
      rintro rfl
      exact hfits hreached.after
    exact hother _ _ _ ((hnext.shift hdown).behind_lines hlines hreached hseam hmeasured)

/-- A line of filler that is too wide is met by whatever reads up to it between lines, and only a
failure in front of it comes first. -/
theorem Cut.with_wide_line [IdentifierTables]
    (h : Cut tabWidth stage before blocks (mid ++ []) tokens error) (hstage : stage.Reached before)
    (hblocks : blocks.Raised) (hseam : Offside.lastLine (before ++ mid) = [])
    (houtside : Enclosure.outside.after (before ++ mid) = .outside)
    (hlines : ∀ line ∈ lines, Filler line) (hwide : ∃ line ∈ lines, ¬ Fits tabWidth line)
    (back : List Char) :
    ∃ others, Cut tabWidth stage before blocks (mid ++ (unlines lines ++ back)) others
      (some (error.getD .overflow)) := by
  cases h.parted hstage hblocks hseam with
  | stopped herror _ _ hother =>
    subst herror
    exact ⟨tokens, hother _⟩
  | passed _ _ hreached _ hnext hother =>
    obtain rfl := hreached.eq_fresh hseam houtside
    rw [hnext.eq_closing.2]
    exact ⟨_, hother _ _ _ (.of_wide_line hlines hwide)⟩

end

section

variable [IdentifierTables] {front back : String} {lines : List (List Char)} {tabWidth : Nat}

theorem tokenize_with_fitting_lines (hseam : lastLine front.toList = [])
    (hlines : ∀ line ∈ lines, Filler line)
    (hfits : Enclosure.outside.after front.toList = .outside → ∀ line ∈ lines, Fits tabWidth line) :
    tokenize (front ++ String.ofList (unlines lines) ++ back) tabWidth =
      ((tokenize (front ++ back) tabWidth).map (List.map (Token.shiftBehind front.utf8ByteSize
        lines.length (utf8Len (unlines lines))))).mapError (Failure.map
          (LexicalError.shiftBehind front.utf8ByteSize lines.length
            (utf8Len (unlines lines)))) := by
  have htext : (front ++ String.ofList (unlines lines) ++ back).toList =
      front.toList ++ (unlines lines ++ back.toList) := by simp
  rw [← String.utf8Len_toList]
  cases h : tokenize (front ++ back) tabWidth with
  | ok tokens =>
    have hcut := cut_of_tokenize h
    rw [String.toList_append] at hcut
    have hmoved := hcut.with_lines .start Indentation.raised_base hseam hlines hfits
    rw [← htext] at hmoved
    exact tokenize_eq_of_cut hmoved
  | error error =>
    obtain ⟨tokens, hcut⟩ := cut_of_tokenize_error h
    rw [String.toList_append] at hcut
    have hmoved := hcut.with_lines .start Indentation.raised_base hseam hlines hfits
    rw [← htext] at hmoved
    exact tokenize_eq_of_cut_error hmoved

theorem tokenize_with_wide_line (hseam : lastLine front.toList = [])
    (hlines : ∀ line ∈ lines, Filler line)
    (houtside : Enclosure.outside.after front.toList = .outside)
    (hwide : ∃ line ∈ lines, ¬ Fits tabWidth line) :
    tokenize (front ++ String.ofList (unlines lines) ++ back) tabWidth =
      (tokenize front tabWidth).bind fun _ => .error .overflow := by
  have htext : (front ++ String.ofList (unlines lines) ++ back).toList =
      front.toList ++ (unlines lines ++ back.toList) := by simp
  cases h : tokenize front tabWidth with
  | ok tokens =>
    have hcut := cut_of_tokenize h
    rw [← List.append_nil front.toList] at hcut
    obtain ⟨others, hstopped⟩ := hcut.with_wide_line .start
      Indentation.raised_base hseam houtside hlines hwide
      back.toList
    rw [← htext] at hstopped
    exact tokenize_eq_of_cut_error hstopped
  | error error =>
    obtain ⟨tokens, hcut⟩ := cut_of_tokenize_error h
    rw [← List.append_nil front.toList] at hcut
    obtain ⟨others, hstopped⟩ := hcut.with_wide_line .start
      Indentation.raised_base hseam houtside hlines hwide
      back.toList
    rw [← htext] at hstopped
    exact tokenize_eq_of_cut_error hstopped

end

/-- Empty lines are invisible as long as their widths are numbers.  Where a line starts, any number
of lines of blanks and comments may be put in: the text has the same tokens, or the same error, and
all that stands behind the new lines is found that many lines and bytes further down, in the columns
where it was.  Outside of brackets the new lines are measured, too, and if one of them is too wide
the program ends there, unless the text in front of them fails already. -/
theorem tokenize_with_lines [IdentifierTables] {front back : String} {lines : List (List Char)}
    (tabWidth : Nat) (hseam : lastLine front.toList = []) (hlines : ∀ line ∈ lines, Filler line) :
    ((Enclosure.outside.after front.toList = .outside → ∀ line ∈ lines, Fits tabWidth line) →
      tokenize (front ++ String.ofList (unlines lines) ++ back) tabWidth =
        ((tokenize (front ++ back) tabWidth).map (List.map (Token.shiftBehind front.utf8ByteSize
          lines.length (utf8Len (unlines lines))))).mapError (Failure.map
            (LexicalError.shiftBehind front.utf8ByteSize lines.length
              (utf8Len (unlines lines))))) ∧
    (Enclosure.outside.after front.toList = .outside →
      (∃ line ∈ lines, ¬ Fits tabWidth line) →
      tokenize (front ++ String.ofList (unlines lines) ++ back) tabWidth =
        (tokenize front tabWidth).bind fun _ => .error .overflow) :=
  ⟨tokenize_with_fitting_lines hseam hlines, tokenize_with_wide_line hseam hlines⟩

namespace EmptyLinesWitness

/-- The front of a call that goes on behind an open bracket. -/
def front : String := "f(\n"

def lines : List (List Char) := ["\t# é".toList, ['\r']]

def tokens : List Token :=
  [⟨.identifier "f", "f", ⟨⟨1, 1, 0⟩, ⟨1, 2, 1⟩⟩⟩,
    ⟨.symbol .openParen, "(", ⟨⟨1, 2, 1⟩, ⟨1, 3, 2⟩⟩⟩,
    ⟨.symbol .closeParen, ")", ⟨⟨4, 2, 12⟩, ⟨4, 3, 13⟩⟩⟩, Token.mark .newline ⟨4, 3, 13⟩,
    Token.mark .endOfInput ⟨4, 3, 13⟩]

/-- A blank line of four tabs. -/
def tabs : List (List Char) := [List.replicate 4 '\t']

/-- Four tabs of this width are too wide. -/
def quarter : Nat := 2 ^ 62

theorem filler_tabs : ∀ line ∈ tabs, Filler line :=
  List.forall_mem_singleton.mpr ⟨by decide, by decide⟩

/-- Inside of the brackets of a call all lines are invisible; in front of a text a blank line is
not, if it is too wide. -/
theorem tokenize_behind_lines :
    tokenize (front ++ String.ofList (unlines lines) ++ " )") 4 = .ok tokens ∧
    tokenize ("" ++ String.ofList (unlines tabs) ++ "a\n") quarter = .error .overflow := by
  have hlines : ∀ line ∈ lines, Filler line := by
    refine List.forall_mem_cons.mpr ⟨?_, List.forall_mem_singleton.mpr ?_⟩
    · exact ⟨by decide, by decide⟩
    · exact ⟨by decide, by decide⟩
  constructor
  · rw [(tokenize_with_lines 4 (by decide) hlines).1 (by decide)]
    decide +kernel
  · rw [(tokenize_with_lines quarter (by decide) filler_tabs).2 rfl (by decide +kernel)]
    decide +kernel

/-- Without a condition on widths not even a line of blanks is invisible for every tab width. -/
theorem not_all_lines_invisible :
    ¬ ∀ (front back : String) (lines : List (List Char)) (tabWidth : Nat),
      tabWidth < Lexer.widthBound → lastLine front.toList = [] → (∀ line ∈ lines, Filler line) →
      ((∃ tokens, tokenize (front ++ back) tabWidth = .ok tokens) ↔
        ∃ tokens, tokenize (front ++ String.ofList (unlines lines) ++ back) tabWidth =
          .ok tokens) := by
  intro hinvisible
  obtain ⟨hsame, -⟩ := hinvisible "" "a\n" tabs quarter (by decide) rfl filler_tabs
  have hplain : ∃ tokens, tokenize ("" ++ "a\n") quarter = .ok tokens :=
    ⟨[⟨.identifier "a", "a", ⟨⟨1, 1, 0⟩, ⟨1, 2, 1⟩⟩⟩,
      ⟨.layout .newline, "\n", ⟨⟨1, 2, 1⟩, ⟨2, 1, 2⟩⟩⟩, Token.mark .endOfInput ⟨2, 1, 2⟩],
      by decide +kernel⟩
  have hwide : tokenize ("" ++ String.ofList (unlines tabs) ++ "a\n") quarter =
      .error .overflow := by decide +kernel
  obtain ⟨tokens, htokens⟩ := hsame hplain
  rw [hwide] at htokens
  cases htokens

end EmptyLinesWitness

end Offside
