/-
Texts one behind the other.  At the end of a text that leaves no line and no bracket open only
levels are open, and these are closed as well by a line behind it that is not indented.
-/
import Offside.Proofs.Token.CutUnique
import Offside.Proofs.Token.LineWidths
import Offside.Proofs.Token.Seams
import Offside.Text.IdentifierRanges

open String (utf8Len)

namespace Offside

section

variable [IdentifierTables]
  {tabWidth : Nat} {stage : Stage} {before rest : List Char} {blocks : Indentation}
  {tokens : List Token} {error : Option (Failure LexicalError)}

/-- A text whose first logical line is not indented closes whatever levels are open in front of
it, and is cut as if none were. -/
theorem Cut.of_raised (h : Cut tabWidth stage before blocks rest tokens error)
    (hstage : stage = .fresh) (hblocks : blocks = .base) (hnone : error = none)
    (hreached : stage.Reached before)
    (hwidth : ∀ line ∈ (lineStartsFrom tabWidth before rest).head?,
      line.width = 0) :
    ∃ first others, tokens = first :: others ∧ ∀ levels : Indentation, levels.Raised →
      Cut tabWidth .fresh before levels rest
        (List.replicate levels.depth (Token.mark .dedent first.span.start) ++ tokens) none := by
  induction h with
  | token | fault | joinedLine | lineEnd | lastLine => cases hstage
  | tooWide | faultyLine | unmetLine => cases hnone
  | emptyLine hfiller hfits _ ih =>
    rw [lineStartsFrom_filler hfiller] at hwidth
    obtain ⟨first, others, htokens, hcut⟩ :=
      ih rfl hblocks hnone (hreached.emptyLine hfiller) hwidth
    exact ⟨first, others, htokens, fun levels hlevels =>
      .emptyLine hfiller hfits (hcut levels hlevels)⟩
  | textEnd hfiller hfits =>
    subst hblocks
    exact ⟨_, _, rfl, fun levels _ => .textEnd hfiller hfits⟩
  | @line before blanks _ _ _ _ _ _ _ _ hblanks hfits hmeet hscan hnext _ =>
    subst hblocks
    subst hnone
    rw [lineStartsFrom_fresh hreached hblanks hscan.run_ne_nil hscan.lineFeed_not_mem
      hscan.startsCode, List.head?_cons] at hwidth
    have hzero : lineWidth tabWidth blanks = 0 := hwidth _ rfl
    rw [hzero, Indentation.raised_base.meet_zero] at hmeet
    cases hmeet
    refine ⟨_, _, rfl, fun levels hlevels => ?_⟩
    have hmeet' := hlevels.meet_zero (Position.first.after (before ++ blanks))
    rw [← hzero] at hmeet'
    rw [hscan.span_start]
    exact .line hblanks hfits hmeet' hscan hnext

end

/-- Tokenizing goes file by file.  Behind a text that ends with a line, and outside of brackets, a
text whose first logical line is not indented has the tokens that it has alone, moved down.  The
text in front loses the end of its input, and what closes its levels stands in front of the first
of the other tokens. -/
theorem tokenize_append [IdentifierTables] {front back : String} {tabWidth : Nat}
    {tokens others : List Token} (hfront : tokenize front tabWidth = .ok tokens)
    (hback : tokenize back tabWidth = .ok others) (hseam : lastLine front.toList = [])
    (hclosed : (Enclosure.outside.after front.toList).brackets = 0)
    (hwidth : ∀ line ∈ (logicalLines tabWidth back).head?, line.width = 0) :
    ∃ init depth first,
      tokens = init ++ List.replicate depth (Token.mark .dedent (Position.first.after front.toList))
          ++ [Token.mark .endOfInput (Position.first.after front.toList)] ∧
        others.head? = some first ∧
        tokenize (front ++ back) tabWidth = .ok (init ++
          (List.replicate depth (Token.mark .dedent first.span.start) ++ others).map
            (Token.shift (front.toList.count '\n') front.utf8ByteSize)) := by
  have hcut := cut_of_tokenize hfront
  rw [← List.append_nil front.toList] at hcut
  cases hcut.parted .start Indentation.raised_base hseam with
  | stopped herror => cases herror
  | @passed init tail reached inner htokens _ hreached hraised hnext hother =>
    rw [List.nil_append] at hreached hnext hother
    cases reached with
    | inLine brackets =>
      have hopen : 0 < brackets := hreached.brackets nofun hseam
      rw [hreached.after] at hclosed
      exact absurd hclosed (Nat.ne_of_gt hopen)
    | fresh =>
      obtain ⟨htail, -⟩ := hnext.eq_closing
      obtain ⟨first, rest, hothers, hlevels⟩ :=
        (cut_of_tokenize hback).of_raised rfl rfl rfl .start hwidth
      have hdown : EndsBelow (front.toList.count '\n') front.utf8ByteSize [] front.toList := by
        rw [← String.utf8Len_toList]
        exact EndsBelow.of_lines rfl hseam
      have hjoined := hother _ _ _ ((hlevels inner hraised).shift hdown)
      refine ⟨init, inner.depth, first, ?_, by rw [hothers, List.head?_cons], ?_⟩
      · rw [htokens, htail, List.append_assoc]
        rfl
      · rw [← String.toList_append] at hjoined
        exact tokenize_eq_of_cut hjoined

namespace JoiningWitness

/-- A text that leaves a level open. -/
def front : String := "\tb\n"

def tokens : List Token :=
  [Token.mark .indent ⟨1, 2, 1⟩, ⟨.identifier "b", "b", ⟨⟨1, 2, 1⟩, ⟨1, 3, 2⟩⟩⟩,
    ⟨.layout .newline, "\n", ⟨⟨1, 3, 2⟩, ⟨2, 1, 3⟩⟩⟩, Token.mark .dedent ⟨2, 1, 3⟩,
    Token.mark .endOfInput ⟨2, 1, 3⟩]

def back : String := "\nc"

def others : List Token :=
  [⟨.identifier "c", "c", ⟨⟨2, 1, 1⟩, ⟨2, 2, 2⟩⟩⟩, Token.mark .newline ⟨2, 2, 2⟩,
    Token.mark .endOfInput ⟨2, 2, 2⟩]

theorem exists_tokens_of_joined : ∃ init depth first,
    tokens = init ++ List.replicate depth (Token.mark .dedent (Position.first.after front.toList))
        ++ [Token.mark .endOfInput (Position.first.after front.toList)] ∧
      others.head? = some first ∧
      tokenize (front ++ back) 4 = .ok (init ++
        (List.replicate depth (Token.mark .dedent first.span.start) ++ others).map
          (Token.shift (front.toList.count '\n') front.utf8ByteSize)) :=
  tokenize_append (by decide +kernel) (by decide +kernel) (by decide) (by decide) (by decide)

end JoiningWitness

end Offside
