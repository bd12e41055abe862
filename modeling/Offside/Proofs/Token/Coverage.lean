/-
Nothing of a text is lost when it is cut into tokens.  The tokens tile the text in its order, and
what lies between them are blanks, comments, and line feeds that end no line of tokens.
-/
import Mathlib.Data.List.Chain
import Offside.Proofs.Token.CutRun
import Offside.Proofs.Token.Stages
import Offside.Text.IdentifierRanges

open String (utf8Len)

namespace Offside

/-! ### Characters that belong to no token -/

/-- Whether a character is part of a comment: the sign that opens one, or anything behind it up to
the end of its line. -/
def InComment (before : List Char) (c : Char) : Prop :=
  c ≠ '\n' ∧ ((Enclosure.outside.after before).region = .comment ∨
    (Enclosure.outside.after before).region = .code ∧ c = '#')

/-- Why a character behind `before` may belong to no token. -/
inductive Skipped (before : List Char) (c : Char) : Prop
  | blank (hc : Lexer.isBlank c = true)
  | comment (hc : InComment before c)
  /-- The end of a line that holds blanks and a comment at most. -/
  | emptyLine (hc : c = '\n') (hline : isFiller (lastLine before) = true)
  /-- The end of a line inside of brackets. -/
  | joinedLine (hc : c = '\n') (hopen : 0 < (Enclosure.outside.after before).brackets)

/-- What a token of this kind covers of a text that goes on with `run` and then with `rest`. -/
inductive Spells (kind : TokenKind) (run rest : List Char) : Prop
  | plain (hkind : kind.isLayout = false) (hrun : run ≠ [])
  | lineEnd (hkind : kind = .layout .newline) (hrun : run = ['\n'])
  /-- The last line may end with the text. -/
  | textEnd (hkind : kind = .layout .newline) (hrun : run = []) (hrest : rest = [])
  | mark {layout : Layout} (hkind : kind = .layout layout) (hlayout : layout ≠ .newline)
    (hrun : run = [])

/-! ### Tiling -/

/-- The tokens cover the text behind `before` one after the other, up to what may be skipped. -/
inductive Tiles : List Char → List Token → List Char → Prop
  | done {before : List Char} : Tiles before [] []
  | skip {before rest : List Char} {c : Char} {tokens : List Token} (hskip : Skipped before c)
    (next : Tiles (before ++ [c]) tokens rest) : Tiles before tokens (c :: rest)
  | token {before run rest : List Char} {token : Token} {tokens : List Token}
    (hspells : Spells token.kind run rest) (hlexeme : token.lexeme = String.ofList run)
    (hspan : token.span = ⟨Position.first.after before, Position.first.after (before ++ run)⟩)
    (next : Tiles (before ++ run) tokens rest) : Tiles before (token :: tokens) (run ++ rest)

namespace Tiles

variable {before run rest : List Char} {tokens : List Token} {brackets : Nat}

theorem skipBlanks (hrun : ∀ c ∈ run, Lexer.isBlank c = true)
    (h : Tiles (before ++ run) tokens rest) : Tiles before tokens (run ++ rest) := by
  induction run generalizing before with
  | nil => simpa using h
  | cons c run ih =>
    obtain ⟨hc, hrun⟩ := List.forall_mem_cons.mp hrun
    refine .skip (.blank hc) (ih hrun ?_)
    rwa [List.append_assoc]

/-- The rest of a comment is skipped. -/
theorem skipComment (hrun : '\n' ∉ run)
    (hbefore : Enclosure.outside.after before = ⟨.comment, brackets⟩)
    (h : Tiles (before ++ run) tokens rest) : Tiles before tokens (run ++ rest) := by
  induction run generalizing before with
  | nil => simpa using h
  | cons c run ih =>
    simp only [List.mem_cons, not_or] at hrun
    have hc : c ≠ '\n' := Ne.symm hrun.1
    refine .skip (.comment ⟨hc, .inl (by rw [hbefore])⟩) (ih hrun.2 ?_ ?_)
    · rw [Enclosure.after_append, hbefore]
      exact Enclosure.after_comment (by simpa using hrun.1) brackets
    · rwa [List.append_assoc]

theorem skipFiller {filler : List Char} (hfiller : Filler filler)
    (hbefore : Enclosure.outside.after before = ⟨.code, brackets⟩)
    (h : Tiles (before ++ filler) tokens rest) : Tiles before tokens (filler ++ rest) := by
  rcases hfiller.cases with hblanks | ⟨blanks, text, rfl, hblanks, htext⟩
  · exact h.skipBlanks hblanks
  · have hcode := Enclosure.after_blanks hbefore hblanks
    rw [List.append_assoc]
    apply skipBlanks hblanks
    have hcomment : Enclosure.outside.after (before ++ blanks ++ ['#']) = ⟨.comment, brackets⟩ := by
      rw [Enclosure.after_append, hcode]
      rfl
    refine .skip (.comment ⟨by decide, .inr ⟨by rw [hcode], rfl⟩⟩) ?_
    exact skipComment htext hcomment (by simpa using h)

/-- Layout tokens without text stand between two characters. -/
theorem marks {marks : List Token}
    (hmarks : ∀ mark ∈ marks, ∃ layout, layout ≠ .newline ∧
      mark = Token.mark layout (Position.first.after before))
    (h : Tiles before tokens rest) : Tiles before (marks ++ tokens) rest := by
  induction marks with
  | nil => exact h
  | cons mark marks ih =>
    obtain ⟨⟨layout, hlayout, hmark⟩, hothers⟩ := List.forall_mem_cons.mp hmarks
    subst hmark
    have hnext : Tiles (before ++ []) (marks ++ tokens) rest := by
      rw [List.append_nil]
      exact ih hothers
    exact .token (.mark rfl hlayout rfl) rfl (by rw [List.append_nil]; rfl) hnext

theorem closing (blocks : Indentation) (before : List Char) :
    Tiles before (Offside.closing blocks before) [] := by
  rw [← List.append_nil (Offside.closing blocks before)]
  refine marks (fun mark hmark => ?_) .done
  rcases List.mem_append.mp hmark with hdedent | hlast
  · exact ⟨.dedent, by decide, List.eq_of_mem_replicate hdedent⟩
  · exact ⟨.endOfInput, by decide, List.mem_singleton.mp hlast⟩

/-- A token of the text. -/
theorem scanned [IdentifierTables] {tail : List Char} {token : Token}
    (hscan : Scans before run tail token) (h : Tiles (before ++ run) tokens tail) :
    Tiles before (token :: tokens) (run ++ tail) := by
  obtain ⟨hlexeme, htoken⟩ := hscan.token_eq
  exact .token (.plain hlexeme.isLayout hscan.run_ne_nil) hscan.lexeme
    (congrArg Token.span htoken) h

end Tiles

/-! ### What a text is cut into tiles it -/

theorem Indentation.exists_layout_of_meet {blocks inner : Indentation} {width : Nat}
    {place : Position} {marks : List Token} (h : blocks.meet width place = (.ok marks, inner)) :
    ∀ mark ∈ marks, ∃ layout, layout ≠ .newline ∧ mark = Token.mark layout place := by
  intro mark hmark
  rcases meet_ok h with ⟨-, rfl, -⟩ | ⟨-, -, -, rfl⟩
  · exact ⟨.indent, by decide, List.mem_singleton.mp hmark⟩
  · exact ⟨.dedent, by decide, List.eq_of_mem_replicate hmark⟩

theorem Cut.tiles [IdentifierTables] {tabWidth : Nat} {stage : Stage} {before rest : List Char}
    {blocks : Indentation} {tokens : List Token} {error : Option (Failure LexicalError)}
    (h : Cut tabWidth stage before blocks rest tokens error) (hnone : error = none)
    (hstage : stage.Reached before) : Tiles before tokens rest := by
  induction h with
  | @emptyLine before filler rest blocks tokens error hfiller _ _ ih =>
    refine Tiles.skipFiller hfiller hstage.after (.skip (.emptyLine rfl ?_) ?_)
    · rw [lastLine_append hfiller.lineFeed_not_mem, hstage.lastLine rfl]
      exact hfiller.isFiller
    · exact ih hnone (hstage.emptyLine hfiller)
  | @textEnd before filler blocks hfiller _ =>
    have htiles := Tiles.skipFiller hfiller hstage.after (.closing blocks (before ++ filler))
    rwa [List.append_nil] at htiles
  | line hblanks _ hmeet hscan _ ih =>
    refine Tiles.skipBlanks hblanks (.marks (Indentation.exists_layout_of_meet hmeet) ?_)
    exact .scanned hscan (ih hnone (hstage.scanned hblanks hscan))
  | tooWide | faultyLine | unmetLine | fault => cases hnone
  | token hblanks hscan _ ih =>
    exact Tiles.skipBlanks hblanks (.scanned hscan (ih hnone (hstage.scanned hblanks hscan)))
  | @joinedLine brackets before filler rest blocks tokens error hfiller hopen _ ih =>
    refine Tiles.skipFiller hfiller hstage.after (.skip (.joinedLine rfl ?_) ?_)
    · rw [(Enclosure.after_filler hstage.after hfiller).1]
      exact hopen
    · exact ih hnone (hstage.joinedLine hfiller hopen)
  | @lineEnd before filler rest blocks tokens error hfiller _ ih =>
    refine Tiles.skipFiller hfiller hstage.after ?_
    exact .token (.lineEnd rfl rfl) rfl rfl (ih hnone (hstage.lineEnd hfiller))
  | @lastLine brackets before filler blocks hfiller =>
    have hclosing := Tiles.closing blocks (before ++ filler)
    have hend : Tiles (before ++ filler)
        (Token.mark .newline (Position.first.after (before ++ filler)) ::
          closing blocks (before ++ filler)) ([] ++ []) :=
      .token (.textEnd rfl rfl rfl) rfl (by rw [List.append_nil]; rfl)
        (by rwa [List.append_nil])
    have htiles := Tiles.skipFiller hfiller hstage.after hend
    rwa [List.append_nil, List.append_nil] at htiles

theorem tiles_of_tokenize [IdentifierTables] {text : String} {tabWidth : Nat} {tokens : List Token}
    (h : tokenize text tabWidth = .ok tokens) : Tiles [] tokens text.toList :=
  (cut_of_tokenize h).tiles rfl .start

/-! ### What a tiling says -/

/-- A token whose lexeme is what the text has at its span. -/
structure Token.Quotes (token : Token) (text : String) : Prop where
  start_le : token.span.start.offset ≤ token.span.stop.offset
  stop_le : token.span.stop.offset ≤ text.utf8ByteSize
  lexeme : SourceText.between? token.span.start.offset token.span.stop.offset text.toList =
    some token.lexeme.toList

/-- Whether the character at this offset lies within a span. -/
def Span.Covers (span : Span) (offset : Nat) : Prop :=
  span.start.offset ≤ offset ∧ offset < span.stop.offset

/-- The lexemes of tokens, from an offset of the text on, with what the text has between them. -/
def interleave? (cs : List Char) : Nat → List Token → Option (List Char)
  | offset, [] => SourceText.between? offset (utf8Len cs) cs
  | offset, token :: tokens => do
    let gap ← SourceText.between? offset token.span.start.offset cs
    let others ← interleave? cs token.span.stop.offset tokens
    pure (gap ++ token.lexeme.toList ++ others)

namespace Tiles

variable {before rest : List Char} {tokens : List Token} {token : Token}

/-- Every token covers a part of the text that its kind allows. -/
theorem exists_of_mem (h : Tiles before tokens rest) (htoken : token ∈ tokens) :
    ∃ front run tail, before ++ rest = front ++ run ++ tail ∧ Spells token.kind run tail ∧
      token.lexeme = String.ofList run ∧
      token.span = ⟨Position.first.after front, Position.first.after (front ++ run)⟩ := by
  induction h with
  | done => cases htoken
  | skip _ _ ih =>
    obtain ⟨front, run, tail, hsplit, hrun⟩ := ih htoken
    exact ⟨front, run, tail, by simpa using hsplit, hrun⟩
  | token hspells hlexeme hspan _ ih =>
    rcases List.mem_cons.mp htoken with rfl | htoken
    · exact ⟨_, _, _, (List.append_assoc _ _ _).symm, hspells, hlexeme, hspan⟩
    · obtain ⟨front, run, tail, hsplit, hrun⟩ := ih htoken
      exact ⟨front, run, tail, by simpa using hsplit, hrun⟩

theorem le_start (h : Tiles before tokens rest) (htoken : token ∈ tokens) :
    utf8Len before ≤ token.span.start.offset := by
  induction h with
  | done => cases htoken
  | skip _ _ ih =>
    have hle := ih htoken
    rw [String.utf8Len_append] at hle
    omega
  | token _ _ hspan _ ih =>
    rcases List.mem_cons.mp htoken with rfl | htoken
    · rw [hspan, Position.offset_after_first]
    · have hle := ih htoken
      rw [String.utf8Len_append] at hle
      omega

theorem isChain (h : Tiles before tokens rest) :
    tokens.IsChain fun first second => first.span.stop.offset ≤ second.span.start.offset := by
  induction h with
  | done => exact .nil
  | skip _ _ ih => exact ih
  | token _ _ hspan hnext ih =>
    refine List.isChain_cons.mpr ⟨fun second hsecond => ?_, ih⟩
    rw [hspan, Position.offset_after_first]
    exact hnext.le_start (List.mem_of_mem_head? hsecond)

/-- A character that no token covers has been skipped. -/
theorem skipped (h : Tiles before tokens rest) {front tail : List Char} {c : Char}
    (hrest : rest = front ++ c :: tail)
    (huncovered : ∀ token ∈ tokens, ¬ token.span.Covers (utf8Len (before ++ front))) :
    Skipped (before ++ front) c := by
  induction h generalizing front with
  | done => simp at hrest
  | @skip before rest d tokens hskip _ ih =>
    cases front with
    | nil =>
      cases hrest
      rwa [List.append_nil]
    | cons e front =>
      cases hrest
      rw [← List.singleton_append, ← List.append_assoc] at huncovered ⊢
      exact ih rfl huncovered
  | @token before run rest token tokens _ _ hspan _ ih =>
    obtain ⟨htoken, hothers⟩ := List.forall_mem_cons.mp huncovered
    rcases List.append_eq_append_iff.mp hrest with ⟨others, rfl, hothers'⟩ | ⟨others, hrun, htail⟩
    · rw [← List.append_assoc] at hothers ⊢
      exact ih hothers' hothers
    · cases others with
      | nil =>
        rw [List.append_nil] at hrun
        subst hrun
        have hlast : Skipped (before ++ run ++ []) c :=
          ih (by simpa using htail.symm) (by simpa using hothers)
        rwa [List.append_nil] at hlast
      | cons d others =>
        refine absurd ⟨?_, ?_⟩ htoken
        · rw [hspan, Position.offset_after_first, String.utf8Len_append]
          exact Nat.le_add_right _ _
        · have hpos := d.utf8Size_pos
          simp only [hspan, Position.offset_after_first, hrun, String.utf8Len_append,
            String.utf8Len_cons]
          omega

theorem interleave?_eq (h : Tiles before tokens rest) {front gap : List Char}
    (hbefore : before = front ++ gap) :
    interleave? (before ++ rest) (utf8Len front) tokens = some (gap ++ rest) := by
  induction h generalizing front gap with
  | done =>
    have hgap := SourceText.between?_append front gap []
    subst hbefore
    simpa [interleave?] using hgap
  | @skip before rest c tokens _ _ ih =>
    have hnext : interleave? (before ++ [c] ++ rest) (utf8Len front) tokens =
        some (gap ++ [c] ++ rest) := ih (by rw [hbefore, List.append_assoc])
    simpa using hnext
  | @token before run rest token tokens _ hlexeme hspan _ ih =>
    have hgap := SourceText.between?_append front gap (run ++ rest)
    have hnext : interleave? (before ++ run ++ rest) (utf8Len (before ++ run)) tokens =
        some ([] ++ rest) := ih (List.append_nil _).symm
    rw [← hbefore] at hgap
    rw [List.append_assoc] at hnext
    simp only [interleave?, hspan, Position.offset_after_first, hgap, hnext, hlexeme]
    simp

end Tiles

theorem Token.quotes_of_split {token : Token} {text : String} {front run tail : List Char}
    (hsplit : text.toList = front ++ run ++ tail) (hlexeme : token.lexeme = String.ofList run)
    (hspan : token.span = ⟨Position.first.after front, Position.first.after (front ++ run)⟩) :
    token.Quotes text := by
  have hsize : text.utf8ByteSize = utf8Len (front ++ run ++ tail) := by
    rw [← hsplit, String.utf8Len_toList]
  constructor
  · rw [hspan, Position.after_append]
    exact Position.offset_after_le _ _
  · rw [hspan, hsize, Position.offset_after_first, String.utf8Len_append _ tail]
    exact Nat.le_add_right _ _
  · rw [hspan, hlexeme, hsplit, Position.offset_after_first, Position.offset_after_first,
      SourceText.between?_append, String.toList_ofList]

/-- A token whose text is right for its kind: tokens of the text have some, the end of a line has
its line feed or stands at the end of the text, and other layout has none and no width. -/
def Token.HasLexeme (token : Token) (text : String) : Prop :=
  match token.kind with
  | .layout .newline => token.lexeme = "\n" ∨
      token.lexeme = "" ∧ token.span.start = token.span.stop ∧
        token.span.stop.offset = text.utf8ByteSize
  | .layout _ => token.lexeme = "" ∧ token.span.start = token.span.stop
  | _ => token.lexeme ≠ ""

theorem Token.hasLexeme_of_spells {token : Token} {text : String} {front run tail : List Char}
    (hspells : Spells token.kind run tail) (hsplit : text.toList = front ++ run ++ tail)
    (hlexeme : token.lexeme = String.ofList run)
    (hspan : token.span = ⟨Position.first.after front, Position.first.after (front ++ run)⟩) :
    token.HasLexeme text := by
  have hempty (hrun : run = []) : token.lexeme = "" ∧ token.span.start = token.span.stop := by
    subst hrun
    rw [hlexeme, hspan, List.append_nil]
    exact ⟨rfl, rfl⟩
  rw [HasLexeme]
  cases hspells with
  | plain hkind hrun =>
    have hne : token.lexeme ≠ "" := by
      rw [hlexeme]
      intro h
      exact hrun (String.ofList_injective h)
    cases h : token.kind with
    | layout => simp [h, TokenKind.isLayout] at hkind
    | literal | identifier | keyword | reserved | symbol => exact hne
  | lineEnd hkind hrun =>
    rw [hkind, hlexeme, hrun]
    exact .inl rfl
  | textEnd hkind hrun hrest =>
    rw [hkind]
    refine .inr ⟨(hempty hrun).1, (hempty hrun).2, ?_⟩
    rw [hspan, Position.offset_after_first, ← String.utf8Len_toList, hsplit, hrest,
      List.append_nil]
  | @mark layout hkind hlayout hrun =>
    rw [hkind]
    cases layout with
    | newline => exact absurd rfl hlayout
    | indent | dedent | endOfInput => exact hempty hrun

/-- The tokens of a text quote it in its order, every character between them may be skipped, and
with what lies between them they are the whole text again. -/
theorem tokens_cover_text [IdentifierTables] {text : String} {tabWidth : Nat} {tokens : List Token}
    (h : tokenize text tabWidth = .ok tokens) :
    (∀ token ∈ tokens, token.Quotes text ∧ token.HasLexeme text) ∧
      tokens.IsChain (fun first second => first.span.stop.offset ≤ second.span.start.offset) ∧
      (∀ before c rest, text.toList = before ++ c :: rest →
        (∀ token ∈ tokens, ¬ token.span.Covers (utf8Len before)) → Skipped before c) ∧
      interleave? text.toList 0 tokens = some text.toList := by
  have htiles := tiles_of_tokenize h
  refine ⟨fun token htoken => ?_, htiles.isChain, ?_, ?_⟩
  · obtain ⟨front, run, tail, hsplit, hspells, hlexeme, hspan⟩ := htiles.exists_of_mem htoken
    exact ⟨Token.quotes_of_split hsplit hlexeme hspan,
      Token.hasLexeme_of_spells hspells hsplit hlexeme hspan⟩
  · intro before c rest hsplit huncovered
    exact htiles.skipped hsplit huncovered
  · exact htiles.interleave?_eq (List.append_nil []).symm

namespace CoverageWitness

/-- A call over two lines, with comments in it and around it. -/
def source : String := "# é\n\n\tf( # é\n\n \"é\") # so"

def tokens : List Token :=
  [Token.mark .indent ⟨3, 2, 7⟩, ⟨.identifier "f", "f", ⟨⟨3, 2, 7⟩, ⟨3, 3, 8⟩⟩⟩,
    ⟨.symbol .openParen, "(", ⟨⟨3, 3, 8⟩, ⟨3, 4, 9⟩⟩⟩,
    ⟨.literal (.str "é"), "\"é\"", ⟨⟨5, 2, 17⟩, ⟨5, 5, 21⟩⟩⟩,
    ⟨.symbol .closeParen, ")", ⟨⟨5, 5, 21⟩, ⟨5, 6, 22⟩⟩⟩, Token.mark .newline ⟨5, 11, 27⟩,
    Token.mark .dedent ⟨5, 11, 27⟩, Token.mark .endOfInput ⟨5, 11, 27⟩]

theorem interleave?_call :
    tokenize source 4 = .ok tokens ∧ interleave? source.toList 0 tokens = some source.toList := by
  have htokens : tokenize source 4 = .ok tokens := by decide +kernel
  exact ⟨htokens, (tokens_cover_text htokens).2.2.2⟩

end CoverageWitness

end Offside
