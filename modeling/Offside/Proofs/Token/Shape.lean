/-
The shape of a token stream: lines of tokens, each behind the levels that it opens or closes, and
at the end whatever is still open.  Read from the front, a level is closed only after it has been
opened, and none stays open.
-/
import Mathlib.Data.List.Chain
import Offside.Proofs.Token.CutRun

namespace Offside

/-! ### Lines -/

/-- What may stand in front of the tokens of a line: nothing, the mark of one level that opens, or
those of levels that close. -/
def AreMarks (marks : List Token) : Prop :=
  marks = [] ∨ (∃ mark, marks = [mark] ∧ mark.kind = .layout .indent) ∨
    marks ≠ [] ∧ ∀ mark ∈ marks, mark.kind = .layout .dedent

/-- A line of a token stream: the levels that it opens or closes, the tokens that were read from
the text, and the end of the line. -/
structure LogicalLine where
  marks : List Token
  body : List Token
  lineEnd : Token
  areMarks : AreMarks marks
  body_ne_nil : body ≠ []
  kind_body : ∀ token ∈ body, token.kind.isLayout = false
  kind_lineEnd : lineEnd.kind = .layout .newline

def LogicalLine.tokens (line : LogicalLine) : List Token :=
  line.marks ++ line.body ++ [line.lineEnd]

/-- A token stream is made of lines, behind which the open levels are closed and the input ends. -/
def InLines (tokens : List Token) : Prop :=
  ∃ (lines : List LogicalLine) (dedents : List Token) (last : Token),
    tokens = lines.flatMap LogicalLine.tokens ++ dedents ++ [last] ∧
      (∀ dedent ∈ dedents, dedent.kind = .layout .dedent) ∧ last.kind = .layout .endOfInput

/-- The rest of a token stream within a line. -/
def InsideLine (tokens : List Token) : Prop :=
  ∃ body lineEnd others, tokens = body ++ lineEnd :: others ∧
    (∀ token ∈ body, token.kind.isLayout = false) ∧ lineEnd.kind = .layout .newline ∧
      InLines others

theorem inLines_closing (blocks : Indentation) (before : List Char) :
    InLines (closing blocks before) := by
  refine ⟨[], _, _, rfl, fun dedent hdedent => ?_, rfl⟩
  rw [List.eq_of_mem_replicate hdedent]
  rfl

/-- A line in front of other lines. -/
theorem InsideLine.inLines {marks others : List Token} {token : Token}
    (hmarks : AreMarks marks) (htoken : token.kind.isLayout = false) (h : InsideLine others) :
    InLines (marks ++ token :: others) := by
  obtain ⟨body, lineEnd, tail, rfl, hbody, hend, lines, dedents, last, rfl, hdedents, hlast⟩ := h
  let line : LogicalLine := ⟨marks, token :: body, lineEnd, hmarks, List.cons_ne_nil _ _,
    List.forall_mem_cons.mpr ⟨htoken, hbody⟩, hend⟩
  refine ⟨line :: lines, dedents, last, ?_, hdedents, hlast⟩
  simp [line, LogicalLine.tokens]

theorem Indentation.areMarks_of_meet {blocks inner : Indentation} {width : Nat}
    {place : Position} {marks : List Token} (h : blocks.meet width place = (.ok marks, inner)) :
    AreMarks marks := by
  rcases meet_ok h with ⟨-, rfl, -⟩ | ⟨-, -, -, hmarks⟩
  · exact .inr (.inl ⟨_, rfl, rfl⟩)
  · by_cases hnil : marks = []
    · exact .inl hnil
    · refine .inr (.inr ⟨hnil, fun mark hmark => ?_⟩)
      rw [hmarks] at hmark
      rw [List.eq_of_mem_replicate hmark]
      rfl

namespace Cut

variable [IdentifierTables] {tabWidth brackets : Nat} {stage : Stage} {before rest : List Char}
  {blocks : Indentation} {tokens : List Token} {error : Option (Failure LexicalError)}

theorem lines_of_stage (h : Cut tabWidth stage before blocks rest tokens error)
    (hnone : error = none) :
    match stage with
    | .fresh => InLines tokens
    | .inLine _ => InsideLine tokens := by
  induction h with
  | emptyLine _ _ _ ih => exact ih hnone
  | textEnd => exact inLines_closing _ _
  | line _ _ hmeet hscan _ ih =>
    exact (ih hnone).inLines (Indentation.areMarks_of_meet hmeet) hscan.isLayout
  | tooWide | faultyLine | unmetLine | fault => cases hnone
  | token _ hscan _ ih =>
    obtain ⟨body, lineEnd, others, rfl, hbody, hend, hothers⟩ := ih hnone
    exact ⟨_ :: body, lineEnd, others, rfl, List.forall_mem_cons.mpr ⟨hscan.isLayout, hbody⟩, hend,
      hothers⟩
  | joinedLine _ _ _ ih => exact ih hnone
  | lineEnd _ _ ih => exact ⟨[], _, _, rfl, List.forall_mem_nil _, rfl, ih hnone⟩
  | lastLine _ => exact ⟨[], _, _, rfl, List.forall_mem_nil _, rfl, inLines_closing _ _⟩

end Cut

/-! ### Levels -/

/-- How many levels are open behind a token; nothing if it closes one where none is open. -/
def Token.levelsAfter? (depth : Nat) (token : Token) : Option Nat :=
  match token.kind with
  | .layout .indent => some (depth + 1)
  | .layout .dedent => if depth = 0 then none else some (depth - 1)
  | _ => some depth

/-- How many levels are open behind these tokens. -/
def levelsAfter? (depth : Nat) (tokens : List Token) : Option Nat :=
  tokens.foldlM Token.levelsAfter? depth

/-- How many of these tokens are layout of this kind. -/
def countLayout (layout : Layout) (tokens : List Token) : Nat :=
  tokens.countP fun token => token.kind == .layout layout

section Levels

variable {depth final : Nat} {first second tokens : List Token} {token : Token}

theorem levelsAfter?_append :
    levelsAfter? depth (first ++ second) =
      (levelsAfter? depth first).bind fun depth => levelsAfter? depth second :=
  List.foldlM_append

theorem levelsAfter?_cons :
    levelsAfter? depth (token :: tokens) =
      (token.levelsAfter? depth).bind fun depth => levelsAfter? depth tokens :=
  List.foldlM_cons

/-- The tokens of the text leave the levels as they are. -/
theorem Token.levelsAfter?_of_isLayout (h : token.kind.isLayout = false) :
    token.levelsAfter? depth = some depth := by
  rw [Token.levelsAfter?]
  cases hkind : token.kind with
  | layout => simp [hkind, TokenKind.isLayout] at h
  | literal | identifier | keyword | reserved | symbol => rfl

theorem levelsAfter?_cons_of_isLayout (h : token.kind.isLayout = false) :
    levelsAfter? depth (token :: tokens) = levelsAfter? depth tokens := by
  rw [levelsAfter?_cons, Token.levelsAfter?_of_isLayout h]
  rfl

theorem levelsAfter?_dedents {count : Nat} {place : Position} (h : count ≤ depth) :
    levelsAfter? depth (List.replicate count (Token.mark .dedent place)) =
      some (depth - count) := by
  induction count generalizing depth with
  | zero => rfl
  | succ count ih =>
    have hpos : depth ≠ 0 := by omega
    have hstep : (Token.mark .dedent place).levelsAfter? depth = some (depth - 1) := if_neg hpos
    rw [List.replicate_succ, levelsAfter?_cons, hstep, Option.bind_some, ih (by omega)]
    congr 1
    omega

/-- Further levels around these stay open. -/
theorem levelsAfter?_add (h : levelsAfter? depth tokens = some final) (more : Nat) :
    levelsAfter? (depth + more) tokens = some (final + more) := by
  induction tokens generalizing depth with
  | nil =>
    cases h
    rfl
  | cons token tokens ih =>
    rw [levelsAfter?_cons, Option.bind_eq_some_iff] at h
    obtain ⟨next, hnext, hrest⟩ := h
    have htoken : token.levelsAfter? (depth + more) = some (next + more) := by
      rw [Token.levelsAfter?] at hnext ⊢
      split at hnext
      · cases hnext
        congr 1
        omega
      · split at hnext
        · cases hnext
        · cases hnext
          rw [if_neg (by omega)]
          congr 1
          omega
      · cases hnext
        rfl
    rw [levelsAfter?_cons, htoken, Option.bind_some, ih hrest]

theorem countLayout_append {layout : Layout} :
    countLayout layout (first ++ second) = countLayout layout first + countLayout layout second :=
  List.countP_append

/-- One token opens or closes at most one level. -/
theorem Token.depth_add_countLayout (h : token.levelsAfter? depth = some final) :
    depth + countLayout .indent [token] = final + countLayout .dedent [token] := by
  rw [Token.levelsAfter?] at h
  simp only [countLayout, List.countP_singleton, beq_iff_eq]
  split at h
  · next hkind =>
    cases h
    rw [hkind, if_pos rfl, if_neg (by decide)]
  · next hkind =>
    split at h
    · cases h
    · next hpos =>
      cases h
      rw [hkind, if_neg (by decide), if_pos rfl]
      omega
  · next hindent hdedent =>
    cases h
    rw [if_neg hindent, if_neg hdedent]

/-- Levels that are open have been open before or have been opened since. -/
theorem depth_add_countLayout (h : levelsAfter? depth tokens = some final) :
    depth + countLayout .indent tokens = final + countLayout .dedent tokens := by
  induction tokens generalizing depth with
  | nil =>
    cases h
    rfl
  | cons token tokens ih =>
    rw [levelsAfter?_cons, Option.bind_eq_some_iff] at h
    obtain ⟨next, hnext, hrest⟩ := h
    have hfirst := Token.depth_add_countLayout hnext
    have hothers := ih hrest
    rw [← List.singleton_append, countLayout_append, countLayout_append]
    omega

/-- In front of every token at least as many levels have been opened as closed. -/
theorem countLayout_le_of_prefix (h : levelsAfter? 0 tokens = some final)
    (hfirst : first <+: tokens) : countLayout .dedent first ≤ countLayout .indent first := by
  obtain ⟨second, rfl⟩ := hfirst
  rw [levelsAfter?_append, Option.bind_eq_some_iff] at h
  obtain ⟨depth, hdepth, -⟩ := h
  have hcount := depth_add_countLayout hdepth
  omega

end Levels

theorem levelsAfter?_closing (blocks : Indentation) (before : List Char) :
    levelsAfter? blocks.depth (closing blocks before) = some 0 := by
  rw [closing, levelsAfter?_append, Indentation.close, levelsAfter?_dedents (Nat.le_refl _),
    Nat.sub_self]
  rfl

/-- What a line opens and closes is just what leads to its own level. -/
theorem Indentation.levelsAfter?_of_meet {blocks inner : Indentation} {width : Nat}
    {place : Position} {marks : List Token} (h : blocks.meet width place = (.ok marks, inner)) :
    levelsAfter? blocks.depth marks = some inner.depth := by
  rcases meet_ok h with ⟨-, rfl, rfl⟩ | ⟨-, hinner, -, rfl⟩
  · rfl
  · have hle : inner.depth ≤ blocks.depth := hinner ▸ depth_keep_le blocks width
    rw [levelsAfter?_dedents (Nat.sub_le _ _)]
    congr 1
    omega

/-- From every stage of a text the open levels are closed at the end of the tokens. -/
theorem Cut.levelsAfter?_eq [IdentifierTables] {tabWidth : Nat} {stage : Stage}
    {before rest : List Char} {blocks : Indentation} {tokens : List Token}
    {error : Option (Failure LexicalError)} (h : Cut tabWidth stage before blocks rest tokens error)
    (hnone : error = none) :
    levelsAfter? blocks.depth tokens = some 0 := by
  induction h with
  | emptyLine _ _ _ ih | joinedLine _ _ _ ih | lineEnd _ _ ih => exact ih hnone
  | textEnd | lastLine => exact levelsAfter?_closing _ _
  | line _ _ hmeet hscan _ ih =>
    rw [levelsAfter?_append, Indentation.levelsAfter?_of_meet hmeet, Option.bind_some,
      levelsAfter?_cons_of_isLayout hscan.isLayout]
    exact ih hnone
  | tooWide | faultyLine | unmetLine | fault => cases hnone
  | token _ hscan _ ih =>
    rw [levelsAfter?_cons_of_isLayout hscan.isLayout]
    exact ih hnone

/-! ### What follows a level that opens -/

/-- Behind a token that opens a level stands a token of the text. -/
def Token.OpensLine (first second : Token) : Prop :=
  first.kind = .layout .indent → second.kind.isLayout = false

theorem isChain_append_of_ne_indent {first second : List Token}
    (hfirst : ∀ token ∈ first, token.kind ≠ .layout .indent)
    (hsecond : second.IsChain Token.OpensLine) : (first ++ second).IsChain Token.OpensLine := by
  induction first with
  | nil => exact hsecond
  | cons token first ih =>
    obtain ⟨htoken, hfirst⟩ := List.forall_mem_cons.mp hfirst
    exact List.isChain_cons.mpr ⟨fun _ _ hopens => absurd hopens htoken, ih hfirst⟩

theorem LogicalLine.isChain_append (line : LogicalLine) {others : List Token}
    (hothers : others.IsChain Token.OpensLine) :
    (line.tokens ++ others).IsChain Token.OpensLine := by
  have hrest : (line.body ++ ([line.lineEnd] ++ others)).IsChain Token.OpensLine := by
    apply isChain_append_of_ne_indent
    · intro token htoken hindent
      simpa [hindent, TokenKind.isLayout] using line.kind_body token htoken
    · apply isChain_append_of_ne_indent _ hothers
      simp [line.kind_lineEnd]
  rw [LogicalLine.tokens, List.append_assoc, List.append_assoc]
  rcases line.areMarks with hnil | ⟨mark, hmark, -⟩ | ⟨-, hdedents⟩
  · rwa [hnil]
  · obtain ⟨token, body, hbody⟩ := List.exists_cons_of_ne_nil line.body_ne_nil
    have htoken := line.kind_body token (by simp [hbody])
    rw [hmark, List.singleton_append, List.isChain_cons]
    refine ⟨fun next hnext _ => ?_, hrest⟩
    rw [hbody] at hnext
    cases hnext
    exact htoken
  · apply isChain_append_of_ne_indent _ hrest
    intro mark hmark
    simp [hdedents mark hmark]

theorem InLines.isChain {tokens : List Token} (h : InLines tokens) :
    tokens.IsChain Token.OpensLine := by
  obtain ⟨lines, dedents, last, rfl, hdedents, -⟩ := h
  rw [List.append_assoc]
  induction lines with
  | nil =>
    rw [List.flatMap_nil, List.nil_append]
    apply isChain_append_of_ne_indent _ (List.isChain_singleton _)
    intro dedent hdedent
    simp [hdedents dedent hdedent]
  | cons line lines ih =>
    rw [List.flatMap_cons, List.append_assoc]
    exact line.isChain_append ih

/-- The level that a line opens is followed by the tokens of the line. -/
theorem InLines.exists_of_indent {before after : List Token} {mark : Token}
    (h : InLines (before ++ mark :: after)) (hmark : mark.kind = .layout .indent) :
    ∃ token others, after = token :: others ∧ token.kind.isLayout = false := by
  cases after with
  | cons token others =>
    have hchain := (List.isChain_append.mp h.isChain).2.1
    exact ⟨token, others, rfl, (List.isChain_cons_cons.mp hchain).1 hmark⟩
  | nil =>
    obtain ⟨lines, dedents, last, heq, -, hlast⟩ := h
    have hmarks : mark = last := List.singleton_inj.mp (List.append_inj_right' heq rfl)
    rw [hmarks, hlast] at hmark
    cases hmark

end Offside
