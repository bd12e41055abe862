/-
Tokens that stand in one row, behind one another in one line or inside of brackets over several
lines.  The text of a row, taken on its own, is cut into tokens of the same kinds when it closes
just the brackets that it opens and breaks lines only inside of them.
-/
import Offside.Proofs.Token.CutUnique
import Offside.Proofs.Token.Stages
import Offside.Proofs.Token.Words

namespace Offside

/-! ### Rows of tokens -/

/-- What may stand between two tokens of a row: blanks, and the ends of lines that are joined. -/
inductive Joint : List Char → Prop
  | blanks {joint : List Char} (hblanks : ∀ c ∈ joint, Lexer.isBlank c = true) : Joint joint
  | lineFeed {filler joint : List Char} (hfiller : Filler filler) (next : Joint joint) :
    Joint (filler ++ '\n' :: joint)

/-- Behind `before` the text `run` is read as these tokens in one row, from the start of the first
one to the end of the last one, in front of `tail`. -/
inductive Row [IdentifierTables] : List Char → List Char → List Token → List Char → Prop
  | last {before run tail : List Char} {token : Token} (hscan : Scans before run tail token) :
    Row before run [token] tail
  | more {before run joint rest tail : List Char} {token : Token} {tokens : List Token}
    (hscan : Scans before run (joint ++ (rest ++ tail)) token) (hjoint : Joint joint)
    (next : Row (before ++ run ++ joint) rest tokens tail) :
    Row before (run ++ (joint ++ rest)) (token :: tokens) tail

theorem isLayout_of_mem_closing {blocks : Indentation} {before : List Char} {token : Token}
    (h : token ∈ closing blocks before) : token.kind.isLayout = true := by
  rcases List.mem_append.mp h with hdedent | hlast
  · rw [List.eq_of_mem_replicate hdedent]
    rfl
  · rw [List.mem_singleton.mp hlast]
    rfl

section

variable {tokens front piece back : List Token}

/-- Where a piece without layout tokens stands among tokens, it stands behind layout tokens in front
of them. -/
theorem exists_front_of_isLayout {marks : List Token}
    (hmarks : ∀ mark ∈ marks, mark.kind.isLayout = true)
    (h : marks ++ tokens = front ++ (piece ++ back)) (hne : piece ≠ [])
    (hpiece : ∀ token ∈ piece, token.kind.isLayout = false) :
    ∃ others, front = marks ++ others ∧ tokens = others ++ (piece ++ back) := by
  induction marks generalizing front with
  | nil => exact ⟨front, rfl, h⟩
  | cons mark marks ih =>
    obtain ⟨hmark, hmarks⟩ := List.forall_mem_cons.mp hmarks
    cases front with
    | nil =>
      obtain ⟨token, others, rfl⟩ := List.exists_cons_of_ne_nil hne
      have hsame : mark = token := (List.cons.inj h).1
      rw [hsame, hpiece token List.mem_cons_self] at hmark
      cases hmark
    | cons first front =>
      obtain ⟨rfl, hrest⟩ := List.cons.inj h
      obtain ⟨others, rfl, htokens⟩ := ih hmarks hrest
      exact ⟨others, rfl, htokens⟩

theorem not_append_of_isLayout (htokens : ∀ token ∈ tokens, token.kind.isLayout = true)
    (h : tokens = front ++ (piece ++ back)) (hne : piece ≠ [])
    (hpiece : ∀ token ∈ piece, token.kind.isLayout = false) : False := by
  obtain ⟨token, others, rfl⟩ := List.exists_cons_of_ne_nil hne
  have hlayout := htokens token (by simp [h])
  rw [hpiece token List.mem_cons_self] at hlayout
  cases hlayout

/-- A piece of tokens starts with the token that is next in the text, or further behind. -/
theorem Scans.exists_row [IdentifierTables] {before run rest : List Char} {token : Token}
    (hscan : Scans before run rest token)
    (ih : ∀ {front piece : List Token}, tokens = front ++ (piece ++ back) → piece ≠ [] →
      (∀ token ∈ piece, token.kind.isLayout = false) →
      ∃ passed found tail, rest = passed ++ (found ++ tail) ∧
        Row (before ++ run ++ passed) found piece tail ∧ (front = [] → Joint passed))
    (htokens : token :: tokens = front ++ (piece ++ back)) (hne : piece ≠ [])
    (hpiece : ∀ token ∈ piece, token.kind.isLayout = false) :
    ∃ passed found tail, run ++ rest = passed ++ (found ++ tail) ∧
      Row (before ++ passed) found piece tail ∧ (front = [] → passed = []) := by
  cases front with
  | nil =>
    obtain ⟨first, piece, rfl⟩ := List.exists_cons_of_ne_nil hne
    obtain ⟨rfl, hothers⟩ := List.cons.inj htokens
    cases piece with
    | nil => exact ⟨[], run, rest, rfl, by simpa using .last hscan, fun _ => rfl⟩
    | cons second piece =>
      have hbehind : tokens = [] ++ (second :: piece ++ back) := hothers
      obtain ⟨joint, others, tail, rfl, hrow, hjoint⟩ := ih hbehind
        (List.cons_ne_nil _ _) (List.forall_mem_cons.mp hpiece).2
      exact ⟨[], run ++ (joint ++ others), tail, by simp,
        by simpa using Row.more hscan (hjoint rfl) hrow, fun _ => rfl⟩
  | cons first front =>
    obtain ⟨rfl, hothers⟩ := List.cons.inj htokens
    obtain ⟨passed, found, tail, rfl, hrow, -⟩ := ih hothers hne hpiece
    exact ⟨run ++ passed, found, tail, by simp, by simpa using hrow, nofun⟩

/-- Tokens of a text that are no layout and stand in one piece are a row. -/
theorem Cut.exists_row [IdentifierTables] {tabWidth : Nat} {stage : Stage} {before rest : List Char}
    {blocks : Indentation} {error : Option (Failure LexicalError)}
    (h : Cut tabWidth stage before blocks rest tokens error) (hnone : error = none)
    (htokens : tokens = front ++ (piece ++ back)) (hne : piece ≠ [])
    (hpiece : ∀ token ∈ piece, token.kind.isLayout = false) :
    ∃ passed found tail, rest = passed ++ (found ++ tail) ∧
      Row (before ++ passed) found piece tail ∧
      (front = [] → stage.isFresh = false → Joint passed) := by
  induction h generalizing front piece with
  | @emptyLine before filler rest blocks tokens error hfiller _ _ ih =>
    obtain ⟨passed, found, tail, rfl, hrow, -⟩ := ih hnone htokens hne hpiece
    exact ⟨filler ++ '\n' :: passed, found, tail, by simp, by simpa using hrow, nofun⟩
  | textEnd =>
    exact (not_append_of_isLayout (fun _ => isLayout_of_mem_closing) htokens hne hpiece).elim
  | @line before blanks run rest blocks inner marks token tokens error _ _ hmeet hscan _ ih =>
    have hmarks : ∀ mark ∈ marks, mark.kind.isLayout = true := by
      intro mark hmark
      obtain ⟨layout, rfl⟩ := Indentation.eq_mark_of_meet hmeet mark hmark
      rfl
    obtain ⟨others, rfl, hothers⟩ := exists_front_of_isLayout hmarks htokens hne hpiece
    obtain ⟨passed, found, tail, hsplit, hrow, -⟩ := hscan.exists_row
      (fun htokens hne hpiece => by simpa [Stage.isFresh] using ih hnone htokens hne hpiece)
      hothers hne hpiece
    exact ⟨blanks ++ passed, found, tail, by rw [hsplit, List.append_assoc],
      by simpa using hrow, nofun⟩
  | tooWide | faultyLine | unmetLine | fault => cases hnone
  | @token brackets before blanks run rest blocks token tokens error hblanks hscan _ ih =>
    obtain ⟨passed, found, tail, hsplit, hrow, hfirst⟩ := hscan.exists_row
      (fun htokens hne hpiece => by simpa [Stage.isFresh] using ih hnone htokens hne hpiece)
      htokens hne hpiece
    refine ⟨blanks ++ passed, found, tail, by rw [hsplit, List.append_assoc],
      by simpa using hrow, fun hfront _ => ?_⟩
    rw [hfirst hfront, List.append_nil]
    exact .blanks hblanks
  | @joinedLine brackets before filler rest blocks tokens error hfiller _ _ ih =>
    obtain ⟨passed, found, tail, rfl, hrow, hjoint⟩ := ih hnone htokens hne hpiece
    exact ⟨filler ++ '\n' :: passed, found, tail, by simp, by simpa using hrow,
      fun hfront _ => .lineFeed hfiller (hjoint hfront rfl)⟩
  | @lineEnd before filler rest blocks tokens error hfiller _ ih =>
    have hline : ∀ mark ∈ [Offside.lineEnd (before ++ filler)], mark.kind.isLayout = true :=
      List.forall_mem_singleton.mpr rfl
    obtain ⟨others, rfl, hothers⟩ := exists_front_of_isLayout hline htokens hne hpiece
    obtain ⟨passed, found, tail, rfl, hrow, -⟩ := ih hnone hothers hne hpiece
    exact ⟨filler ++ '\n' :: passed, found, tail, by simp, by simpa using hrow, nofun⟩
  | lastLine =>
    refine (not_append_of_isLayout ?_ htokens hne hpiece).elim
    exact List.forall_mem_cons.mpr ⟨rfl, fun _ => isLayout_of_mem_closing⟩

end

/-! ### Texts that stand on their own -/

namespace Enclosure

/-- Whether a character breaks out of the text it stands in when it has no bracket around it: the
end of a line, or a closing bracket of the code. -/
def breaksOut (here : Enclosure) (c : Char) : Bool :=
  c == '\n' || here.region == .code && [')', ']', '}'].contains c

/-- Whether a text that starts here closes just the brackets that it opens, and breaks lines only
inside of them. -/
def encloses : Enclosure → List Char → Bool
  | here, [] => here.brackets == 0
  | here, c :: cs => (here.brackets != 0 || !here.breaksOut c) && encloses (here.step c) cs

variable {here : Enclosure} {c : Char} {run rest : List Char}

theorem encloses_append (h : here.encloses (run ++ rest) = true) :
    (here.after run).encloses rest = true := by
  induction run generalizing here with
  | nil => exact h
  | cons c run ih => exact ih (Bool.and_eq_true_iff.mp h).2

theorem not_breaksOut_of_isInert (hc : isInert c = true) (hline : c ≠ '\n') (brackets : Nat) :
    breaksOut ⟨.code, brackets⟩ c = false := by
  simp only [isInert, Bool.not_eq_true', List.contains_eq_mem, decide_eq_false_iff_not,
    List.mem_cons, List.not_mem_nil, or_false, not_or] at hc
  simp [breaksOut, hline, hc]

theorem encloses_inert (hrun : ∀ c ∈ run, isInert c = true ∧ c ≠ '\n') (brackets : Nat) :
    encloses ⟨.code, brackets⟩ (run ++ rest) = encloses ⟨.code, brackets⟩ rest := by
  induction run with
  | nil => rfl
  | cons c run ih =>
    obtain ⟨⟨hc, hline⟩, hrun⟩ := List.forall_mem_cons.mp hrun
    rw [List.cons_append, encloses, not_breaksOut_of_isInert hc hline, step_of_isInert hc, ih hrun]
    simp

theorem encloses_blanks (hblanks : ∀ c ∈ run, Lexer.isBlank c = true) (brackets : Nat) :
    encloses ⟨.code, brackets⟩ (run ++ rest) = encloses ⟨.code, brackets⟩ rest := by
  refine encloses_inert (fun c hc => ⟨isInert_of_isBlank (hblanks c hc), ?_⟩) brackets
  rintro rfl
  exact absurd (hblanks _ hc) (by decide)

theorem encloses_comment (hrun : '\n' ∉ run) (brackets : Nat) :
    encloses ⟨.comment, brackets⟩ (run ++ rest) = encloses ⟨.comment, brackets⟩ rest := by
  induction run with
  | nil => rfl
  | cons c run ih =>
    simp only [List.mem_cons, not_or] at hrun
    have hline : c ≠ '\n' := Ne.symm hrun.1
    rw [List.cons_append, encloses, step, if_neg hline, ih hrun.2]
    simp [breaksOut, hline]

end Enclosure

section

variable {brackets : Nat} {run rest : List Char}

theorem IsLexeme.encloses [IdentifierTables] {kind : TokenKind} (h : IsLexeme run kind)
    (henc : Enclosure.encloses ⟨.code, brackets⟩ (run ++ rest) = true) :
    Enclosure.encloses ⟨.code, kind.brackets brackets⟩ rest = true := by
  rw [← h.after_code]
  exact Enclosure.encloses_append henc

theorem Filler.encloses_iff {filler : List Char} (h : Filler filler) :
    Enclosure.encloses ⟨.code, brackets⟩ (filler ++ '\n' :: rest) = true ↔
      0 < brackets ∧ Enclosure.encloses ⟨.code, brackets⟩ rest = true := by
  rcases h.cases with hblanks | ⟨blanks, text, rfl, hblanks, htext⟩
  · rw [Enclosure.encloses_blanks hblanks]
    simp [Enclosure.encloses, Enclosure.breaksOut, Enclosure.step, Nat.pos_iff_ne_zero]
  · rw [List.append_assoc, Enclosure.encloses_blanks hblanks, List.cons_append,
      Enclosure.encloses, Enclosure.step, Enclosure.encloses_comment htext]
    simp [Enclosure.encloses, Enclosure.breaksOut, Enclosure.step, Nat.pos_iff_ne_zero]

theorem Joint.encloses {joint : List Char} (h : Joint joint)
    (henc : Enclosure.encloses ⟨.code, brackets⟩ (joint ++ rest) = true) :
    Enclosure.encloses ⟨.code, brackets⟩ rest = true := by
  induction h with
  | blanks hblanks => rwa [Enclosure.encloses_blanks hblanks] at henc
  | lineFeed hfiller _ ih =>
    rw [List.append_assoc] at henc
    exact ih (hfiller.encloses_iff.mp henc).2

end

/-! ### Rows on their own -/

variable [IdentifierTables]

/-- In front of less of the same text a token is read all the same. -/
theorem Lexer.ReadsAs.shorten {run tail back : List Char} {kind : TokenKind}
    (h : ReadsAs run (tail ++ back) kind) : ReadsAs run tail kind := by
  have hends {p : Char → Bool} (hp : EndsRun p (tail ++ back)) : EndsRun p tail := by
    rintro c cs rfl
    exact hp c (cs ++ back) rfl
  refine h.inFrontOf hends hends fun sign hlongest => ?_
  cases tail with
  | nil => cases sign <;> rfl
  | cons c cs => cases sign <;> exact hlongest

/-- Behind another text, and in front of less of the same text, a token of the same kind is read. -/
theorem Scans.elsewhere {before run joint rest tail : List Char} {token : Token}
    (h : Scans before run (joint ++ (rest ++ tail)) token) (front : List Char) :
    ∃ other, other.kind = token.kind ∧ Scans front run (joint ++ rest) other := by
  rw [← List.append_assoc] at h
  exact TokenKind.exists_scans_of_readsAs h.readsAs.1.shorten front

theorem Scans.alone {before run back : List Char} {token : Token} (h : Scans before run back token)
    (front : List Char) : ∃ other, other.kind = token.kind ∧ Scans front run [] other :=
  TokenKind.exists_scans_of_readsAs h.readsAs.1.shorten front

/-- A text that starts with a token. -/
theorem Scans.cut_text {tabWidth : Nat} {run rest : List Char} {token : Token} {tokens : List Token}
    {error : Option (Failure LexicalError)} (h : Scans [] run rest token)
    (hnext : Cut tabWidth (.inLine (token.kind.brackets 0)) run Indentation.base rest tokens
      error) :
    Cut tabWidth .fresh [] Indentation.base (run ++ rest) (token :: tokens) error := by
  have hline : Cut tabWidth .fresh [] Indentation.base ([] ++ (run ++ rest)) ([] ++ token :: tokens)
      error := .line (List.forall_mem_nil _) (fits_nil tabWidth) rfl h hnext
  exact hline

section

variable {tabWidth brackets : Nat} {before front run rest joint tail : List Char}
  {blocks : Indentation} {token : Token} {tokens : List Token}

/-- Behind a joint that breaks lines only inside of brackets a token is read. -/
theorem Joint.cut {others : List Token} (h : Joint joint)
    (henc : Enclosure.encloses ⟨.code, brackets⟩ (joint ++ (run ++ rest)) = true)
    (hscan : Scans (front ++ joint) run rest token)
    (hnext : Cut tabWidth (.inLine (token.kind.brackets brackets)) (front ++ joint ++ run) blocks
      rest others none) :
    Cut tabWidth (.inLine brackets) front blocks (joint ++ (run ++ rest)) (token :: others)
      none := by
  induction h generalizing front with
  | blanks hblanks => exact .token hblanks hscan hnext
  | lineFeed hfiller _ ih =>
    rw [List.append_assoc] at henc ⊢
    obtain ⟨hopen, henc⟩ := hfiller.encloses_iff.mp henc
    exact .joinedLine hfiller hopen (ih henc (by simpa using hscan) (by simpa using hnext))

/-- What the end of a text adds to its last line. -/
def endKinds : List TokenKind := [.layout .newline, .layout .endOfInput]

/-- A row is cut in the same way where its text stands on its own. -/
theorem Row.exists_cut (h : Row before run tokens tail)
    (henc : Enclosure.encloses ⟨.code, brackets⟩ run = true) (tabWidth : Nat) (front : List Char) :
    ∃ first rest token others, run = first ++ rest ∧ Scans front first rest token ∧
      (token :: others).map Token.kind = tokens.map Token.kind ++ endKinds ∧
      Cut tabWidth (.inLine (token.kind.brackets brackets)) (front ++ first) Indentation.base rest
        others none := by
  induction h generalizing brackets front with
  | @last before run tail token hscan =>
    obtain ⟨other, hkind, hother⟩ := hscan.alone front
    refine ⟨run, [], other, _, (List.append_nil _).symm, hother, ?_,
      .lastLine (.of_blanks (List.forall_mem_nil _))⟩
    rw [List.map_cons, hkind]
    rfl
  | @more before run joint rest tail token tokens hscan hjoint _ ih =>
    have hbehind := hscan.token_eq.1.encloses henc
    obtain ⟨other, hkind, hother⟩ := hscan.elsewhere front
    obtain ⟨first, rest, next, others, rfl, hnext, hkinds, hcut⟩ :=
      ih (hjoint.encloses hbehind) (front ++ run ++ joint)
    refine ⟨run, joint ++ (first ++ rest), other, next :: others, rfl, hother, ?_, ?_⟩
    · rw [List.map_cons, hkinds, hkind, List.map_cons, List.cons_append]
    · rw [hkind]
      exact hjoint.cut hbehind hnext hcut

/-- A row whose text encloses what it opens has the same tokens when it is all of a text. -/
theorem Row.exists_tokens (h : Row before run tokens tail)
    (henc : Enclosure.outside.encloses run = true) (tabWidth : Nat) :
    ∃ others, tokenize (String.ofList run) tabWidth = .ok others ∧
      others.map Token.kind = tokens.map Token.kind ++ endKinds := by
  obtain ⟨first, rest, token, others, rfl, hscan, hkinds, hcut⟩ := h.exists_cut henc tabWidth []
  refine ⟨token :: others, tokenize_eq_of_cut ?_, hkinds⟩
  rw [String.toList_ofList]
  exact hscan.cut_text hcut

/-- A token whose text is all of a text is its only token. -/
theorem tokenize_lexeme {kind : TokenKind} (h : Lexer.ReadsAs run [] kind) (tabWidth : Nat) :
    tokenize (String.ofList run) tabWidth =
      .ok [⟨kind, String.ofList run, ⟨Position.first, Position.first.after run⟩⟩,
        Token.mark .newline (Position.first.after run),
        Token.mark .endOfInput (Position.first.after run)] := by
  obtain ⟨token, rfl, hscan⟩ := TokenKind.exists_scans_of_readsAs h []
  refine tokenize_eq_of_cut ?_
  rw [String.toList_ofList, ← List.append_nil run]
  have htoken := hscan.token_eq.2
  have hend : Cut tabWidth (.inLine (token.kind.brackets 0)) run Indentation.base []
      [Token.mark .newline (Position.first.after (run ++ [])),
        Token.mark .endOfInput (Position.first.after (run ++ []))] none :=
    .lastLine (.of_blanks (List.forall_mem_nil _))
  have hall := hscan.cut_text hend
  rw [htoken] at hall
  simpa using hall

end

end Offside
