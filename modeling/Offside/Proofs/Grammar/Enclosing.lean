/-
Which pieces of expressions stand on their own.  Where a text closes just the brackets that it opens
and breaks lines only inside of them, so do its tokens; otherwise it is over too early when it is
read on its own, and what has been read so far is no expression.
-/
import Offside.Proofs.Grammar.Excerpts
import Offside.Proofs.Grammar.Programs
import Offside.Proofs.Token.Rows

namespace Offside

/-! ### Brackets of expressions -/

namespace Enclosure

variable {rest body value : List Char}

theorem encloses_stringBody (h : StringBody body value) (brackets : Nat) :
    encloses ⟨.string, brackets⟩ (body ++ rest) = encloses ⟨.code, brackets⟩ rest := by
  induction h with
  | close => simp [encloses, breaksOut, step]
  | plain hquote hescape hline _ ih =>
    rw [List.cons_append, encloses, step_string hquote hescape hline, ih]
    simp [breaksOut, hline]
  | escaped hc _ ih =>
    have hline := StringBody.ne_lineFeed_of_unescape? hc
    rw [List.cons_append, List.cons_append, encloses, encloses, step, step, if_neg hline, ih]
    simp [breaksOut, hline]

end Enclosure

theorem TokenKind.not_paren_of_brackets {kind : TokenKind} (h : kind.brackets = id) :
    kind ≠ .symbol .openParen ∧ kind ≠ .symbol .closeParen := by
  constructor <;>
  · rintro rfl
    exact absurd (congrFun h 1) (by decide)

section

variable {before run rest tail joint : List Char} {token : Token} {tokens : List Token}
  {count : Nat}

/-- A token of an expression closes a parenthesis only where one is open, or it breaks out of the
text it stands in. -/
theorem IsLexeme.encloses_iff [IdentifierTables] (h : IsLexeme run token.kind)
    (hexpr : token.kind.standsInExpr = true) :
    Enclosure.encloses ⟨.code, count⟩ (run ++ rest) = true ↔
      ∃ next, token.parensAfter? count = some next ∧
        Enclosure.encloses ⟨.code, next⟩ rest = true := by
  generalize hkind : token.kind = kind at h hexpr
  have hquiet {run : List Char} (hrun : ∀ c ∈ run, Lexer.isNumberChar c = true)
      (hother : kind.brackets = id) : Enclosure.encloses ⟨.code, count⟩ (run ++ rest) = true ↔
        ∃ next, token.parensAfter? count = some next ∧
          Enclosure.encloses ⟨.code, next⟩ rest = true := by
    have hinert : ∀ c ∈ run, Enclosure.isInert c = true ∧ c ≠ '\n' := by
      exact fun c hc => ⟨Enclosure.isInert_of_isNumberChar (hrun c hc),
        IsLexeme.ne_of_isNumberChar (hrun c hc) (by simp)⟩
    obtain ⟨hopen, hclose⟩ := TokenKind.not_paren_of_brackets hother
    rw [Enclosure.encloses_inert hinert,
      Token.parensAfter?_other (hkind ▸ hopen) (hkind ▸ hclose)]
    simp
  cases h with
  | word hstart hrest =>
    exact hquiet (isNumberChar_of_word hstart hrest) (TokenKind.ofWord_plain _).2
  | number value hstart hrest => exact hquiet (isNumberChar_of_number hstart hrest) rfl
  | string hbody =>
    rw [List.cons_append, Enclosure.encloses, Enclosure.step,
      Enclosure.encloses_stringBody hbody, Token.parensAfter?, hkind]
    simp [Enclosure.breaksOut]
  | symbol sign =>
    rw [Token.parensAfter?, hkind]
    cases sign <;>
      first
      | cases hexpr; done
      | simp [Symbol.text, Enclosure.encloses, Enclosure.breaksOut, Enclosure.step]

/-- The text of a row closes just the brackets that it opens only if its tokens do. -/
theorem Row.parensAfter?_eq [IdentifierTables] (h : Row before run tokens tail)
    (hexpr : ∀ token ∈ tokens, token.kind.standsInExpr = true)
    (henc : Enclosure.encloses ⟨.code, count⟩ run = true) :
    parensAfter? count tokens = some 0 := by
  induction h generalizing count with
  | @last before run tail token hscan =>
    rw [← List.append_nil run, hscan.token_eq.1.encloses_iff (hexpr _ List.mem_cons_self)] at henc
    obtain ⟨next, hnext, hrest⟩ := henc
    have hclosed : next = 0 := beq_iff_eq.mp hrest
    rw [parensAfter?_cons, hnext, hclosed]
    rfl
  | more hscan hjoint _ ih =>
    obtain ⟨hfirst, hexpr⟩ := List.forall_mem_cons.mp hexpr
    obtain ⟨next, hnext, hrest⟩ := (hscan.token_eq.1.encloses_iff hfirst).mp henc
    rw [parensAfter?_cons, hnext, Option.bind_some, ih hexpr (hjoint.encloses hrest)]

/-! ### Pieces that do not stand on their own -/

/-- However many of these tokens are all that is in front of some layout, they close more
parentheses than are open, or too few. -/
def Unclosed (count : Nat) (tokens : List Token) : Prop :=
  ∀ piece stops, tokens = piece ++ stops → (∀ token ∈ piece, token.kind.isLayout = false) →
    (∀ token ∈ stops, token.kind.isLayout = true) → parensAfter? count piece ≠ some 0

namespace Unclosed

theorem cons (htoken : token.kind.isLayout = false)
    (h : ∀ next, token.parensAfter? count = some next → Unclosed next tokens) :
    Unclosed count (token :: tokens) := by
  intro piece stops hsplit hpiece hstops hclosed
  cases piece with
  | nil =>
    obtain rfl : token :: tokens = stops := hsplit
    have hlayout := hstops token List.mem_cons_self
    rw [htoken] at hlayout
    cases hlayout
  | cons first piece =>
    obtain ⟨rfl, hrest⟩ := List.cons.inj hsplit
    rw [parensAfter?_cons] at hclosed
    obtain ⟨next, hnext, hclosed⟩ := Option.bind_eq_some_iff.mp hclosed
    exact h next hnext piece stops hrest (List.forall_mem_cons.mp hpiece).2 hstops hclosed

theorem of_open (htokens : ∀ token ∈ tokens, token.kind.isLayout = true) (hcount : count ≠ 0) :
    Unclosed count tokens := by
  intro piece stops hsplit hpiece _ hclosed
  cases piece with
  | nil => exact hcount (Option.some.inj hclosed)
  | cons first piece =>
    have hlayout := htokens first (by simp [hsplit])
    rw [hpiece first List.mem_cons_self] at hlayout
    cases hlayout

/-- Where more tokens follow behind the end of a line. -/
theorem of_lineEnd {mark : Token} (hmark : mark.kind.isLayout = true)
    (htokens : ∃ token ∈ tokens, token.kind.isLayout = false) :
    Unclosed count (mark :: tokens) := by
  intro piece stops hsplit hpiece hstops _
  obtain ⟨token, hmem, htoken⟩ := htokens
  cases piece with
  | nil =>
    obtain rfl : mark :: tokens = stops := hsplit
    have hlayout := hstops token (List.mem_cons_of_mem _ hmem)
    rw [htoken] at hlayout
    cases hlayout
  | cons first piece =>
    obtain ⟨rfl, -⟩ := List.cons.inj hsplit
    rw [hpiece mark List.mem_cons_self] at hmark
    cases hmark

end Unclosed

theorem Token.brackets_of_parensAfter? {next : Nat} (hexpr : token.kind.standsInExpr = true)
    (h : token.parensAfter? count = some next) : token.kind.brackets count = next := by
  rw [Token.parensAfter?] at h
  cases hkind : token.kind with
  | symbol sign =>
    rw [hkind] at h hexpr
    cases sign <;>
      first
      | cases hexpr; done
      | simp_all [TokenKind.brackets, Symbol.brackets]
  | _ =>
    rw [hkind] at h
    exact Option.some.inj h

variable [IdentifierTables] {front : List Char} {tabWidth : Nat}

/-- At the start of a line something is read behind a joint, or the text fails in front of it. -/
theorem Joint.exists_cut_fresh (h : Joint joint) (tabWidth : Nat) (blocks : Indentation)
    (hscan : Scans (front ++ joint) run rest token) :
    ∃ tokens error, Cut tabWidth .fresh front blocks (joint ++ (run ++ rest)) tokens error ∧
      (error = none → ∃ token ∈ tokens, token.kind.isLayout = false) := by
  induction h generalizing front with
  | @blanks joint hblanks =>
    by_cases hfits : Fits tabWidth joint
    swap
    · exact ⟨[], _, .of_not_fits hfits, nofun⟩
    cases hmeet : blocks.meet (lineWidth tabWidth joint)
      (Position.first.after (front ++ joint)) with
    | mk answer inner =>
      cases answer with
      | error error => exact ⟨[], _, .unmetLine hblanks hscan.startsCode hfits hmeet, nofun⟩
      | ok marks =>
        obtain ⟨tokens, error, hnext⟩ := Cut.total tabWidth (.inLine (token.kind.brackets 0))
          (front ++ joint ++ run) inner rest
        exact ⟨marks ++ token :: tokens, error, .line hblanks hfits hmeet hscan hnext,
          fun _ => ⟨token, by simp, hscan.isLayout⟩⟩
  | @lineFeed filler joint hfiller _ ih =>
    have hnext : Scans (front ++ filler ++ ['\n'] ++ joint) run rest token := by simpa using hscan
    obtain ⟨tokens, error, hcut, hmore⟩ := ih hnext
    rw [List.append_assoc, List.cons_append]
    by_cases hfits : Fits tabWidth filler
    · exact ⟨tokens, error, .emptyLine hfiller hfits hcut, hmore⟩
    · exact ⟨[], _, .of_not_fits hfits, nofun⟩

/-- What a row starts with is read behind any text. -/
theorem Row.exists_scans (h : Row before run tokens tail) (front : List Char) :
    ∃ first rest token, run = first ++ rest ∧ Scans front first rest token := by
  cases h with
  | last hscan =>
    obtain ⟨other, -, hother⟩ := hscan.alone front
    exact ⟨run, [], other, (List.append_nil _).symm, hother⟩
  | @more _ run joint rest _ token tokens hscan _ _ =>
    obtain ⟨other, -, hother⟩ := hscan.elsewhere front
    exact ⟨run, joint ++ rest, other, rfl, hother⟩

/-- A text that starts with a token, and whose tokens, this one among them, are unclosed. -/
def StaysUnclosed (tabWidth count : Nat) (run : List Char) : Prop :=
  ∀ front, ∃ first rest token tokens error, run = first ++ rest ∧ Scans front first rest token ∧
    Cut tabWidth (.inLine (token.kind.brackets count)) (front ++ first) Indentation.base rest
      tokens error ∧ (error = none → Unclosed count (token :: tokens))

/-- Behind a joint either the line is over too early, or what follows is unclosed. -/
theorem Joint.exists_cut_unclosed (h : Joint joint) (hrow : Row before run tokens tail)
    (hrest : Enclosure.encloses ⟨.code, count⟩ run = false → StaysUnclosed tabWidth count run)
    (henc : Enclosure.encloses ⟨.code, count⟩ (joint ++ run) = false) (front : List Char) :
    ∃ tokens error,
      Cut tabWidth (.inLine count) front Indentation.base (joint ++ run) tokens error ∧
      (error = none → Unclosed count tokens) := by
  induction h generalizing front with
  | @blanks joint hblanks =>
    rw [Enclosure.encloses_blanks hblanks] at henc
    obtain ⟨first, rest, token, others, error, rfl, hscan, hcut, hunclosed⟩ :=
      hrest henc (front ++ joint)
    exact ⟨token :: others, error, .token hblanks hscan hcut, hunclosed⟩
  | @lineFeed filler joint hfiller hjoint ih =>
    rw [List.append_assoc, List.cons_append] at henc ⊢
    cases count with
    | zero =>
      obtain ⟨first, rest, token, rfl, hscan⟩ :=
        hrow.exists_scans (front ++ filler ++ ['\n'] ++ joint)
      obtain ⟨others, error, hcut, hmore⟩ :=
        hjoint.exists_cut_fresh tabWidth Indentation.base hscan
      exact ⟨_, error, .lineEnd hfiller hcut, fun hnone => .of_lineEnd rfl (hmore hnone)⟩
    | succ count =>
      have hbehind : Enclosure.encloses ⟨.code, count + 1⟩ (joint ++ run) = false := by
        rw [← Bool.not_eq_true] at henc ⊢
        exact fun h => henc (hfiller.encloses_iff.mpr ⟨Nat.succ_pos _, h⟩)
      obtain ⟨others, error, hcut, hunclosed⟩ := ih hbehind (front ++ filler ++ ['\n'])
      exact ⟨others, error, .joinedLine hfiller (Nat.succ_pos _) hcut, hunclosed⟩

theorem Row.staysUnclosed (h : Row before run tokens tail)
    (hexpr : ∀ token ∈ tokens, token.kind.standsInExpr = true)
    (henc : Enclosure.encloses ⟨.code, count⟩ run = false) (tabWidth : Nat) :
    StaysUnclosed tabWidth count run := by
  induction h generalizing count with
  | @last before run tail token hscan =>
    intro front
    obtain ⟨other, hkind, hother⟩ := hscan.alone front
    have hfirst := hexpr token List.mem_cons_self
    refine ⟨run, [], other, _, none, (List.append_nil _).symm, hother,
      .lastLine (.of_blanks (List.forall_mem_nil _)), fun _ => .cons hother.isLayout ?_⟩
    intro next hnext
    refine .of_open (List.forall_mem_cons.mpr ⟨rfl, fun _ => isLayout_of_mem_closing⟩) ?_
    rintro rfl
    rw [← List.append_nil run, Bool.eq_false_iff] at henc
    refine henc ((hscan.token_eq.1.encloses_iff hfirst).mpr ⟨0, ?_, rfl⟩)
    rwa [Token.parensAfter?, ← hkind]
  | @more before run joint rest tail token tokens hscan hjoint hrow ih =>
    intro front
    obtain ⟨hfirst, hexpr⟩ := List.forall_mem_cons.mp hexpr
    have hlexeme := hscan.token_eq.1
    obtain ⟨other, hkind, hother⟩ := hscan.elsewhere front
    have hsame : other.parensAfter? count = token.parensAfter? count := by
      rw [Token.parensAfter?, Token.parensAfter?, hkind]
    cases hnext : token.parensAfter? count with
    | none =>
      obtain ⟨others, error, hcut⟩ := Cut.total tabWidth (.inLine (other.kind.brackets count))
        (front ++ run) Indentation.base (joint ++ rest)
      refine ⟨run, joint ++ rest, other, others, error, rfl, hother, hcut,
        fun _ => .cons hother.isLayout fun next heq => ?_⟩
      rw [hsame, hnext] at heq
      cases heq
    | some next =>
      have hbehind : Enclosure.encloses ⟨.code, next⟩ (joint ++ rest) = false := by
        rw [Bool.eq_false_iff] at henc ⊢
        exact fun h => henc ((hlexeme.encloses_iff hfirst).mpr ⟨next, hnext, h⟩)
      obtain ⟨others, error, hcut, hunclosed⟩ :=
        hjoint.exists_cut_unclosed hrow (fun henc => ih hexpr henc) hbehind (front ++ run)
      refine ⟨run, joint ++ rest, other, others, error, rfl, hother, ?_,
        fun hnone => .cons hother.isLayout fun after heq => ?_⟩
      · rw [hkind, Token.brackets_of_parensAfter? hfirst hnext]
        exact hcut
      · rw [hsame, hnext] at heq
        cases heq
        exact hunclosed hnone

/-- A row that does not enclose what it opens has tokens on its own that are of no expression. -/
theorem Row.unclosed_of_tokenize (h : Row before run tokens tail)
    (hexpr : ∀ token ∈ tokens, token.kind.standsInExpr = true)
    (henc : Enclosure.outside.encloses run = false) {others : List Token}
    (hothers : tokenize (String.ofList run) tabWidth = .ok others) : Unclosed 0 others := by
  obtain ⟨first, rest, token, tokens, error, rfl, hscan, hcut, hunclosed⟩ :=
    h.staysUnclosed hexpr henc tabWidth []
  have hall := hscan.cut_text hcut
  rw [← String.toList_ofList (l := first ++ rest)] at hall
  cases error with
  | some error =>
    rw [tokenize_eq_of_cut_error hall] at hothers
    cases hothers
  | none =>
    rw [tokenize_eq_of_cut hall] at hothers
    cases hothers
    exact hunclosed rfl

end

end Offside
