/-
What the text before a stage of cutting is known to be like: what it leaves open, and whether a
line starts behind it.
-/
import Offside.Proofs.Token.Cut
import Offside.Proofs.Token.Enclosure

namespace Offside

/-! ### Filler -/

theorem Enclosure.after_blanks {before blanks : List Char} {brackets : Nat}
    (hbefore : outside.after before = ⟨.code, brackets⟩)
    (hblanks : ∀ c ∈ blanks, Lexer.isBlank c = true) :
    outside.after (before ++ blanks) = ⟨.code, brackets⟩ := by
  rw [after_append, hbefore]
  exact after_of_isInert (fun c hc => isInert_of_isBlank (hblanks c hc)) brackets

/-- Filler leaves the brackets open, and the end of its line is followed by code again. -/
theorem Filler.after_code {filler : List Char} (h : Filler filler) (brackets : Nat) :
    (Enclosure.after ⟨.code, brackets⟩ filler).brackets = brackets ∧
      Enclosure.after ⟨.code, brackets⟩ (filler ++ ['\n']) = ⟨.code, brackets⟩ := by
  have hblank {blanks : List Char} (hblanks : ∀ c ∈ blanks, Lexer.isBlank c = true) :=
    Enclosure.after_of_isInert (fun c hc => Enclosure.isInert_of_isBlank (hblanks c hc)) brackets
  rw [Enclosure.after_append]
  rcases h.cases with hblanks | ⟨blanks, text, rfl, hblanks, htext⟩
  · rw [hblank hblanks]
    exact ⟨rfl, rfl⟩
  · have hcomment : Enclosure.after ⟨.code, brackets⟩ (blanks ++ '#' :: text) =
        ⟨.comment, brackets⟩ := by
      rw [Enclosure.after_append, hblank hblanks]
      exact Enclosure.after_comment htext brackets
    rw [hcomment]
    exact ⟨rfl, rfl⟩

theorem Enclosure.after_filler {before filler : List Char} {brackets : Nat}
    (hbefore : outside.after before = ⟨.code, brackets⟩) (hfiller : Filler filler) :
    (outside.after (before ++ filler)).brackets = brackets ∧
      outside.after (before ++ filler ++ ['\n']) = ⟨.code, brackets⟩ := by
  rw [List.append_assoc, after_append, after_append, hbefore]
  exact hfiller.after_code brackets

/-! ### Stages -/

/-- What is known about the text before a stage. -/
structure Stage.Reached (stage : Stage) (before : List Char) : Prop where
  after : Enclosure.outside.after before = ⟨.code, stage.brackets⟩
  lastLine : stage = .fresh → lastLine before = []
  /-- Inside of a line of tokens only open brackets let another line start. -/
  brackets : stage ≠ .fresh → Offside.lastLine before = [] → 0 < stage.brackets

namespace Stage

variable {before : List Char} {stage : Stage} {brackets : Nat}

theorem Reached.start : Stage.fresh.Reached [] :=
  ⟨rfl, fun _ => rfl, fun h => absurd rfl h⟩

theorem Reached.emptyLine {filler : List Char} (h : Stage.fresh.Reached before)
    (hfiller : Filler filler) : Stage.fresh.Reached (before ++ filler ++ ['\n']) :=
  ⟨(Enclosure.after_filler h.after hfiller).2, fun _ => lastLine_lineFeed _,
    fun hfresh => absurd rfl hfresh⟩

theorem Reached.joinedLine {filler : List Char} (h : (Stage.inLine brackets).Reached before)
    (hfiller : Filler filler) (hopen : 0 < brackets) :
    (Stage.inLine brackets).Reached (before ++ filler ++ ['\n']) :=
  ⟨(Enclosure.after_filler h.after hfiller).2, nofun, fun _ _ => hopen⟩

theorem Reached.lineEnd {filler : List Char} (h : (Stage.inLine 0).Reached before)
    (hfiller : Filler filler) : Stage.fresh.Reached (before ++ filler ++ ['\n']) :=
  ⟨(Enclosure.after_filler h.after hfiller).2, fun _ => lastLine_lineFeed _,
    fun hfresh => absurd rfl hfresh⟩

theorem Reached.scanned [IdentifierTables] {blanks run tail : List Char} {token : Token}
    (h : stage.Reached before) (hblanks : ∀ c ∈ blanks, Lexer.isBlank c = true)
    (hscan : Scans (before ++ blanks) run tail token) :
    (Stage.inLine (token.kind.brackets stage.brackets)).Reached (before ++ blanks ++ run) := by
  obtain ⟨hlexeme, -⟩ := hscan.token_eq
  refine ⟨?_, nofun, fun _ hstart => ?_⟩
  · rw [Enclosure.after_append, Enclosure.after_blanks h.after hblanks]
    exact hlexeme.after_code stage.brackets
  · rw [Offside.lastLine_append hlexeme.lineFeed_not_mem, List.append_eq_nil_iff] at hstart
    exact absurd hstart.2 hscan.run_ne_nil

end Stage

end Offside
