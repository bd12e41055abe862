/-
The places that a lexer tells: where it stands, where its token started, both ends of every token
and the place of every error.  Whatever is asked of a lexer in whatever order, also after errors,
they are the places that the table of lines gives for their byte offsets.
-/
import Offside.Proofs.Source.Positions
import Offside.Proofs.Token.Levels
import Offside.Proofs.Token.Scanning
import Offside.Text.IdentifierRanges
import Offside.Token.Stream

namespace Offside

open String (utf8Len)

variable {text : List Char}

/-- A place that is reached by reading a text from its start. -/
def Position.In (place : Position) (text : List Char) : Prop :=
  ∃ before rest, text = before ++ rest ∧ place = Position.first.after before

/-- A token over a run of a text. -/
def Token.In (token : Token) (text : List Char) : Prop :=
  ∃ before run rest, text = before ++ run ++ rest ∧
    token.span = ⟨Position.first.after before, Position.first.after (before ++ run)⟩

theorem Token.mark_in {place : Position} (h : place.In text) (layout : Layout) :
    (Token.mark layout place).In text := by
  obtain ⟨before, rest, hsplit, rfl⟩ := h
  exact ⟨before, [], rest, by rw [List.append_nil, hsplit], by rw [List.append_nil]; rfl⟩

/-- An answer of a lexer that shows no places but those of a text. -/
def Answered (text : List Char) : Lexer.Answer → Prop
  | .ok (some token) => token.In text
  | .ok none => True
  | .error (.reported error) => error.place.In text
  | .error .overflow => True

namespace Lexer

variable {lexer other after : Lexer} {token : Token} {error : LexicalError}

/-- A lexer that is reading a text: it stands behind a part of it, of which the end is the token
that it has started, and the tokens that are due lie in the text. -/
structure Follows (lexer : Lexer) (text : List Char) : Prop where
  split : ∃ earlier, text = earlier ++ lexer.taken.reverse ++ lexer.rest ∧
    lexer.start = Position.first.after earlier ∧
    lexer.place = Position.first.after (earlier ++ lexer.taken.reverse)
  queue : ∀ token ∈ lexer.queue, token.In text

namespace Follows

theorem ofString (source : String) (tabWidth : Nat) :
    (Lexer.ofString source tabWidth).Follows source.toList :=
  ⟨⟨[], rfl, rfl, rfl⟩, List.forall_mem_nil _⟩

theorem place_in (h : lexer.Follows text) : lexer.place.In text := by
  obtain ⟨earlier, hsplit, -, hplace⟩ := h.split
  exact ⟨_, _, hsplit, hplace⟩

theorem start_in (h : lexer.Follows text) : lexer.start.In text := by
  obtain ⟨earlier, hsplit, hstart, -⟩ := h.split
  exact ⟨earlier, _, hsplit.trans (List.append_assoc _ _ _), hstart⟩

/-- The token that has been started so far. -/
theorem token_in (h : lexer.Follows text) (kind : TokenKind) : (lexer.token kind).In text := by
  obtain ⟨earlier, hsplit, hstart, hplace⟩ := h.split
  refine ⟨earlier, _, _, hsplit, ?_⟩
  rw [← hstart, ← hplace]
  rfl

/-- Where the lexer comes by when it reads on. -/
theorem after_in (h : lexer.Follows text) {passed : List Char} (hpassed : passed <+: lexer.rest) :
    (lexer.place.after passed).In text := by
  obtain ⟨earlier, hsplit, -, hplace⟩ := h.split
  obtain ⟨tail, htail⟩ := hpassed
  refine ⟨earlier ++ lexer.taken.reverse ++ passed, tail, ?_, ?_⟩
  · rw [List.append_assoc, htail]
    exact hsplit
  · rw [Position.after_append, hplace]

/-- Only the text that a lexer is reading and the tokens that are due tell places. -/
theorem congr (h : lexer.Follows text) (hsame : SameText lexer other)
    (hqueue : ∀ token ∈ other.queue, token.In text) : other.Follows text := by
  refine ⟨?_, hqueue⟩
  rw [← hsame.rest, ← hsame.place, ← hsame.start, ← hsame.taken]
  exact h.split

theorem past {run tail : List Char} (h : lexer.Follows text) (hrest : lexer.rest = run ++ tail) :
    (lexer.past run tail).Follows text := by
  obtain ⟨earlier, hsplit, hstart, hplace⟩ := h.split
  refine ⟨⟨earlier, ?_, hstart, ?_⟩, h.queue⟩
  · simp only [Lexer.past, List.reverse_append, List.reverse_reverse]
    rw [hsplit, hrest]
    simp only [List.append_assoc]
  · simp only [Lexer.past, List.reverse_append, List.reverse_reverse, hplace,
      ← Position.after_append, List.append_assoc]

theorem markStart (h : lexer.Follows text) : lexer.markStart.Follows text := by
  obtain ⟨earlier, hsplit, -, hplace⟩ := h.split
  refine ⟨⟨earlier ++ lexer.taken.reverse, ?_, hplace, ?_⟩, h.queue⟩
  · simpa [Lexer.markStart] using hsplit
  · simpa [Lexer.markStart] using hplace

theorem advance (h : lexer.Follows text) : lexer.advance.Follows text := by
  cases hrest : lexer.rest with
  | nil =>
    refine h.congr ?_ h.queue
    constructor <;> simp [Lexer.advance, take, hrest]
  | cons c tail =>
    rw [advance_cons hrest]
    exact h.past hrest

theorem takeWhile (h : lexer.Follows text) (p : Char → Bool) :
    (lexer.takeWhile p).Follows text := by
  obtain ⟨run, tail, hrest, htake, -⟩ := exists_takeWhile lexer p
  rw [htake]
  exact h.past hrest

/-! ### Single tokens -/

theorem scanNumber [IdentifierTables] (h : lexer.Follows text) :
    Answered text ((lexer.scanNumber.1.map some).mapError .reported) ∧
      lexer.scanNumber.2.Follows text := by
  cases hscan : lexer.scanNumber with
  | mk result after =>
    cases result with
    | ok token =>
      obtain ⟨run, tail, isFloat, value, hrest, -, -, -, rfl, rfl⟩ := scanNumber_ok hscan
      exact ⟨(h.past hrest).token_in _, h.past hrest⟩
    | error error =>
      obtain ⟨run, tail, hrest, rfl, rfl⟩ := scanNumber_error hscan
      exact ⟨h.start_in, h.past hrest⟩

theorem scanString (h : lexer.Follows text) :
    Answered text ((lexer.scanString.1.map some).mapError .reported) ∧
      lexer.scanString.2.Follows text := by
  cases hscan : lexer.scanString with
  | mk result after =>
    cases result with
    | ok token =>
      obtain ⟨run, tail, value, hrest, -, rfl, rfl⟩ := scanString_ok hscan
      exact ⟨(h.past hrest).token_in _, h.past hrest⟩
    | error error =>
      obtain ⟨run, tail, hrest, rfl, -, hplace⟩ := scanString_error hscan
      refine ⟨?_, h.past hrest⟩
      rcases hplace with hplace | ⟨passed, hpassed, -, hplace⟩
      · have hin := h.start_in
        rwa [← hplace] at hin
      · have hin := h.after_in (hpassed.trans ⟨tail, hrest.symm⟩)
        rwa [← hplace] at hin

theorem scanToken_ok [IdentifierTables] (h : lexer.Follows text) (hne : lexer.rest ≠ [])
    (hscan : lexer.scanToken = (.ok token, after)) : token.In text ∧ after.Follows text := by
  obtain ⟨run, tail, hrest, -, rfl, htoken⟩ := Lexer.scanToken_readsAs hne hscan
  have hpast := h.markStart.past hrest
  have hafter : ({ lexer.markStart.past run tail with
      brackets := token.kind.brackets lexer.brackets } : Lexer).Follows text :=
    hpast.congr ⟨rfl, rfl, rfl, rfl⟩ hpast.queue
  exact ⟨htoken ▸ hafter.token_in _, hafter⟩

theorem scanToken_error [IdentifierTables] (h : lexer.Follows text)
    (hscan : lexer.scanToken = (.error error, after)) :
    error.place.In text ∧ after.Follows text := by
  obtain ⟨run, tail, hrest, rfl, -, passed, hpassed, -, hplace⟩ := Lexer.scanToken_error hscan
  exact ⟨hplace ▸ h.after_in (hpassed.trans ⟨tail, hrest.symm⟩), h.markStart.past hrest⟩

/-! ### Layout -/

theorem mark_in (h : lexer.Follows text) (layout : Layout) :
    (Token.mark layout lexer.place).In text := Token.mark_in h.place_in layout

theorem finish (h : lexer.Follows text) : lexer.finish.Follows text := by
  refine h.congr ⟨rfl, rfl, rfl, rfl⟩ fun token htoken => ?_
  have hmark : ∃ layout, token = Token.mark layout lexer.place := by
    simp only [Lexer.finish, Indentation.close, List.mem_append, List.mem_replicate,
      List.mem_singleton] at htoken
    rcases htoken with (hend | ⟨-, hdedent⟩) | hlast
    · split at hend
      · exact ⟨_, List.mem_singleton.mp hend⟩
      · cases hend
    · exact ⟨_, hdedent⟩
    · exact ⟨_, hlast⟩
  obtain ⟨layout, rfl⟩ := hmark
  exact h.mark_in layout

end Follows

/-- What a move answers and the lexer that it leaves. -/
def Move.Follows (text : List Char) : Move → Prop
  | .answer result after => Answered text result ∧ after.Follows text
  | .silent after => after.Follows text

theorem Follows.meetLine (h : lexer.Follows text) (width : Nat) :
    Move.Follows text (lexer.meetLine width) := by
  rw [Lexer.meetLine]
  split
  · exact h.congr ⟨rfl, rfl, rfl, rfl⟩ h.queue
  · split
    · exact h.advance
    · split
      · exact h.takeWhile _
      · split
        · next marks blocks hmeet =>
          refine h.congr ⟨rfl, rfl, rfl, rfl⟩ fun token htoken => ?_
          obtain ⟨layout, rfl⟩ := Indentation.eq_mark_of_meet hmeet token htoken
          exact h.mark_in layout
        · next error blocks hmeet =>
          obtain ⟨rfl, -⟩ := Indentation.meet_error hmeet
          exact ⟨h.place_in, h.congr ⟨rfl, rfl, rfl, rfl⟩ h.queue⟩

theorem Follows.measureLine (h : lexer.Follows text) :
    Move.Follows text lexer.measureLine := by
  have hskip : lexer.skipBlanks.Follows text := h.takeWhile isBlank
  rw [Lexer.measureLine]
  split
  · exact hskip.meetLine _
  · exact ⟨trivial, h⟩

variable [IdentifierTables]

theorem Follows.move (h : lexer.Follows text) : Move.Follows text lexer.move := by
  rw [Lexer.move]
  split
  · next token queue hqueue =>
    have hdue := List.forall_mem_cons.mp (hqueue ▸ h.queue)
    exact ⟨hdue.1, h.congr ⟨rfl, rfl, rfl, rfl⟩ hdue.2⟩
  · split
    · exact ⟨trivial, h⟩
    · split
      · exact h.measureLine
      · have hskip : lexer.skipBlanks.Follows text := h.takeWhile isBlank
        dsimp only
        split
        · exact hskip.finish
        · next c cs hrest =>
          split
          · exact hskip.takeWhile _
          · split
            · have hnext := hskip.markStart.advance
              split
              · exact ⟨hnext.token_in _, hnext.congr ⟨rfl, rfl, rfl, rfl⟩ hnext.queue⟩
              · exact hnext
            · split
              · next token after hscan =>
                obtain ⟨htoken, hafter⟩ := hskip.scanToken_ok (by simp [hrest]) hscan
                exact ⟨htoken, hafter.congr ⟨rfl, rfl, rfl, rfl⟩ hafter.queue⟩
              · next error after hscan => exact hskip.scanToken_error hscan

theorem Follows.next (h : lexer.Follows text) :
    Answered text lexer.next.1 ∧ lexer.next.2.Follows text := by
  fun_induction Lexer.next lexer with
  | case1 lexer result after hmove =>
    have := h.move
    rw [hmove] at this
    exact this
  | case2 lexer after hmove ih =>
    have := h.move
    rw [hmove] at this
    exact ih this

/-! ### Any order of operations -/

/-- What can be asked of a lexer. -/
inductive Operation where
  | next
  | advance
  | peek
  | scanNumber
  | scanString
  deriving Repr, DecidableEq

/-- Carry an operation out: the token or failure that it answers with, and the lexer after it. -/
def Operation.perform : Operation → Lexer → Answer × Lexer
  | .next, lexer => lexer.next
  | .advance, lexer => (.ok none, lexer.advance)
  | .peek, lexer => (.ok none, lexer)
  | .scanNumber, lexer =>
    ((lexer.scanNumber.1.map some).mapError .reported, lexer.scanNumber.2)
  | .scanString, lexer =>
    ((lexer.scanString.1.map some).mapError .reported, lexer.scanString.2)

/-- A lexer after operations in their order. -/
def performAll (lexer : Lexer) (operations : List Operation) : Lexer :=
  operations.foldl (fun lexer operation => (operation.perform lexer).2) lexer

theorem Follows.perform (h : lexer.Follows text) (operation : Operation) :
    Answered text (operation.perform lexer).1 ∧ (operation.perform lexer).2.Follows text := by
  cases operation with
  | next => exact h.next
  | advance => exact ⟨trivial, h.advance⟩
  | peek => exact ⟨trivial, h⟩
  | scanNumber => exact h.scanNumber
  | scanString => exact h.scanString

theorem Follows.performAll (h : lexer.Follows text) (operations : List Operation) :
    (lexer.performAll operations).Follows text := by
  induction operations generalizing lexer with
  | nil => exact h
  | cons operation operations ih => exact ih (h.perform operation).2

end Lexer

/-! ### Agreement with the table of lines -/

/-- A place between two characters of a source, or at one of its ends, with the line and the
column that the table of lines gives for its offset: one line per line feed before it, and one
column per character behind the last of them. -/
structure SourceText.Shows (source : SourceText) (place : Position) : Prop where
  lookup : source.positionAt? place.offset = some place
  cut : ∃ before rest, source.content.toList = before ++ rest ∧
    place = ⟨1 + before.count '\n', 1 + (lastLine before).length, utf8Len before⟩

theorem SourceText.shows_of_in {source : SourceText} {place : Position}
    (h : place.In source.content.toList) : source.Shows place := by
  obtain ⟨before, rest, hsplit, rfl⟩ := h
  refine ⟨positionAt?_after hsplit, before, rest, hsplit, ?_⟩
  rw [← Position.column_after_first, ← Position.offset_after_first]
  exact congrArg (fun line => (⟨line, _, _⟩ : Position)) (Position.line_after _ _)

/-- Whatever has been asked of a lexer before, the place where it stands and the place where its
token started are places that its source shows, in this order; and so are both ends of the token
and the place of the error with which it answers the next question. -/
theorem Lexer.shows_performAll [IdentifierTables] (source : SourceText) (tabWidth : Nat)
    (earlier : List Lexer.Operation) (operation : Lexer.Operation) :
    let lexer := (Lexer.ofString source.content tabWidth).performAll earlier
    source.Shows lexer.place ∧ source.Shows lexer.start ∧
    lexer.start.offset ≤ lexer.place.offset ∧
    (∀ token, (operation.perform lexer).1 = .ok (some token) →
      source.Shows token.span.start ∧ source.Shows token.span.stop ∧
        token.span.start.offset ≤ token.span.stop.offset) ∧
    (∀ error, (operation.perform lexer).1 = .error (.reported error) →
      source.Shows error.place) := by
  intro lexer
  have h : lexer.Follows source.content.toList :=
    (Lexer.Follows.ofString source.content tabWidth).performAll earlier
  have hanswer := (h.perform operation).1
  refine ⟨SourceText.shows_of_in h.place_in, SourceText.shows_of_in h.start_in, ?_, ?_, ?_⟩
  · obtain ⟨before, -, hstart, hplace⟩ := h.split
    rw [hplace, Position.after_append, ← hstart]
    exact Position.offset_after_le _ _
  · intro token htoken
    rw [htoken] at hanswer
    obtain ⟨before, run, rest, hsplit, hspan⟩ := hanswer
    rw [hspan]
    refine ⟨?_, ?_, ?_⟩
    · exact SourceText.shows_of_in ⟨before, _, hsplit.trans (List.append_assoc _ _ _), rfl⟩
    · exact SourceText.shows_of_in ⟨_, rest, hsplit, rfl⟩
    · rw [Position.after_append]
      exact Position.offset_after_le _ _
  · intro error herror
    rw [herror] at hanswer
    exact SourceText.shows_of_in hanswer

namespace PlacesWitness

/-- A letter of two bytes, a string literal without its end, and a word on the next line. -/
def source : SourceText := ⟨"letters", "é \"x\nab"⟩

def earlier : List Lexer.Operation := [.next, .peek, .next, .advance]

def word : Token := ⟨.identifier "ab", "ab", ⟨⟨2, 1, 6⟩, ⟨2, 3, 8⟩⟩⟩

/-- The error of the literal, and the word behind it after the rest of its line was skipped. -/
theorem shows_literal_and_word :
    ((Lexer.Operation.next.perform
        ((Lexer.ofString source.content 4).performAll [.next, .peek])).1 =
      .error (.reported (.unterminatedString ⟨1, 3, 3⟩)) ∧ source.Shows ⟨1, 3, 3⟩) ∧
    ((Lexer.Operation.next.perform ((Lexer.ofString source.content 4).performAll earlier)).1 =
      .ok (some word) ∧ source.Shows ⟨2, 1, 6⟩ ∧ source.Shows ⟨2, 3, 8⟩) := by
  have hliteral : (Lexer.Operation.next.perform
      ((Lexer.ofString source.content 4).performAll [.next, .peek])).1 =
      .error (.reported (.unterminatedString ⟨1, 3, 3⟩)) := by decide +kernel
  have hword : (Lexer.Operation.next.perform
      ((Lexer.ofString source.content 4).performAll earlier)).1 = .ok (some word) := by
    decide +kernel
  obtain ⟨-, -, -, -, herror⟩ := Lexer.shows_performAll source 4 [.next, .peek] .next
  obtain ⟨-, -, -, htoken, -⟩ := Lexer.shows_performAll source 4 earlier .next
  obtain ⟨hstart, hstop, -⟩ := htoken word hword
  exact ⟨⟨hliteral, herror _ hliteral⟩, hword, hstart, hstop⟩

end PlacesWitness

end Offside
