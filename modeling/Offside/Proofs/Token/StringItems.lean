/-
String literals where they stand in a text.  Behind the opening quote there are items, each a
character or a backslash with a letter.  They lead to the closing quote, to the end of the line, or
to a backslash with a character that means nothing there, and that alone says what is read.
-/
import Offside.Proofs.Token.Moves
import Offside.Proofs.Token.Words
import Offside.Text.IdentifierRanges

namespace Offside

/-! ### Items -/

/-- The characters that mean something behind a backslash, each with what they mean. -/
def escapes : List (Char × Char) :=
  [('"', '"'), ('\\', '\\'), ('n', '\n'), ('t', '\t'), ('r', '\r')]

theorem mem_escapes {c meant : Char} :
    (c, meant) ∈ escapes ↔ Quoted.unescape? c = some meant := by
  constructor
  · have hentries : ∀ entry ∈ escapes, Quoted.unescape? entry.1 = some entry.2 := by decide
    exact hentries (c, meant)
  · intro h
    unfold Quoted.unescape? at h
    split at h <;> cases h <;> decide

/-- Items of a string literal, with the characters that they stand for. -/
inductive StringItems : List Char → List Char → Prop
  | nil : StringItems [] []
  | plain {c : Char} {items value : List Char} (hquote : c ≠ '"') (hescape : c ≠ '\\')
    (hline : c ≠ '\n') (h : StringItems items value) : StringItems (c :: items) (c :: value)
  | escaped {c meant : Char} {items value : List Char} (hmem : (c, meant) ∈ escapes)
    (h : StringItems items value) : StringItems ('\\' :: c :: items) (meant :: value)

/-- Where items stand, and what ends them, if it is no closing quote and no item either. -/
inductive BreaksOff : List Char → Prop
  | line {stop : List Char} (h : LineEnds stop) : BreaksOff stop
  | escape {tail : List Char} (h : LineEnds tail) : BreaksOff ('\\' :: tail)

variable {items value rest stop tail : List Char} {c : Char}

theorem StringItems.stringBody (h : StringItems items value) :
    StringBody (items ++ ['"']) value := by
  induction h with
  | nil => exact .close
  | plain hquote hescape hline _ ih => exact .plain hquote hescape hline ih
  | escaped hmem _ ih => exact .escaped (mem_escapes.mp hmem) ih

theorem StringBody.exists_items {body : List Char} (h : StringBody body value) :
    ∃ items, body = items ++ ['"'] ∧ StringItems items value := by
  induction h with
  | close => exact ⟨[], rfl, .nil⟩
  | plain hquote hescape hline _ ih =>
    obtain ⟨items, rfl, hitems⟩ := ih
    exact ⟨_, rfl, .plain hquote hescape hline hitems⟩
  | escaped hc _ ih =>
    obtain ⟨items, rfl, hitems⟩ := ih
    exact ⟨_, rfl, .escaped (mem_escapes.mpr hc) hitems⟩

namespace Lexer

/-- Items are read on the way to what stands behind them. -/
theorem stringRun_items (h : StringItems items value) (rest : List Char) :
    stringRun (items ++ rest) = ⟨(stringRun rest).ending, value ++ (stringRun rest).value,
      items.length + (stringRun rest).length⟩ := by
  induction h with
  | nil => simp
  | plain hquote hescape hline _ ih =>
    rw [List.cons_append, stringRun, ih]
    · simp [StringRun.push]
      omega
    all_goals simp_all
  | escaped hmem _ ih =>
    have hc := mem_escapes.mp hmem
    rw [List.cons_append, List.cons_append, stringRun]
    · simp [hc, ih, StringRun.push]
      omega
    · exact StringBody.ne_lineFeed_of_unescape? hc

theorem stringRun_of_breaksOff (h : BreaksOff stop) :
    (stringRun stop).ending = .unterminated := by
  rcases h with (rfl | ⟨cs, rfl⟩) | (rfl | ⟨cs, rfl⟩) <;> rfl

theorem stringRun_of_not_escape (hline : c ≠ '\n') (hescape : ∀ meant, (c, meant) ∉ escapes) :
    stringRun ('\\' :: c :: tail) = ⟨.badEscape c, [], 1⟩ := by
  have hnone : Quoted.unescape? c = none :=
    Option.eq_none_iff_forall_ne_some.mpr fun meant h => hescape meant (mem_escapes.mpr h)
  rw [stringRun, hnone]
  exact hline

/-- Behind as many items as there are, something ends them. -/
theorem exists_items (rest : List Char) :
    ∃ items value stop, StringItems items value ∧ rest = items ++ stop ∧
      ((∃ tail, stop = '"' :: tail) ∨ BreaksOff stop ∨
        ∃ c tail, stop = '\\' :: c :: tail ∧ c ≠ '\n' ∧ ∀ meant, (c, meant) ∉ escapes) := by
  fun_induction stringRun rest with
  | case1 => exact ⟨[], [], [], .nil, rfl, .inr (.inl (.line (.inl rfl)))⟩
  | case2 tail => exact ⟨[], [], _, .nil, rfl, .inr (.inl (.line (.inr ⟨tail, rfl⟩)))⟩
  | case3 tail => exact ⟨[], [], _, .nil, rfl, .inl ⟨tail, rfl⟩⟩
  | case4 => exact ⟨[], [], _, .nil, rfl, .inr (.inl (.escape (.inl rfl)))⟩
  | case5 tail => exact ⟨[], [], _, .nil, rfl, .inr (.inl (.escape (.inr ⟨tail, rfl⟩)))⟩
  | case6 c rest hline meant hmeant ih =>
    obtain ⟨items, value, stop, hitems, rfl, hstop⟩ := ih
    exact ⟨_, _, stop, .escaped (mem_escapes.mpr hmeant) hitems, rfl, hstop⟩
  | case7 c rest hline hnone =>
    refine ⟨[], [], _, .nil, rfl, .inr (.inr ⟨c, rest, rfl, hline, fun meant hmem => ?_⟩)⟩
    rw [mem_escapes, hnone] at hmem
    cases hmem
  | case8 c rest hline hquote hend hnext hescape ih =>
    obtain ⟨items, value, stop, hitems, rfl, hstop⟩ := ih
    -- a backslash here would have been one of the cases before
    have hslash : c ≠ '\\' := by
      rintro rfl
      cases hrest : items ++ stop with
      | nil => exact hend rfl hrest
      | cons d others => exact hescape d others rfl hrest
    exact ⟨_, _, stop, .plain hquote hslash hline hitems, rfl, hstop⟩

/-! ### Reading a literal -/

variable {lexer begun : Lexer}

/-- A quote in front makes a string literal. -/
theorem scanToken_quote [IdentifierTables] (hrest : begun.rest = '"' :: rest) :
    begun.scanToken = (begun.markStart.past ['"'] rest).scanString := by
  have hbegun : begun.markStart.rest = '"' :: rest := hrest
  rw [scanToken]
  dsimp only
  rw [hbegun]
  dsimp only
  rw [if_neg (by simp), if_neg (by decide), if_pos (by decide), advance_cons hbegun]

section

variable (hitems : StringItems items value) (hrest : lexer.rest = items ++ stop)

include hitems hrest

theorem scanString_of_closed (hstop : stop = '"' :: tail) :
    lexer.scanString = (.ok ((lexer.past (items ++ ['"']) tail).token
      (.literal (.str (String.ofList value)))), lexer.past (items ++ ['"']) tail) := by
  have hsplit : lexer.rest = (items ++ ['"']) ++ tail := by
    rw [hrest, hstop, List.append_assoc]
    rfl
  have hrun := stringRun_of_stringBody hitems.stringBody tail
  rw [← hsplit] at hrun
  rw [scanString, hrun]
  dsimp only
  rw [take_length hsplit]

theorem scanString_of_breaksOff (hstop : BreaksOff stop) :
    lexer.scanString.1 = .error (.unterminatedString lexer.start) := by
  rw [scanString, hrest, stringRun_items hitems]
  dsimp only
  rw [stringRun_of_breaksOff hstop]

theorem scanString_of_not_escape (hstop : stop = '\\' :: c :: tail) (hline : c ≠ '\n')
    (hescape : ∀ meant, (c, meant) ∉ escapes) :
    lexer.scanString.1 = .error (.invalidEscape c (lexer.place.after items)) := by
  rw [scanString, hrest, stringRun_items hitems, hstop, stringRun_of_not_escape hline hescape]
  dsimp only
  rw [Nat.add_sub_cancel, take_length hrest]
  rfl

end

/-- From a quote on, a call that comes to a token there reads items as far as they go.  Behind them
it finds the closing quote, and answers with the characters that the items stand for; or the end of
the line, maybe behind a backslash, and the literal is unterminated from where it starts; or a
backslash with a character that means nothing there, and the escape is at fault from the backslash
on. -/
theorem Begins.next_of_quote [IdentifierTables] (h : lexer.Begins begun)
    (hrest : begun.rest = '"' :: rest) :
    (∀ items value stop, StringItems items value → rest = items ++ stop →
      (∀ tail, stop = '"' :: tail →
        lexer.next.1 = .ok (some ⟨.literal (.str (String.ofList value)),
          String.ofList ('"' :: (items ++ ['"'])),
          ⟨begun.place, begun.place.after ('"' :: (items ++ ['"']))⟩⟩) ∧
        lexer.next.2.rest = tail ∧
        lexer.next.2.place = begun.place.after ('"' :: (items ++ ['"']))) ∧
      (BreaksOff stop → lexer.next.1 = .error (.reported (.unterminatedString begun.place))) ∧
      (∀ c tail, stop = '\\' :: c :: tail → c ≠ '\n' → (∀ meant, (c, meant) ∉ escapes) →
        lexer.next.1 = .error (.reported (.invalidEscape c (begun.place.after ('"' :: items)))))) ∧
    ∃ items value stop, StringItems items value ∧ rest = items ++ stop ∧
      ((∃ tail, stop = '"' :: tail) ∨ BreaksOff stop ∨
        ∃ c tail, stop = '\\' :: c :: tail ∧ c ≠ '\n' ∧ ∀ meant, (c, meant) ∉ escapes) := by
  refine ⟨fun items value stop hitems hsplit => ?_, exists_items rest⟩
  have hopened : (begun.markStart.past ['"'] rest).rest = items ++ stop := hsplit
  rw [h.next_eq, readToken_answer, readToken_rest, readToken_place, scanToken_quote hrest]
  refine ⟨fun tail hstop => ?_, fun hstop => ?_, fun c tail hstop hline hescape => ?_⟩
  · rw [scanString_of_closed hitems hopened hstop, past_past]
    refine ⟨?_, rfl, rfl⟩
    simp [Except.map, Except.mapError, token, lexeme, span, past, markStart]
  · rw [scanString_of_breaksOff hitems hopened hstop]
    rfl
  · rw [scanString_of_not_escape hitems hopened hstop hline hescape]
    rfl

end Lexer

namespace StringItemsWitness

/-- A literal with a plain character and two escapes, and a name behind it. -/
def closed : String := "\"a\\n\\\\\" x"

/-- A literal that its line leaves open behind a backslash. -/
def broken : String := "\"a\\\n\""

/-- A literal with a letter that means nothing behind a backslash. -/
def misspelt : String := "\"a\\q\""

theorem next_of_closed_broken_and_misspelt :
    (∃ begun, (Lexer.ofString closed 4).Begins begun ∧
      begun.rest = '"' :: "a\\n\\\\\" x".toList ∧
      StringItems "a\\n\\\\".toList "a\n\\".toList ∧
      (Lexer.ofString closed 4).next.1 = .ok (some
        ⟨.literal (.str "a\n\\"), "\"a\\n\\\\\"", ⟨⟨1, 1, 0⟩, ⟨1, 8, 7⟩⟩⟩) ∧
      (Lexer.ofString closed 4).next.2.rest = " x".toList) ∧
    (∃ begun, (Lexer.ofString broken 4).Begins begun ∧
      begun.rest = '"' :: "a\\\n\"".toList ∧ BreaksOff "\\\n\"".toList ∧
      (Lexer.ofString broken 4).next.1 = .error (.reported (.unterminatedString ⟨1, 1, 0⟩))) ∧
    ∃ begun, (Lexer.ofString misspelt 4).Begins begun ∧
      begun.rest = '"' :: "a\\q\"".toList ∧ (∀ meant, ('q', meant) ∉ escapes) ∧
      (Lexer.ofString misspelt 4).next.1 = .error (.reported (.invalidEscape 'q' ⟨1, 3, 2⟩)) := by
  have hplain : StringItems ['a'] ['a'] := .plain (by decide) (by decide) (by decide) .nil
  refine ⟨?_, ?_, ?_⟩
  · have hbegins := Lexer.begins_ofString 4 (show startsCode closed.toList = true by decide +kernel)
    have hquote : closed.toList = '"' :: "a\\n\\\\\" x".toList := by decide +kernel
    have hitems : StringItems "a\\n\\\\".toList "a\n\\".toList :=
      .plain (by decide) (by decide) (by decide)
        (.escaped (by decide) (.escaped (by decide) .nil))
    have hsplit : "a\\n\\\\\" x".toList = "a\\n\\\\".toList ++ '"' :: " x".toList := by
      decide +kernel
    obtain ⟨hanswer, hrest, -⟩ :=
      ((hbegins.next_of_quote hquote).1 _ _ _ hitems hsplit).1 _ rfl
    refine ⟨_, hbegins, hquote, hitems, ?_, hrest⟩
    rw [hanswer]
    decide +kernel
  · have hbegins := Lexer.begins_ofString 4 (show startsCode broken.toList = true by decide +kernel)
    have hquote : broken.toList = '"' :: "a\\\n\"".toList := by decide +kernel
    have hstop : BreaksOff "\\\n\"".toList := .escape (.inr ⟨['"'], rfl⟩)
    have hsplit : "a\\\n\"".toList = ['a'] ++ "\\\n\"".toList := by decide +kernel
    refine ⟨_, hbegins, hquote, hstop, ?_⟩
    rw [((hbegins.next_of_quote hquote).1 _ _ _ hplain hsplit).2.1 hstop]
    decide +kernel
  · have hbegins :=
      Lexer.begins_ofString 4 (show startsCode misspelt.toList = true by decide +kernel)
    have hquote : misspelt.toList = '"' :: "a\\q\"".toList := by decide +kernel
    have hescape : ∀ meant, ('q', meant) ∉ escapes := by
      intro meant hmem
      rw [mem_escapes] at hmem
      cases hmem
    have hsplit : "a\\q\"".toList = ['a'] ++ '\\' :: 'q' :: ['"'] := by decide +kernel
    refine ⟨_, hbegins, hquote, hescape, ?_⟩
    rw [((hbegins.next_of_quote hquote).1 _ _ _ hplain hsplit).2.2 'q' ['"'] rfl (by decide)
      hescape]
    decide +kernel

end StringItemsWitness

end Offside
