/-
What the readers of single tokens do with the text in front of them: the run that they take, the
token or the error that they answer with, and the lexer that they leave.
-/
import Mathlib.Data.List.TakeWhile
import Offside.Proofs.Token.Lexeme

namespace Offside

/-- Whether an error comes from the characters of a text, whatever its layout. -/
def LexicalError.isFault : LexicalError → Bool
  | .inconsistentDedent _ _ => false
  | _ => true

/-- A text in front of which a run of this class ends. -/
def EndsRun (p : Char → Bool) (tail : List Char) : Prop := ∀ c cs, tail = c :: cs → p c = false

/-- The longest run of a class. -/
theorem exists_run (p : Char → Bool) (cs : List Char) :
    ∃ run tail, cs = run ++ tail ∧ run = cs.takeWhile p ∧ tail = cs.dropWhile p ∧
      (∀ c ∈ run, p c = true) ∧ EndsRun p tail := by
  refine ⟨_, _, List.takeWhile_append_dropWhile.symm, rfl, rfl,
    fun c hc => List.mem_takeWhile_imp hc, fun c others htail => ?_⟩
  have hhead := List.head?_dropWhile_not p cs
  simpa [htail] using hhead

namespace EndsRun

variable {p : Char → Bool} {run other tail otherTail : List Char}

theorem span (htail : EndsRun p tail) (hrun : ∀ c ∈ run, p c = true) :
    (run ++ tail).takeWhile p = run ∧ (run ++ tail).dropWhile p = tail := by
  rw [List.takeWhile_append_of_pos hrun, List.dropWhile_append_of_pos hrun]
  cases tail with
  | nil => exact ⟨List.append_nil _, rfl⟩
  | cons c cs =>
    have hc : ¬ p c = true := by simp [htail c cs rfl]
    rw [List.takeWhile_cons_of_neg hc, List.dropWhile_cons_of_neg hc, List.append_nil]
    exact ⟨rfl, rfl⟩

/-- A text is cut in one way only into a run and what ends it. -/
theorem append_inj (htail : EndsRun p tail) (hother : EndsRun p otherTail)
    (hrun : ∀ c ∈ run, p c = true) (hrun' : ∀ c ∈ other, p c = true)
    (h : run ++ tail = other ++ otherTail) : run = other ∧ tail = otherTail := by
  obtain ⟨hfirst, hrest⟩ := htail.span hrun
  obtain ⟨hfirst', hrest'⟩ := hother.span hrun'
  rw [h] at hfirst hrest
  exact ⟨hfirst.symm.trans hfirst', hrest.symm.trans hrest'⟩

end EndsRun

namespace Lexer

variable {lexer after : Lexer} {token : Token} {error : LexicalError}

/-! ### Taking a run -/

/-- A lexer that has read a run of its text. -/
def past (lexer : Lexer) (run tail : List Char) : Lexer :=
  { lexer with
    rest := tail
    place := lexer.place.after run
    taken := run.reverse ++ lexer.taken }

theorem past_past (lexer : Lexer) (first second middle tail : List Char) :
    (lexer.past first middle).past second tail = lexer.past (first ++ second) tail := by
  simp [past, Position.after_append]

theorem take_length {run tail : List Char} (h : lexer.rest = run ++ tail) :
    lexer.take run.length = lexer.past run tail := by
  simp [take, past, h]

theorem advance_cons {c : Char} {tail : List Char} (h : lexer.rest = c :: tail) :
    lexer.advance = lexer.past [c] tail :=
  take_length (show lexer.rest = [c] ++ tail from h)

theorem exists_takeWhile (lexer : Lexer) (p : Char → Bool) :
    ∃ run tail, lexer.rest = run ++ tail ∧ lexer.takeWhile p = lexer.past run tail ∧
      (∀ c ∈ run, p c = true) ∧ EndsRun p tail := by
  obtain ⟨run, tail, hrest, hrun, -, hall, hstop⟩ := exists_run p lexer.rest
  refine ⟨run, tail, hrest, ?_, hall, hstop⟩
  rw [takeWhile, ← hrun]
  exact take_length hrest

/-- A run of a class is taken up to the first character that is not in it. -/
theorem takeWhile_of_split {p : Char → Bool} {run tail : List Char}
    (hrest : lexer.rest = run ++ tail) (hrun : ∀ c ∈ run, p c = true) (htail : EndsRun p tail) :
    lexer.rest.takeWhile p = run ∧ lexer.takeWhile p = lexer.past run tail := by
  have hrunEq : lexer.rest.takeWhile p = run := by
    rw [hrest, List.takeWhile_append_of_pos hrun]
    cases tail with
    | nil => simp
    | cons c cs => rw [List.takeWhile_cons_of_neg (by simp [htail c cs rfl]), List.append_nil]
  refine ⟨hrunEq, ?_⟩
  rw [takeWhile, hrunEq]
  exact take_length hrest

/-! ### Numbers -/

/-- Digits with at most one point, and whether they have it. -/
inductive IsNumeral : List Char → Bool → Prop
  | whole {run : List Char} (hrun : ∀ c ∈ run, c.isDigit = true) : IsNumeral run false
  | point {whole places : List Char} (hwhole : ∀ c ∈ whole, c.isDigit = true)
    (hplaces : ∀ c ∈ places, c.isDigit = true) : IsNumeral (whole ++ '.' :: places) true

theorem IsNumeral.isDigit_or_point {run : List Char} {isFloat : Bool} (h : IsNumeral run isFloat) :
    ∀ c ∈ run, c.isDigit = true ∨ c = '.' := by
  cases h with
  | whole hrun => exact fun c hc => .inl (hrun c hc)
  | point hwhole hplaces =>
    exact List.forall_mem_append.mpr ⟨fun c hc => .inl (hwhole c hc),
      List.forall_mem_cons.mpr ⟨.inr rfl, fun c hc => .inl (hplaces c hc)⟩⟩

/-- The value of a numeral. -/
def numeral? (isFloat : Bool) (text : List Char) : Option Literal :=
  if isFloat then (Decimal.readFloat? text).map .float else (Decimal.readInt? text).map .int

theorem exists_numberRun (cs : List Char) :
    ∃ run tail, cs = run ++ tail ∧ run.length = (numberRun cs).1 ∧
      IsNumeral run (numberRun cs).2 := by
  have hwhole : cs = cs.takeWhile Char.isDigit ++ cs.drop (cs.takeWhile Char.isDigit).length :=
    (List.prefix_iff_eq_append.mp (List.takeWhile_prefix _)).symm
  have hdigit (text : List Char) : ∀ c ∈ text.takeWhile Char.isDigit, c.isDigit = true :=
    fun c hc => List.mem_takeWhile_imp hc
  unfold numberRun
  dsimp only
  split
  · next places hplaces =>
    rw [hplaces] at hwhole
    refine ⟨cs.takeWhile Char.isDigit ++ '.' :: places.takeWhile Char.isDigit,
      places.dropWhile Char.isDigit, ?_, ?_, .point (hdigit _) (hdigit _)⟩
    · rw [List.append_assoc, List.cons_append, List.takeWhile_append_dropWhile]
      exact hwhole
    · simp only [List.length_append, List.length_cons]
      omega
  · exact ⟨_, _, hwhole, rfl, .whole (hdigit _)⟩

/-- A number is read as a numeral that has a value, and nothing is glued to it. -/
theorem scanNumber_ok [IdentifierTables] (h : lexer.scanNumber = (.ok token, after)) :
    ∃ run tail isFloat value, lexer.rest = run ++ tail ∧ IsNumeral run isFloat ∧
      numeral? isFloat (lexer.taken.reverse ++ run) = some value ∧ EndsRun isNumberChar tail ∧
      after = lexer.past run tail ∧ token = after.token (.literal value) := by
  obtain ⟨run, tail, hrest, hlength, hrun⟩ := exists_numberRun lexer.rest
  rw [scanNumber] at h
  dsimp only at h
  rw [← hlength, take_length hrest] at h
  split at h
  · cases h
  · next hnext =>
    have hstop : EndsRun isNumberChar tail := by
      rintro c cs rfl
      simpa [past] using hnext
    split at h
    · next value hvalue =>
      cases h
      refine ⟨run, tail, _, value, hrest, hrun, ?_, hstop, rfl, rfl⟩
      rw [← hvalue, numeral?]
      simp [past]
    · cases h

/-- A malformed number is taken as a whole and reported where it starts. -/
theorem scanNumber_error [IdentifierTables] (h : lexer.scanNumber = (.error error, after)) :
    ∃ run tail, lexer.rest = run ++ tail ∧ after = lexer.past run tail ∧
      error = .invalidNumber after.lexeme lexer.start := by
  obtain ⟨run, tail, hrest, hlength, -⟩ := exists_numberRun lexer.rest
  rw [scanNumber] at h
  dsimp only at h
  rw [← hlength, take_length hrest] at h
  split at h
  · obtain ⟨more, others, hmore, hpast, -⟩ := exists_takeWhile (lexer.past run tail) isNumberChar
    rw [hpast, past_past] at h
    cases h
    refine ⟨run ++ more, others, ?_, rfl, rfl⟩
    rw [hrest, List.append_assoc, ← show tail = more ++ others from hmore]
  · split at h
    · cases h
    · cases h
      exact ⟨run, tail, hrest, rfl, rfl⟩

/-! ### String literals -/

/-- What is taken of a string literal is a run of its line, and its whole body if it is closed. -/
theorem exists_stringRun (cs : List Char) :
    ∃ run tail, cs = run ++ tail ∧ run.length = (stringRun cs).length ∧ '\n' ∉ run ∧
      ((stringRun cs).ending = .closed → StringBody run (stringRun cs).value) := by
  fun_induction stringRun cs with
  | case1 => exact ⟨[], [], rfl, rfl, by decide, nofun⟩
  | case2 tail => exact ⟨[], _, rfl, rfl, by decide, nofun⟩
  | case3 tail => exact ⟨['"'], tail, rfl, rfl, by decide, fun _ => .close⟩
  | case4 => exact ⟨['\\'], [], rfl, rfl, by decide, nofun⟩
  | case5 tail => exact ⟨['\\'], _, rfl, rfl, by decide, nofun⟩
  | case6 c rest hline meant hmeant ih =>
    obtain ⟨run, tail, rfl, hlength, hrun, hbody⟩ := ih
    refine ⟨'\\' :: c :: run, tail, rfl, congrArg (· + 2) hlength, ?_,
      fun hclosed => .escaped hmeant (hbody hclosed)⟩
    simp [hrun, Ne.symm hline]
  | case7 c rest => exact ⟨['\\'], c :: rest, rfl, rfl, by decide, nofun⟩
  | case8 c rest hline hquote hend hnext hescape ih =>
    obtain ⟨run, tail, rfl, hlength, hrun, hbody⟩ := ih
    have hslash : c ≠ '\\' := by
      rintro rfl
      cases hrest : run ++ tail with
      | nil => exact hend rfl hrest
      | cons d others => exact hescape d others rfl hrest
    refine ⟨c :: run, tail, rfl, congrArg (· + 1) hlength, ?_,
      fun hclosed => .plain hquote hslash hline (hbody hclosed)⟩
    simp [hrun, Ne.symm hline]

/-- A string literal is read up to its closing quote. -/
theorem scanString_ok (h : lexer.scanString = (.ok token, after)) :
    ∃ run tail value, lexer.rest = run ++ tail ∧ StringBody run value ∧
      after = lexer.past run tail ∧
      token = after.token (.literal (.str (String.ofList value))) := by
  obtain ⟨run, tail, hrest, hlength, -, hbody⟩ := exists_stringRun lexer.rest
  rw [scanString, ← hlength, take_length hrest] at h
  split at h
  · next hending =>
    cases h
    exact ⟨run, tail, _, hrest, hbody hending, rfl, rfl⟩
  · cases h
  · cases h

/-- A faulty string literal is reported where it starts or at a place inside of it. -/
theorem scanString_error (h : lexer.scanString = (.error error, after)) :
    ∃ run tail, lexer.rest = run ++ tail ∧ after = lexer.past run tail ∧ error.isFault = true ∧
      (error.place = lexer.start ∨
        ∃ passed, passed <+: run ∧ '\n' ∉ passed ∧ error.place = lexer.place.after passed) := by
  obtain ⟨run, tail, hrest, hlength, hrun, -⟩ := exists_stringRun lexer.rest
  rw [scanString, ← hlength, take_length hrest] at h
  split at h
  · cases h
  · cases h
    exact ⟨run, tail, hrest, rfl, rfl, .inl rfl⟩
  · cases h
    refine ⟨run, tail, hrest, rfl, rfl, .inr ⟨run.take (run.length - 1), List.take_prefix _ _,
      fun hmem => hrun (List.mem_of_mem_take hmem), ?_⟩⟩
    simp only [LexicalError.place, take, hrest]
    rw [List.take_append_of_le_length (Nat.sub_le _ _)]

/-! ### Tokens -/

section

variable [IdentifierTables]

/-- The text of a token in front of what stands behind it, together with the kind that it makes. -/
inductive ReadsAs : List Char → List Char → TokenKind → Prop
  | word {c : Char} {cs tail : List Char} (hstart : isIdentifierStart c = true)
    (hrest : ∀ d ∈ cs, isIdentifierChar d = true) (hstop : EndsRun isIdentifierChar tail) :
    ReadsAs (c :: cs) tail (.ofWord (String.ofList (c :: cs)))
  | number {c : Char} {cs tail : List Char} {isFloat : Bool} {value : Literal}
    (hdigit : c.isDigit = true) (hrest : IsNumeral cs isFloat)
    (hvalue : numeral? isFloat (c :: cs) = some value) (hstop : EndsRun isNumberChar tail) :
    ReadsAs (c :: cs) tail (.literal value)
  | string {body value tail : List Char} (h : StringBody body value) :
    ReadsAs ('"' :: body) tail (.literal (.str (String.ofList value)))
  | symbol {sign : Symbol} {tail : List Char}
    (hlongest : Symbol.longest? (sign.text.toList ++ tail) = some sign) :
    ReadsAs sign.text.toList tail (.symbol sign)

theorem ReadsAs.isLexeme {run tail : List Char} {kind : TokenKind}
    (h : ReadsAs run tail kind) :
    IsLexeme run kind := by
  cases h with
  | word hstart hrest => exact .word hstart hrest
  | number hdigit hrest => exact .number _ hdigit hrest.isDigit_or_point
  | string h => exact .string h
  | symbol => exact .symbol _

/-- A token is read in front of other characters as well, if they too end words and numbers and
make no symbol longer. -/
theorem ReadsAs.inFrontOf {run tail back : List Char} {kind : TokenKind}
    (h : ReadsAs run tail kind)
    (hword : EndsRun isIdentifierChar tail → EndsRun isIdentifierChar back)
    (hnumber : EndsRun isNumberChar tail → EndsRun isNumberChar back)
    (hsymbol : ∀ sign, Symbol.longest? (sign.text.toList ++ tail) = some sign →
      Symbol.longest? (sign.text.toList ++ back) = some sign) :
    ReadsAs run back kind := by
  cases h with
  | word hstart hrest hstop => exact .word hstart hrest (hword hstop)
  | number hdigit hrest hvalue hstop => exact .number hdigit hrest hvalue (hnumber hstop)
  | string hbody => exact .string hbody
  | @symbol sign _ hlongest => exact .symbol (hsymbol sign hlongest)

/-- A token is read as its text, up to what stands behind it. -/
theorem scanToken_readsAs (hne : lexer.rest ≠ [])
    (h : lexer.scanToken = (.ok token, after)) :
    ∃ run tail, lexer.rest = run ++ tail ∧ ReadsAs run tail token.kind ∧
      after = { lexer.markStart.past run tail with
        brackets := token.kind.brackets lexer.brackets } ∧
      token = after.token token.kind := by
  rw [scanToken] at h
  dsimp only at h
  split at h
  · next hrest => exact absurd hrest hne
  · next c cs hrest =>
    rw [advance_cons hrest] at h
    split at h
    · next hstart =>
      obtain ⟨run, tail, hsplit, htake, hrun, hstop⟩ :=
        exists_takeWhile (lexer.markStart.past [c] cs) isIdentifierChar
      rw [scanWord, htake, past_past] at h
      cases h
      have hlexeme : (lexer.markStart.past ([c] ++ run) tail).lexeme =
          String.ofList (c :: run) := by
        simp [lexeme, past, markStart]
      refine ⟨c :: run, tail, ?_, ?_, ?_, rfl⟩
      · exact hrest.trans (congrArg (c :: ·) hsplit)
      · simp only [Lexer.token, hlexeme]
        exact .word hstart hrun hstop
      · simp only [Lexer.token, (TokenKind.ofWord_plain _).2]
        rfl
    · split at h
      · next hdigit =>
        obtain ⟨run, tail, isFloat, value, hsplit, hrun, hvalue, hstop, rfl, rfl⟩ :=
          scanNumber_ok h
        rw [past_past]
        exact ⟨c :: run, tail, hrest.trans (congrArg (c :: ·) hsplit),
          .number hdigit hrun hvalue hstop, rfl, rfl⟩
      · split at h
        · next hquote =>
          obtain ⟨run, tail, value, hsplit, hbody, rfl, rfl⟩ := scanString_ok h
          cases beq_iff_eq.mp hquote
          rw [past_past]
          exact ⟨'"' :: run, tail, hrest.trans (congrArg ('"' :: ·) hsplit), .string hbody,
            rfl, rfl⟩
        · split at h
          · next sign hsign =>
            obtain ⟨tail, htail⟩ := Symbol.exists_tail_of_longest? hsign
            rw [htail] at hsign
            rw [← String.length_toList, take_length htail] at h
            cases h
            exact ⟨sign.text.toList, tail, htail, .symbol hsign, rfl, rfl⟩
          · cases h

/-- What is no token is a fault of the characters, at a place in the text that was taken and in
the line where the lexer stands. -/
theorem scanToken_error (h : lexer.scanToken = (.error error, after)) :
    ∃ run tail, lexer.rest = run ++ tail ∧ after = lexer.markStart.past run tail ∧
      error.isFault = true ∧
      ∃ passed, passed <+: run ∧ '\n' ∉ passed ∧ error.place = lexer.place.after passed := by
  rw [scanToken] at h
  dsimp only at h
  split at h
  · cases h
  · next c cs hrest =>
    have hnext {run tail : List Char} (hsplit : cs = run ++ tail) :
        lexer.rest = (c :: run) ++ tail := hrest.trans (congrArg (c :: ·) hsplit)
    rw [advance_cons hrest] at h
    split at h
    · cases h
    · split at h
      · obtain ⟨run, tail, hsplit, rfl, rfl⟩ := scanNumber_error h
        rw [past_past]
        exact ⟨c :: run, tail, hnext hsplit, rfl, rfl, [], List.nil_prefix, by decide, rfl⟩
      · split at h
        · next hquote =>
          obtain ⟨run, tail, hsplit, rfl, hfault, hplace⟩ := scanString_error h
          cases beq_iff_eq.mp hquote
          rw [past_past]
          refine ⟨'"' :: run, tail, hnext hsplit, rfl, hfault, ?_⟩
          rcases hplace with hplace | ⟨passed, hpassed, hline, hplace⟩
          · exact ⟨[], List.nil_prefix, by decide, hplace⟩
          · exact ⟨'"' :: passed, List.cons_prefix_cons.mpr ⟨rfl, hpassed⟩, by simp [hline], hplace⟩
        · split at h
          · cases h
          · cases h
            exact ⟨[c], cs, hrest, rfl, rfl, [], List.nil_prefix, by decide, rfl⟩

end

/-! ### What a token depends on -/

/-- Lexers in front of the same text, in the same token. -/
structure SameText (lexer other : Lexer) : Prop where
  rest : lexer.rest = other.rest
  place : lexer.place = other.place
  start : lexer.start = other.start
  taken : lexer.taken = other.taken

theorem SameText.take {lexer other : Lexer} (h : SameText lexer other) (count : Nat) :
    SameText (lexer.take count) (other.take count) := by
  constructor <;> simp [Lexer.take, h.rest, h.place, h.start, h.taken]

theorem SameText.lexeme_eq {lexer other : Lexer} (h : SameText lexer other) :
    lexer.lexeme = other.lexeme := by
  rw [lexeme, lexeme, h.taken]

theorem SameText.token_eq {lexer other : Lexer} (h : SameText lexer other) (kind : TokenKind) :
    lexer.token kind = other.token kind := by
  rw [Lexer.token, Lexer.token, h.lexeme_eq, span, span, h.place, h.start]

theorem scanWord_congr [IdentifierTables] {lexer other : Lexer} (h : SameText lexer other) :
    lexer.scanWord.1 = other.scanWord.1 := by
  have htake := h.take (other.rest.takeWhile isIdentifierChar).length
  simp only [scanWord, takeWhile, h.rest]
  rw [htake.lexeme_eq, htake.token_eq]

theorem invalidNumber_congr {lexer other : Lexer} (h : SameText lexer other) :
    lexer.invalidNumber.1 = other.invalidNumber.1 := by
  rw [invalidNumber, invalidNumber, h.lexeme_eq, h.start]

theorem scanNumber_congr [IdentifierTables] {lexer other : Lexer} (h : SameText lexer other) :
    lexer.scanNumber.1 = other.scanNumber.1 := by
  have htake := h.take (numberRun other.rest).1
  simp only [scanNumber, h.rest, htake.rest, htake.taken]
  split
  · simp only [takeWhile, htake.rest]
    exact invalidNumber_congr (htake.take _)
  · split
    · exact congrArg Except.ok (htake.token_eq _)
    · exact invalidNumber_congr htake

theorem scanString_congr {lexer other : Lexer} (h : SameText lexer other) :
    lexer.scanString.1 = other.scanString.1 := by
  simp only [scanString, h.rest]
  split
  · exact congrArg Except.ok ((h.take _).token_eq _)
  · rw [h.start]
  · rw [(h.take _).place]

/-- A token depends on the text in front of the lexer and on its place only. -/
theorem scanToken_congr [IdentifierTables] {lexer other : Lexer} (hrest : lexer.rest = other.rest)
    (hplace : lexer.place = other.place) : lexer.scanToken.1 = other.scanToken.1 := by
  have h : SameText lexer.markStart other.markStart := ⟨hrest, hplace, hplace, rfl⟩
  simp only [scanToken, h.rest]
  split
  · exact congrArg Except.ok (h.token_eq _)
  · split
    · exact congrArg Except.ok (scanWord_congr (h.take 1))
    · split
      · exact scanNumber_congr (h.take 1)
      · split
        · exact scanString_congr (h.take 1)
        · split
          · exact congrArg Except.ok ((h.take _).token_eq _)
          · rw [h.start]

end Lexer

end Offside
