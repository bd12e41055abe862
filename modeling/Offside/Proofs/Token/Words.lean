/-
Tokens as they are written.  Every kind that can be written has one text, and where a blank or a
line end follows that text, it is read as a token of the same kind.
-/
import Offside.Proofs.Token.Cut

namespace Offside

/-- Words with a separator in front of each but the first. -/
theorem toList_intercalate_cons (separator word : String) (words : List String) :
    (separator.intercalate (word :: words)).toList =
      word.toList ++ words.flatMap fun word => separator.toList ++ word.toList := by
  rw [String.toList_intercalate]
  induction words generalizing word with
  | nil => simp
  | cons next words ih =>
    have hnext := ih next
    simp only [List.map_cons] at hnext ⊢
    rw [List.intercalate_cons_cons, hnext]
    simp

/-- Whether a text is a name: it reads as a word and is not kept for anything else. -/
def isName [IdentifierTables] (name : String) : Bool :=
  match name.toList with
  | [] => false
  | c :: cs =>
    isIdentifierStart c && cs.all isIdentifierChar && (TokenKind.ofReservedWord? name).isNone

namespace TokenKind

/-- The text of a token of this kind; layout has none. -/
def text : TokenKind → String
  | keyword word => word.text
  | reserved word => word
  | identifier name => name
  | literal value => value.text
  | symbol sign => sign.text
  | layout _ => ""

/-- The kinds that are written as they are read.  A number with a sign in front of it takes two
tokens, and a number with a point may be read from many texts. -/
def isWritable [IdentifierTables] : TokenKind → Bool
  | keyword _ | symbol _ => true
  | identifier name => isName name
  | literal (.int value) => 0 ≤ value && value < Decimal.signedBound
  | literal (.float _) => false
  | literal _ => true
  | reserved _ | layout _ => false

end TokenKind

/-- A text that goes on with a blank or with the end of the line. -/
inductive Spaced : List Char → Prop
  | blank (rest : List Char) : Spaced (' ' :: rest)
  | lineEnd (rest : List Char) : Spaced ('\n' :: rest)

theorem Spaced.endsRun {tail : List Char} (h : Spaced tail) {p : Char → Bool}
    (hblank : p ' ' = false) (hline : p '\n' = false) : EndsRun p tail := by
  rintro c cs rfl
  cases h with
  | blank => exact hblank
  | lineEnd => exact hline

theorem not_isIdentifierStart_of_isDigit [IdentifierTables] {c : Char} (h : c.isDigit = true) :
    isIdentifierStart c = false := by
  rw [isIdentifierStart_of_ascii (toNat_lt_of_isAlphanum (isAlphanum_of_isDigit h))]
  simp only [Char.isDigit, Bool.and_eq_true, decide_eq_true_eq] at h
  have hge : 48 ≤ c.toNat := UInt32.le_iff_toNat_le.mp h.1
  have hle : c.toNat ≤ 57 := UInt32.le_iff_toNat_le.mp h.2
  obtain ⟨n, rfl⟩ : ∃ n : Fin 58, c = Char.ofNat n :=
    ⟨⟨c.toNat, Nat.lt_succ_of_le hle⟩, (Char.ofNat_toNat c).symm⟩
  clear h hle
  revert n
  decide

/-! ### Digits -/

namespace Decimal

theorem value_eq_ofDigitChars (digits : List Char) : value digits = Nat.ofDigitChars 10 digits 0 :=
  Nat.ofDigitChars_eq_foldl.symm

theorem value_toDigits (n : Nat) : value (Nat.toDigits 10 n) = n :=
  (value_eq_ofDigitChars _).trans Nat.ofDigitChars_ten_toDigits

theorem isDigit_toDigits (n : Nat) : ∀ d ∈ Nat.toDigits 10 n, d.isDigit = true :=
  fun _ hd => Nat.isDigit_of_mem_toDigits (by decide) (by decide) hd

theorem isDigits_toDigits (n : Nat) : isDigits (Nat.toDigits 10 n) = true := by
  simpa [isDigits, Nat.toDigits_ne_nil] using isDigit_toDigits n

/-- A number is a digit and the digits behind it. -/
theorem exists_toDigits (n : Nat) : ∃ d ds, Nat.toDigits 10 n = d :: ds ∧ d.isDigit = true ∧
    ∀ c ∈ ds, c.isDigit = true := by
  obtain ⟨d, ds, hcons⟩ := List.exists_cons_of_ne_nil (Nat.toDigits_ne_nil (b := 10) (n := n))
  have hdigits := isDigit_toDigits n
  rw [hcons] at hdigits
  exact ⟨d, ds, hcons, List.forall_mem_cons.mp hdigits⟩

theorem splitSign_of_isDigit {c : Char} {cs : List Char} (h : c.isDigit = true) :
    splitSign (c :: cs) = (false, c :: cs) := by
  unfold splitSign
  split
  · next heq => cases heq; cases h
  · next heq => cases heq; cases h
  · rfl

theorem splitSign_toDigits (n : Nat) :
    splitSign (Nat.toDigits 10 n) = (false, Nat.toDigits 10 n) := by
  obtain ⟨d, ds, hcons, hd, -⟩ := exists_toDigits n
  rw [hcons, splitSign_of_isDigit hd]

/-- Every text of digits reads as the number that it was made from. -/
theorem readInt?_toDigits {n : Nat} (h : n < signedBound) :
    readInt? (Nat.toDigits 10 n) = some (n : Int) := by
  have hrange : inSignedRange (n : Int) = true := by
    simp only [inSignedRange, Bool.and_eq_true, decide_eq_true_eq]
    omega
  simp [readInt?, splitSign_toDigits, isDigits_toDigits, value_toDigits, hrange]

end Decimal

/-! ### Words and signs -/

theorem longest?_of_spaced (sign : Symbol) {tail : List Char} (h : Spaced tail) :
    Symbol.longest? (sign.text.toList ++ tail) = some sign := by
  cases h with
  | blank | lineEnd => cases sign <;> rfl

namespace Lexer

/-- A string literal reads as what its body stands for. -/
theorem stringRun_of_stringBody {body value : List Char} (h : StringBody body value)
    (tail : List Char) : stringRun (body ++ tail) = ⟨.closed, value, body.length⟩ := by
  induction h with
  | close => rfl
  | plain hquote hescape hline _ ih =>
    rw [List.cons_append, stringRun, ih]
    · rfl
    all_goals simp_all
  | escaped hc _ ih =>
    rw [List.cons_append, List.cons_append, stringRun]
    · simp [hc, ih, StringRun.push]
    · exact StringBody.ne_lineFeed_of_unescape? hc

/-- A text in its escaped form stands for itself. -/
theorem stringBody_encode (value : List Char) :
    StringBody (Quoted.encode value ++ ['"']) value := by
  induction value with
  | nil => exact .close
  | cons c value ih =>
    rw [Quoted.encode_cons, List.append_assoc, Quoted.encodeChar]
    cases hescape : Quoted.escape? c with
    | some letter => exact .escaped (Quoted.unescape?_of_escape? hescape) ih
    | none =>
      obtain ⟨hquote, hslash, hline⟩ : c ≠ '"' ∧ c ≠ '\\' ∧ c ≠ '\n' := by
        refine ⟨?_, ?_, ?_⟩ <;> (rintro rfl; cases hescape)
      exact .plain hquote hslash hline ih

variable [IdentifierTables] {lexer : Lexer} {c : Char} {run tail : List Char}

/-- The token that is read where the text goes on with this run. -/
def written (lexer : Lexer) (run tail : List Char) (kind : TokenKind) : Token :=
  (lexer.markStart.past run tail).token kind

theorem scanToken_word (hrest : lexer.rest = c :: (run ++ tail))
    (hstart : isIdentifierStart c = true) (hrun : ∀ d ∈ run, isIdentifierChar d = true)
    (htail : EndsRun isIdentifierChar tail) :
    lexer.scanToken.1 =
      .ok (lexer.written (c :: run) tail (.ofWord (String.ofList (c :: run)))) := by
  have hbegun : lexer.markStart.rest = c :: (run ++ tail) := hrest
  have htake : ((lexer.markStart.past [c] (run ++ tail)).takeWhile isIdentifierChar) =
      lexer.markStart.past (c :: run) tail := by
    rw [(takeWhile_of_split rfl hrun htail).2, past_past]
    rfl
  rw [scanToken]
  dsimp only
  rw [hbegun]
  dsimp only
  rw [if_pos hstart, advance_cons hbegun, scanWord, htake]
  simp [written, Lexer.token, lexeme, past, markStart]

theorem endsRun_isDigit (h : EndsRun isNumberChar tail) : EndsRun Char.isDigit tail := by
  rintro c cs rfl
  refine Bool.eq_false_iff.mpr fun hdigit => ?_
  have hnot := h c cs rfl
  rw [IsLexeme.isNumberChar_of_isDigit hdigit] at hnot
  cases hnot

theorem numberRun_of_isNumeral {isFloat : Bool} (h : IsNumeral run isFloat)
    (htail : EndsRun isNumberChar tail) : numberRun (run ++ tail) = (run.length, isFloat) := by
  cases h with
  | whole hrun =>
    rw [numberRun, ((endsRun_isDigit htail).span hrun).1, List.drop_left]
    split
    · exact absurd (htail '.' _ rfl) (by simp)
    · rfl
  | @point whole places hwhole hplaces =>
    have hdigits : (whole ++ ('.' :: places ++ tail)).takeWhile Char.isDigit = whole := by
      rw [List.takeWhile_append_of_pos hwhole, List.cons_append,
        List.takeWhile_cons_of_neg (by decide), List.append_nil]
    rw [List.append_assoc, numberRun, hdigits, List.drop_left]
    change (whole.length + 1 + ((places ++ tail).takeWhile Char.isDigit).length, true) = _
    rw [((endsRun_isDigit htail).span hplaces).1, List.length_append, List.length_cons]
    congr 1
    omega

/-- A numeral is read as a whole where nothing is glued to it. -/
theorem scanNumber_of_isNumeral {isFloat : Bool} {value : Literal}
    (hrest : lexer.rest = run ++ tail) (hrun : IsNumeral run isFloat)
    (htail : EndsRun isNumberChar tail)
    (hvalue : numeral? isFloat (lexer.taken.reverse ++ run) = some value) :
    lexer.scanNumber.1 = .ok ((lexer.past run tail).token (.literal value)) := by
  have hnext : ((lexer.past run tail).rest.head?.map isNumberChar).getD false = false := by
    change (tail.head?.map isNumberChar).getD false = false
    cases tail with
    | nil => rfl
    | cons c cs => exact htail c cs rfl
  have htaken : (lexer.past run tail).taken.reverse = lexer.taken.reverse ++ run := by simp [past]
  rw [numeral?] at hvalue
  rw [scanNumber, hrest, numberRun_of_isNumeral hrun htail]
  dsimp only
  rw [take_length hrest, hnext, if_neg Bool.false_ne_true, htaken, hvalue]

/-- A digit in front makes a number. -/
theorem scanToken_digit (hrest : lexer.rest = c :: tail) (hdigit : c.isDigit = true) :
    lexer.scanToken = (lexer.markStart.past [c] tail).scanNumber := by
  have hbegun : lexer.markStart.rest = c :: tail := hrest
  have hstart : ¬ isIdentifierStart c = true := by
    rw [not_isIdentifierStart_of_isDigit hdigit]
    exact Bool.false_ne_true
  rw [scanToken]
  dsimp only
  rw [hbegun]
  dsimp only
  rw [if_neg hstart, if_pos hdigit, advance_cons hbegun]

theorem scanToken_number {isFloat : Bool} {value : Literal}
    (hrest : lexer.rest = c :: (run ++ tail)) (hdigit : c.isDigit = true)
    (hrun : IsNumeral run isFloat) (htail : EndsRun isNumberChar tail)
    (hvalue : numeral? isFloat (c :: run) = some value) :
    lexer.scanToken.1 = .ok (lexer.written (c :: run) tail (.literal value)) := by
  have htext : numeral? isFloat
      ((lexer.markStart.past [c] (run ++ tail)).taken.reverse ++ run) = some value := hvalue
  rw [scanToken_digit hrest hdigit, scanNumber_of_isNumeral rfl hrun htail htext, past_past]
  rfl

theorem scanToken_string {body value : List Char} (hbody : StringBody body value)
    (hrest : lexer.rest = '"' :: (body ++ tail)) :
    lexer.scanToken.1 =
      .ok (lexer.written ('"' :: body) tail (.literal (.str (String.ofList value)))) := by
  have hbegun : lexer.markStart.rest = '"' :: (body ++ tail) := hrest
  have htake : (lexer.markStart.past ['"'] (body ++ tail)).take body.length =
      lexer.markStart.past ('"' :: body) tail := by
    rw [take_length rfl, past_past]
    rfl
  have hrun : stringRun (lexer.markStart.past ['"'] (body ++ tail)).rest =
      ⟨.closed, value, body.length⟩ := stringRun_of_stringBody hbody tail
  rw [scanToken]
  dsimp only
  rw [hbegun]
  dsimp only
  rw [if_neg (by simp), if_neg (by decide), if_pos (by decide), advance_cons hbegun, scanString,
    hrun]
  dsimp only
  rw [htake]
  rfl

theorem scanToken_symbol {sign : Symbol} (hrest : lexer.rest = sign.text.toList ++ tail)
    (hlongest : Symbol.longest? (sign.text.toList ++ tail) = some sign) :
    lexer.scanToken.1 = .ok (lexer.written sign.text.toList tail (.symbol sign)) := by
  have hbegun : lexer.markStart.rest = sign.text.toList ++ tail := hrest
  have htake := take_length hbegun
  rw [String.length_toList] at htake
  obtain ⟨c, cs, hcons, hstart, hdigit, hquote⟩ : ∃ c cs, sign.text.toList = c :: cs ∧
      isIdentifierStart c = false ∧ c.isDigit = false ∧ (c == '"') = false := by
    cases sign <;>
      exact ⟨_, _, rfl, (isIdentifierStart_of_ascii (by decide)).trans (by decide), by decide,
        by decide⟩
  rw [scanToken]
  dsimp only
  rw [hbegun, hlongest, hcons, List.cons_append, ← hcons]
  dsimp only
  rw [hstart, hdigit, hquote, if_neg Bool.false_ne_true, if_neg Bool.false_ne_true,
    if_neg Bool.false_ne_true, htake]
  rfl

theorem scanToken_of_readsAs {kind : TokenKind} (h : ReadsAs run tail kind)
    (hrest : lexer.rest = run ++ tail) :
    lexer.scanToken.1 = .ok (lexer.written run tail kind) := by
  cases h with
  | word hstart hrun hstop => exact scanToken_word hrest hstart hrun hstop
  | number hdigit hrun hvalue hstop => exact scanToken_number hrest hdigit hrun hstop hvalue
  | string hbody => exact scanToken_string hbody hrest
  | symbol hlongest => exact scanToken_symbol hrest hlongest

/-- In front of a blank or of a line end, a token is read whatever else stands behind its text. -/
theorem ReadsAs.respaced {kind : TokenKind} {back : List Char} (h : ReadsAs run tail kind)
    (hback : Spaced back) : ReadsAs run back kind :=
  h.inFrontOf (fun _ => hback.endsRun (by simp) (by simp))
    (fun _ => hback.endsRun (by simp) (by simp)) fun sign _ => longest?_of_spaced sign hback

end Lexer

namespace TokenKind

theorem ofReservedWord?_keyword (word : Keyword) :
    ofReservedWord? word.text = some (.keyword word) := by
  cases word <;> rfl

variable [IdentifierTables] {run tail : List Char} {kind : TokenKind}

/-- Which token comes next depends on the characters of the text only. -/
theorem exists_scans_of_readsAs (h : Lexer.ReadsAs run tail kind) (before : List Char) :
    ∃ token, token.kind = kind ∧ Scans before run tail token := by
  obtain ⟨c, cs, hcons, -⟩ := h.isLexeme.exists_head
  have hlexeme : ((Lexer.reading before (run ++ tail)).written run tail kind).lexeme =
      String.ofList run := by
    simp [Lexer.written, Lexer.token, Lexer.lexeme, Lexer.past, Lexer.markStart]
  exact ⟨_, rfl, Lexer.scanToken_of_readsAs h rfl, hlexeme, by rw [hcons]; simp⟩

theorem readsAs_word {word : String} {c : Char} (hword : word.toList = c :: run)
    (hstart : isIdentifierStart c = true) (hrun : ∀ d ∈ run, isIdentifierChar d = true)
    (htail : Spaced tail) : Lexer.ReadsAs word.toList tail (ofWord word) := by
  have hreads := Lexer.ReadsAs.word hstart hrun (htail.endsRun (by simp) (by simp))
  rwa [← hword, String.ofList_toList] at hreads

/-- Words of ASCII letters are words under all tables. -/
theorem readsAs_letters {word : String} {c : Char} (hword : word.toList = c :: run)
    (hletters : (c :: run).all Char.isAlpha = true) (htail : Spaced tail) :
    Lexer.ReadsAs word.toList tail (ofWord word) := by
  obtain ⟨hstart, hrun⟩ := List.forall_mem_cons.mp (List.all_eq_true.mp hletters)
  exact readsAs_word hword (isIdentifierStart_of_isAlpha hstart)
    (fun d hd => isIdentifierChar_of_start (isIdentifierStart_of_isAlpha (hrun d hd))) htail

theorem readsAs_digits {n : Nat} (h : n < Decimal.signedBound) (htail : Spaced tail) :
    Lexer.ReadsAs (Nat.toDigits 10 n) tail (literal (.int n)) := by
  have hvalue := Decimal.readInt?_toDigits h
  obtain ⟨c, cs, hcons, hdigit, hrun⟩ := Decimal.exists_toDigits n
  rw [hcons] at hvalue ⊢
  have hnumeral : Lexer.numeral? false (c :: cs) = some (.int n) := by
    rw [Lexer.numeral?, hvalue]
    rfl
  exact .number hdigit (.whole hrun) hnumeral (htail.endsRun (by simp) (by simp))

/-- What is written for a kind reads as this kind. -/
theorem readsAs_text (h : kind.isWritable = true) (htail : Spaced tail) :
    Lexer.ReadsAs kind.text.toList tail kind := by
  have hletters {word : String} {c : Char} {cs : List Char} (hof : ofWord word = kind)
      (hcons : word.toList = c :: cs) (halpha : (c :: cs).all Char.isAlpha = true) :
      Lexer.ReadsAs word.toList tail kind :=
    hof ▸ readsAs_letters hcons halpha htail
  cases kind with
  | keyword word =>
    have hof : ofWord word.text = keyword word := by rw [ofWord, ofReservedWord?_keyword]; rfl
    cases word <;> exact hletters hof rfl (by decide)
  | reserved word => cases h
  | identifier name =>
    change isName name = true at h
    unfold isName at h
    split at h
    · cases h
    · next c cs hcons =>
      simp only [Bool.and_eq_true, Option.isNone_iff_eq_none] at h
      obtain ⟨⟨hstart, hrest⟩, hfree⟩ := h
      have hof : ofWord name = identifier name := by rw [ofWord, hfree]; rfl
      rw [← hof, show (ofWord name).text = name by rw [hof]; rfl]
      exact readsAs_word hcons hstart (List.all_eq_true.mp hrest) htail
  | literal value =>
    cases value with
    | int value =>
      simp only [isWritable, Bool.and_eq_true, decide_eq_true_eq] at h
      obtain ⟨n, rfl⟩ := Int.eq_ofNat_of_zero_le h.1
      have htext : (literal (.int n)).text.toList = Nat.toDigits 10 n := Nat.toList_repr
      rw [htext]
      exact readsAs_digits (by omega) htail
    | float value => cases h
    | bool value => cases value <;> exact hletters rfl rfl (by decide)
    | str value =>
      have htext : (literal (.str value)).text.toList =
          '"' :: (Quoted.encode value.toList ++ ['"']) := by
        simp [text, Literal.text, Quoted.literal]
      have hreads : Lexer.ReadsAs _ tail _ := .string (Lexer.stringBody_encode value.toList)
      rw [String.ofList_toList] at hreads
      rwa [htext]
    | none => exact hletters rfl rfl (by decide)
  | symbol sign => exact .symbol (longest?_of_spaced sign htail)
  | layout => cases h

/-- What is written for a kind is read as a token of this kind. -/
theorem exists_scans (h : kind.isWritable = true) (before : List Char) (htail : Spaced tail) :
    ∃ token, token.kind = kind ∧ Scans before kind.text.toList tail token :=
  exists_scans_of_readsAs (readsAs_text h htail) before

end TokenKind

/-- A token is read the same wherever its text stands in front of a blank or of a line end. -/
theorem Scans.respaced [IdentifierTables] {before run tail : List Char} {token : Token}
    (h : Scans before run tail token) (front : List Char) {back : List Char} (hback : Spaced back) :
    ∃ other, other.kind = token.kind ∧ Scans front run back other :=
  TokenKind.exists_scans_of_readsAs (h.readsAs.1.respaced hback) front

end Offside
