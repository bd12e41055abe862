/-
Numbers where they stand in a text.  From a digit on, the points and the characters that continue a
word are one run.  The run is taken as a whole, and it alone says whether there is a whole number, a
number with a point, or no number at all.
-/
import Offside.Proofs.Token.Literals
import Offside.Proofs.Token.Moves
import Offside.Text.IdentifierRanges

namespace Offside

namespace Decimal

variable {digits whole places : List Char}

/-- Digits are read as their number where it lies in the signed 64-bit range. -/
theorem readInt?_digits (hne : digits ≠ []) (hdigits : ∀ d ∈ digits, d.isDigit = true) :
    readInt? digits =
      if Nat.ofDigitChars 10 digits 0 < signedBound then some ↑(Nat.ofDigitChars 10 digits 0)
      else none := by
  obtain ⟨c, cs, rfl⟩ := List.exists_cons_of_ne_nil hne
  have hall : isDigits (c :: cs) = true := by simpa [isDigits] using hdigits
  have hrange : inSignedRange (Nat.ofDigitChars 10 (c :: cs) 0 : Int) =
      decide (Nat.ofDigitChars 10 (c :: cs) 0 < signedBound) := by
    rw [inSignedRange, Bool.eq_iff_iff]
    simp only [Bool.and_eq_true, decide_eq_true_eq]
    omega
  rw [readInt?, splitSign_of_isDigit (hdigits c List.mem_cons_self)]
  simp [hall, value_eq_ofDigitChars, hrange]

/-- Digits with a point among or behind them are read as the decimal that they write. -/
theorem readFloat?_point (hne : whole ≠ []) (hwhole : ∀ d ∈ whole, d.isDigit = true)
    (hplaces : ∀ d ∈ places, d.isDigit = true) :
    readFloat? (whole ++ '.' :: places) =
      some (Binary64.ofDecimal false (Nat.ofDigitChars 10 (whole ++ places) 0)
        (-(places.length : Int))) := by
  have hpoint : EndsRun Char.isDigit ('.' :: places) := by
    rintro c cs ⟨⟩
    rfl
  obtain ⟨hfront, hback⟩ := hpoint.span hwhole
  have htake : places.takeWhile Char.isDigit = places := List.takeWhile_eq_self_iff.mpr hplaces
  have hdrop : places.dropWhile Char.isDigit = [] := List.dropWhile_eq_nil_iff.mpr hplaces
  obtain ⟨c, cs, rfl⟩ := List.exists_cons_of_ne_nil hne
  rw [List.cons_append, readFloat?_of_isDigit (hwhole c List.mem_cons_self), ← List.cons_append,
    readDecimal?, hfront, hback]
  simp [readExponent?, htake, hdrop, value_eq_ofDigitChars]

end Decimal

/-! ### What a run says -/

/-- Digits that write a number of the signed 64-bit range. -/
structure IsWhole (run : List Char) : Prop where
  digits : ∀ d ∈ run, d.isDigit = true
  inRange : Nat.ofDigitChars 10 run 0 ≤ 9223372036854775807

/-- Digits, one point, and digits or nothing behind it. -/
structure IsPointed (whole places run : List Char) : Prop where
  run_eq : run = whole ++ '.' :: places
  ne_nil : whole ≠ []
  whole : ∀ d ∈ whole, d.isDigit = true
  places : ∀ d ∈ places, d.isDigit = true

namespace Lexer

variable {lexer begun after : Lexer} {c : Char} {cs run tail whole places : List Char}

theorem IsNumeral.isNumberChar_of_mem [IdentifierTables] {isFloat : Bool}
    (h : IsNumeral run isFloat) :
    ∀ d ∈ run, Lexer.isNumberChar d = true := by
  intro d hd
  rcases h.isDigit_or_point d hd with hdigit | rfl
  · exact IsLexeme.isNumberChar_of_isDigit hdigit
  · rfl

theorem numeral?_of_isWhole (h : IsWhole (c :: cs)) :
    IsNumeral cs false ∧
      numeral? false (c :: cs) = some (.int (Nat.ofDigitChars 10 (c :: cs) 0)) := by
  refine ⟨.whole (List.forall_mem_cons.mp h.digits).2, ?_⟩
  have hbound : Nat.ofDigitChars 10 (c :: cs) 0 < Decimal.signedBound :=
    Nat.lt_of_le_of_lt h.inRange (by decide)
  rw [numeral?, Decimal.readInt?_digits (List.cons_ne_nil c cs) h.digits, if_pos hbound]
  rfl

theorem numeral?_of_isPointed (h : IsPointed whole places (c :: cs)) :
    IsNumeral cs true ∧ numeral? true (c :: cs) =
      some (.float (Binary64.ofDecimal false (Nat.ofDigitChars 10 (whole ++ places) 0)
        (-(places.length : Int)))) := by
  constructor
  · obtain ⟨d, ds, hcons⟩ := List.exists_cons_of_ne_nil h.ne_nil
    have hrun := h.run_eq
    have hwhole := h.whole
    rw [hcons] at hrun hwhole
    rw [(List.cons.inj hrun).2]
    exact .point (List.forall_mem_cons.mp hwhole).2 h.places
  · rw [h.run_eq, numeral?, Decimal.readFloat?_point h.ne_nil h.whole h.places]
    rfl

/-- There is a number only in these two forms. -/
theorem isWhole_or_isPointed {isFloat : Bool} {value : Literal} (hdigit : c.isDigit = true)
    (hnumeral : IsNumeral cs isFloat) (hvalue : numeral? isFloat (c :: cs) = some value) :
    IsWhole (c :: cs) ∨ ∃ whole places, IsPointed whole places (c :: cs) := by
  cases hnumeral with
  | whole hrun =>
    have hdigits : ∀ d ∈ c :: cs, d.isDigit = true := List.forall_mem_cons.mpr ⟨hdigit, hrun⟩
    refine .inl ⟨hdigits, ?_⟩
    rw [numeral?, Decimal.readInt?_digits (List.cons_ne_nil c cs) hdigits] at hvalue
    by_contra hlarge
    have hbound : ¬ Nat.ofDigitChars 10 (c :: cs) 0 < Decimal.signedBound :=
      fun hbound => hlarge (Nat.le_of_lt_succ hbound)
    simp [hbound] at hvalue
  | @point front places hwhole hplaces =>
    exact .inr ⟨c :: front, places, rfl, List.cons_ne_nil c front,
      List.forall_mem_cons.mpr ⟨hdigit, hwhole⟩, hplaces⟩

/-! ### Reading a run -/

variable [IdentifierTables]

/-- The whole run is taken, whatever is read there. -/
theorem scanNumber_after (lexer : Lexer) : lexer.scanNumber.2 =
    lexer.past (lexer.rest.takeWhile isNumberChar) (lexer.rest.dropWhile isNumberChar) := by
  obtain ⟨run, tail, hrest, hlength, hnumeral⟩ := exists_numberRun lexer.rest
  -- the numeral is the front of the run, whatever is glued to it
  have hrun := hnumeral.isNumberChar_of_mem
  have hnext : (lexer.past run tail).rest = tail := rfl
  rw [scanNumber]
  dsimp only
  rw [← hlength, take_length hrest, hnext, hrest, List.takeWhile_append_of_pos hrun,
    List.dropWhile_append_of_pos hrun]
  split
  · obtain ⟨more, others, hmore, hpast, hall, hstop⟩ :=
      exists_takeWhile (lexer.past run tail) isNumberChar
    obtain ⟨hfront, hback⟩ := hstop.span hall
    rw [hpast, past_past, show tail = more ++ others from hmore, hfront, hback]
    rfl
  · next hglued =>
    have hstop : EndsRun isNumberChar tail := by
      rintro d ds rfl
      simpa using hglued
    obtain ⟨hfront, hback⟩ := hstop.span (List.forall_mem_nil _)
    rw [List.nil_append] at hfront hback
    rw [hfront, hback, List.append_nil]
    split <;> rfl

/-- What is read as a number is a numeral with a value. -/
theorem numeral?_of_scanNumber {token : Token} (h : lexer.scanNumber = (.ok token, after)) :
    ∃ isFloat value, IsNumeral (lexer.rest.takeWhile isNumberChar) isFloat ∧
      numeral? isFloat (lexer.taken.reverse ++ lexer.rest.takeWhile isNumberChar) =
        some value := by
  obtain ⟨run, tail, isFloat, value, hrest, hnumeral, hvalue, hstop, -, -⟩ := scanNumber_ok h
  rw [hrest, (hstop.span hnumeral.isNumberChar_of_mem).1]
  exact ⟨isFloat, value, hnumeral, hvalue⟩

section

variable (hrest : begun.rest = c :: (run ++ tail)) (hdigit : c.isDigit = true)
  (hrun : ∀ d ∈ run, isNumberChar d = true) (hstop : EndsRun isNumberChar tail)

include hrest hdigit hrun hstop

theorem scanToken_digit_after :
    begun.scanToken.2 = begun.markStart.past (c :: run) tail := by
  obtain ⟨hfront, hback⟩ := hstop.span hrun
  have hnumber : (begun.markStart.past [c] (run ++ tail)).rest = run ++ tail := rfl
  rw [scanToken_digit hrest hdigit, scanNumber_after, hnumber, hfront, hback, past_past]
  rfl

/-- A run that writes no number is malformed as a whole. -/
theorem scanToken_malformed (hwhole : ¬ IsWhole (c :: run))
    (hpointed : ∀ whole places, ¬ IsPointed whole places (c :: run)) :
    begun.scanToken.1 = .error (.invalidNumber (String.ofList (c :: run)) begun.place) := by
  have hafter := scanToken_digit_after hrest hdigit hrun hstop
  rw [scanToken_digit hrest hdigit] at hafter ⊢
  cases hscan : (begun.markStart.past [c] (run ++ tail)).scanNumber with
  | mk result after =>
    rw [hscan] at hafter
    cases result with
    | ok token =>
      obtain ⟨isFloat, value, hnumeral, hvalue⟩ := numeral?_of_scanNumber hscan
      have hfront : (begun.markStart.past [c] (run ++ tail)).rest.takeWhile isNumberChar = run :=
        (hstop.span hrun).1
      rw [hfront] at hnumeral hvalue
      rcases isWhole_or_isPointed hdigit hnumeral hvalue with h | ⟨whole, places, h⟩
      · exact absurd h hwhole
      · exact absurd h (hpointed whole places)
    | error error =>
      obtain ⟨-, -, -, -, herror⟩ := scanNumber_error hscan
      rw [herror, show after = _ from hafter]
      simp [lexeme, past, markStart]

end

/-- From a digit on, the points and the characters that continue a word are one run, and a call that
comes to a token there takes this run and nothing else.  It answers with the whole number that the
run writes, if that lies in the signed 64-bit range, or with the nearest double-precision number, if
the run has one point and digits besides; otherwise the run is malformed, from where it starts. -/
theorem Begins.next_of_digit (h : lexer.Begins begun) (hrest : begun.rest = c :: cs)
    (hdigit : c.isDigit = true) :
    let run := begun.rest.takeWhile isNumberChar
    let written (value : Literal) : Token :=
      ⟨.literal value, String.ofList run, ⟨begun.place, begun.place.after run⟩⟩
    (IsWhole run →
      lexer.next.1 = .ok (some (written (.int (Nat.ofDigitChars 10 run 0))))) ∧
    (∀ whole places, IsPointed whole places run →
      lexer.next.1 = .ok (some (written (.float (Binary64.ofDecimal false
        (Nat.ofDigitChars 10 (whole ++ places) 0) (-(places.length : Int))))))) ∧
    (¬ IsWhole run → (∀ whole places, ¬ IsPointed whole places run) →
      lexer.next.1 = .error (.reported (.invalidNumber (String.ofList run) begun.place))) ∧
    lexer.next.2.rest = begun.rest.dropWhile isNumberChar ∧
    lexer.next.2.place = begun.place.after run := by
  obtain ⟨run, tail, rfl, -, -, hrun, hstop⟩ := exists_run isNumberChar cs
  have hnumber := IsLexeme.isNumberChar_of_isDigit hdigit
  have hspan := hstop.span (List.forall_mem_cons.mpr ⟨hnumber, hrun⟩)
  have hafter := scanToken_digit_after hrest hdigit hrun hstop
  have hread {isFloat : Bool} {value : Literal}
      (hvalue : IsNumeral run isFloat ∧ numeral? isFloat (c :: run) = some value) :
      begun.scanToken.1 = .ok ⟨.literal value, String.ofList (c :: run),
        ⟨begun.place, begun.place.after (c :: run)⟩⟩ := by
    rw [scanToken_number hrest hdigit hvalue.1 hstop hvalue.2]
    simp [written, Lexer.token, lexeme, span, past, markStart]
  rw [hrest, show c :: (run ++ tail) = c :: run ++ tail from rfl, hspan.1, hspan.2, h.next_eq,
    readToken_answer, readToken_rest, readToken_place, hafter]
  refine ⟨fun hwhole => ?_, fun whole places hpointed => ?_, fun hwhole hpointed => ?_, rfl, rfl⟩
  · rw [hread (numeral?_of_isWhole hwhole)]
    rfl
  · rw [hread (numeral?_of_isPointed hpointed)]
    rfl
  · rw [scanToken_malformed hrest hdigit hrun hstop hwhole hpointed]
    rfl

end Lexer

namespace NumberRunsWitness

/-- A number with a point in front of a bracket. -/
def decimal : String := "12.50)"

/-- The first whole number that is too large. -/
def large : String := "9223372036854775808 + 1"

def twelve : Token := ⟨.literal (.float ⟨0x4029000000000000⟩), "12.50", ⟨⟨1, 1, 0⟩, ⟨1, 6, 5⟩⟩⟩

theorem next_of_decimal_and_large :
    (∃ begun, (Lexer.ofString decimal 4).Begins begun ∧
      begun.rest = '1' :: "2.50)".toList ∧ ('1').isDigit = true ∧
      IsPointed ['1', '2'] ['5', '0'] (begun.rest.takeWhile Lexer.isNumberChar) ∧
      (Lexer.ofString decimal 4).next.1 = .ok (some twelve) ∧
      (Lexer.ofString decimal 4).next.2.rest = ")".toList) ∧
    ∃ begun, (Lexer.ofString large 4).Begins begun ∧
      begun.rest = '9' :: "223372036854775808 + 1".toList ∧ ('9').isDigit = true ∧
      ¬ IsWhole (begun.rest.takeWhile Lexer.isNumberChar) ∧
      (∀ whole places, ¬ IsPointed whole places (begun.rest.takeWhile Lexer.isNumberChar)) ∧
      (Lexer.ofString large 4).next.1 =
        .error (.reported (.invalidNumber "9223372036854775808" ⟨1, 1, 0⟩)) ∧
      (Lexer.ofString large 4).next.2.rest = " + 1".toList := by
  constructor
  · have hbegins :=
      Lexer.begins_ofString 4 (show startsCode decimal.toList = true by decide +kernel)
    have hdigit : decimal.toList = '1' :: "2.50)".toList := by decide +kernel
    obtain ⟨-, hpointed, -, hrest, -⟩ := hbegins.next_of_digit hdigit (by decide)
    have hrun : IsPointed ['1', '2'] ['5', '0'] (decimal.toList.takeWhile Lexer.isNumberChar) :=
      ⟨by decide +kernel, by decide, List.all_eq_true.mp rfl, List.all_eq_true.mp rfl⟩
    refine ⟨_, hbegins, hdigit, by decide, hrun, ?_, ?_⟩
    · rw [hpointed _ _ hrun]
      decide +kernel
    · rw [hrest]
      decide +kernel
  · have hbegins := Lexer.begins_ofString 4 (show startsCode large.toList = true by decide +kernel)
    have hdigit : large.toList = '9' :: "223372036854775808 + 1".toList := by decide +kernel
    obtain ⟨-, -, hmalformed, hrest, -⟩ := hbegins.next_of_digit hdigit (by decide)
    have hwhole : ¬ IsWhole (large.toList.takeWhile Lexer.isNumberChar) :=
      fun h => absurd h.inRange (by decide +kernel)
    have hpoint : '.' ∉ large.toList.takeWhile Lexer.isNumberChar := by decide +kernel
    have hpointed : ∀ whole places,
        ¬ IsPointed whole places (large.toList.takeWhile Lexer.isNumberChar) :=
      fun whole places h => hpoint (by rw [h.run_eq]; simp)
    refine ⟨_, hbegins, hdigit, by decide, hwhole, hpointed, ?_, ?_⟩
    · rw [hmalformed hwhole hpointed]
      decide +kernel
    · rw [hrest]
      decide +kernel

end NumberRunsWitness

end Offside
