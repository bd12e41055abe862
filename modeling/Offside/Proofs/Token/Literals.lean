/-
The words and the values of tokens.  What is written in digits never reads as a not-a-number, and
the sign of a number is a token of its own.  So every value of a literal in a text is equal to
itself.
-/
import Offside.Proofs.Token.Shape
import Offside.Proofs.Token.Words

namespace Offside

namespace Binary64

/-! ### Decimals are numbers -/

theorem magnitude_ofMagnitude (negative : Bool) {magnitude : Nat} (h : magnitude < signBit) :
    (ofMagnitude negative magnitude).magnitude = magnitude := by
  have hsign : signBit = 2 ^ 63 := rfl
  cases negative with
  | false =>
    have hbits : (UInt64.ofNat magnitude).toNat = magnitude :=
      UInt64.toNat_ofNat_of_lt' (Nat.lt_trans h (by decide))
    simp [Binary64.magnitude, ofMagnitude, hbits, Nat.mod_eq_of_lt h]
  | true =>
    have hbits : (UInt64.ofNat (signBit + magnitude)).toNat = signBit + magnitude :=
      UInt64.toNat_ofNat_of_lt' (by rw [hsign, UInt64.size]; omega)
    rw [Binary64.magnitude, ofMagnitude, if_pos rfl, hbits, Nat.add_mod_left, Nat.mod_eq_of_lt h]

theorem isNaN_ofMagnitude (negative : Bool) {magnitude : Nat} (h : magnitude ≤ infinityBits) :
    (ofMagnitude negative magnitude).isNaN = false := by
  have hlt : magnitude < signBit := Nat.lt_of_le_of_lt h (by decide)
  rw [isNaN, magnitude_ofMagnitude negative hlt, decide_eq_false (Nat.not_lt.mpr h)]

theorem nearestMagnitude_le (numerator denominator : Nat) :
    nearestMagnitude numerator denominator ≤ infinityBits :=
  Nat.min_le_left _ _

theorem isNegative_ofMagnitude {magnitude : Nat} (h : magnitude ≤ infinityBits) :
    (ofMagnitude false magnitude).isNegative = false := by
  have hlt : magnitude < signBit := Nat.lt_of_le_of_lt h (by decide)
  have hbits : (UInt64.ofNat magnitude).toNat = magnitude :=
    UInt64.toNat_ofNat_of_lt' (Nat.lt_trans hlt (by decide))
  rw [isNegative, ofMagnitude, if_neg Bool.false_ne_true, hbits]
  exact decide_eq_false (Nat.not_le.mpr hlt)

/-- Rounding a decimal gives a number or an infinity. -/
theorem exists_ofMagnitude (negative : Bool) (digits : Nat) (exponent : Int) :
    ∃ magnitude ≤ infinityBits,
      ofDecimal negative digits exponent = ofMagnitude negative magnitude := by
  unfold ofDecimal
  split
  · exact ⟨0, Nat.zero_le _, rfl⟩
  · split
    · exact ⟨infinityBits, Nat.le_refl _, rfl⟩
    · split
      · exact ⟨0, Nat.zero_le _, rfl⟩
      · split
        · exact ⟨_, nearestMagnitude_le _ _, rfl⟩
        · exact ⟨_, nearestMagnitude_le _ _, rfl⟩

end Binary64

namespace Decimal

variable {c : Char} {cs : List Char}

theorem toLower_of_isDigit (h : c.isDigit = true) : c.toLower = c := by
  simp only [Char.isDigit, Bool.and_eq_true, decide_eq_true_eq] at h
  have hle : c.val.toNat ≤ 57 := UInt32.le_iff_toNat_le.mp h.2
  have hupper : ¬ (c.val ≥ 65 ∧ c.val ≤ 90) := fun hc => by
    have hge : 65 ≤ c.val.toNat := UInt32.le_iff_toNat_le.mp hc.1
    omega
  unfold Char.toLower
  split
  · next hc => exact absurd hc hupper
  · rfl

theorem exists_ofDecimal_of_readDecimal? {negative : Bool} {x : Binary64}
    (h : readDecimal? negative cs = some x) :
    ∃ digits exponent, Binary64.ofDecimal negative digits exponent = x := by
  have hread {places rest : List Char} (h : (if (cs.takeWhile Char.isDigit).isEmpty &&
      places.isEmpty then none
      else (readExponent? rest).map fun exponent =>
        Binary64.ofDecimal negative (value (cs.takeWhile Char.isDigit ++ places))
          (exponent - places.length)) = some x) :
      ∃ digits exponent, Binary64.ofDecimal negative digits exponent = x := by
    split at h
    · cases h
    · obtain ⟨exponent, -, hx⟩ := Option.map_eq_some_iff.mp h
      exact ⟨_, _, hx⟩
  rw [readDecimal?] at h
  exact hread h

/-- A text that starts with a digit is not a word for an infinity or for a not-a-number. -/
theorem readFloat?_of_isDigit (hc : c.isDigit = true) :
    readFloat? (c :: cs) = readDecimal? false (c :: cs) := by
  have hword {word : String} (hword : String.ofList ((c :: cs).map Char.toLower) = word) :
      word.toList.head? = some c := by
    rw [← hword, String.toList_ofList, List.map_cons, toLower_of_isDigit hc]
    rfl
  rw [readFloat?, splitSign_of_isDigit hc]
  dsimp only
  split
  · next hinfinity =>
    rcases hinfinity with heq | heq <;> cases hword heq <;> cases hc
  · split
    · next heq => cases hword heq; cases hc
    · rfl

theorem exists_ofDecimal_of_readFloat? {x : Binary64} (hc : c.isDigit = true)
    (h : readFloat? (c :: cs) = some x) :
    ∃ digits exponent, Binary64.ofDecimal false digits exponent = x := by
  rw [readFloat?_of_isDigit hc] at h
  exact exists_ofDecimal_of_readDecimal? h

theorem nonneg_of_readInt? {n : Int} (hc : c.isDigit = true) (h : readInt? (c :: cs) = some n) :
    0 ≤ n := by
  rw [readInt?, splitSign_of_isDigit hc] at h
  simp only [Bool.false_eq_true, if_false] at h
  split at h
  · cases h
  · split at h
    · rw [← Option.some.inj h]
      exact Int.natCast_nonneg _
    · cases h

end Decimal

/-! ### What a text spells -/

/-- Whether a text can spell a literal of this value: numbers have no sign. -/
def Literal.IsSpellable : Literal → Prop
  | int value => 0 ≤ value
  | float value => value.isNaN = false ∧ value.isNegative = false
  | _ => True

/-- Whether a text can spell a token of this kind, as far as names and values go. -/
def TokenKind.IsSpellable [IdentifierTables] : TokenKind → Prop
  | identifier name => isName name = true
  | literal value => value.IsSpellable
  | _ => True

theorem TokenKind.isSpellable_of_isLayout [IdentifierTables] {kind : TokenKind}
    (h : kind.isLayout = true) :
    kind.IsSpellable := by
  cases kind with
  | layout => trivial
  | _ => cases h

theorem TokenKind.isSpellable_ofWord [IdentifierTables] {c : Char} {cs : List Char}
    (hstart : isIdentifierStart c = true) (hrest : ∀ d ∈ cs, isIdentifierChar d = true) :
    (ofWord (String.ofList (c :: cs))).IsSpellable := by
  rw [ofWord]
  cases hword : ofReservedWord? (String.ofList (c :: cs)) with
  | none =>
    change isName (String.ofList (c :: cs)) = true
    rw [isName, String.toList_ofList]
    dsimp only
    rw [hstart, hword, List.all_eq_true.mpr hrest]
    rfl
  | some kind =>
    rw [ofReservedWord?] at hword
    split at hword
    · cases hword
      trivial
    · split at hword
      · next found hfound =>
        cases hword
        have hall : ∀ constant ∈ constantWords, constant.2.IsSpellable := by
          simp [constantWords, Literal.IsSpellable]
        exact hall found (List.mem_of_find?_eq_some hfound)
      · split at hword <;> cases hword
        trivial

theorem Lexer.isSpellable_of_numeral? {c : Char} {cs : List Char} {isFloat : Bool} {value : Literal}
    (hc : c.isDigit = true) (h : numeral? isFloat (c :: cs) = some value) : value.IsSpellable := by
  rw [numeral?] at h
  split at h
  · obtain ⟨x, hread, rfl⟩ := Option.map_eq_some_iff.mp h
    obtain ⟨digits, exponent, rfl⟩ := Decimal.exists_ofDecimal_of_readFloat? hc hread
    obtain ⟨magnitude, hle, heq⟩ := Binary64.exists_ofMagnitude false digits exponent
    rw [heq]
    exact ⟨Binary64.isNaN_ofMagnitude false hle, Binary64.isNegative_ofMagnitude hle⟩
  · obtain ⟨n, hread, rfl⟩ := Option.map_eq_some_iff.mp h
    exact Decimal.nonneg_of_readInt? hc hread

theorem Lexer.ReadsAs.isSpellable [IdentifierTables] {run tail : List Char} {kind : TokenKind}
    (h : ReadsAs run tail kind) : kind.IsSpellable := by
  cases h with
  | word hstart hrest => exact TokenKind.isSpellable_ofWord hstart hrest
  | number hdigit _ hvalue => exact isSpellable_of_numeral? hdigit hvalue
  | string | symbol => trivial

theorem Cut.isSpellable [IdentifierTables] {tabWidth : Nat} {stage : Stage}
    {before rest : List Char} {blocks : Indentation} {tokens : List Token}
    {error : Option (Failure LexicalError)}
    (h : Cut tabWidth stage before blocks rest tokens error) :
    ∀ token ∈ tokens, token.kind.IsSpellable := by
  have hmarks {marks : List Token} (h : AreMarks marks) :
      ∀ mark ∈ marks, mark.kind.IsSpellable := by
    rcases h with rfl | ⟨mark, rfl, hmark⟩ | ⟨-, hmarks⟩
    · exact List.forall_mem_nil _
    · exact List.forall_mem_singleton.mpr (TokenKind.isSpellable_of_isLayout (by rw [hmark]; rfl))
    · exact fun mark hmark => TokenKind.isSpellable_of_isLayout (by rw [hmarks mark hmark]; rfl)
  have hclosing (blocks : Indentation) (before : List Char) :
      ∀ token ∈ closing blocks before, token.kind.IsSpellable := by
    refine List.forall_mem_append.mpr ⟨fun token htoken => ?_, List.forall_mem_singleton.mpr trivial⟩
    rw [List.eq_of_mem_replicate htoken]
    trivial
  induction h with
  | emptyLine _ _ _ ih | joinedLine _ _ _ ih => exact ih
  | textEnd => exact hclosing _ _
  | line _ _ hmeet hscan _ ih =>
    exact List.forall_mem_append.mpr ⟨hmarks (Indentation.areMarks_of_meet hmeet),
      List.forall_mem_cons.mpr ⟨hscan.readsAs.1.isSpellable, ih⟩⟩
  | faultyLine _ _ hmeet _ => exact hmarks (Indentation.areMarks_of_meet hmeet)
  | tooWide | unmetLine | fault => exact List.forall_mem_nil _
  | token _ hscan _ ih => exact List.forall_mem_cons.mpr ⟨hscan.readsAs.1.isSpellable, ih⟩
  | lineEnd _ _ ih => exact List.forall_mem_cons.mpr ⟨trivial, ih⟩
  | lastLine _ => exact List.forall_mem_cons.mpr ⟨trivial, hclosing _ _⟩

/-- Every name in a text is a name, and every literal has a value that a text can spell. -/
theorem isSpellable_of_tokenize [IdentifierTables] {text : String} {tabWidth : Nat}
    {tokens : List Token} (h : tokenize text tabWidth = .ok tokens) :
    ∀ token ∈ tokens, token.kind.IsSpellable :=
  (cut_of_tokenize h).isSpellable

/-! ### Literals that equal themselves -/

/-- Whether a token has no value that differs from itself. -/
def Token.IsReflexive (token : Token) : Prop :=
  ∀ value, token.kind = .literal value → value.sameValue value = true

theorem Literal.IsSpellable.sameValue_self {value : Literal} (h : value.IsSpellable) :
    value.sameValue value = true := by
  cases value with
  | float x => simp [sameValue, Binary64.sameValue, h.1]
  | _ => simp [sameValue]

/-- The value of every literal in a text equals itself. -/
theorem isReflexive_of_tokenize [IdentifierTables] {text : String} {tabWidth : Nat}
    {tokens : List Token} (h : tokenize text tabWidth = .ok tokens) :
    ∀ token ∈ tokens, token.IsReflexive := by
  intro token htoken value hvalue
  have hspellable := isSpellable_of_tokenize h token htoken
  rw [hvalue] at hspellable
  exact hspellable.sameValue_self

end Offside
