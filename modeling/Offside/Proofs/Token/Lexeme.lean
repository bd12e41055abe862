/-
The texts of tokens: words, numbers, string literals and symbols, each with the kind that it
makes.
-/
import Offside.Token.Lexer

namespace Offside

/-- The rest of a string literal behind its opening quote, with the text that it stands for. -/
inductive StringBody : List Char → List Char → Prop
  | close : StringBody ['"'] []
  | plain {c : Char} {body value : List Char} (hquote : c ≠ '"') (hescape : c ≠ '\\')
    (hline : c ≠ '\n') (h : StringBody body value) : StringBody (c :: body) (c :: value)
  | escaped {c meant : Char} {body value : List Char} (hc : Quoted.unescape? c = some meant)
    (h : StringBody body value) : StringBody ('\\' :: c :: body) (meant :: value)

/-- The text of a token together with the kind that it makes. -/
inductive IsLexeme [IdentifierTables] : List Char → TokenKind → Prop
  | word {c : Char} {cs : List Char} (hstart : isIdentifierStart c = true)
    (hrest : ∀ d ∈ cs, isIdentifierChar d = true) :
    IsLexeme (c :: cs) (.ofWord (String.ofList (c :: cs)))
  | number {c : Char} {cs : List Char} (value : Literal) (hstart : c.isDigit = true)
    (hrest : ∀ d ∈ cs, d.isDigit = true ∨ d = '.') : IsLexeme (c :: cs) (.literal value)
  | string {body value : List Char} (h : StringBody body value) :
    IsLexeme ('"' :: body) (.literal (.str (String.ofList value)))
  | symbol (sign : Symbol) : IsLexeme sign.text.toList (.symbol sign)

namespace TokenKind

/-- Brackets that are open after a token of this kind. -/
def brackets : TokenKind → Nat → Nat
  | symbol sign => sign.brackets
  | _ => id

theorem ofReservedWord?_plain {word : String} {kind : TokenKind}
    (h : ofReservedWord? word = some kind) : kind.isLayout = false ∧ kind.brackets = id := by
  unfold ofReservedWord? at h
  split at h
  · cases h
    exact ⟨rfl, rfl⟩
  · split at h
    · cases h
      exact ⟨rfl, rfl⟩
    · split at h
      · cases h
        exact ⟨rfl, rfl⟩
      · cases h

/-- Words are neither layout nor brackets. -/
theorem ofWord_plain (word : String) :
    (ofWord word).isLayout = false ∧ (ofWord word).brackets = id := by
  unfold ofWord
  cases h : ofReservedWord? word with
  | none => exact ⟨rfl, rfl⟩
  | some kind => exact ofReservedWord?_plain h

end TokenKind

namespace Symbol

theorem toList_text_of_ofPair? {c d : Char} {sign : Symbol} (h : ofPair? c d = some sign) :
    sign.text.toList = [c, d] := by
  unfold ofPair? at h
  split at h <;> cases h <;> rfl

theorem toList_text_of_ofChar? {c : Char} {sign : Symbol} (h : ofChar? c = some sign) :
    sign.text.toList = [c] := by
  unfold ofChar? at h
  split at h <;> cases h <;> rfl

/-- A symbol that is found stands at the start of the text. -/
theorem exists_tail_of_longest? {cs : List Char} {sign : Symbol} (h : longest? cs = some sign) :
    ∃ tail, cs = sign.text.toList ++ tail := by
  unfold longest? at h
  split at h
  · next c d tail =>
    cases hpair : ofPair? c d with
    | some found =>
      rw [hpair] at h
      cases h
      exact ⟨tail, by rw [toList_text_of_ofPair? hpair]; rfl⟩
    | none =>
      rw [hpair] at h
      exact ⟨d :: tail, by rw [toList_text_of_ofChar? h]; rfl⟩
  · next c => exact ⟨[], by rw [toList_text_of_ofChar? h]; rfl⟩
  · cases h

end Symbol

namespace StringBody

theorem ne_lineFeed_of_unescape? {c meant : Char} (h : Quoted.unescape? c = some meant) :
    c ≠ '\n' := by
  rintro rfl
  cases h

theorem lineFeed_not_mem {body value : List Char} (h : StringBody body value) : '\n' ∉ body := by
  induction h with
  | close => decide
  | plain _ _ hline _ ih => simp [Ne.symm hline, ih]
  | escaped hc _ ih =>
    have hline := ne_lineFeed_of_unescape? hc
    simp [Ne.symm hline, ih]

end StringBody

variable [IdentifierTables]

namespace IsLexeme

variable {run : List Char} {kind : TokenKind}

theorem isNumberChar_of_isIdentifierChar {c : Char} (hc : isIdentifierChar c = true) :
    Lexer.isNumberChar c = true := by
  simp [Lexer.isNumberChar, hc]

theorem isNumberChar_of_isDigit {c : Char} (hc : c.isDigit = true) :
    Lexer.isNumberChar c = true :=
  isNumberChar_of_isIdentifierChar (isIdentifierChar_of_isDigit hc)

theorem isNumberChar_of_word {c : Char} {cs : List Char} (hstart : isIdentifierStart c = true)
    (hrest : ∀ d ∈ cs, isIdentifierChar d = true) :
    ∀ d ∈ c :: cs, Lexer.isNumberChar d = true := by
  refine List.forall_mem_cons.mpr ⟨?_, fun d hd => isNumberChar_of_isIdentifierChar (hrest d hd)⟩
  exact isNumberChar_of_isIdentifierChar (isIdentifierChar_of_start hstart)

theorem isNumberChar_of_number {c : Char} {cs : List Char} (hstart : c.isDigit = true)
    (hrest : ∀ d ∈ cs, d.isDigit = true ∨ d = '.') :
    ∀ d ∈ c :: cs, Lexer.isNumberChar d = true := by
  refine List.forall_mem_cons.mpr ⟨isNumberChar_of_isDigit hstart, fun d hd => ?_⟩
  rcases hrest d hd with hdigit | rfl
  · exact isNumberChar_of_isDigit hdigit
  · simp

theorem ne_of_isNumberChar {c d : Char} (hc : Lexer.isNumberChar c = true)
    (hd : Lexer.isNumberChar d = false) : c ≠ d := by
  rintro rfl
  rw [hc] at hd
  cases hd

theorem head_of_isNumberChar {c : Char} (hc : Lexer.isNumberChar c = true) :
    Lexer.isBlank c = false ∧ c ≠ '#' ∧ c ≠ '\n' := by
  have hne (d : Char) (hd : d ∈ [' ', '\t', '\r', '#']) : c ≠ d := by
    refine ne_of_isNumberChar hc ?_
    simp only [List.mem_cons, List.not_mem_nil, or_false] at hd
    rcases hd with rfl | rfl | rfl | rfl <;> simp
  simp only [Lexer.isBlank, Bool.or_eq_false_iff, beq_eq_false_iff_ne]
  exact ⟨⟨⟨hne _ (by simp), hne _ (by simp)⟩, hne _ (by simp)⟩, hne _ (by simp),
    ne_of_isNumberChar hc (by simp)⟩

theorem lineFeed_not_mem (h : IsLexeme run kind) : '\n' ∉ run := by
  cases h with
  | word hstart hrest =>
    exact fun hmem =>
      ne_of_isNumberChar (isNumberChar_of_word hstart hrest _ hmem) (by simp) rfl
  | number value hstart hrest =>
    exact fun hmem =>
      ne_of_isNumberChar (isNumberChar_of_number hstart hrest _ hmem) (by simp) rfl
  | string h => simpa using h.lineFeed_not_mem
  | symbol sign => cases sign <;> decide

theorem isLayout (h : IsLexeme run kind) : kind.isLayout = false := by
  cases h with
  | word => exact (TokenKind.ofWord_plain _).1
  | number | string | symbol => rfl

/-- A token starts with a character that is neither blank nor opens a comment nor ends a line. -/
theorem exists_head (h : IsLexeme run kind) :
    ∃ c cs, run = c :: cs ∧ Lexer.isBlank c = false ∧ c ≠ '#' ∧ c ≠ '\n' := by
  cases h with
  | word hstart hrest =>
    exact ⟨_, _, rfl, head_of_isNumberChar (isNumberChar_of_word hstart hrest _ List.mem_cons_self)⟩
  | number value hstart hrest =>
    exact ⟨_, _, rfl, head_of_isNumberChar (isNumberChar_of_isDigit hstart)⟩
  | string h => exact ⟨_, _, rfl, by decide, by decide, by decide⟩
  | symbol sign => cases sign <;> exact ⟨_, _, rfl, by decide, by decide, by decide⟩

end IsLexeme

end Offside
