/-
What the texts of names and literals say.  The first character of a literal tells what kind of value
it has, or else that it is a number, and the rest says which one.  So a literal that a text can spell
is known from its text.
-/
import Offside.Proofs.Decimal.Writing
import Offside.Proofs.Token.Literals

namespace Offside

/-! ### Names -/

theorem exists_of_isName [IdentifierTables] {name : String} (h : isName name = true) :
    ∃ c cs, name.toList = c :: cs ∧ isIdentifierStart c = true ∧
      (∀ d ∈ cs, isIdentifierChar d = true) ∧ TokenKind.ofReservedWord? name = none := by
  unfold isName at h
  split at h
  · cases h
  · next c cs hcons =>
    simp only [Bool.and_eq_true, Option.isNone_iff_eq_none] at h
    exact ⟨c, cs, hcons, h.1.1, List.all_eq_true.mp h.1.2, h.2⟩

theorem isIdentifierChar_of_isName [IdentifierTables] {name : String} (h : isName name = true) :
    ∀ c ∈ name.toList, isIdentifierChar c = true := by
  obtain ⟨c, cs, hcons, hstart, hrest, -⟩ := exists_of_isName h
  rw [hcons]
  exact List.forall_mem_cons.mpr ⟨isIdentifierChar_of_start hstart, hrest⟩

theorem not_mem_of_isName [IdentifierTables] {name : String} {c : Char} (h : isName name = true)
    (hc : isIdentifierChar c = false) : c ∉ name.toList :=
  fun hmem => by simp [isIdentifierChar_of_isName h c hmem] at hc

/-! ### String literals -/

namespace Quoted

/-- A string literal is read up to its quote, whatever stands behind it. -/
theorem encode_append_inj {first second firstTail secondTail : List Char}
    (h : encode first ++ '"' :: firstTail = encode second ++ '"' :: secondTail) :
    first = second ∧ firstTail = secondTail := by
  have hread (value tail : List Char) : Lexer.stringRun (encode value ++ '"' :: tail) =
      ⟨.closed, value, (encode value).length + 1⟩ := by
    have hrun := Lexer.stringRun_of_stringBody (Lexer.stringBody_encode value) tail
    rwa [List.append_assoc, List.length_append] at hrun
  have hruns := congrArg Lexer.stringRun h
  rw [hread, hread] at hruns
  obtain rfl : first = second := congrArg Lexer.StringRun.value hruns
  exact ⟨rfl, (List.cons.inj (List.append_cancel_left h)).2⟩

theorem toList_literal (text : String) :
    (literal text).toList = '"' :: (encode text.toList ++ ['"']) := by
  rw [literal, String.toList_ofList]

theorem literal_inj {first second : String} (h : literal first = literal second) :
    first = second := by
  have hlists := congrArg String.toList h
  rw [toList_literal, toList_literal] at hlists
  exact String.toList_inj.mp (encode_append_inj (List.cons.inj hlists).2).1

end Quoted

/-! ### Numbers -/

namespace Binary64

variable {x : Binary64}

theorem toList_text (hnumber : x.isNaN = false) (hsign : x.isNegative = false) :
    x.text.toList = FloatFormat.literal.magnitudeText x := by
  rw [text, FloatFormat.write, hnumber, hsign, if_neg Bool.false_ne_true,
    if_neg Bool.false_ne_true, String.toList_ofList]

theorem text_infinity (hsign : x.isNegative = false) (h : x.isInfinite = true) :
    x.text = "inf" := by
  have hnumber : x.isNaN = false := by
    rw [isInfinite, beq_iff_eq] at h
    rw [isNaN, h, decide_eq_false (Nat.lt_irrefl _)]
  have htext := toList_text hnumber hsign
  rw [FloatFormat.magnitudeText, h, if_pos rfl] at htext
  exact String.toList_inj.mp htext

theorem shape_text (hnumber : x.isNaN = false) (hsign : x.isNegative = false)
    (hfinite : x.isInfinite = false) : FloatFormat.Shape x.text.toList := by
  rw [toList_text hnumber hsign]
  exact FloatFormat.shape_magnitudeText hfinite

end Binary64

namespace Literal

/-! ### Kinds of values -/

/-- What kind of value a literal has. -/
inductive Form where
  | int
  | float
  | bool
  | str
  | none
  deriving DecidableEq

def form : Literal → Form
  | int _ => .int
  | float _ => .float
  | bool _ => .bool
  | str _ => .str
  | none => .none

/-- The kind of value that a text has, if it is that of a literal. -/
def formOf : List Char → Form
  | '"' :: _ => .str
  | 'T' :: _ => .bool
  | 'F' :: _ => .bool
  | 'N' :: _ => .none
  | text => if text.all Char.isDigit then .int else .float

theorem formOf_of_isDigit {c : Char} (hc : c.isDigit = true) (cs : List Char) :
    formOf (c :: cs) = if (c :: cs).all Char.isDigit then .int else .float := by
  unfold formOf
  split
  · next heq => cases heq; cases hc
  · next heq => cases heq; cases hc
  · next heq => cases heq; cases hc
  · next heq => cases heq; cases hc
  · rfl

theorem exists_text_int {value : Literal} (h : value.IsSpellable) (hform : value.form = .int) :
    ∃ n : Nat, value = .int n ∧ value.text.toList = Nat.toDigits 10 n := by
  cases value with
  | int value =>
    obtain ⟨n, rfl⟩ := Int.eq_ofNat_of_zero_le h
    exact ⟨n, rfl, Nat.toList_repr⟩
  | _ => cases hform

variable {value other : Literal}

theorem formOf_text (h : value.IsSpellable) : formOf value.text.toList = value.form := by
  cases value with
  | int value =>
    obtain ⟨n, -, htext⟩ := exists_text_int h rfl
    obtain ⟨c, cs, hcons, hdigit, hrun⟩ := Decimal.exists_toDigits n
    have hall := List.all_eq_true.mpr (List.forall_mem_cons.mpr ⟨hdigit, hrun⟩)
    rw [htext, hcons, formOf_of_isDigit hdigit, if_pos hall]
    rfl
  | float x =>
    change formOf x.text.toList = _
    cases hfinite : x.isInfinite with
    | true => rw [Binary64.text_infinity h.2 hfinite]; rfl
    | false =>
      have hshape := Binary64.shape_text h.1 h.2 hfinite
      obtain ⟨c, cs, hcons, hc⟩ := hshape.exists_head
      obtain ⟨d, hd, hdigit⟩ := hshape.exists_not_isDigit
      rw [hcons] at hd ⊢
      rw [formOf_of_isDigit hc, if_neg]
      · rfl
      · rw [List.all_eq_true]
        exact fun hall => by simp [hall d hd] at hdigit
  | bool value => cases value <;> rfl
  | str value => rw [text, Quoted.toList_literal]; rfl
  | none => rfl

/-- A literal is known from its text. -/
theorem text_inj (h : value.IsSpellable) (hother : other.IsSpellable) :
    value.text = other.text ↔ value = other := by
  refine ⟨fun heq => ?_, congrArg text⟩
  have hform : value.form = other.form := by rw [← formOf_text h, heq, formOf_text hother]
  cases value with
  | int n =>
    cases other with
    | int m =>
      obtain ⟨n, hn, htext⟩ := exists_text_int h rfl
      obtain ⟨m, hm, htext'⟩ := exists_text_int hother rfl
      rw [heq, htext'] at htext
      have hvalue := congrArg Decimal.value htext
      rw [Decimal.value_toDigits, Decimal.value_toDigits] at hvalue
      rw [hn, hm, hvalue]
    | _ => cases hform
  | float x =>
    cases other with
    | float y => rw [(Binary64.text_inj h.1 hother.1).mp heq]
    | _ => cases hform
  | bool x =>
    cases other with
    | bool y => cases x <;> cases y <;> first | rfl | exact absurd heq (by decide)
    | _ => cases hform
  | str x =>
    cases other with
    | str y => rw [Quoted.literal_inj heq]
    | _ => cases hform
  | none =>
    cases other with
    | none => rfl
    | _ => cases hform

end Literal

end Offside
