/-
What the texts of operands say.  A temporary is written like a variable, and a number that is too
large like the variable `inf`; apart from these two, an operand is known from its text.
-/
import Offside.Code.Instruction
import Offside.Proofs.Program.Outlines
import Offside.Proofs.Text.Pieces

namespace Offside

/-! ### Temporaries and labels -/

/-- Whether a word has a digit. -/
def hasDigit (word : String) : Bool := word.toList.any Char.isDigit

/-- Words that are kept for something are made of letters. -/
theorem hasDigit_of_reserved {word : String} {kind : TokenKind}
    (h : TokenKind.ofReservedWord? word = some kind) : hasDigit word = false := by
  have hkeywords : ∀ word ∈ Keyword.all, hasDigit word.text = false := by decide
  have hconstants : ∀ constant ∈ TokenKind.constantWords, hasDigit constant.1 = false := by decide
  have hwords : ∀ word ∈ TokenKind.reservedWords, hasDigit word = false := by decide
  rw [TokenKind.ofReservedWord?] at h
  split at h
  · next found hfound =>
    have hword := List.find?_some hfound
    rw [← beq_iff_eq.mp hword]
    exact hkeywords found (List.mem_of_find?_eq_some hfound)
  · split at h
    · next found hfound =>
      have hword := List.find?_some hfound
      rw [← beq_iff_eq.mp hword]
      exact hconstants found (List.mem_of_find?_eq_some hfound)
    · split at h
      · next hword => exact hwords word (List.contains_iff_mem.mp hword)
      · cases h

theorem toList_append_toString (front : String) (n : Nat) :
    (front ++ toString n).toList = front.toList ++ Nat.toDigits 10 n := by
  rw [String.toList_append]
  exact congrArg (front.toList ++ ·) Nat.toList_repr

/-- Numbers behind the same text are known from the whole. -/
theorem append_toString_inj {front : String} {n m : Nat}
    (h : front ++ toString n = front ++ toString m) : n = m := by
  have hlists := congrArg String.toList h
  rw [toList_append_toString, toList_append_toString] at hlists
  have hnumbers := congrArg Decimal.value (List.append_cancel_left hlists)
  rwa [Decimal.value_toDigits, Decimal.value_toDigits] at hnumbers

theorem Temp.text_injective {temp other : Temp} (h : temp.text = other.text) : temp = other :=
  congrArg Temp.mk (append_toString_inj h)

theorem Label.text_injective {label other : Label} (h : label.text = other.text) :
    label = other :=
  congrArg Label.mk (append_toString_inj h)

theorem Temp.toList_text (temp : Temp) : temp.text.toList = 't' :: Nat.toDigits 10 temp.number :=
  toList_append_toString "t" temp.number

theorem Label.toList_text (label : Label) :
    label.text.toList = 'L' :: Nat.toDigits 10 label.number :=
  toList_append_toString "L" label.number

theorem Label.isPlain_text [IdentifierTables] (label : Label) :
    ∀ c ∈ label.text.toList, isPlain c = true := by
  rw [toList_text]
  refine List.forall_mem_cons.mpr ⟨rfl, fun c hc => ?_⟩
  exact isPlain_of_isIdentifierChar
    (isIdentifierChar_of_isDigit (Decimal.isDigit_toDigits label.number c hc))

/-- A temporary is written like a variable. -/
theorem Temp.isName_text [IdentifierTables] (temp : Temp) : isName temp.text = true := by
  have hdigits := Decimal.isDigit_toDigits temp.number
  have hfree : TokenKind.ofReservedWord? temp.text = none := by
    refine Option.eq_none_iff_forall_ne_some.mpr fun kind hkind => ?_
    obtain ⟨d, ds, hcons, hdigit, -⟩ := Decimal.exists_toDigits temp.number
    have hletters := hasDigit_of_reserved hkind
    rw [hasDigit, toList_text, hcons] at hletters
    simp [hdigit] at hletters
  rw [isName, toList_text]
  dsimp only
  rw [hfree, List.all_eq_true.mpr fun d hd => isIdentifierChar_of_isDigit (hdigits d hd)]
  simp

/-! ### Operands -/

namespace Literal

/-- A literal that is too large for a number; it is written like a variable. -/
def infinity : Literal := .float (Binary64.infinity false)

theorem eq_infinity {x : Binary64} (h : (float x).IsSpellable) (hinfinite : x.isInfinite = true) :
    float x = infinity := by
  rw [← text_inj h (show infinity.IsSpellable from ⟨by decide, by decide⟩)]
  exact Binary64.text_infinity h.2 hinfinite

theorem not_isName_of_head [IdentifierTables] {text : String} {c : Char} {cs : List Char}
    (h : text.toList = c :: cs) (hc : isIdentifierStart c = false) : isName text = false := by
  refine Bool.eq_false_iff.mpr fun hname => ?_
  obtain ⟨d, ds, hcons, hstart, -⟩ := exists_of_isName hname
  rw [h] at hcons
  rw [← (List.cons.inj hcons).1, hc] at hstart
  cases hstart

theorem not_isName_of_reserved [IdentifierTables] {text : String} {kind : TokenKind}
    (h : TokenKind.ofReservedWord? text = some kind) : isName text = false := by
  refine Bool.eq_false_iff.mpr fun hname => ?_
  obtain ⟨-, -, -, -, -, hfree⟩ := exists_of_isName hname
  rw [h] at hfree
  cases hfree

theorem exists_digit_int {n : Int} (h : (int n).IsSpellable) :
    ∃ d ds, (int n).text.toList = d :: ds ∧ d.isDigit = true := by
  obtain ⟨n, -, htext⟩ := exists_text_int h rfl
  obtain ⟨d, ds, hcons, hdigit, -⟩ := Decimal.exists_toDigits n
  exact ⟨d, ds, htext.trans hcons, hdigit⟩

/-- Finite numbers start with a digit, and no other literal is written like a name either. -/
theorem not_isName_text [IdentifierTables] {value : Literal} (h : value.IsSpellable)
    (hfinite : value ≠ infinity) :
    isName value.text = false := by
  cases value with
  | int value =>
    obtain ⟨d, ds, hcons, hd⟩ := exists_digit_int h
    exact not_isName_of_head hcons (not_isIdentifierStart_of_isDigit hd)
  | float x =>
    have hfinite := Bool.eq_false_iff.mpr fun hinfinite => hfinite (eq_infinity h hinfinite)
    obtain ⟨c, cs, hcons, hc⟩ := (Binary64.shape_text h.1 h.2 hfinite).exists_head
    exact not_isName_of_head hcons (not_isIdentifierStart_of_isDigit hc)
  | bool value => cases value <;> exact not_isName_of_reserved rfl
  | str value => exact not_isName_of_head (Quoted.toList_literal value) (by simp)
  | none => exact not_isName_of_reserved rfl

/-- No literal ends like an attribute. -/
theorem text_ne_attr [IdentifierTables] {value : Literal} (h : value.IsSpellable)
    {front name : String} (hname : isName name = true) : value.text ≠ front ++ "." ++ name := by
  intro heq
  obtain ⟨c, cs, hcons, hstart, -⟩ := exists_of_isName hname
  have hlist : value.text.toList = front.toList ++ '.' :: c :: cs := by
    rw [heq, String.toList_append, String.toList_append, hcons, List.append_assoc]
    rfl
  have hpoint : '.' ∈ value.text.toList := by rw [hlist]; simp
  cases value with
  | int value => exact (FloatFormat.isNumeric_toString value '.' hpoint).2 rfl
  | float x =>
    cases hfinite : x.isInfinite with
    | true =>
      rw [text, Binary64.text_infinity h.2 hfinite] at hpoint
      exact absurd hpoint (by decide)
    | false =>
      have hdigit := (Binary64.shape_text h.1 h.2 hfinite).isDigit_behind_point hlist
      rw [not_isIdentifierStart_of_isDigit hdigit] at hstart
      cases hstart
  | bool value => cases value <;> exact absurd hpoint (by decide)
  | str value =>
    have hquote : '"' ∈ c :: cs := by
      have hlast := congrArg List.getLast? hlist
      rw [text, Quoted.toList_literal, ← List.cons_append, List.getLast?_concat,
        List.getLast?_append_cons, List.getLast?_cons_cons] at hlast
      exact List.mem_of_getLast? hlast.symm
    rw [← hcons] at hquote
    exact not_mem_of_isName hname (by simp) hquote
  | none => exact absurd hpoint (by decide)

/-- No literal starts with a sign. -/
theorem exists_head {value : Literal} (h : value.IsSpellable) :
    ∃ c cs, value.text.toList = c :: cs ∧ c ≠ '-' := by
  have hsign {c : Char} (hc : c.isDigit = true) : c ≠ '-' := by
    rintro rfl
    cases hc
  cases value with
  | int value =>
    obtain ⟨d, ds, hcons, hd⟩ := exists_digit_int h
    exact ⟨d, ds, hcons, hsign hd⟩
  | float x =>
    cases hfinite : x.isInfinite with
    | true =>
      refine ⟨'i', ['n', 'f'], ?_, by decide⟩
      rw [text, Binary64.text_infinity h.2 hfinite]
      rfl
    | false =>
      obtain ⟨c, cs, hcons, hc⟩ := (Binary64.shape_text h.1 h.2 hfinite).exists_head
      exact ⟨c, cs, hcons, hsign hc⟩
  | bool value =>
    cases value with
    | true => exact ⟨'T', ['r', 'u', 'e'], rfl, by decide⟩
    | false => exact ⟨'F', ['a', 'l', 's', 'e'], rfl, by decide⟩
  | str value => exact ⟨_, _, Quoted.toList_literal value, by decide⟩
  | none => exact ⟨'N', ['o', 'n', 'e'], rfl, by decide⟩

end Literal

namespace Operand

/-- Whether the names and the values of an operand are such as a text spells. -/
def IsSpellable [IdentifierTables] : Operand → Prop
  | temp _ => True
  | var name => isName name = true
  | const value => value.IsSpellable
  | attr base name => base.IsSpellable ∧ isName name = true

/-- The operand as its text shows it, in which temporaries and infinities are variables. -/
def blurred : Operand → Operand
  | temp t => .var t.text
  | var name => .var name
  | const value => if value = .infinity then .var "inf" else .const value
  | attr base name => .attr base.blurred name

/-- Whether an operand is such as texts show. -/
def IsShown [IdentifierTables] : Operand → Prop
  | temp _ => False
  | var name => isName name = true
  | const value => value.IsSpellable ∧ value ≠ .infinity
  | attr base name => base.IsShown ∧ isName name = true

section

variable {operand other : Operand}

theorem text_blurred (operand : Operand) : operand.blurred.text = operand.text := by
  induction operand with
  | temp | var => rfl
  | const value =>
    rw [blurred]
    split
    · next hinfinity =>
      rw [hinfinity]
      decide
    · rfl
  | attr base name ih => rw [blurred, text, text, ih]

variable [IdentifierTables]

theorem isShown_blurred (h : operand.IsSpellable) : operand.blurred.IsShown := by
  induction operand with
  | temp t => exact t.isName_text
  | var name => exact h
  | const value =>
    rw [blurred]
    split
    · exact show isName "inf" = true by simp [isName]; rfl
    · next hfinite => exact ⟨h, hfinite⟩
  | attr base name ih => exact ⟨ih h.1, h.2⟩

theorem ne_attr_of_isName {name : String} (h : isName name = true) (front last : String) :
    name ≠ front ++ "." ++ last := by
  rintro rfl
  exact not_mem_of_isName h (show isIdentifierChar '.' = false by simp) (by simp)

/-- What a text shows is known from the text. -/
theorem text_inj (h : operand.IsShown) (hother : other.IsShown)
    (heq : operand.text = other.text) : operand = other := by
  induction operand generalizing other with
  | temp => cases h
  | var name =>
    cases other with
    | temp => cases hother
    | var name' => exact congrArg var heq
    | const value =>
      have hname := Literal.not_isName_text hother.1 hother.2
      rw [← show name = value.text from heq, h] at hname
      cases hname
    | attr base name' => exact absurd heq (ne_attr_of_isName h _ _)
  | const value =>
    cases other with
    | temp => cases hother
    | var name' =>
      have hname := Literal.not_isName_text h.1 h.2
      rw [show value.text = name' from heq, hother] at hname
      cases hname
    | const value' => exact congrArg const ((Literal.text_inj h.1 hother.1).mp heq)
    | attr base name' => exact absurd heq (Literal.text_ne_attr h.1 hother.2)
  | attr base name ih =>
    cases other with
    | temp => cases hother
    | var name' => exact absurd heq.symm (ne_attr_of_isName hother _ _)
    | const value => exact absurd heq.symm (Literal.text_ne_attr hother.1 h.2)
    | attr base' name' =>
      have hpoint {name : String} (h : isName name = true) : '.' ∉ name.toList.reverse :=
        fun hmem => not_mem_of_isName h (by simp) (List.mem_reverse.mp hmem)
      have hlists := congrArg (fun text => text.toList.reverse) heq
      simp only [text, String.toList_append, List.reverse_append] at hlists
      obtain ⟨hname, hbase⟩ := append_cons_inj (hpoint h.2) (hpoint hother.2) hlists
      rw [ih h.1 hother.1 (String.toList_inj.mp (List.reverse_injective hbase)),
        String.toList_inj.mp (List.reverse_injective hname)]

/-- Two operands have the same text where they are the same up to what texts do not show. -/
theorem text_eq_iff (h : operand.IsSpellable) (hother : other.IsSpellable) :
    operand.text = other.text ↔ operand.blurred = other.blurred := by
  rw [← text_blurred operand, ← text_blurred other]
  exact ⟨text_inj (isShown_blurred h) (isShown_blurred hother), congrArg text⟩

theorem map_blurred {operands others : List Operand} (h : ∀ operand ∈ operands, operand.IsSpellable)
    (hothers : ∀ other ∈ others, other.IsSpellable)
    (heq : operands.map text = others.map text) : operands.map blurred = others.map blurred :=
  map_eq_of_mem (fun operand hoperand other hother =>
    (text_eq_iff (h operand hoperand) (hothers other hother)).mp) heq

theorem piece_text (h : operand.IsSpellable) : Piece operand.text.toList := by
  induction operand with
  | temp t => exact .plain (isPlain_of_isName t.isName_text)
  | var name => exact .plain (isPlain_of_isName h)
  | const value => exact Literal.piece_text h
  | attr base name ih =>
    rw [text, String.toList_append, String.toList_append]
    exact ((ih h.1).append (List.all_eq_true.mp rfl)).append (isPlain_of_isName h.2)

/-- No operand starts with a sign. -/
theorem exists_head (h : operand.IsSpellable) :
    ∃ c cs, operand.text.toList = c :: cs ∧ c ≠ '-' := by
  induction operand with
  | temp t => exact ⟨_, _, t.toList_text, by decide⟩
  | var name =>
    obtain ⟨c, cs, hcons, hstart, -⟩ := exists_of_isName h
    refine ⟨c, cs, hcons, ?_⟩
    rintro rfl
    simp at hstart
  | const value => exact Literal.exists_head h
  | attr base name ih =>
    obtain ⟨c, cs, hcons, hc⟩ := ih h.1
    refine ⟨c, cs ++ '.' :: name.toList, ?_, hc⟩
    rw [text, String.toList_append, String.toList_append, hcons, List.append_assoc]
    rfl

theorem text_ne_empty (h : operand.IsSpellable) : operand.text ≠ "" := by
  obtain ⟨c, cs, hcons, -⟩ := exists_head h
  intro hempty
  rw [hempty] at hcons
  cases hcons

theorem text_ne_neg (h : operand.IsSpellable) (back : String) : operand.text ≠ "-" ++ back := by
  obtain ⟨c, cs, hcons, hc⟩ := exists_head h
  intro heq
  rw [heq, String.toList_append] at hcons
  exact hc (List.cons.inj hcons).1.symm

end

end Operand

end Offside
