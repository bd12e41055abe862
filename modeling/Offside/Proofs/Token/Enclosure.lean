/-
What a character of a text stands in, found by walking over the text once: in code, in a comment
or in a string literal, and inside how many brackets.  The walk knows nothing of tokens, lines or
indentation.
-/
import Offside.Proofs.Token.Lexeme

namespace Offside

inductive Region where
  | code
  | comment
  | string
  /-- In a string literal, directly behind a backslash. -/
  | escape
  deriving Repr, DecidableEq

/-- What the next character of a text stands in. -/
structure Enclosure where
  region : Region
  /-- Brackets that are open; a closing bracket without an open one has no effect. -/
  brackets : Nat
  deriving Repr, DecidableEq

namespace Enclosure

/-- Code outside of all brackets, as at the start of a text. -/
def outside : Enclosure := ⟨.code, 0⟩

/-- What one character changes.  Comments and string literals end with their line. -/
def step : Enclosure → Char → Enclosure
  | ⟨.code, brackets⟩, c =>
    match c with
    | '#' => ⟨.comment, brackets⟩
    | '"' => ⟨.string, brackets⟩
    | '(' | '[' | '{' => ⟨.code, brackets + 1⟩
    | ')' | ']' | '}' => ⟨.code, brackets - 1⟩
    | _ => ⟨.code, brackets⟩
  | ⟨.comment, brackets⟩, c => if c = '\n' then ⟨.code, brackets⟩ else ⟨.comment, brackets⟩
  | ⟨.string, brackets⟩, c =>
    match c with
    | '"' | '\n' => ⟨.code, brackets⟩
    | '\\' => ⟨.escape, brackets⟩
    | _ => ⟨.string, brackets⟩
  | ⟨.escape, brackets⟩, c => if c = '\n' then ⟨.code, brackets⟩ else ⟨.string, brackets⟩

/-- What the character after a run stands in. -/
def after (here : Enclosure) (run : List Char) : Enclosure := run.foldl step here

@[simp] theorem after_nil (here : Enclosure) : here.after [] = here := rfl

@[simp] theorem after_cons (here : Enclosure) (c : Char) (run : List Char) :
    here.after (c :: run) = (here.step c).after run := rfl

theorem after_append (here : Enclosure) (left right : List Char) :
    here.after (left ++ right) = (here.after left).after right := by
  simp [after]

/-- Characters that change nothing in code. -/
def isInert (c : Char) : Bool := !(['#', '"', '(', ')', '[', ']', '{', '}'].contains c)

theorem step_of_isInert {c : Char} (hc : isInert c = true) (brackets : Nat) :
    step ⟨.code, brackets⟩ c = ⟨.code, brackets⟩ := by
  rw [step] <;> (rintro rfl; exact absurd hc (by decide))

theorem after_of_isInert {run : List Char} (hrun : ∀ c ∈ run, isInert c = true)
    (brackets : Nat) : after ⟨.code, brackets⟩ run = ⟨.code, brackets⟩ := by
  induction run with
  | nil => rfl
  | cons c run ih =>
    obtain ⟨hc, hrun⟩ := List.forall_mem_cons.mp hrun
    rw [after_cons, step_of_isInert hc, ih hrun]

theorem isInert_of_isBlank {c : Char} (hc : Lexer.isBlank c = true) : isInert c = true := by
  simp only [Lexer.isBlank, Bool.or_eq_true, beq_iff_eq] at hc
  rcases hc with (rfl | rfl) | rfl <;> decide

/-- Characters of words and numbers are none of those that the walk minds. -/
theorem isInert_of_isNumberChar [IdentifierTables] {c : Char} (hc : Lexer.isNumberChar c = true) :
    isInert c = true := by
  cases hinert : isInert c with
  | true => rfl
  | false =>
    simp only [isInert, Bool.not_eq_false', List.contains_eq_mem, decide_eq_true_eq,
      List.mem_cons, List.not_mem_nil, or_false] at hinert
    rcases hinert with rfl | rfl | rfl | rfl | rfl | rfl | rfl | rfl <;>
      simp at hc

theorem after_comment {text : List Char} (htext : '\n' ∉ text) (brackets : Nat) :
    after ⟨.comment, brackets⟩ text = ⟨.comment, brackets⟩ := by
  induction text with
  | nil => rfl
  | cons c text ih =>
    simp only [List.mem_cons, not_or] at htext
    rw [after_cons, step, if_neg (Ne.symm htext.1), ih htext.2]

theorem step_string {c : Char} (hquote : c ≠ '"') (hescape : c ≠ '\\') (hline : c ≠ '\n')
    (brackets : Nat) : step ⟨.string, brackets⟩ c = ⟨.string, brackets⟩ := by
  rw [step] <;> assumption

theorem after_stringBody {body value : List Char} (h : StringBody body value) (brackets : Nat) :
    after ⟨.string, brackets⟩ body = ⟨.code, brackets⟩ := by
  induction h with
  | close => rfl
  | plain hquote hescape hline _ ih =>
    rw [after_cons, step_string hquote hescape hline, ih]
  | escaped hc _ ih =>
    rw [after_cons, after_cons, step, step, if_neg (StringBody.ne_lineFeed_of_unescape? hc), ih]

end Enclosure

namespace IsLexeme

variable [IdentifierTables] {run : List Char} {kind : TokenKind}

/-- A token as a whole leaves code in code and changes only the open brackets. -/
theorem after_code (h : IsLexeme run kind) (brackets : Nat) :
    Enclosure.after ⟨.code, brackets⟩ run = ⟨.code, kind.brackets brackets⟩ := by
  cases h with
  | word hstart hrest =>
    rw [(TokenKind.ofWord_plain _).2]
    exact Enclosure.after_of_isInert
      (fun d hd => Enclosure.isInert_of_isNumberChar (isNumberChar_of_word hstart hrest d hd)) _
  | number value hstart hrest =>
    exact Enclosure.after_of_isInert
      (fun d hd => Enclosure.isInert_of_isNumberChar (isNumberChar_of_number hstart hrest d hd))
      _
  | string h =>
    rw [Enclosure.after_cons, Enclosure.step, Enclosure.after_stringBody h]
    rfl
  | symbol sign => cases sign <;> rfl

end IsLexeme

end Offside
