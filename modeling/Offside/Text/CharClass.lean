/-
Character classes: which characters make up an identifier.
-/
namespace Offside

/-- Whether a character lies in one of the ranges, ends included. -/
def inRanges (ranges : List (Nat × Nat)) (c : Char) : Bool :=
  ranges.any fun range => range.1 ≤ c.toNat && c.toNat ≤ range.2

/-- The Unicode properties `XID_Start` and `XID_Continue`, as tables of any version of Unicode
may have them.  The laws are what every version says: the first property implies the second,
and among the ASCII characters both are settled. -/
class IdentifierTables where
  /-- The property `XID_Start`. -/
  starts : Char → Bool
  /-- The property `XID_Continue`. -/
  continues : Char → Bool
  continues_of_starts {c : Char} : starts c = true → continues c = true
  starts_of_ascii {c : Char} : c.toNat < 128 → starts c = c.isAlpha
  continues_of_ascii {c : Char} : c.toNat < 128 → continues c = (c.isAlphanum || c == '_')

theorem toNat_lt_of_isAlphanum {c : Char} (h : c.isAlphanum = true) : c.toNat < 128 := by
  change (decide (65 ≤ c.val ∧ c.val ≤ 90) || (decide (97 ≤ c.val) && decide (c.val ≤ 122)) ||
    (decide (48 ≤ c.val) && decide (c.val ≤ 57))) = true at h
  simp only [Bool.or_eq_true, Bool.and_eq_true, decide_eq_true_eq, UInt32.le_iff_toNat_le] at h
  change ((65 ≤ c.toNat ∧ c.toNat ≤ 90) ∨ (97 ≤ c.toNat ∧ c.toNat ≤ 122)) ∨
    (48 ≤ c.toNat ∧ c.toNat ≤ 57) at h
  omega

theorem isAlphanum_of_isDigit {c : Char} (h : c.isDigit = true) : c.isAlphanum = true := by
  simp [Char.isAlphanum, h]

variable [IdentifierTables] {c : Char}

/-- A letter of any script, or an underscore. -/
def isIdentifierStart (c : Char) : Bool := c == '_' || IdentifierTables.starts c

/-- A character that may follow the first one of an identifier. -/
def isIdentifierChar (c : Char) : Bool := IdentifierTables.continues c

@[simp] theorem isIdentifierStart_of_ascii (h : c.toNat < 128) :
    isIdentifierStart c = (c == '_' || c.isAlpha) := by
  rw [isIdentifierStart, IdentifierTables.starts_of_ascii h]

@[simp] theorem isIdentifierChar_of_ascii (h : c.toNat < 128) :
    isIdentifierChar c = (c.isAlphanum || c == '_') :=
  IdentifierTables.continues_of_ascii h

/-- Whatever starts an identifier may also continue one. -/
theorem isIdentifierChar_of_start (h : isIdentifierStart c = true) :
    isIdentifierChar c = true := by
  rcases (Bool.or_eq_true _ _).mp h with hscore | hstart
  · rw [eq_of_beq hscore]
    simp
  · exact IdentifierTables.continues_of_starts hstart

theorem isIdentifierStart_of_isAlpha (h : c.isAlpha = true) : isIdentifierStart c = true := by
  have hascii : c.toNat < 128 := toNat_lt_of_isAlphanum (by simp [Char.isAlphanum, h])
  rw [isIdentifierStart_of_ascii hascii, h, Bool.or_true]

/-- Digits continue an identifier, but they start none. -/
theorem isIdentifierChar_of_isDigit (h : c.isDigit = true) : isIdentifierChar c = true := by
  have halphanum := isAlphanum_of_isDigit h
  rw [isIdentifierChar_of_ascii (toNat_lt_of_isAlphanum halphanum), halphanum, Bool.true_or]

end Offside
