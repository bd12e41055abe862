/-
String literals in double quotes.  Five characters are written as a backslash and a letter; all
others stand for themselves.
-/
namespace Offside.Quoted

/-- The letter that stands for a character after a backslash. -/
def escape? : Char → Option Char
  | '"' => some '"'
  | '\\' => some '\\'
  | '\n' => some 'n'
  | '\t' => some 't'
  | '\r' => some 'r'
  | _ => none

/-- The character that a letter stands for after a backslash. -/
def unescape? : Char → Option Char
  | '"' => some '"'
  | '\\' => some '\\'
  | 'n' => some '\n'
  | 't' => some '\t'
  | 'r' => some '\r'
  | _ => none

/-- The written form of one character. -/
def encodeChar (c : Char) : List Char :=
  match escape? c with
  | some letter => ['\\', letter]
  | none => [c]

/-- The written form of a text between the quotes. -/
def encode (cs : List Char) : List Char := cs.flatMap encodeChar

/-- A text as a literal. -/
def literal (text : String) : String :=
  String.ofList ('"' :: (encode text.toList ++ ['"']))

@[simp] theorem encode_nil : encode [] = [] := rfl

@[simp] theorem encode_cons (c : Char) (cs : List Char) :
    encode (c :: cs) = encodeChar c ++ encode cs := by
  simp [encode]

/-- Reading back what stands for a character gives the character. -/
theorem unescape?_of_escape? {c letter : Char} (h : escape? c = some letter) :
    unescape? letter = some c := by
  unfold escape? at h
  split at h <;> simp_all [unescape?]
  all_goals subst h; rfl

end Offside.Quoted
