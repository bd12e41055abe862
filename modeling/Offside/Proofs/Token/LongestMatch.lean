/-
The longest match.  The texts of tokens are words, numbers, string literals and symbols.  Every
token of a text takes the longest of them that stands where the token starts, and what kind of token
it is depends on its own text only: on a table of words, and on the values of numbers and strings.
-/
import Offside.Proofs.Token.Rows
import Offside.Text.IdentifierRanges

namespace Offside

/-! ### Texts of tokens -/

/-- The texts of tokens: words, digits with at most one point among or behind them, string literals
in double quotes, operators and delimiters. -/
inductive TokenText [IdentifierTables] : List Char → Prop
  | word {c : Char} {cs : List Char} (hstart : isIdentifierStart c = true)
    (hrest : ∀ d ∈ cs, isIdentifierChar d = true) : TokenText (c :: cs)
  | number {c : Char} {cs : List Char} {isFloat : Bool} (hstart : c.isDigit = true)
    (hrest : Lexer.IsNumeral cs isFloat) : TokenText (c :: cs)
  | string {body value : List Char} (h : StringBody body value) : TokenText ('"' :: body)
  | symbol (sign : Symbol) : TokenText sign.text.toList

/-- The longest text of a token at the start of a text. -/
structure LongestText [IdentifierTables] (run rest : List Char) : Prop where
  starts : run <+: rest
  isText : TokenText run
  longest : ∀ other, other <+: rest → TokenText other → other.length ≤ run.length

namespace Symbol

theorem head_of_text [IdentifierTables] {sign : Symbol} {c : Char} {cs : List Char}
    (h : sign.text.toList = c :: cs) :
    isIdentifierStart c ≠ true ∧ c.isDigit ≠ true ∧ c ≠ '"' := by
  cases sign <;> cases h <;> rw [isIdentifierStart_of_ascii (by decide)] <;> decide

theorem text_ne_nil (sign : Symbol) : sign.text.toList ≠ [] := by
  cases sign <;> exact List.cons_ne_nil _ _

theorem text_inj {sign other : Symbol} (h : sign.text.toList = other.text.toList) :
    sign = other := by
  revert h
  cases sign <;> cases other <;> decide

/-- No symbol at the start of a text is longer than the one that is found there. -/
theorem length_le_of_longest? {rest : List Char} {sign other : Symbol}
    (h : longest? rest = some sign) (hother : other.text.toList <+: rest) :
    other.text.toList.length ≤ sign.text.toList.length := by
  obtain ⟨tail, rfl⟩ := hother
  -- a symbol of two characters is found wherever it stands
  have hfound : other.text.toList.length ≤ 1 ∨
      longest? (other.text.toList ++ tail) = some other := by
    cases other <;> first | exact .inl (by decide) | exact .inr rfl
  rcases hfound with hshort | hsame
  · exact hshort.trans (List.length_pos_of_ne_nil (text_ne_nil sign))
  · rw [hsame] at h
    cases h
    exact Nat.le_refl _

end Symbol

/-- What may stand behind the first character of a token's text. -/
def TextBehind [IdentifierTables] (c : Char) (cs : List Char) : Prop :=
  if isIdentifierStart c = true then ∀ d ∈ cs, isIdentifierChar d = true
  else if c.isDigit = true then ∃ isFloat, Lexer.IsNumeral cs isFloat
  else if c = '"' then ∃ value, StringBody cs value
  else ∃ sign : Symbol, sign.text.toList = c :: cs

namespace TokenText

variable [IdentifierTables] {run : List Char} {c : Char} {cs : List Char}

theorem ne_nil (h : TokenText run) : run ≠ [] := by
  cases h with
  | symbol sign => exact sign.text_ne_nil
  | _ => exact List.cons_ne_nil _ _

/-- The first character tells words, numbers, string literals and symbols apart. -/
theorem behind (h : TokenText (c :: cs)) : TextBehind c cs := by
  generalize hrun : c :: cs = run at h
  unfold TextBehind
  cases h with
  | word hstart hrest =>
    cases hrun
    rwa [if_pos hstart]
  | number hdigit hrest =>
    cases hrun
    have hstart := ne_true_of_eq_false (not_isIdentifierStart_of_isDigit hdigit)
    rw [if_neg hstart, if_pos hdigit]
    exact ⟨_, hrest⟩
  | string hbody =>
    cases hrun
    rw [if_neg (by simp), if_neg (by decide), if_pos rfl]
    exact ⟨_, hbody⟩
  | symbol sign =>
    obtain ⟨hstart, hdigit, hquote⟩ := Symbol.head_of_text hrun.symm
    rw [if_neg hstart, if_neg hdigit, if_neg hquote]
    exact ⟨sign, hrun.symm⟩

end TokenText

/-- A run of a class does not get past what ends it. -/
theorem EndsRun.length_le {p : Char → Bool} {run tail other : List Char} (htail : EndsRun p tail)
    (hother : ∀ c ∈ other, p c = true) (hstarts : other <+: run ++ tail) :
    other.length ≤ run.length := by
  rcases Nat.le_total other.length run.length with hle | hge
  · exact hle
  · obtain ⟨more, rfl⟩ := List.prefix_of_prefix_length_le (List.prefix_append run tail) hstarts hge
    have hmore : more <+: tail := (List.prefix_append_right_inj run).mp hstarts
    cases more with
    | nil => rw [List.append_nil]
    | cons d more =>
      obtain ⟨rest, rfl⟩ := hmore
      have hd := hother d (by simp)
      rw [htail d (more ++ rest) rfl] at hd
      cases hd

/-- Two bodies of string literals at the start of a text are one, with one value. -/
theorem StringBody.unique {first second value value' rest : List Char}
    (hfirst : StringBody first value) (hsecond : StringBody second value')
    (hstarts : first <+: rest) (hstarts' : second <+: rest) :
    first.length = second.length ∧ value = value' := by
  obtain ⟨tail, rfl⟩ := hstarts
  obtain ⟨tail', htail'⟩ := hstarts'
  have hrun := Lexer.stringRun_of_stringBody hsecond tail'
  rw [htail', Lexer.stringRun_of_stringBody hfirst tail] at hrun
  exact ⟨congrArg Lexer.StringRun.length hrun, congrArg Lexer.StringRun.value hrun⟩

namespace Lexer

variable [IdentifierTables] {run tail : List Char} {kind : TokenKind}

theorem IsNumeral.isNumberChar {c : Char} {cs : List Char} {isFloat : Bool}
    (h : IsNumeral cs isFloat) (hc : c.isDigit = true) : ∀ d ∈ c :: cs, isNumberChar d = true :=
  IsLexeme.isNumberChar_of_number hc h.isDigit_or_point

theorem ReadsAs.tokenText (h : ReadsAs run tail kind) : TokenText run := by
  cases h with
  | word hstart hrest => exact .word hstart hrest
  | number hdigit hrest => exact .number hdigit hrest
  | string hbody => exact .string hbody
  | symbol => exact .symbol _

/-- A token is read as the longest text that a token can have here. -/
theorem ReadsAs.longestText (h : ReadsAs run tail kind) : LongestText run (run ++ tail) := by
  refine ⟨List.prefix_append _ _, h.tokenText, fun other hstarts htext => ?_⟩
  obtain ⟨d, ds, rfl⟩ := List.exists_cons_of_ne_nil htext.ne_nil
  have hbehind := htext.behind
  unfold TextBehind at hbehind
  cases h with
  | @word c cs _ hstart hrest hstop =>
    obtain ⟨rfl, -⟩ := List.cons_prefix_cons.mp hstarts
    rw [if_pos hstart] at hbehind
    exact hstop.length_le
      (List.forall_mem_cons.mpr ⟨isIdentifierChar_of_start hstart, hbehind⟩) hstarts
  | @number c cs _ _ _ hdigit hrest hvalue hstop =>
    obtain ⟨rfl, -⟩ := List.cons_prefix_cons.mp hstarts
    have hstart := ne_true_of_eq_false (not_isIdentifierStart_of_isDigit hdigit)
    rw [if_neg hstart, if_pos hdigit] at hbehind
    obtain ⟨isFloat, hnumeral⟩ := hbehind
    exact hstop.length_le (hnumeral.isNumberChar hdigit) hstarts
  | @string body value _ hbody =>
    obtain ⟨rfl, hrest⟩ := List.cons_prefix_cons.mp hstarts
    rw [if_neg (by simp), if_neg (by decide), if_pos rfl] at hbehind
    obtain ⟨value', hbody'⟩ := hbehind
    have hsame := hbody'.unique hbody hrest (List.prefix_append _ _)
    exact Nat.le_of_eq (congrArg (· + 1) hsame.1)
  | @symbol sign _ hlongest =>
    obtain ⟨c, cs, hsign⟩ := List.exists_cons_of_ne_nil sign.text_ne_nil
    obtain ⟨hstart, hdigit, hquote⟩ := Symbol.head_of_text hsign
    obtain rfl : d = c := by
      rw [hsign] at hstarts
      exact (List.cons_prefix_cons.mp hstarts).1
    rw [if_neg hstart, if_neg hdigit, if_neg hquote] at hbehind
    obtain ⟨other, hother⟩ := hbehind
    rw [← hother] at hstarts ⊢
    exact Symbol.length_le_of_longest? hlongest hstarts

end Lexer

/-! ### Kinds of texts -/

/-- The words that are no identifiers, with what they are. -/
def wordTable : List (String × TokenKind) :=
  Keyword.all.map (fun word => (word.text, .keyword word)) ++
    (TokenKind.constantWords.map (fun word => (word.1, .literal word.2)) ++
      TokenKind.reservedWords.map fun word => (word, .reserved word))

theorem mem_wordTable {word : String} {kind : TokenKind} :
    (word, kind) ∈ wordTable ↔ TokenKind.ofReservedWord? word = some kind := by
  constructor
  · have hentries : ∀ entry ∈ wordTable,
        TokenKind.ofReservedWord? entry.1 = some entry.2 := by decide +kernel
    exact hentries (word, kind)
  · intro h
    unfold TokenKind.ofReservedWord? at h
    simp only [wordTable, List.mem_append, List.mem_map]
    split at h
    · next found hfound =>
      cases h
      have hword := List.find?_some hfound
      exact .inl ⟨found, found.mem_all, by rw [eq_of_beq hword]⟩
    · split at h
      · next found hfound =>
        cases h
        have hword := List.find?_some hfound
        exact .inr (.inl ⟨found, List.mem_of_find?_eq_some hfound, by rw [eq_of_beq hword]⟩)
      · split at h
        · next hreserved =>
          cases h
          exact .inr (.inr ⟨word, List.contains_iff_mem.mp hreserved, rfl⟩)
        · cases h

/-- What kind of token a text makes on its own. -/
def Denotes [IdentifierTables] : List Char → TokenKind → Prop
  | [], _ => False
  | c :: cs, kind =>
    let word := String.ofList (c :: cs)
    if isIdentifierStart c = true then
      (word, kind) ∈ wordTable ∨ (∀ other, (word, other) ∉ wordTable) ∧ kind = .identifier word
    else if c.isDigit = true then
      ∃ isFloat value, Lexer.IsNumeral cs isFloat ∧
        Lexer.numeral? isFloat (c :: cs) = some value ∧ kind = .literal value
    else if c = '"' then
      ∃ value, StringBody cs value ∧ kind = .literal (.str (String.ofList value))
    else ∃ sign : Symbol, sign.text.toList = c :: cs ∧ kind = .symbol sign

theorem Lexer.IsNumeral.isFloat_iff {cs : List Char} {isFloat : Bool} (h : IsNumeral cs isFloat) :
    isFloat = true ↔ '.' ∈ cs := by
  cases h with
  | whole hrun => exact ⟨nofun, fun hmem => absurd (hrun _ hmem) (by decide)⟩
  | point => simp

theorem Lexer.ReadsAs.denotes [IdentifierTables] {run tail : List Char} {kind : TokenKind}
    (h : ReadsAs run tail kind) : Denotes run kind := by
  cases h with
  | @word c cs _ hstart hrest hstop =>
    rw [Denotes, if_pos hstart, mem_wordTable, TokenKind.ofWord]
    cases hword : TokenKind.ofReservedWord? (String.ofList (c :: cs)) with
    | some kind => exact .inl rfl
    | none =>
      refine .inr ⟨fun other hother => ?_, rfl⟩
      rw [mem_wordTable, hword] at hother
      cases hother
  | number hdigit hrest hvalue =>
    have hstart := ne_true_of_eq_false (not_isIdentifierStart_of_isDigit hdigit)
    rw [Denotes, if_neg hstart, if_pos hdigit]
    exact ⟨_, _, hrest, hvalue, rfl⟩
  | string hbody =>
    rw [Denotes, if_neg (by simp), if_neg (by decide), if_pos rfl]
    exact ⟨_, hbody, rfl⟩
  | @symbol sign _ _ =>
    obtain ⟨c, cs, hsign⟩ := List.exists_cons_of_ne_nil sign.text_ne_nil
    obtain ⟨hstart, hdigit, hquote⟩ := Symbol.head_of_text hsign
    rw [hsign, Denotes, if_neg hstart, if_neg hdigit, if_neg hquote]
    exact ⟨sign, hsign, rfl⟩

/-- A text makes one kind of token only. -/
theorem Denotes.unique [IdentifierTables] {run : List Char} {kind other : TokenKind}
    (h : Denotes run kind) (hother : Denotes run other) : kind = other := by
  cases run with
  | nil => cases h
  | cons c cs =>
    unfold Denotes at h hother
    dsimp only at h hother
    split at h
    · next hstart =>
      rw [if_pos hstart] at hother
      simp only [mem_wordTable] at h hother
      rcases h with h | ⟨hnone, rfl⟩
      · rcases hother with hother | ⟨hnone, -⟩
        · exact Option.some.inj (h.symm.trans hother)
        · exact absurd h (hnone kind)
      · rcases hother with hother | ⟨-, rfl⟩
        · exact absurd hother (hnone other)
        · rfl
    · next hstart =>
      rw [if_neg hstart] at hother
      split at h
      · next hdigit =>
        rw [if_pos hdigit] at hother
        obtain ⟨isFloat, value, hnumeral, hvalue, rfl⟩ := h
        obtain ⟨isFloat', value', hnumeral', hvalue', rfl⟩ := hother
        obtain rfl : isFloat = isFloat' :=
          Bool.eq_iff_iff.mpr (hnumeral.isFloat_iff.trans hnumeral'.isFloat_iff.symm)
        rw [Option.some.inj (hvalue.symm.trans hvalue')]
      · next hdigit =>
        rw [if_neg hdigit] at hother
        split at h
        · next hquote =>
          rw [if_pos hquote] at hother
          obtain ⟨value, hbody, rfl⟩ := h
          obtain ⟨value', hbody', rfl⟩ := hother
          rw [(hbody.unique hbody' List.prefix_rfl List.prefix_rfl).2]
        · next hquote =>
          rw [if_neg hquote] at hother
          obtain ⟨sign, hsign, rfl⟩ := h
          obtain ⟨sign', hsign', rfl⟩ := hother
          rw [Symbol.text_inj (hsign.trans hsign'.symm)]

/-! ### Tokens of a text -/

/-- Whatever the tables say, every token of a text that is no layout takes the longest text of a
token that stands where it starts, and is of the kind that this text makes on its own. -/
theorem longestText_of_tokenize [IdentifierTables] {text : String} {tabWidth : Nat}
    {tokens : List Token} {token : Token} (htokens : tokenize text tabWidth = .ok tokens)
    (htoken : token ∈ tokens) (hsource : token.kind.isLayout = false) :
    ∃ front run tail, text.toList = front ++ (run ++ tail) ∧
      token.span.start = Position.first.after front ∧ token.lexeme = String.ofList run ∧
      LongestText run (run ++ tail) ∧ Denotes run token.kind ∧
      ∀ kind, Denotes run kind → kind = token.kind := by
  obtain ⟨before, after, hplace⟩ := List.append_of_mem htoken
  have hpiece : tokens = before ++ ([token] ++ after) := hplace
  obtain ⟨front, run, tail, hsplit, hrow, -⟩ := (cut_of_tokenize htokens).exists_row rfl hpiece
    (List.cons_ne_nil _ _) (List.forall_mem_singleton.mpr hsource)
  have hscan : Scans front run tail token := by
    cases hrow with
    | last hscan => exact hscan
    | more _ _ next => cases next
  have hreads := hscan.readsAs.1
  exact ⟨front, run, tail, hsplit, hscan.span_start, hscan.lexeme, hreads.longestText,
    hreads.denotes, fun kind hkind => hkind.unique hreads.denotes⟩

namespace LongestMatchWitness

/-- A word that only the tables tell, and three signs that no operator takes together. -/
def source : String := "ñ1**="

def word : Token := ⟨.identifier "ñ1", "ñ1", ⟨⟨1, 1, 0⟩, ⟨1, 3, 3⟩⟩⟩

def power : Token := ⟨.symbol .starStar, "**", ⟨⟨1, 3, 3⟩, ⟨1, 5, 5⟩⟩⟩

def assign : Token := ⟨.symbol .assign, "=", ⟨⟨1, 5, 5⟩, ⟨1, 6, 6⟩⟩⟩

def tokens : List Token :=
  [word, power, assign, .mark .newline ⟨1, 6, 6⟩, .mark .endOfInput ⟨1, 6, 6⟩]

theorem longestText_of_word :
    tokenize source 4 = .ok tokens ∧ word ∈ tokens ∧ word.kind.isLayout = false ∧
      ∃ front run tail, source.toList = front ++ (run ++ tail) ∧
        word.span.start = Position.first.after front ∧ word.lexeme = String.ofList run ∧
        LongestText run (run ++ tail) ∧ Denotes run word.kind ∧
        ∀ kind, Denotes run kind → kind = word.kind := by
  have htokens : tokenize source 4 = .ok tokens := by decide +kernel
  have htoken : word ∈ tokens := by decide
  exact ⟨htokens, htoken, rfl, longestText_of_tokenize htokens htoken rfl⟩

end LongestMatchWitness

end Offside
