/-
How the moves of parsers succeed.  Every lemma says what a parser has read when it answers: the
tokens it went over, and what it left as it was.
-/
import Offside.Grammar.Expression

namespace Offside

/-- A cursor that has gone over these tokens.  The depth of nesting may differ. -/
structure Cursor.Reads (c : Cursor) (read : List Token) (c' : Cursor) : Prop where
  rest : c.rest = read ++ c'.rest
  past : c'.past = read.reverse ++ c.past
  classes : c'.classes = c.classes
  maxDepth : c'.maxDepth = c.maxDepth
  blockDepth : c'.blockDepth = c.blockDepth

namespace Cursor

variable {c c' c'' : Cursor} {first second : List Token}

theorem Reads.refl (c : Cursor) : c.Reads [] c := ⟨rfl, rfl, rfl, rfl, rfl⟩

/-- Two ways that meet make one way, over the tokens of both. -/
theorem Reads.trans (hfirst : c.Reads first c') (hsecond : c'.Reads second c'') :
    c.Reads (first ++ second) c'' where
  rest := by rw [hfirst.rest, hsecond.rest, List.append_assoc]
  past := by rw [hsecond.past, hfirst.past, List.reverse_append, List.append_assoc]
  classes := hsecond.classes.trans hfirst.classes
  maxDepth := hsecond.maxDepth.trans hfirst.maxDepth
  blockDepth := hsecond.blockDepth.trans hfirst.blockDepth

/-- How deep a cursor has nested does not show in the tokens it went over. -/
theorem Reads.atDepth (h : c.Reads first c') (depth : Nat) :
    c.Reads first { c' with depth := depth } :=
  ⟨h.rest, h.past, h.classes, h.maxDepth, h.blockDepth⟩

theorem Reads.fromDepth {depth : Nat} (h : ({ c with depth := depth } : Cursor).Reads first c') :
    c.Reads first c' :=
  ⟨h.rest, h.past, h.classes, h.maxDepth, h.blockDepth⟩

theorem Reads.setDepth (h : c.Reads first c') (depth : Nat) :
    ({ c with depth := depth } : Cursor).Reads first c' :=
  ⟨h.rest, h.past, h.classes, h.maxDepth, h.blockDepth⟩

/-- A way over tokens passes every place between them. -/
theorem Reads.split (h : c.Reads (first ++ second) c') :
    ∃ mid, mid.depth = c.depth ∧ c.Reads first mid ∧ mid.Reads second c' := by
  refine ⟨{ c with past := first.reverse ++ c.past, rest := second ++ c'.rest }, rfl, ?_, ?_⟩
  · exact ⟨by rw [h.rest, List.append_assoc], rfl, rfl, rfl, rfl⟩
  · exact ⟨rfl, by simp [h.past], h.classes, h.maxDepth, h.blockDepth⟩

/-- A cursor that went over nothing is where it was. -/
theorem Reads.eq_of_nil (h : c.Reads [] c') : c = { c' with depth := c.depth } := by
  obtain ⟨hrest, hpast, hclasses, hmaxDepth, hblockDepth⟩ := h
  cases c
  cases c'
  simp_all

variable {token : Token} {rest : List Token}

/-- Behind its first token a way goes on from the next place. -/
theorem Reads.tail (h : c.Reads (token :: first) c') : c.next.Reads first c' := by
  have hrest : c.rest = token :: (first ++ c'.rest) := h.rest
  constructor <;> simp [next, hrest, h.past, h.classes, h.maxDepth, h.blockDepth]

theorem Reads.split_cons (h : c.Reads (token :: (first ++ second)) c') :
    ∃ mid, mid.depth = c.depth ∧ c.Reads (token :: first) mid ∧ mid.Reads second c' :=
  (show c.Reads ((token :: first) ++ second) c' from h).split

theorem Reads.kind (h : c.Reads (token :: first) c') : c.kind = token.kind := by
  simp [Cursor.kind, h.rest]

theorem Reads.span (h : c.Reads (token :: first) c') : c.span = token.span := by
  simp [Cursor.span, h.rest]

theorem Reads.next_eq (h : c.Reads [token] c') : c.next = { c' with depth := c.depth } := by
  rw [h.tail.eq_of_nil]
  simp [next, h.rest]

/-- A step over a token reads this token. -/
theorem reads_next (h : c.rest = token :: rest) : c.Reads [token] c.next := by
  constructor <;> simp [next, h]

theorem rest_next (h : c.rest = token :: rest) : c.next.rest = rest := by
  simp [next, h]

@[simp] theorem depth_next (c : Cursor) : c.next.depth = c.depth := by
  cases h : c.rest <;> simp [next, h]

@[simp] theorem maxDepth_next (c : Cursor) : c.next.maxDepth = c.maxDepth := by
  cases h : c.rest <;> simp [next, h]

theorem maxDepth_declare (c : Cursor) (name : String) : (c.declare name).maxDepth = c.maxDepth := by
  unfold declare
  split <;> rfl

@[simp] theorem classes_next (c : Cursor) : c.next.classes = c.classes := by
  cases h : c.rest <;> simp [next, h]

theorem kind_of_rest (h : c.rest = token :: rest) : c.kind = token.kind := by
  simp [kind, h]

theorem span_of_rest (h : c.rest = token :: rest) : c.span = token.span := by
  simp [span, h]

/-- Only the end of the input may stand for no token at all. -/
theorem exists_token {kind : TokenKind} (h : c.kind = kind)
    (hkind : kind ≠ .layout .endOfInput) :
    ∃ token rest, c.rest = token :: rest ∧ token.kind = kind := by
  cases hrest : c.rest with
  | nil => exact absurd (by simpa [Cursor.kind, hrest] using h.symm) hkind
  | cons token rest => exact ⟨token, rest, rfl, by rw [← kind_of_rest hrest, h]⟩

/-- What a way ended with is what its end remembers. -/
theorem lastSpan_of_reads {read : List Token} (h : c.Reads (read ++ [token]) c') :
    c'.lastSpan = token.span := by
  simp [lastSpan, h.past]

end Cursor

namespace TokenKind

/-- Only literals are compared by their values; a symbol is told by its kind, and so are a keyword
and layout. -/
@[simp] theorem isA_symbol (kind : TokenKind) (sign : Symbol) :
    kind.isA (.symbol sign) = true ↔ kind = .symbol sign := by
  cases kind <;> simp [isA]

@[simp] theorem isA_keyword (kind : TokenKind) (word : Keyword) :
    kind.isA (.keyword word) = true ↔ kind = .keyword word := by
  cases kind <;> simp [isA]

@[simp] theorem isA_layout (kind : TokenKind) (layout : Layout) :
    kind.isA (.layout layout) = true ↔ kind = .layout layout := by
  cases kind <;> simp [isA]

end TokenKind

namespace Parser

variable {α β : Type} {p : Parser α} {f : α → Parser β} {c c' : Cursor}

/-! ### Sequences -/

/-- A sequence of two parsers goes on where the first one answered. -/
theorem bind_ok {a : α} (h : p c = .ok a c') : (p >>= f) c = f a c' := by
  simp only [bind, EStateM.bind, h]

/-- The error of the first of two parsers is the error of both. -/
theorem bind_error {error : GrammarError} (h : p c = .error error c') :
    (p >>= f) c = .error error c' := by
  simp only [bind, EStateM.bind, h]

/-- Two parsers in a row answer only where the first answers and the second goes on from there. -/
theorem exists_of_bind_ok {b : β} (h : (p >>= f) c = .ok b c') :
    ∃ a mid, p c = .ok a mid ∧ f a mid = .ok b c' := by
  simp only [bind, EStateM.bind] at h
  split at h
  case h_1 a mid hfirst => exact ⟨a, mid, hfirst, h⟩
  case h_2 => cases h

theorem get_bind (c : Cursor) (f : Cursor → Parser β) : (get >>= f) c = f c c := rfl

theorem pure_eq (a : α) (c : Cursor) : (pure a : Parser α) c = .ok a c := rfl

theorem bump_bind (c : Cursor) (f : Option Token → Parser β) :
    (bump >>= f) c = f c.current? c.next := rfl

/-! ### Single tokens -/

/-- A token that was expected and found is the next one, and it alone is read. -/
theorem expect_ok {wanted : TokenKind} {what : String} {token : Token}
    (h : expect wanted what c = .ok token c') :
    ∃ rest, c.rest = token :: rest ∧ token.kind.isA wanted = true ∧ c' = c.next := by
  rw [expect] at h
  split at h
  case h_1 first rest hrest =>
    split at h
    case isTrue hkind =>
      cases h
      exact ⟨rest, hrest, hkind, rfl⟩
    case isFalse => cases h
  case h_2 => cases h

theorem expect_of_rest {wanted : TokenKind} {token : Token} {rest : List Token}
    (h : c.rest = token :: rest) (hkind : token.kind.isA wanted = true) (what : String) :
    expect wanted what c = .ok token c.next := by
  simp [expect, h, hkind]

/-- A token that stands there as expected is read, whatever would be said of another. -/
theorem expect_of_reads {wanted : TokenKind} {token : Token} (h : c.Reads [token] c')
    (hkind : token.kind.isA wanted = true) (what : String) :
    expect wanted what c = .ok token { c' with depth := c.depth } := by
  rw [expect_of_rest h.rest hkind, h.next_eq]

/-- A name that was expected and found is that of the next token, and so is its span. -/
theorem expectIdentifier_ok {what name : String} {span : Span}
    (h : expectIdentifier what c = .ok (name, span) c') :
    ∃ token rest, c.rest = token :: rest ∧ token.kind = .identifier name ∧
      span = token.span ∧ c' = c.next := by
  rw [expectIdentifier] at h
  split at h
  case h_1 found hkind =>
    cases h
    obtain ⟨token, rest, hrest, htoken⟩ := Cursor.exists_token hkind (by simp)
    exact ⟨token, rest, hrest, htoken, Cursor.span_of_rest hrest, rfl⟩
  case h_2 => cases h

theorem expectIdentifier_of_rest {token : Token} {rest : List Token} {name : String}
    (h : c.rest = token :: rest) (hkind : token.kind = .identifier name) (what : String) :
    expectIdentifier what c = .ok (name, token.span) c.next := by
  simp [expectIdentifier, Cursor.kind_of_rest h, Cursor.span_of_rest h, hkind]

theorem skip_of_isAt {wanted : TokenKind} (h : c.isAt wanted = true) :
    skip wanted c = .ok true c.next := by
  simp [skip, h]

theorem skip_of_not_isAt {wanted : TokenKind} (h : c.isAt wanted = false) :
    skip wanted c = .ok false c := by
  simp [skip, h]

/-! ### Lists of items -/

variable {item : List α → Parser α} {before : List α}

/-- At a closing parenthesis a list of items is over. -/
theorem itemsAfter_of_close (h : c.kind = .symbol .closeParen) (count : Nat) :
    itemsAfter item count before c = .ok before.reverse c := by
  cases count with
  | zero => rfl
  | succ count =>
    have hclose : c.isAt (.symbol .closeParen) = true := (TokenKind.isA_symbol _ _).mpr h
    rw [itemsAfter, get_bind, if_pos hclose]
    rfl

/-- Before anything else one more item is read, and a comma behind it asks for more. -/
theorem itemsAfter_of_not_close (h : c.kind ≠ .symbol .closeParen) (count : Nat) :
    itemsAfter item (count + 1) before c = (do
      let first ← item before
      if ← skip (.symbol .comma) then itemsAfter item count (first :: before)
      else pure (first :: before).reverse : Parser (List α)) c := by
  have hclose : ¬ c.isAt (.symbol .closeParen) = true :=
    fun hat => h ((TokenKind.isA_symbol _ _).mp hat)
  rw [itemsAfter, get_bind, if_neg hclose]

variable {stop : Cursor → Bool} {once : Parser α}

/-- Where a loop is to stop, it reads nothing. -/
theorem repeatUntil_of_stop (h : stop c = true) (count : Nat) :
    repeatUntil stop once count c = .ok [] c := by
  cases count with
  | zero => rfl
  | succ count =>
    rw [repeatUntil, get_bind, if_pos h]
    rfl

theorem repeatUntil_succ (h : stop c = false) (count : Nat) :
    repeatUntil stop once (count + 1) c = (do
      let first ← once
      let others ← repeatUntil stop once count
      pure (first :: others) : Parser (List α)) c := by
  rw [repeatUntil, get_bind, if_neg (by rw [h]; exact Bool.false_ne_true)]

/-! ### Nesting -/

theorem enterNesting_of_lt (h : c.depth < c.maxDepth) :
    enterNesting c = .ok () { c with depth := c.depth + 1 } := by
  simp [enterNesting, h]

theorem enterNesting_ok {a : Unit} (h : enterNesting c = .ok a c') :
    c.depth < c.maxDepth ∧ c' = { c with depth := c.depth + 1 } := by
  rw [enterNesting] at h
  split at h
  case isTrue hlt => cases h; exact ⟨hlt, rfl⟩
  case isFalse => cases h

/-- What is parsed one level deeper is within the limit there, and the level is left behind it. -/
theorem nested_ok {a : α} (h : nested p c = .ok a c') :
    c.depth < c.maxDepth ∧ ∃ mid, p { c with depth := c.depth + 1 } = .ok a mid ∧
      c' = { mid with depth := c.depth } := by
  rw [nested] at h
  cases hp : (do enterNesting; p : Parser α) c with
  | error error mid => rw [hp] at h; cases h
  | ok value mid =>
    rw [hp] at h
    cases h
    obtain ⟨_, entered, henter, hp⟩ := exists_of_bind_ok hp
    obtain ⟨hlt, rfl⟩ := enterNesting_ok henter
    exact ⟨hlt, mid, hp, rfl⟩

/-- Below the limit, a parser one level deeper is the parser itself, but for the depth. -/
theorem nested_of_lt (h : c.depth < c.maxDepth) :
    nested p c = atDepth c.depth (p { c with depth := c.depth + 1 }) := by
  rw [nested, bind_ok (enterNesting_of_lt h)]

end Parser

end Offside
