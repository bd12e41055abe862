/-
The tokens under the span of an expression.  Parentheses around an operand and plus signs in front
of it leave no node, so the span of an expression may leave out some that belong to it.  Where the
tokens under the span close just the parentheses that they open, they spell the expression all the
same, and only a plus sign that is left out can make reading them take more levels of nesting.
-/
import Offside.Proofs.Grammar.Acceptance
import Offside.Proofs.Grammar.Completeness
import Offside.Proofs.Grammar.Spans

namespace Offside

/-! ### Parentheses -/

/-- How many parentheses are open behind a token; nothing if it closes one where none is open. -/
def Token.parensAfter? (count : Nat) (token : Token) : Option Nat :=
  match token.kind with
  | .symbol .openParen => some (count + 1)
  | .symbol .closeParen => if count = 0 then none else some (count - 1)
  | _ => some count

/-- How many parentheses are open behind these tokens. -/
def parensAfter? (count : Nat) (tokens : List Token) : Option Nat :=
  tokens.foldlM Token.parensAfter? count

section

variable {count final : Nat} {tokens first second : List Token} {token : Token}

theorem parensAfter?_append :
    parensAfter? count (first ++ second) =
      (parensAfter? count first).bind fun count => parensAfter? count second :=
  List.foldlM_append

theorem parensAfter?_cons :
    parensAfter? count (token :: tokens) =
      (token.parensAfter? count).bind fun count => parensAfter? count tokens :=
  List.foldlM_cons

theorem Token.parensAfter?_open (h : token.kind = .symbol .openParen) :
    token.parensAfter? count = some (count + 1) := by
  rw [Token.parensAfter?, h]

theorem Token.parensAfter?_close (h : token.kind = .symbol .closeParen) :
    token.parensAfter? count = if count = 0 then none else some (count - 1) := by
  rw [Token.parensAfter?, h]

theorem Token.parensAfter?_other (hopen : token.kind ≠ .symbol .openParen)
    (hclose : token.kind ≠ .symbol .closeParen) : token.parensAfter? count = some count := by
  rw [Token.parensAfter?]
  split
  · next hkind => exact absurd hkind hopen
  · next hkind => exact absurd hkind hclose
  · rfl

/-- Parentheses that are open before some tokens stay open around them. -/
theorem Token.parensAfter?_add (h : token.parensAfter? count = some final) (more : Nat) :
    token.parensAfter? (count + more) = some (final + more) := by
  by_cases hopen : token.kind = .symbol .openParen
  · rw [Token.parensAfter?_open hopen] at h ⊢
    cases h
    rw [Nat.add_right_comm]
  · by_cases hclose : token.kind = .symbol .closeParen
    · rw [Token.parensAfter?_close hclose] at h ⊢
      split at h
      · cases h
      · cases h
        rw [if_neg (by omega), Nat.sub_add_comm (by omega)]
    · rw [Token.parensAfter?_other hopen hclose] at h ⊢
      cases h
      rfl

theorem parensAfter?_add (h : parensAfter? count tokens = some final) (more : Nat) :
    parensAfter? (count + more) tokens = some (final + more) := by
  induction tokens generalizing count with
  | nil =>
    cases h
    rfl
  | cons token tokens ih =>
    rw [parensAfter?_cons] at h ⊢
    obtain ⟨next, hnext, hrest⟩ := Option.bind_eq_some_iff.mp h
    rw [Token.parensAfter?_add hnext, Option.bind_some, ih hrest]

/-- Tokens that close just the parentheses that they open. -/
def ClosesParens (tokens : List Token) : Prop := parensAfter? 0 tokens = some 0

namespace ClosesParens

theorem parensAfter?_eq (h : ClosesParens tokens) (count : Nat) :
    parensAfter? count tokens = some count := by
  have hmore := parensAfter?_add h count
  rwa [Nat.zero_add] at hmore

theorem nil : ClosesParens [] := rfl

theorem append (hfirst : ClosesParens first) (hsecond : ClosesParens second) :
    ClosesParens (first ++ second) := by
  rw [ClosesParens, parensAfter?_append, hfirst.parensAfter?_eq, Option.bind_some, hsecond]

theorem cons (hopen : token.kind ≠ .symbol .openParen) (hclose : token.kind ≠ .symbol .closeParen)
    (h : ClosesParens tokens) : ClosesParens (token :: tokens) := by
  rw [ClosesParens, parensAfter?_cons, Token.parensAfter?_other hopen hclose, Option.bind_some, h]

theorem enclosed {start stop : Token} (hstart : start.kind = .symbol .openParen)
    (hstop : stop.kind = .symbol .closeParen) (h : ClosesParens tokens) :
    ClosesParens (start :: (tokens ++ [stop])) := by
  have hclose : parensAfter? 1 [stop] = some 0 := by
    rw [parensAfter?_cons, Token.parensAfter?_close hstop]
    rfl
  rw [ClosesParens, parensAfter?_cons, Token.parensAfter?_open hstart, Option.bind_some,
    parensAfter?_append, h.parensAfter?_eq, Option.bind_some, hclose]

/-- Closing parentheses behind such tokens are too many. -/
theorem eq_nil_of_append (h : ClosesParens (first ++ second)) (hfirst : ClosesParens first)
    (hsecond : ∀ token ∈ second, token.kind = .symbol .closeParen) : second = [] := by
  rw [ClosesParens, parensAfter?_append, hfirst, Option.bind_some] at h
  cases second with
  | nil => rfl
  | cons token second =>
    rw [parensAfter?_cons, Token.parensAfter?_close (hsecond token List.mem_cons_self)] at h
    cases h

end ClosesParens

end

theorem Production.not_paren_of_ofKind? {kind : TokenKind} {rule : Production}
    (h : Production.ofKind? kind = some rule) :
    kind ≠ .symbol .openParen ∧ kind ≠ .symbol .closeParen := by
  constructor <;>
  · rintro rfl
    cases h

/-- An expression closes just the parentheses that it opens. -/
theorem Derives.closesParens {classes : List String} {phrase : Phrase} {tokens : List Token}
    (h : Derives classes phrase tokens) : ClosesParens tokens := by
  induction h with
  | literal kind | name kind => exact .cons (by simp [kind]) (by simp [kind]) .nil
  | group startKind stopKind _ ih => exact ih.enclosed startKind stopKind
  | call startKind stopKind _ _ ihFunction ihActual =>
    exact ihFunction.append (ihActual.enclosed startKind stopKind)
  | methodCall dotKind wordKind startKind stopKind _ _ ihObject ihActual =>
    exact ihObject.append (.cons (by simp [dotKind]) (by simp [dotKind])
      (.cons (by simp [wordKind]) (by simp [wordKind]) (ihActual.enclosed startKind stopKind)))
  | member dotKind wordKind _ ih =>
    exact ih.append (.cons (by simp [dotKind]) (by simp [dotKind])
      (.cons (by simp [wordKind]) (by simp [wordKind]) .nil))
  | neg signKind _ ih | plus signKind _ ih =>
    exact .cons (by simp [signKind]) (by simp [signKind]) ih
  | not wordKind _ ih => exact .cons (by simp [wordKind]) (by simp [wordKind]) ih
  | join signKind _ _ ihFirst ihSecond =>
    obtain ⟨hopen, hclose⟩ := Production.not_paren_of_ofKind? signKind
    exact ihFirst.append (.cons hopen hclose ihSecond)
  | widen _ _ ih => exact ih
  | noArgs => exact .nil
  | lastArg _ ih => exact ih
  | moreArgs commaKind _ _ ihArg ihRest =>
    exact ihArg.append (.cons (by simp [commaKind]) (by simp [commaKind]) ihRest)

/-! ### What a span leaves out -/

/-- What may stand in front of an expression without being under its span. -/
def AreOpenings (tokens : List Token) : Prop :=
  ∀ token ∈ tokens, token.kind = .symbol .openParen ∨ token.kind = .symbol .plus

def ArePluses (tokens : List Token) : Prop := ∀ token ∈ tokens, token.kind = .symbol .plus

def AreClosings (tokens : List Token) : Prop := ∀ token ∈ tokens, token.kind = .symbol .closeParen

theorem AreOpenings.arePluses {tokens : List Token} (h : AreOpenings tokens) {count final : Nat}
    (hcount : parensAfter? count tokens = some final) :
    count ≤ final ∧ (final = count → ArePluses tokens) := by
  induction tokens generalizing count with
  | nil =>
    cases hcount
    exact ⟨Nat.le_refl _, fun _ => List.forall_mem_nil _⟩
  | cons token tokens ih =>
    obtain ⟨hfirst, hothers⟩ := List.forall_mem_cons.mp h
    rw [parensAfter?_cons] at hcount
    rcases hfirst with hopen | hplus
    · rw [Token.parensAfter?_open hopen, Option.bind_some] at hcount
      have hle := (ih hothers hcount).1
      exact ⟨by omega, fun hfinal => by omega⟩
    · rw [Token.parensAfter?_other (by simp [hplus]) (by simp [hplus]), Option.bind_some] at hcount
      obtain ⟨hle, hpluses⟩ := ih hothers hcount
      exact ⟨hle, fun hfinal => List.forall_mem_cons.mpr ⟨hplus, hpluses hfinal⟩⟩

/-- The tokens of an expression start with openings, behind which its span starts.  Without plus
signs in front the expression is still the same. -/
theorem Derives.exists_openings {classes : List String} {phrase : Phrase} {tokens : List Token}
    (h : Derives classes phrase tokens) {layer : Layer} {e : Expr}
    (hphrase : phrase = .expr layer e) :
    ∃ opens first rest, tokens = opens ++ first :: rest ∧ first.span.start = e.span.start ∧
      AreOpenings opens ∧
      (ArePluses opens → Derives classes (.expr layer e) (first :: rest)) := by
  induction h generalizing layer e with
  | @literal token value kind =>
    cases hphrase
    exact ⟨[], token, [], rfl, rfl, List.forall_mem_nil _, fun _ => .literal kind⟩
  | @name token id kind =>
    cases hphrase
    exact ⟨[], token, [], rfl, rfl, List.forall_mem_nil _, fun _ => .name kind⟩
  | @group start stop _ _ startKind _ _ ih =>
    cases hphrase
    obtain ⟨opens, first, rest, rfl, hstart, hopens, -⟩ := ih rfl
    refine ⟨start :: opens, first, rest ++ [stop], by simp, hstart,
      List.forall_mem_cons.mpr ⟨.inl startKind, hopens⟩, fun hpluses => ?_⟩
    have hplus := hpluses start List.mem_cons_self
    rw [startKind] at hplus
    cases hplus
  | @call start stop callee args tokens argTokens startKind stopKind _ actual ih _ =>
    cases hphrase
    obtain ⟨opens, first, rest, rfl, hstart, hopens, hplain⟩ := ih rfl
    refine ⟨opens, first, _, List.append_assoc _ _ _, ?_, hopens,
      fun hpluses => .call startKind stopKind (hplain hpluses) actual⟩
    rw [Expr.span_called]
    exact hstart
  | methodCall dotKind wordKind startKind stopKind _ actual ih _ =>
    cases hphrase
    obtain ⟨opens, first, rest, rfl, hstart, hopens, hplain⟩ := ih rfl
    exact ⟨opens, first, _, List.append_assoc _ _ _, hstart, hopens,
      fun hpluses => .methodCall dotKind wordKind startKind stopKind (hplain hpluses) actual⟩
  | member dotKind wordKind _ ih =>
    cases hphrase
    obtain ⟨opens, first, rest, rfl, hstart, hopens, hplain⟩ := ih rfl
    exact ⟨opens, first, _, List.append_assoc _ _ _, hstart, hopens,
      fun hpluses => .member dotKind wordKind (hplain hpluses)⟩
  | @neg sign _ tokens signKind operand _ =>
    cases hphrase
    exact ⟨[], sign, tokens, rfl, rfl, List.forall_mem_nil _, fun _ => .neg signKind operand⟩
  | @plus sign _ _ signKind _ ih =>
    cases hphrase
    obtain ⟨opens, first, rest, rfl, hstart, hopens, hplain⟩ := ih rfl
    exact ⟨sign :: opens, first, rest, rfl, hstart,
      List.forall_mem_cons.mpr ⟨.inr signKind, hopens⟩,
      fun hpluses => hplain (List.forall_mem_cons.mp hpluses).2⟩
  | @not word _ tokens wordKind operand _ =>
    cases hphrase
    exact ⟨[], word, tokens, rfl, rfl, List.forall_mem_nil _, fun _ => .not wordKind operand⟩
  | join signKind _ second ih _ =>
    cases hphrase
    obtain ⟨opens, first, rest, rfl, hstart, hopens, hplain⟩ := ih rfl
    exact ⟨opens, first, _, List.append_assoc _ _ _, hstart, hopens,
      fun hpluses => .join signKind (hplain hpluses) second⟩
  | widen step _ ih =>
    cases hphrase
    obtain ⟨opens, first, rest, rfl, hstart, hopens, hplain⟩ := ih rfl
    exact ⟨opens, first, rest, rfl, hstart, hopens, fun hpluses => .widen step (hplain hpluses)⟩
  | noArgs | lastArg | moreArgs => cases hphrase

/-- The tokens of an expression end with closing parentheses, in front of which its span ends. -/
theorem Derives.exists_closings {classes : List String} {phrase : Phrase} {tokens : List Token}
    (h : Derives classes phrase tokens) {layer : Layer} {e : Expr}
    (hphrase : phrase = .expr layer e) :
    ∃ init last closes, tokens = init ++ last :: closes ∧ last.span.stop = e.span.stop ∧
      AreClosings closes := by
  induction h generalizing layer e with
  | @literal token _ _ | @name token _ _ =>
    cases hphrase
    exact ⟨[], token, [], rfl, rfl, List.forall_mem_nil _⟩
  | @group start stop _ _ _ stopKind _ ih =>
    cases hphrase
    obtain ⟨init, last, closes, rfl, hstop, hcloses⟩ := ih rfl
    exact ⟨start :: init, last, closes ++ [stop], by simp, hstop,
      List.forall_mem_append.mpr ⟨hcloses, List.forall_mem_singleton.mpr stopKind⟩⟩
  | @call start stop callee args tokens argTokens _ _ _ _ _ _ =>
    cases hphrase
    refine ⟨tokens ++ start :: argTokens, stop, [], by simp, ?_, List.forall_mem_nil _⟩
    rw [Expr.span_called]
    rfl
  | @methodCall dot word start stop _ _ _ tokens argTokens _ _ _ _ _ _ _ _ =>
    cases hphrase
    exact ⟨tokens ++ dot :: word :: start :: argTokens, stop, [], by simp, rfl,
      List.forall_mem_nil _⟩
  | @member dot word _ _ tokens _ _ _ _ =>
    cases hphrase
    exact ⟨tokens ++ [dot], word, [], by simp, rfl, List.forall_mem_nil _⟩
  | @neg sign _ _ _ _ ih | @plus sign _ _ _ _ ih | @not sign _ _ _ _ ih =>
    cases hphrase
    obtain ⟨init, last, closes, rfl, hstop, hcloses⟩ := ih rfl
    exact ⟨sign :: init, last, closes, rfl, hstop, hcloses⟩
  | @join sign _ _ _ leftTokens _ _ _ _ _ ih =>
    cases hphrase
    obtain ⟨init, last, closes, rfl, hstop, hcloses⟩ := ih rfl
    exact ⟨leftTokens ++ sign :: init, last, closes, by simp, hstop, hcloses⟩
  | widen _ _ ih =>
    cases hphrase
    exact ih rfl
  | noArgs | lastArg | moreArgs => cases hphrase

theorem Layer.or_le (layer : Layer) : Layer.or.level ≤ layer.level := by
  cases layer <;> decide

/-- The tokens `slice` under the span of an expression, between the openings and the closings that
the span leaves out. -/
structure Excerpt (classes : List String) (e : Expr) (opens slice closes : List Token) : Prop where
  nonempty : slice ≠ []
  span : e.span = spanOf slice
  derives : ClosesParens slice →
    closes = [] ∧ ArePluses opens ∧ Derives classes (.expr .or e) slice

section

variable {classes : List String} {layer inner : Layer} {e operand : Expr} {token sign last : Token}
  {tokens init closes : List Token}

/-- A name or a literal. -/
theorem excerpt_single (h : Derives classes (.expr layer e) [token]) (hspan : e.span = token.span) :
    Excerpt classes e [] [token] [] where
  nonempty := List.cons_ne_nil _ _
  span := hspan
  derives _ := ⟨rfl, List.forall_mem_nil _, h.widen_of_le layer.or_le⟩

/-- Behind a token that its span starts with, an expression leaves out closings only. -/
theorem excerpt_of_sign (h : Derives classes (.expr layer e) (sign :: (init ++ last :: closes)))
    (hcloses : AreClosings closes) (hspan : e.span = sign.span.through last.span) :
    Excerpt classes e [] (sign :: (init ++ [last])) closes where
  nonempty := List.cons_ne_nil _ _
  span := by rw [hspan, spanOf_append_singleton]
  derives hclosed := by
    have hall : ClosesParens ((sign :: (init ++ [last])) ++ closes) := by simpa using h.closesParens
    obtain rfl := hall.eq_nil_of_append hclosed hcloses
    exact ⟨rfl, List.forall_mem_nil _, h.widen_of_le layer.or_le⟩

/-- An expression that starts with an operand leaves out what this operand does. -/
theorem exists_excerpt_of_operand (hoperand : Derives classes (.expr inner operand) tokens)
    (hcloses : AreClosings closes) (hspan : e.span = ⟨operand.span.start, last.span.stop⟩)
    (hrebuild : ∀ tokens, Derives classes (.expr inner operand) tokens →
      Derives classes (.expr layer e) (tokens ++ (init ++ last :: closes))) :
    ∃ opens slice, tokens ++ (init ++ last :: closes) = opens ++ (slice ++ closes) ∧
      Excerpt classes e opens slice closes := by
  obtain ⟨opens, first, rest, rfl, hstart, hopens, hplain⟩ := hoperand.exists_openings rfl
  refine ⟨opens, first :: (rest ++ init ++ [last]), by simp, List.cons_ne_nil _ _, ?_,
    fun hclosed => ?_⟩
  · rw [hspan, spanOf_append_singleton, ← hstart]
    rfl
  · have hslice : ClosesParens ((first :: rest) ++ (init ++ [last])) := by simpa using hclosed
    rw [ClosesParens, parensAfter?_append] at hslice
    obtain ⟨final, hfinal, -⟩ := Option.bind_eq_some_iff.mp hslice
    have hbalanced := hoperand.closesParens
    rw [ClosesParens, parensAfter?_append] at hbalanced
    obtain ⟨count, hcount, hrest⟩ := Option.bind_eq_some_iff.mp hbalanced
    -- parentheses that are open before the slice would have to be closed inside of it
    have hzero : count = 0 := by
      have hmore := parensAfter?_add hfinal count
      rw [Nat.zero_add, hrest] at hmore
      have hsame := Option.some.inj hmore
      omega
    have hpluses := (hopens.arePluses hcount).2 hzero
    have hwhole := hrebuild _ (hplain hpluses)
    have hall : ClosesParens (first :: (rest ++ init ++ [last]) ++ closes) := by
      simpa using hwhole.closesParens
    obtain rfl := hall.eq_nil_of_append hclosed hcloses
    exact ⟨rfl, hpluses, by simpa using hwhole.widen_of_le layer.or_le⟩

end

/-! ### Where the parts of an expression stand -/

/-- Whether an operand may end with a token of this kind. -/
def TokenKind.endsOperand : TokenKind → Bool
  | literal _ | identifier _ | symbol .closeParen => true
  | _ => false

/-- Behind these tokens no operand has just ended. -/
def StartsOperand (tokens : List Token) : Prop :=
  ∀ token ∈ tokens.getLast?, token.kind.endsOperand = false

/-- Tokens that end with a plus sign without an operand in front of it. -/
def EndsInPlus (tokens : List Token) : Prop :=
  ∃ before sign, tokens = before ++ [sign] ∧ sign.kind = .symbol .plus ∧ StartsOperand before

theorem StartsOperand.nil : StartsOperand [] := nofun

theorem StartsOperand.concat {token : Token} (h : token.kind.endsOperand = false)
    (tokens : List Token) : StartsOperand (tokens ++ [token]) := by
  rw [StartsOperand, List.getLast?_concat]
  rintro _ ⟨⟩
  exact h

theorem StartsOperand.append {before tokens : List Token} (hbefore : StartsOperand before)
    (h : StartsOperand tokens) : StartsOperand (before ++ tokens) := by
  rcases List.eq_nil_or_concat tokens with rfl | ⟨init, last, rfl⟩
  · rwa [List.append_nil]
  · rw [List.concat_eq_append] at h ⊢
    rw [← List.append_assoc]
    exact .concat (h last (by simp)) _

theorem EndsInPlus.behind {before tokens : List Token} (h : EndsInPlus tokens)
    (hbefore : StartsOperand before) : EndsInPlus (before ++ tokens) := by
  obtain ⟨front, sign, rfl, hsign, hfront⟩ := h
  exact ⟨before ++ front, sign, (List.append_assoc _ _ _).symm, hsign, hbefore.append hfront⟩

theorem ArePluses.endsInPlus {tokens : List Token} (h : ArePluses tokens) (hne : tokens ≠ []) :
    EndsInPlus tokens := by
  obtain ⟨init, sign, rfl⟩ := (List.eq_nil_or_concat tokens).resolve_left hne
  rw [List.concat_eq_append] at h ⊢
  refine ⟨init, sign, rfl, h sign (by simp), fun token htoken => ?_⟩
  rw [h token (List.mem_append_left _ (List.mem_of_getLast? htoken))]
  rfl

theorem Production.endsOperand_of_ofKind? {kind : TokenKind} {rule : Production}
    (h : Production.ofKind? kind = some rule) : kind.endsOperand = false := by
  cases kind with
  | symbol sign => cases sign <;> first | rfl | cases h
  | literal | identifier => cases h
  | keyword | reserved | layout => rfl

namespace Parser

/-- A part of an expression has its span over `slice`, behind `front`.  If this closes just the
parentheses that it opens, it is read as the part; unless a plus sign is left out, that takes no
more levels of nesting than this. -/
structure Locates (classes : List String) (bound : Nat) (part : Expr) (front slice : List Token) :
    Prop where
  nonempty : slice ≠ []
  span : part.span = spanOf slice
  reads : ClosesParens slice → ∃ levels spine, ReadsBack classes .or part slice levels spine ∧
    (levels ≤ bound ∨ EndsInPlus front)

/-- All parts of an expression are located among these tokens. -/
def LocatesParts (classes : List String) (bound : Nat) (e : Expr) (tokens : List Token) : Prop :=
  ∀ part : Expr, part.Part e → ∃ front slice back, tokens = front ++ (slice ++ back) ∧
    Locates classes bound part front slice

variable {classes : List String} {bound more levels spine : Nat} {layer : Layer} {e part : Expr}
  {tokens before after front slice back opens closes : List Token}

theorem locates_of_excerpt (h : Excerpt classes e opens slice closes)
    (hback : ReadsBack classes layer e (opens ++ (slice ++ closes)) levels spine) :
    Locates classes levels e opens slice where
  nonempty := h.nonempty
  span := h.span
  reads hclosed := by
    obtain ⟨rfl, hpluses, hderives⟩ := h.derives hclosed
    cases opens with
    | nil =>
      rw [List.append_nil] at hback
      exact ⟨levels, spine, hback.widen_of_le layer.or_le, .inl (Nat.le_refl _)⟩
    | cons sign opens =>
      obtain ⟨others, held, -, hslice⟩ := hderives.readsBack
      exact ⟨others, held, hslice, .inr (hpluses.endsInPlus (List.cons_ne_nil _ _))⟩

/-- A part is located behind more tokens, if these end no operand. -/
theorem Locates.within (h : Locates classes bound part front slice) (hbound : bound ≤ more)
    (hbefore : StartsOperand before) : Locates classes more part (before ++ front) slice where
  nonempty := h.nonempty
  span := h.span
  reads hclosed := by
    obtain ⟨levels, spine, hback, hfits⟩ := h.reads hclosed
    exact ⟨levels, spine, hback,
      hfits.imp (fun hle => Nat.le_trans hle hbound) fun hplus => hplus.behind hbefore⟩

theorem LocatesParts.within (h : LocatesParts classes bound e tokens) (hbound : bound ≤ more)
    (hbefore : StartsOperand before) (after : List Token) :
    LocatesParts classes more e (before ++ (tokens ++ after)) := by
  intro part hpart
  obtain ⟨front, slice, back, rfl, hlocated⟩ := h part hpart
  exact ⟨before ++ front, slice, back ++ after, by simp, hlocated.within hbound hbefore⟩

theorem LocatesParts.inFront (h : LocatesParts classes bound e tokens) (hbound : bound ≤ more)
    (after : List Token) : LocatesParts classes more e (tokens ++ after) := by
  have hlocated := h.within hbound StartsOperand.nil after
  exact hlocated

/-- How an expression and its parts are read, or arguments and theirs. -/
def ReadsParts (classes : List String) : Phrase → List Token → Prop
  | .expr layer e, tokens => ∃ levels spine, ReadsBack classes layer e tokens levels spine ∧
      LocatesParts classes levels e tokens
  | .args values, tokens => ∃ levels, ReadsArgsBack classes values tokens levels ∧
      ∀ e ∈ values, LocatesParts classes levels e tokens

/-- An expression and what it is made of. -/
theorem locatesParts_of_operands (operands : List Expr) (h : Excerpt classes e opens slice closes)
    (htokens : tokens = opens ++ (slice ++ closes))
    (hback : ReadsBack classes layer e tokens levels spine)
    (hcases : ∀ part : Expr, part.Part e → part = e ∨ ∃ operand ∈ operands, part.Part operand)
    (hoperands : ∀ operand ∈ operands, LocatesParts classes levels operand tokens) :
    LocatesParts classes levels e tokens := by
  subst htokens
  intro part hpart
  rcases hcases part hpart with rfl | ⟨operand, hmem, hinner⟩
  · exact ⟨opens, slice, closes, rfl, locates_of_excerpt h hback⟩
  · exact hoperands operand hmem part hinner

/-- A name or a literal. -/
theorem locatesParts_of_single {token : Token} (h : Derives classes (.expr layer e) [token])
    (hspan : e.span = token.span) (hoperands : e.operands = []) (hmember : e.isMember = false)
    (hback : ReadsBack classes layer e [token] levels spine) :
    LocatesParts classes levels e [token] :=
  locatesParts_of_operands [] (excerpt_single h hspan) rfl hback
    (fun _ hpart => .inl (hpart.of_leaf hoperands hmember)) (List.forall_mem_nil _)

variable {inner : Layer} {operand : Expr} {others : List Expr} {sign last : Token}
  {init : List Token} {fewer : Nat}

/-- An operation on one operand, behind its sign. -/
theorem locatesParts_of_sign {op : UnaryOp} (hsign : sign.kind.endsOperand = false)
    (hoperand : Derives classes (.expr inner operand) tokens)
    (h : Derives classes (.expr layer (.unary op operand (sign.span.through operand.span)))
      (sign :: tokens))
    (hback : ReadsBack classes layer (.unary op operand (sign.span.through operand.span))
      (sign :: tokens) (fewer + 1) spine)
    (hparts : LocatesParts classes fewer operand tokens) :
    LocatesParts classes (fewer + 1) (.unary op operand (sign.span.through operand.span))
      (sign :: tokens) := by
  obtain ⟨init, last, closes, rfl, hstop, hcloses⟩ := hoperand.exists_closings rfl
  have hspan : (Expr.unary op operand (sign.span.through operand.span)).span =
      sign.span.through last.span := by
    rw [Expr.span, Span.through, Span.through, hstop]
  have hlocated := hparts.within (Nat.le_succ _) (.concat hsign []) []
  refine locatesParts_of_operands [operand] (excerpt_of_sign h hcloses hspan) (by simp) hback
    (fun _ hpart => hpart.of_isOperation rfl) (List.forall_mem_singleton.mpr ?_)
  simpa using hlocated

/-- An expression that starts with an operand and goes on with others. -/
theorem locatesParts_of_first (init closes : List Token) (others : List Expr)
    (hoperand : Derives classes (.expr inner operand) tokens)
    (hcloses : AreClosings closes) (hspan : e.span = ⟨operand.span.start, last.span.stop⟩)
    (hrebuild : ∀ tokens, Derives classes (.expr inner operand) tokens →
      Derives classes (.expr layer e) (tokens ++ (init ++ last :: closes)))
    (hback : ReadsBack classes layer e (tokens ++ (init ++ last :: closes)) levels spine)
    (hcases : ∀ part : Expr, part.Part e → part = e ∨ ∃ other ∈ operand :: others, part.Part other)
    (hle : fewer ≤ levels) (hparts : LocatesParts classes fewer operand tokens)
    (hothers : ∀ other ∈ others,
      LocatesParts classes levels other (tokens ++ (init ++ last :: closes))) :
    LocatesParts classes levels e (tokens ++ (init ++ last :: closes)) := by
  obtain ⟨opens, slice, htokens, hexcerpt⟩ :=
    exists_excerpt_of_operand hoperand hcloses hspan hrebuild
  exact locatesParts_of_operands (operand :: others) hexcerpt htokens hback hcases
    (List.forall_mem_cons.mpr ⟨hparts.inFront hle _, hothers⟩)

/-- Behind a token that ends no operand. -/
theorem LocatesParts.behind (h : LocatesParts classes bound e tokens) (hbound : bound ≤ more)
    {token : Token} (htoken : token.kind.endsOperand = false) (before after : List Token) :
    LocatesParts classes more e (before ++ token :: (tokens ++ after)) := by
  have hlocated := h.within hbound (.concat htoken before) after
  simpa using hlocated

end Parser

/-- Whatever the grammar derives is read back, and so is every part of it whose tokens close just
the parentheses that they open. -/
theorem Derives.readsParts {classes : List String} {phrase : Phrase} {tokens : List Token}
    (h : Derives classes phrase tokens) : Parser.ReadsParts classes phrase tokens := by
  induction h with
  | literal kind =>
    exact ⟨0, 0, Parser.readsBack_literal kind, Parser.locatesParts_of_single (.literal kind) rfl
      rfl rfl (Parser.readsBack_literal kind)⟩
  | name kind =>
    exact ⟨0, 0, Parser.readsBack_name kind, Parser.locatesParts_of_single (.name kind) rfl
      rfl rfl (Parser.readsBack_name kind)⟩
  | group startKind stopKind _ ih =>
    obtain ⟨levels, spine, hback, hparts⟩ := ih
    exact ⟨_, _, Parser.readsBack_group startKind stopKind hback,
      hparts.behind (Nat.le_succ _) (by rw [startKind]; rfl) [] _⟩
  | @call start stop callee args tokens argTokens startKind stopKind function actual ihCallee
      ihArgs =>
    obtain ⟨levels, spine, hback, hparts⟩ := ihCallee
    obtain ⟨n, hargsBack, hargs⟩ := ihArgs
    have hall := Parser.readsBack_call startKind stopKind hback hargsBack
    refine ⟨_, _, hall, Parser.locatesParts_of_first (start :: argTokens) [] args
      function (List.forall_mem_nil _) (Expr.span_called _ _ _ _)
      (fun _ hcallee => .call startKind stopKind hcallee actual) hall (fun part hpart => ?_)
      (Nat.le_max_left _ _) hparts fun arg harg => ?_⟩
    · refine (hpart.of_isOperation (Expr.isOperation_called _ _ _ _)).imp_right ?_
      rintro ⟨operand, hmem, hinner⟩
      exact ⟨operand, Expr.operands_called_subset _ _ _ _ hmem, hinner⟩
    · exact (hargs arg harg).behind (by omega) (by rw [startKind]; rfl) tokens _
  | @methodCall dot word start stop method receiver args tokens argTokens dotKind wordKind startKind
      stopKind object actual ihReceiver ihArgs =>
    obtain ⟨levels, spine, hback, hparts⟩ := ihReceiver
    obtain ⟨n, hargsBack, hargs⟩ := ihArgs
    have hall :=
      Parser.readsBack_methodCall dotKind wordKind startKind stopKind hback hargsBack
    refine ⟨_, _, hall, Parser.locatesParts_of_first (dot :: word :: start :: argTokens)
      [] args object (List.forall_mem_nil _) rfl
      (fun _ hobject => .methodCall dotKind wordKind startKind stopKind hobject actual) hall
      (fun _ hpart => hpart.of_isOperation rfl) (Nat.le_max_left _ _) hparts fun arg harg => ?_⟩
    have hlocated := (hargs arg harg).behind
      (show n ≤ max levels (spine + 1 + n) by omega)
      (show start.kind.endsOperand = false by rw [startKind]; rfl) (tokens ++ [dot, word]) [stop]
    simpa using hlocated
  | member dotKind wordKind object ih =>
    obtain ⟨levels, spine, hback, hparts⟩ := ih
    have hall := Parser.readsBack_member dotKind wordKind hback
    exact ⟨_, _, hall, Parser.locatesParts_of_first [_] [] []
      object (List.forall_mem_nil _) rfl (fun _ hobject => .member dotKind wordKind hobject) hall
      (fun _ hpart => hpart.of_member.imp_right fun hinner => ⟨_, List.mem_cons_self, hinner⟩)
      (Nat.le_max_left _ _) hparts (List.forall_mem_nil _)⟩
  | neg signKind operand ih =>
    obtain ⟨levels, spine, hback, hparts⟩ := ih
    have hall := Parser.readsBack_neg signKind hback
    exact ⟨_, _, hall, Parser.locatesParts_of_sign (by rw [signKind]; rfl) operand
      (.neg signKind operand) hall hparts⟩
  | not wordKind operand ih =>
    obtain ⟨levels, spine, hback, hparts⟩ := ih
    have hall := Parser.readsBack_not wordKind hback
    exact ⟨_, _, hall, Parser.locatesParts_of_sign (by rw [wordKind]; rfl) operand
      (.not wordKind operand) hall hparts⟩
  | plus signKind _ ih =>
    obtain ⟨levels, spine, hback, hparts⟩ := ih
    have hlocated := hparts.behind (Nat.le_succ _) (by rw [signKind]; rfl) [] []
    rw [List.append_nil] at hlocated
    exact ⟨_, _, Parser.readsBack_plus signKind hback, hlocated⟩
  | @join sign rule left right leftTokens rightTokens signKind first second ihLeft ihRight =>
    obtain ⟨levels, spine, hleft, hleftParts⟩ := ihLeft
    obtain ⟨rightLevels, rightSpine, hright, hrightParts⟩ := ihRight
    have hall := Parser.readsBack_join signKind hleft hright
    have hlocated := hrightParts.behind
      (show rightLevels ≤ max levels (spine + 1 + (rightLevels + 1)) by omega)
      (Production.endsOperand_of_ofKind? signKind) leftTokens []
    rw [List.append_nil] at hlocated
    obtain ⟨init, last, closes, rfl, hstop, hcloses⟩ := second.exists_closings rfl
    exact ⟨_, _, hall, Parser.locatesParts_of_first (sign :: init) closes [right]
      first hcloses (by rw [hstop]; rfl) (fun _ hfirst => .join signKind hfirst second) hall
      (fun _ hpart => hpart.of_isOperation rfl) (Nat.le_max_left _ _) hleftParts
      (List.forall_mem_singleton.mpr hlocated)⟩
  | widen step _ ih =>
    obtain ⟨levels, spine, hback, hparts⟩ := ih
    have hlevel := Layer.level_of_inner? step
    exact ⟨levels, spine, hback.widen_of_le (by omega), hparts⟩
  | noArgs => exact ⟨0, Parser.readsArgsBack_nil, List.forall_mem_nil _⟩
  | lastArg arg ih =>
    obtain ⟨levels, spine, hback, hparts⟩ := ih
    have hlocated := hparts.inFront (Nat.le_succ levels) []
    rw [List.append_nil] at hlocated
    exact ⟨_, Parser.readsArgsBack_last (arg.exists_first rfl) hback,
      List.forall_mem_singleton.mpr hlocated⟩
  | @moreArgs comma e others tokens otherTokens commaKind arg _ ihArg ihRest =>
    obtain ⟨levels, spine, hback, hparts⟩ := ihArg
    obtain ⟨otherLevels, hothersBack, hothers⟩ := ihRest
    refine ⟨_, Parser.readsArgsBack_more commaKind (arg.exists_first rfl) hback hothersBack,
      List.forall_mem_cons.mpr ⟨?_, fun other hother => ?_⟩⟩
    · exact hparts.inFront (by omega) _
    · have hlocated := (hothers other hother).behind
        (show otherLevels ≤ max (levels + 1) otherLevels by omega) (by rw [commaKind]; rfl)
        tokens []
      rwa [List.append_nil] at hlocated

end Offside
