/-
Spans of expressions.  The span of every part of an expression reaches from one of the tokens that
spell the expression to another, so expressions at different places of a text never have the same
span, while an expression is the same as itself.
-/
import Offside.Proofs.Grammar.Sentences
import Offside.Proofs.Program.Height
import Offside.Proofs.Token.Ascending
import Offside.Proofs.Token.Literals

namespace Offside

/-! ### Spans over tokens -/

/-- A span from the start of one of these tokens to the end of one of them. -/
structure Span.Over (span : Span) (tokens : List Token) : Prop where
  start : ∃ token ∈ tokens, span.start = token.span.start
  stop : ∃ token ∈ tokens, span.stop = token.span.stop

namespace Span.Over

variable {span first last : Span} {tokens other front back : List Token} {token : Token}

theorem single (h : token ∈ tokens) : token.span.Over tokens := ⟨⟨token, h, rfl⟩, ⟨token, h, rfl⟩⟩

theorem mono (h : span.Over tokens) (hsub : tokens ⊆ other) : span.Over other := by
  obtain ⟨⟨first, hfirst, hstart⟩, last, hlast, hstop⟩ := h
  exact ⟨⟨first, hsub hfirst, hstart⟩, last, hsub hlast, hstop⟩

theorem through (hfirst : first.Over tokens) (hlast : last.Over tokens) :
    (first.through last).Over tokens :=
  ⟨hfirst.start, hlast.stop⟩

/-- What lies over tokens in front of a token ends before that token starts. -/
theorem stop_le (h : span.Over front) (htokens : Ascending (front ++ token :: back)) :
    span.stop.offset ≤ token.span.start.offset := by
  obtain ⟨last, hlast, hstop⟩ := h.stop
  rw [hstop]
  exact htokens.le_of_append hlast List.mem_cons_self

/-- What lies over tokens behind a token starts after that token ends. -/
theorem le_start (h : span.Over back) (htokens : Ascending (front ++ token :: back)) :
    token.span.stop.offset ≤ span.start.offset := by
  obtain ⟨first, hfirst, hstart⟩ := h.start
  rw [hstart]
  exact htokens.right.head_le first hfirst

/-- What lies over tokens in front of a token starts before it. -/
theorem start_lt (h : span.Over front) (htokens : Ascending (front ++ token :: back))
    (hwide : ∀ token ∈ front, token.kind.isLayout = false) :
    span.start.offset < token.span.start.offset := by
  obtain ⟨first, hfirst, hstart⟩ := h.start
  rw [hstart]
  exact Nat.lt_of_lt_of_le (htokens.left.wide first hfirst (hwide first hfirst))
    (htokens.le_of_append hfirst List.mem_cons_self)

end Span.Over

/-! ### Spans of pieces -/

theorem start_spanOf_cons (first : Token) (rest : List Token) :
    (spanOf (first :: rest)).start = first.span.start := by
  rw [spanOf, List.getLast?_cons]
  rfl

theorem spanOf_append {front back : List Token} (hfront : front ≠ []) (hback : back ≠ [])
    (middle : List Token) :
    spanOf (front ++ middle ++ back) = (spanOf front).through (spanOf back) := by
  obtain ⟨first, others, rfl⟩ := List.exists_cons_of_ne_nil hfront
  obtain ⟨init, last, hlast⟩ := (List.eq_nil_or_concat back).resolve_left hback
  rw [List.concat_eq_append] at hlast
  subst hlast
  cases init <;> simp [spanOf, List.getLast?_cons, List.getLast?_append, Span.through]

/-- The span of some of these tokens that stand together in one piece. -/
def Span.OfPiece (span : Span) (tokens : List Token) : Prop :=
  ∃ piece, piece ≠ [] ∧ piece <:+: tokens ∧ span = spanOf piece

namespace Span.OfPiece

variable {span first last : Span} {tokens other front back : List Token} {token : Token}

theorem single (h : token ∈ tokens) : token.span.OfPiece tokens := by
  obtain ⟨before, after, rfl⟩ := List.append_of_mem h
  exact ⟨[token], List.cons_ne_nil _ _, ⟨before, after, by simp⟩, rfl⟩

theorem mono (h : span.OfPiece tokens) (hsub : tokens <:+: other) : span.OfPiece other := by
  obtain ⟨piece, hne, hpiece, hspan⟩ := h
  exact ⟨piece, hne, hpiece.trans hsub, hspan⟩

/-- From a piece of the tokens in front to one of those behind. -/
theorem through (hfirst : first.OfPiece front) (hlast : last.OfPiece back) :
    (first.through last).OfPiece (front ++ back) := by
  obtain ⟨piece, hne, ⟨before, between, rfl⟩, rfl⟩ := hfirst
  obtain ⟨other, hother, ⟨among, after, rfl⟩, rfl⟩ := hlast
  refine ⟨piece ++ (between ++ among) ++ other, by simp [hne], ⟨before, after, by simp⟩, ?_⟩
  rw [spanOf_append hne hother]

theorem toOver (h : span.OfPiece tokens) : span.Over tokens := by
  obtain ⟨piece, hne, hpiece, rfl⟩ := h
  obtain ⟨first, hfirst⟩ := Option.ne_none_iff_exists'.mp (mt List.head?_eq_none_iff.mp hne)
  obtain ⟨last, hlast⟩ := Option.ne_none_iff_exists'.mp (mt List.getLast?_eq_none_iff.mp hne)
  rw [spanOf, hfirst, hlast]
  exact .through (.single (hpiece.subset (List.mem_of_mem_head? hfirst)))
    (.single (hpiece.subset (List.mem_of_getLast? hlast)))

end Span.OfPiece

/-- The span of some of these tokens that stand together in one piece, none of them layout. -/
def Span.OfInline (span : Span) (tokens : List Token) : Prop :=
  ∃ piece, piece ≠ [] ∧ piece <:+: tokens ∧ (∀ token ∈ piece, token.kind.isLayout = false) ∧
    span = spanOf piece

theorem Span.OfPiece.inline {span : Span} {tokens other : List Token} (h : span.OfPiece tokens)
    (htokens : ∀ token ∈ tokens, token.kind.isLayout = false) (hsub : tokens <:+: other) :
    span.OfInline other := by
  obtain ⟨piece, hne, hpiece, hspan⟩ := h
  exact ⟨piece, hne, hpiece.trans hsub, fun token htoken => htokens token (hpiece.subset htoken),
    hspan⟩

theorem Span.OfInline.mono {span : Span} {tokens other : List Token} (h : span.OfInline tokens)
    (hsub : tokens <:+: other) : span.OfInline other := by
  obtain ⟨piece, hne, hpiece, hinline, hspan⟩ := h
  exact ⟨piece, hne, hpiece.trans hsub, hinline, hspan⟩

theorem Span.OfInline.ofPiece {span : Span} {tokens : List Token} (h : span.OfInline tokens) :
    span.OfPiece tokens := by
  obtain ⟨piece, hne, hpiece, -, hspan⟩ := h
  exact ⟨piece, hne, hpiece, hspan⟩

/-! ### Parts of expressions -/

namespace Expr

theorem Part.of_isOperation {e part : Expr} (h : part.Part e) (he : e.isOperation = true) :
    part = e ∨ ∃ operand ∈ e.operands, part.Part operand := by
  cases h with
  | self => exact .inl rfl
  | receiver inner => cases he
  | operand mem inner => exact .inr ⟨_, mem, inner⟩

theorem Part.of_leaf {e part : Expr} (h : part.Part e) (he : e.operands = [])
    (hmember : e.isMember = false) : part = e := by
  cases h with
  | self => rfl
  | receiver inner => cases hmember
  | operand mem inner =>
    rw [he] at mem
    cases mem

theorem Part.of_member {receiver part : Expr} {attr : String} {span : Span}
    (h : part.Part (.member receiver attr span)) :
    part = .member receiver attr span ∨ part.Part receiver := by
  cases h with
  | self => exact .inl rfl
  | receiver inner => exact .inr inner
  | operand mem inner => cases mem

section

variable (classes : List String) (callee : Expr) (args : List Expr) (place : Span)

theorem isOperation_called : (callee.called classes args place).isOperation = true := by
  rcases called_cases classes callee args place with h | ⟨className, span, -, -, h⟩ <;>
  · rw [h]
    rfl

theorem operands_called_subset : (callee.called classes args place).operands ⊆ callee :: args := by
  rcases called_cases classes callee args place with h | ⟨className, span, -, -, h⟩ <;> rw [h]
  · exact List.Subset.refl _
  · exact List.subset_cons_self _ _

end

end Expr

/-- The expressions of a phrase. -/
def Phrase.exprs : Phrase → List Expr
  | .expr _ value => [value]
  | .args values => values

/-- Every part of an expression is spelled by some of its tokens in one piece. -/
theorem Derives.exists_part {classes : List String} {phrase : Phrase} {tokens : List Token}
    (h : Derives classes phrase tokens) :
    ∀ e ∈ phrase.exprs, ∀ part : Expr, part.Part e →
      ∃ layer segment, segment <:+: tokens ∧ Derives classes (.expr layer part) segment := by
  -- a piece of the tokens of an operand is a piece of the whole
  have within {part : Expr} {inner tokens : List Token} (hinner : inner <:+: tokens)
      (h : ∃ layer segment, segment <:+: inner ∧ Derives classes (.expr layer part) segment) :
      ∃ layer segment, segment <:+: tokens ∧ Derives classes (.expr layer part) segment := by
    obtain ⟨layer, segment, hsegment, hpart⟩ := h
    exact ⟨layer, segment, hsegment.trans hinner, hpart⟩
  induction h with
  | literal kind =>
    refine List.forall_mem_singleton.mpr fun part hpart => ?_
    rw [hpart.of_leaf rfl rfl]
    exact ⟨_, _, List.infix_rfl, .literal kind⟩
  | name kind =>
    refine List.forall_mem_singleton.mpr fun part hpart => ?_
    rw [hpart.of_leaf rfl rfl]
    exact ⟨_, _, List.infix_rfl, .name kind⟩
  | @group start stop e tokens _ _ _ ih =>
    exact fun e he part hpart => within ⟨[start], [stop], by simp⟩ (ih e he part hpart)
  | @call start stop callee args tokens argTokens startKind stopKind function actual ihCallee
      ihArgs =>
    refine List.forall_mem_singleton.mpr fun part hpart => ?_
    rcases hpart.of_isOperation (Expr.isOperation_called _ _ _ _) with rfl | ⟨operand, hmem, hinner⟩
    · exact ⟨_, _, List.infix_rfl, .call startKind stopKind function actual⟩
    · rcases List.mem_cons.mp (Expr.operands_called_subset _ _ _ _ hmem) with rfl | hmem
      · exact within (List.prefix_append _ _).isInfix
          (ihCallee _ (List.mem_singleton.mpr rfl) part hinner)
      · exact within ⟨tokens ++ [start], [stop], by simp⟩ (ihArgs _ hmem part hinner)
  | @methodCall dot word start stop method receiver args tokens argTokens dotKind wordKind startKind
      stopKind object actual ihReceiver ihArgs =>
    refine List.forall_mem_singleton.mpr fun part hpart => ?_
    rcases hpart.of_isOperation rfl with rfl | ⟨operand, hmem, hinner⟩
    · exact ⟨_, _, List.infix_rfl, .methodCall dotKind wordKind startKind stopKind object actual⟩
    · rcases List.mem_cons.mp hmem with rfl | hmem
      · exact within (List.prefix_append _ _).isInfix
          (ihReceiver _ (List.mem_singleton.mpr rfl) part hinner)
      · exact within ⟨tokens ++ [dot, word, start], [stop], by simp⟩ (ihArgs _ hmem part hinner)
  | member dotKind wordKind object ih =>
    refine List.forall_mem_singleton.mpr fun part hpart => ?_
    rcases hpart.of_member with rfl | hinner
    · exact ⟨_, _, List.infix_rfl, .member dotKind wordKind object⟩
    · exact within (List.prefix_append _ _).isInfix (ih _ (List.mem_singleton.mpr rfl) part hinner)
  | neg signKind operand ih =>
    refine List.forall_mem_singleton.mpr fun part hpart => ?_
    rcases hpart.of_isOperation rfl with rfl | ⟨operand, hmem, hinner⟩
    · exact ⟨_, _, List.infix_rfl, .neg signKind operand⟩
    · exact within (List.suffix_cons _ _).isInfix (ih _ hmem part hinner)
  | plus _ _ ih =>
    exact fun e he part hpart => within (List.suffix_cons _ _).isInfix (ih e he part hpart)
  | not wordKind operand ih =>
    refine List.forall_mem_singleton.mpr fun part hpart => ?_
    rcases hpart.of_isOperation rfl with rfl | ⟨operand, hmem, hinner⟩
    · exact ⟨_, _, List.infix_rfl, .not wordKind operand⟩
    · exact within (List.suffix_cons _ _).isInfix (ih _ hmem part hinner)
  | @join sign rule left right leftTokens rightTokens signKind first second ihLeft ihRight =>
    refine List.forall_mem_singleton.mpr fun part hpart => ?_
    rcases hpart.of_isOperation rfl with rfl | ⟨operand, hmem, hinner⟩
    · exact ⟨_, _, List.infix_rfl, .join signKind first second⟩
    · rcases List.mem_cons.mp hmem with rfl | hmem
      · exact within (List.prefix_append _ _).isInfix
          (ihLeft _ (List.mem_singleton.mpr rfl) part hinner)
      · exact within ⟨leftTokens ++ [sign], [], by simp⟩ (ihRight _ hmem part hinner)
  | widen _ _ ih => exact ih
  | noArgs => exact List.forall_mem_nil _
  | lastArg _ ih => exact ih
  | @moreArgs comma e others tokens otherTokens _ _ _ ihArg ihRest =>
    refine List.forall_mem_cons.mpr ⟨fun part hpart => ?_, fun other hother part hpart => ?_⟩
    · exact within (List.prefix_append _ _).isInfix
        (ihArg _ (List.mem_singleton.mpr rfl) part hpart)
    · exact within ⟨tokens ++ [comma], [], by simp⟩ (ihRest other hother part hpart)

/-- The span of an expression is that of some of its tokens: parentheses around it are left out. -/
theorem Derives.span_ofPiece {classes : List String} {phrase : Phrase} {tokens : List Token}
    (h : Derives classes phrase tokens) : ∀ e ∈ phrase.exprs, e.span.OfPiece tokens := by
  induction h with
  | literal kind | name kind =>
    exact List.forall_mem_singleton.mpr (.single (List.mem_singleton.mpr rfl))
  | @group start stop e tokens _ _ _ ih =>
    exact fun e he => (ih e he).mono ⟨[start], [stop], by simp⟩
  | @call start stop callee args tokens argTokens _ _ _ _ ihCallee _ =>
    refine List.forall_mem_singleton.mpr ?_
    rw [Expr.span_called]
    have hstop : stop.span.OfPiece (start :: (argTokens ++ [stop])) := .single (by simp)
    exact (ihCallee _ (List.mem_singleton.mpr rfl)).through hstop
  | @methodCall dot word start stop method receiver args tokens argTokens _ _ _ _ _ _ ih _ =>
    have hstop : stop.span.OfPiece (dot :: word :: start :: (argTokens ++ [stop])) :=
      .single (by simp)
    exact List.forall_mem_singleton.mpr ((ih _ (List.mem_singleton.mpr rfl)).through hstop)
  | @member dot word attr receiver tokens _ _ _ ih =>
    have hstop : word.span.OfPiece [dot, word] := .single (by simp)
    exact List.forall_mem_singleton.mpr ((ih _ (List.mem_singleton.mpr rfl)).through hstop)
  | @neg sign operand tokens _ _ ih | @not sign operand tokens _ _ ih =>
    have hsign : sign.span.OfPiece [sign] := .single (List.mem_singleton.mpr rfl)
    exact List.forall_mem_singleton.mpr (hsign.through (ih _ (List.mem_singleton.mpr rfl)))
  | plus _ _ ih => exact fun e he => (ih e he).mono (List.suffix_cons _ _).isInfix
  | @join sign rule left right leftTokens rightTokens _ _ _ ihLeft ihRight =>
    have hright : right.span.OfPiece (sign :: rightTokens) :=
      (ihRight _ (List.mem_singleton.mpr rfl)).mono (List.suffix_cons _ _).isInfix
    exact List.forall_mem_singleton.mpr ((ihLeft _ (List.mem_singleton.mpr rfl)).through hright)
  | widen _ _ ih => exact ih
  | noArgs => exact List.forall_mem_nil _
  | lastArg _ ih => exact ih
  | @moreArgs comma e others tokens otherTokens _ _ _ ihArg ihRest =>
    refine List.forall_mem_cons.mpr ⟨?_, fun e he => ?_⟩
    · exact (ihArg _ (List.mem_singleton.mpr rfl)).mono (List.prefix_append _ _).isInfix
    · exact (ihRest e he).mono ⟨tokens ++ [comma], [], by simp⟩

/-- Every part of an expression lies over the tokens that spell the expression. -/
theorem Derives.over {classes : List String} {layer : Layer} {e part : Expr} {tokens : List Token}
    (h : Derives classes (.expr layer e) tokens) (hpart : part.Part e) : part.span.Over tokens := by
  obtain ⟨inner, segment, hsegment, hpart⟩ :=
    h.exists_part e (List.mem_singleton.mpr rfl) part hpart
  exact (hpart.span_ofPiece part (List.mem_singleton.mpr rfl)).toOver.mono hsegment.subset

/-! ### Expressions that are the same -/

namespace Expr

theorem span_eq_of_same {a b : Expr} (h : a.same b = true) : a.span = b.span := by
  cases a <;> cases b <;> simp_all [same, span]

theorem sameAll_self {exprs : List Expr} (h : ∀ e ∈ exprs, e.same e = true) :
    sameAll exprs exprs = true := by
  induction exprs with
  | nil => rfl
  | cons e others ih =>
    rw [List.forall_mem_cons] at h
    rw [sameAll, h.1, ih h.2]
    rfl

end Expr

/-- An expression is the same as itself, since its literals are. -/
theorem Derives.same_self {classes : List String} {phrase : Phrase} {tokens : List Token}
    (h : Derives classes phrase tokens) (htokens : ∀ token ∈ tokens, token.IsReflexive) :
    ∀ e ∈ phrase.exprs, e.same e = true := by
  induction h with
  | literal kind =>
    have hvalue := htokens _ (List.mem_singleton.mpr rfl) _ kind
    simp [Phrase.exprs, Expr.same, hvalue]
  | name kind => simp [Phrase.exprs, Expr.same]
  | group _ _ _ ih => exact ih fun token htoken => htokens token (by simp [htoken])
  | @call start stop callee args tokens argTokens _ _ _ _ ihCallee ihArgs =>
    have hcallee := ihCallee (fun token htoken => htokens token (by simp [htoken])) callee
      (List.mem_singleton.mpr rfl)
    have hargs : Expr.sameAll args args = true :=
      Expr.sameAll_self (ihArgs fun token htoken => htokens token (by simp [htoken]))
    refine List.forall_mem_singleton.mpr ?_
    rcases Expr.called_cases classes callee args (callee.span.through stop.span) with
      hcalled | ⟨className, span, -, -, hcalled⟩
    · simp [hcalled, Expr.same, hcallee, hargs]
    · simp [hcalled, Expr.same, hargs]
  | @methodCall dot word start stop method receiver args _ _ _ _ _ _ _ _ ihReceiver ihArgs =>
    have hreceiver := ihReceiver (fun token htoken => htokens token (by simp [htoken])) _
      (List.mem_singleton.mpr rfl)
    have hargs : Expr.sameAll args args = true :=
      Expr.sameAll_self (ihArgs fun token htoken => htokens token (by simp [htoken]))
    simp [Phrase.exprs, Expr.same, hreceiver, hargs]
  | member _ _ _ ih =>
    have hreceiver := ih (fun token htoken => htokens token (by simp [htoken])) _
      (List.mem_singleton.mpr rfl)
    simp [Phrase.exprs, Expr.same, hreceiver]
  | neg _ _ ih | not _ _ ih =>
    have hoperand := ih (fun token htoken => htokens token (by simp [htoken])) _
      (List.mem_singleton.mpr rfl)
    simp [Phrase.exprs, Expr.same, hoperand]
  | plus _ _ ih => exact ih fun token htoken => htokens token (by simp [htoken])
  | join _ _ _ ihLeft ihRight =>
    have hleft := ihLeft (fun token htoken => htokens token (by simp [htoken])) _
      (List.mem_singleton.mpr rfl)
    have hright := ihRight (fun token htoken => htokens token (by simp [htoken])) _
      (List.mem_singleton.mpr rfl)
    simp [Phrase.exprs, Expr.same, hleft, hright]
  | widen _ _ ih => exact ih htokens
  | noArgs => exact List.forall_mem_nil _
  | lastArg _ ih => exact ih htokens
  | moreArgs _ _ _ ihArg ihRest =>
    exact List.forall_mem_cons.mpr
      ⟨ihArg (fun token htoken => htokens token (by simp [htoken])) _ (List.mem_singleton.mpr rfl),
        ihRest fun token htoken => htokens token (by simp [htoken])⟩

end Offside
