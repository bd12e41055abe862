/-
The expression parser accepts all of the grammar: whatever spells an expression is read as that
expression, up to a token that ends it, just when the levels of nesting that it takes are left.
-/
import Offside.Proofs.Grammar.Steps

namespace Offside

namespace Derives

/-- Expressions are spelled by at least one token, and the first one closes no parenthesis. -/
theorem exists_first {classes : List String} {phrase : Phrase} {tokens : List Token}
    (h : Derives classes phrase tokens) {layer : Layer} {e : Expr}
    (hphrase : phrase = .expr layer e) :
    ∃ token rest, tokens = token :: rest ∧ token.kind ≠ .symbol .closeParen := by
  induction h generalizing layer e with
  | literal kind | name kind => exact ⟨_, _, rfl, by simp [kind]⟩
  | group startKind => exact ⟨_, _, rfl, by simp [startKind]⟩
  | neg signKind | plus signKind => exact ⟨_, _, rfl, by simp [signKind]⟩
  | not wordKind => exact ⟨_, _, rfl, by simp [wordKind]⟩
  | widen _ _ ih => exact ih rfl
  | call _ _ _ _ ih | methodCall _ _ _ _ _ _ ih | member _ _ _ ih | join _ _ _ ih =>
    obtain ⟨token, rest, rfl, htoken⟩ := ih rfl
    exact ⟨token, _, rfl, htoken⟩
  | noArgs | lastArg | moreArgs => cases hphrase

theorem length_pos {classes : List String} {layer : Layer} {e : Expr} {tokens : List Token}
    (h : Derives classes (.expr layer e) tokens) : 0 < tokens.length := by
  obtain ⟨token, rest, rfl, -⟩ := h.exists_first rfl
  exact Nat.succ_pos _

end Derives

namespace Parser

variable {α β : Type}

/-- The answer of a parser that finds the nesting too deep. -/
def Refused (limit : Nat) (answer : EStateM.Result GrammarError Cursor α) : Prop :=
  ∃ span c, answer = .error (.nestingTooDeep limit span) c

theorem refused_tooDeep (c : Cursor) : Refused c.maxDepth ((tooDeep : Parser α) c) :=
  ⟨_, _, rfl⟩

theorem Refused.bind {limit : Nat} {p : Parser α} {c : Cursor} (h : Refused limit (p c))
    (f : α → Parser β) : Refused limit ((p >>= f) c) := by
  obtain ⟨span, last, h⟩ := h
  exact ⟨span, last, bind_error h⟩

theorem Refused.atDepth {limit : Nat} {answer : EStateM.Result GrammarError Cursor α}
    (h : Refused limit answer) (depth : Nat) : Refused limit (atDepth depth answer) := by
  obtain ⟨span, last, rfl⟩ := h
  exact ⟨span, _, rfl⟩

/-- The answer is this value at this cursor if the nesting fits; otherwise the nesting is found too
deep. -/
def Yields (limit : Nat) (fits : Prop) (value : α) (after : Cursor)
    (answer : EStateM.Result GrammarError Cursor α) : Prop :=
  (fits ∧ answer = .ok value after) ∨ (¬ fits ∧ Refused limit answer)

namespace Yields

variable {limit : Nat} {fits other : Prop} {a : α} {b : β} {c mid after : Cursor} {p : Parser α}
  {f : α → Parser β}

theorem of_eq {answer : EStateM.Result GrammarError Cursor α} (h : answer = .ok a after) :
    Yields limit True a after answer :=
  .inl ⟨trivial, h⟩

theorem congr {answer : EStateM.Result GrammarError Cursor α} (h : Yields limit fits a after answer)
    (hiff : fits ↔ other) : Yields limit other a after answer := by
  rwa [Yields, ← hiff]

theorem bind (h : Yields limit fits a mid (p c)) (hf : fits → Yields limit other b after (f a mid)) :
    Yields limit (fits ∧ other) b after ((p >>= f) c) := by
  rcases h with ⟨hfits, hok⟩ | ⟨hfits, hrefused⟩
  · rw [bind_ok hok]
    exact (hf hfits).congr (by simp [hfits])
  · exact .inr ⟨fun h => hfits h.1, hrefused.bind f⟩

/-- Going on in a way that takes no more nesting. -/
theorem map (h : Yields limit fits a mid (p c)) (hf : f a mid = .ok b after) :
    Yields limit fits b after ((p >>= f) c) :=
  (h.bind fun _ => of_eq hf).congr (iff_of_eq (and_true fits))

end Yields

end Parser

/-- The tightest level at which the expressions of a layer are read: calls and attributes are read
at every level. -/
def Layer.tightest (layer : Layer) : Nat := min layer.level trailed.level

namespace Parser

/-- An expression after its level of nesting has been entered. -/
def entered (budget level : Nat) : Parser Expr := do
  let left ← operand (exprAt budget) level
  extendAt budget level left

/-- How the parser reads tokens that spell an expression, where the next token ends them: it takes
this many levels of nesting below its own, and some of them are still held behind the last token,
by what has been wrapped around the first operand; what is left serves to wrap more around it. -/
structure ReadsBack (classes : List String) (layer : Layer) (e : Expr) (tokens : List Token)
    (levels spine : Nat) : Prop where
  spine_le : spine ≤ levels
  read : ∀ ⦃level budget : Nat⦄ ⦃c after : Cursor⦄, c.classes = classes →
    level ≤ layer.tightest → budget + c.depth = c.maxDepth → c.Reads tokens after →
    layer.Closes after.kind →
    (levels ≤ budget ∧ entered budget level c =
        extendAt (budget - spine) level e { after with depth := c.depth + spine }) ∨
      (¬ levels ≤ budget ∧ Refused c.maxDepth (entered budget level c))

/-- How the parser reads tokens that spell arguments, up to the closing parenthesis. -/
def ReadsArgsBack (classes : List String) (values : List Expr) (tokens : List Token)
    (levels : Nat) : Prop :=
  ∀ ⦃budget count : Nat⦄ (before : List Expr) ⦃c after : Cursor⦄, c.classes = classes →
    budget + c.depth = c.maxDepth → c.Reads tokens after → after.kind = .symbol .closeParen →
    tokens.length < count →
    Yields c.maxDepth (levels ≤ budget) (before.reverse ++ values) { after with depth := c.depth }
      (itemsAfter (fun _ => exprAt budget Binding.lowest) count before c)

variable {classes : List String} {layer : Layer} {e : Expr} {tokens : List Token}
  {levels spine : Nat}

/-- An expression is read as such where reading at the level stops behind it. -/
theorem exprAt_of_readsBack (h : ReadsBack classes layer e tokens levels spine)
    {level budget : Nat} {c after : Cursor} (hclasses : c.classes = classes)
    (hlevel : level ≤ layer.tightest) (hbudget : budget + c.depth = c.maxDepth)
    (hreads : c.Reads tokens after) (hcloses : layer.Closes after.kind)
    (hstop : extension? level after.kind = none) :
    Yields c.maxDepth (levels + 1 ≤ budget) e { after with depth := c.depth }
      (exprAt budget level c) := by
  cases budget with
  | zero =>
    have hfull : enterNesting c = (tooDeep : Parser Unit) c := by
      rw [enterNesting, if_neg (by omega)]
    have hrefused : Refused c.maxDepth (enterNesting c) := hfull ▸ refused_tooDeep c
    exact .inr ⟨Nat.not_succ_le_zero _, (hrefused.bind _).atDepth _⟩
  | succ budget =>
    rw [exprAt_succ (by omega)]
    rcases h.read (c := { c with depth := c.depth + 1 }) hclasses hlevel
      (by change budget + (c.depth + 1) = c.maxDepth; omega) (hreads.setDepth _) hcloses with
      ⟨hle, heq⟩ | ⟨hlt, hrefused⟩
    · rw [extendAt_of_none (by exact hstop)] at heq
      left
      rw [entered] at heq
      rw [heq]
      exact ⟨Nat.succ_le_succ hle, rfl⟩
    · exact .inr ⟨fun hle => hlt (Nat.le_of_succ_le_succ hle), hrefused.atDepth _⟩

/-! ### First operands -/

/-- An expression that is all read as a first operand is read back. -/
theorem readsBack_of_operand
    (h : ∀ {level budget : Nat} {c after : Cursor}, c.classes = classes → level ≤ layer.tightest →
      budget + c.depth = c.maxDepth → c.Reads tokens after → layer.Closes after.kind →
      Yields c.maxDepth (levels ≤ budget) e { after with depth := c.depth }
        (operand (exprAt budget) level c)) :
    ReadsBack classes layer e tokens levels 0 where
  spine_le := Nat.zero_le _
  read level budget c after hclasses hlevel hbudget hreads hcloses := by
    rcases h hclasses hlevel hbudget hreads hcloses with ⟨hle, hok⟩ | ⟨hlt, hrefused⟩
    · exact .inl ⟨hle, bind_ok hok⟩
    · exact .inr ⟨hlt, hrefused.bind _⟩

theorem readsBack_literal {token : Token} {value : Literal} (kind : token.kind = .literal value) :
    ReadsBack classes .callable (.constant value token.span) [token] 0 0 := by
  apply readsBack_of_operand
  intro level budget c after _ _ _ hreads _
  rw [operand_literal (hreads.kind.trans kind), hreads.span, hreads.next_eq]
  exact (Yields.of_eq rfl).congr (by simp)

theorem readsBack_name {token : Token} {id : String} (kind : token.kind = .identifier id) :
    ReadsBack classes .callable (.name id token.span) [token] 0 0 := by
  apply readsBack_of_operand
  intro level budget c after _ _ _ hreads _
  rw [operand_name (hreads.kind.trans kind), hreads.span, hreads.next_eq]
  exact (Yields.of_eq rfl).congr (by simp)

/-- Going on behind one token with what is left of the nesting. -/
theorem exprAt_next (h : ReadsBack classes layer e tokens levels spine)
    {token : Token} {level budget : Nat} {c after : Cursor} (hclasses : c.classes = classes)
    (hlevel : level ≤ layer.tightest) (hbudget : budget + c.depth = c.maxDepth)
    (hreads : c.Reads (token :: tokens) after) (hcloses : layer.Closes after.kind)
    (hstop : extension? level after.kind = none) :
    Yields c.maxDepth (levels + 1 ≤ budget) e { after with depth := c.depth }
      (exprAt budget level c.next) := by
  have hbudget' : budget + c.next.depth = c.next.maxDepth := by
    rwa [Cursor.depth_next, Cursor.maxDepth_next]
  have hyields := exprAt_of_readsBack h ((Cursor.classes_next c).trans hclasses) hlevel
    hbudget' hreads.tail hcloses hstop
  rwa [Cursor.maxDepth_next, Cursor.depth_next] at hyields

theorem readsBack_group {start stop : Token} (startKind : start.kind = .symbol .openParen)
    (stopKind : stop.kind = .symbol .closeParen)
    (h : ReadsBack classes .or e tokens levels spine) :
    ReadsBack classes .callable e (start :: (tokens ++ [stop])) (levels + 1) 0 := by
  apply readsBack_of_operand
  intro level budget c after hclasses _ hbudget hreads _
  obtain ⟨mid, -, hinner, hstop⟩ := hreads.split_cons
  have hkind : mid.kind = .symbol .closeParen := hstop.kind.trans stopKind
  have hends : mid.kind.continuesExpr = false := by rw [hkind]; rfl
  rw [operand_group (hreads.kind.trans startKind)]
  apply Yields.map (exprAt_next h hclasses (by decide) hbudget hinner
    (Layer.closes_of_not_continuesExpr _ hends) (extension?_lowest_eq_none_iff.mpr hends))
  have hclose : stop.kind.isA (.symbol .closeParen) = true := by
    rwa [TokenKind.isA_symbol]
  exact bind_ok (expect_of_reads (hstop.setDepth _) hclose _)

theorem readsBack_neg {sign : Token} (signKind : sign.kind = .symbol .minus)
    (h : ReadsBack classes .unary e tokens levels spine) :
    ReadsBack classes .unary (.unary .neg e (sign.span.through e.span)) (sign :: tokens)
      (levels + 1) 0 := by
  apply readsBack_of_operand
  intro level budget c after hclasses _ hbudget hreads hcloses
  rw [operand_minus (hreads.kind.trans signKind), hreads.span]
  exact (exprAt_next h hclasses (by decide) hbudget hreads hcloses
    (Layer.closes_unary_iff.mp hcloses)).map rfl

theorem readsBack_plus {sign : Token} (signKind : sign.kind = .symbol .plus)
    (h : ReadsBack classes .unary e tokens levels spine) :
    ReadsBack classes .unary e (sign :: tokens) (levels + 1) 0 := by
  apply readsBack_of_operand
  intro level budget c after hclasses _ hbudget hreads hcloses
  rw [operand_plus (hreads.kind.trans signKind)]
  exact exprAt_next h hclasses (by decide) hbudget hreads hcloses
    (Layer.closes_unary_iff.mp hcloses)

theorem readsBack_not {word : Token} (wordKind : word.kind = .keyword .not)
    (h : ReadsBack classes .not e tokens levels spine) :
    ReadsBack classes .not (.unary .not e (word.span.through e.span)) (word :: tokens)
      (levels + 1) 0 := by
  apply readsBack_of_operand
  intro level budget c after hclasses hlevel hbudget hreads hcloses
  rw [operand_not (hreads.kind.trans wordKind) hlevel, hreads.span]
  exact (exprAt_next h hclasses (by decide) hbudget hreads hcloses
    (Layer.closes_not_iff.mp hcloses)).map rfl

/-! ### Arguments -/

theorem readsArgsBack_nil : ReadsArgsBack classes [] [] 0 := by
  intro budget count before c after _ _ hreads hkind _
  have hclose : c.kind = .symbol .closeParen := by
    rw [hreads.eq_of_nil]
    exact hkind
  rw [itemsAfter_of_close hclose, ← hreads.eq_of_nil, List.append_nil]
  exact (Yields.of_eq rfl).congr (by simp)

/-- What the tokens of an argument start with. -/
def StartsArg (tokens : List Token) : Prop :=
  ∃ token rest, tokens = token :: rest ∧ token.kind ≠ .symbol .closeParen

/-- Reading the first of some arguments before a comma or the closing parenthesis. -/
theorem exprAt_arg (hfirst : StartsArg tokens) (h : ReadsBack classes .or e tokens levels spine)
    {budget : Nat} {c after : Cursor} (hclasses : c.classes = classes)
    (hbudget : budget + c.depth = c.maxDepth) (hreads : c.Reads tokens after)
    (hends : after.kind.continuesExpr = false) :
    c.kind ≠ .symbol .closeParen ∧
    Yields c.maxDepth (levels + 1 ≤ budget) e { after with depth := c.depth }
      (exprAt budget Binding.lowest c) := by
  constructor
  · obtain ⟨token, rest, rfl, htoken⟩ := hfirst
    rwa [hreads.kind]
  · exact exprAt_of_readsBack h hclasses (by decide) hbudget hreads
      (Layer.closes_of_not_continuesExpr _ hends) (extension?_lowest_eq_none_iff.mpr hends)

theorem readsArgsBack_last (hfirst : StartsArg tokens)
    (h : ReadsBack classes .or e tokens levels spine) :
    ReadsArgsBack classes [e] tokens (levels + 1) := by
  intro budget count before c after hclasses hbudget hreads hkind hcount
  obtain ⟨hopen, hyields⟩ := exprAt_arg hfirst h hclasses hbudget hreads (by rw [hkind]; rfl)
  obtain ⟨fewer, rfl⟩ : ∃ fewer, count = fewer + 1 := Nat.exists_eq_succ_of_ne_zero (by omega)
  rw [itemsAfter_of_not_close hopen]
  apply hyields.map
  have hcomma : ({ after with depth := c.depth } : Cursor).isAt (.symbol .comma) = false := by
    change after.kind.isA (.symbol .comma) = false
    rw [hkind]
    rfl
  rw [bind_ok (skip_of_not_isAt hcomma), List.reverse_cons]
  rfl

/-- Arguments behind a comma. -/
theorem itemsAfter_next {values : List Expr} (h : ReadsArgsBack classes values tokens levels)
    {token : Token} {budget count : Nat} (before : List Expr) {c after : Cursor}
    (hclasses : c.classes = classes) (hbudget : budget + c.depth = c.maxDepth)
    (hreads : c.Reads (token :: tokens) after) (hkind : after.kind = .symbol .closeParen)
    (hcount : tokens.length < count) :
    Yields c.maxDepth (levels ≤ budget) (before.reverse ++ values)
      { after with depth := c.depth }
      (itemsAfter (fun _ => exprAt budget Binding.lowest) count before c.next) := by
  have hbudget' : budget + c.next.depth = c.next.maxDepth := by
    rwa [Cursor.depth_next, Cursor.maxDepth_next]
  have hyields := h before ((Cursor.classes_next c).trans hclasses) hbudget' hreads.tail hkind
    hcount
  rwa [Cursor.maxDepth_next, Cursor.depth_next] at hyields

theorem readsArgsBack_more {comma : Token} {others : List Expr} {otherTokens : List Token}
    {otherLevels : Nat} (commaKind : comma.kind = .symbol .comma) (hfirst : StartsArg tokens)
    (h : ReadsBack classes .or e tokens levels spine)
    (hothers : ReadsArgsBack classes others otherTokens otherLevels) :
    ReadsArgsBack classes (e :: others) (tokens ++ comma :: otherTokens)
      (max (levels + 1) otherLevels) := by
  intro budget count before c after hclasses hbudget hreads hkind hcount
  rw [List.length_append, List.length_cons] at hcount
  obtain ⟨mid, -, hread, hsecond⟩ := hreads.split
  have hmid : mid.kind = .symbol .comma := hsecond.kind.trans commaKind
  obtain ⟨hopen, hyields⟩ := exprAt_arg hfirst h hclasses hbudget hread (by rw [hmid]; rfl)
  obtain ⟨fewer, rfl⟩ : ∃ fewer, count = fewer + 1 := Nat.exists_eq_succ_of_ne_zero (by omega)
  rw [itemsAfter_of_not_close hopen]
  apply (hyields.bind fun _ => ?_).congr Nat.max_le.symm
  have hcomma : ({ mid with depth := c.depth } : Cursor).isAt (.symbol .comma) = true := by
    change mid.kind.isA (.symbol .comma) = true
    rw [hmid]
    rfl
  rw [bind_ok (skip_of_isAt hcomma)]
  have hfewer : otherTokens.length < fewer := by omega
  rw [← hread.maxDepth] at hbudget ⊢
  have hrest := itemsAfter_next hothers (e :: before) (c := { mid with depth := c.depth })
    (hread.classes.trans hclasses) hbudget (hsecond.setDepth _) hkind hfewer
  rwa [List.reverse_cons, List.append_assoc] at hrest

/-- Arguments are read with the parenthesis behind them. -/
theorem arguments_of_readsBack {args : List Expr} (h : ReadsArgsBack classes args tokens levels)
    {stop : Token} (stopKind : stop.kind = .symbol .closeParen) {budget : Nat} {c after : Cursor}
    (hclasses : c.classes = classes) (hbudget : budget + c.depth = c.maxDepth)
    (hreads : c.Reads (tokens ++ [stop]) after) :
    Yields c.maxDepth (levels ≤ budget) args { after with depth := c.depth }
      (arguments (exprAt budget) c) := by
  obtain ⟨mid, -, hfirst, hstop⟩ := hreads.split
  rw [arguments, items, get_bind]
  have hlt : tokens.length < c.rest.length + 1 := by
    rw [hreads.rest, List.length_append, List.length_append]
    omega
  apply (h [] hclasses hbudget hfirst (hstop.kind.trans stopKind) hlt).map
  have hclose : stop.kind.isA (.symbol .closeParen) = true := by
    rwa [TokenKind.isA_symbol]
  exact bind_ok (expect_of_reads (hstop.setDepth _) hclose _)

theorem arguments_next {args : List Expr} (h : ReadsArgsBack classes args tokens levels)
    {token stop : Token} (stopKind : stop.kind = .symbol .closeParen) {budget : Nat}
    {c after : Cursor} (hclasses : c.classes = classes) (hbudget : budget + c.depth = c.maxDepth)
    (hreads : c.Reads (token :: (tokens ++ [stop])) after) :
    Yields c.maxDepth (levels ≤ budget) args { after with depth := c.depth }
      (arguments (exprAt budget) c.next) := by
  have hbudget' : budget + c.next.depth = c.next.maxDepth := by
    rwa [Cursor.depth_next, Cursor.maxDepth_next]
  have hyields := arguments_of_readsBack h stopKind ((Cursor.classes_next c).trans hclasses)
    hbudget' hreads.tail
  rwa [Cursor.maxDepth_next, Cursor.depth_next] at hyields

/-! ### Wrapping -/

variable {left : Expr} {leftTokens : List Token} {n : Nat}

/-- An expression that is read back and then wrapped once is read back.  The wrapping holds one
level, and what is inside of it takes its levels on top of that. -/
theorem readsBack_of_extend {inner : Layer} {sign : Token} (extension : Extension)
    (hlayer : layer.tightest ≤ inner.tightest) (hcloses : inner.Closes sign.kind)
    (hleft : ReadsBack classes inner left leftTokens levels spine)
    (hextension : ∀ level ≤ layer.tightest, extension? level sign.kind = some extension)
    (h : ∀ {budget : Nat} {c after : Cursor}, c.classes = classes →
      budget + c.depth = c.maxDepth → c.Reads (sign :: tokens) after → layer.Closes after.kind →
      Yields c.maxDepth (n ≤ budget) e { after with depth := c.depth }
        (extend (exprAt budget) left extension c)) :
    ReadsBack classes layer e (leftTokens ++ sign :: tokens) (max levels (spine + 1 + n))
      (spine + 1) where
  spine_le := Nat.le_trans (Nat.le_add_right _ _) (Nat.le_max_right _ _)
  read level budget c after hclasses hlevel hbudget hreads hafter := by
    obtain ⟨mid, -, hfirst, hsecond⟩ := hreads.split
    have hlimit : mid.maxDepth = c.maxDepth := hfirst.maxDepth
    have hspine := hleft.spine_le
    rcases hleft.read hclasses (Nat.le_trans hlevel hlayer) hbudget hfirst
      (hsecond.kind ▸ hcloses) with ⟨hle, heq⟩ | ⟨hlt, hrefused⟩
    case inr => exact .inr ⟨fun hle => hlt (Nat.max_le.mp hle).1, hrefused⟩
    rw [heq]
    have hsome : extension? level mid.kind = some extension := by
      rw [hsecond.kind]
      exact hextension level hlevel
    cases hfewer : budget - spine with
    | zero =>
      rw [extendAt_zero_of_some (c := { mid with depth := c.depth + spine }) hsome]
      exact .inr ⟨by omega, hlimit ▸ refused_tooDeep _⟩
    | succ fewer =>
      rw [extendAt_succ_of_some (c := { mid with depth := c.depth + spine }) hsome
        (by change c.depth + spine < mid.maxDepth; omega)]
      rcases h (c := { mid with depth := c.depth + spine + 1 }) (hfirst.classes.trans hclasses)
        (by change fewer + (c.depth + spine + 1) = mid.maxDepth; omega) (hsecond.setDepth _)
        hafter with ⟨hinside, hok⟩ | ⟨hlt, hrefused⟩
      · have hrest : budget - (spine + 1) = fewer := by omega
        rw [hrest]
        exact .inl ⟨by omega, bind_ok hok⟩
      · exact .inr ⟨by omega, hlimit ▸ hrefused.bind _⟩

theorem ReadsBack.widen_of_le {outer inner : Layer} (hle : outer.level ≤ inner.level)
    (h : ReadsBack classes inner e tokens levels spine) :
    ReadsBack classes outer e tokens levels spine where
  spine_le := h.spine_le
  read level budget c after hclasses houter hbudget hreads hcloses := by
    have htightest : outer.tightest ≤ inner.tightest := by
      unfold Layer.tightest
      omega
    exact h.read hclasses (Nat.le_trans houter htightest) hbudget hreads (hcloses.mono hle)

theorem readsBack_call {start stop : Token} {callee : Expr} {args : List Expr}
    {argTokens : List Token} (startKind : start.kind = .symbol .openParen)
    (stopKind : stop.kind = .symbol .closeParen)
    (hcallee : ReadsBack classes .callable callee tokens levels spine)
    (hargs : ReadsArgsBack classes args argTokens n) :
    ReadsBack classes .callable (callee.called classes args (callee.span.through stop.span))
      (tokens ++ start :: (argTokens ++ [stop])) (max levels (spine + 1 + n))
      (spine + 1) := by
  apply readsBack_of_extend .call (Nat.le_refl _) (.callable _) hcallee
  · intro level _
    rw [startKind]
    rfl
  · intro budget c after hclasses hbudget hreads _
    rw [extend, callOf_eq]
    apply (arguments_next hargs stopKind hclasses hbudget hreads).map
    have hspan := Cursor.lastSpan_of_reads (hreads.tail.atDepth c.depth)
    rw [get_bind, hspan, hreads.classes, hclasses]
    rfl

theorem readsBack_methodCall {dot word start stop : Token} {method : String} {receiver : Expr}
    {args : List Expr} {argTokens : List Token} (dotKind : dot.kind = .symbol .dot)
    (wordKind : word.kind = .identifier method) (startKind : start.kind = .symbol .openParen)
    (stopKind : stop.kind = .symbol .closeParen)
    (hobject : ReadsBack classes .trailed receiver tokens levels spine)
    (hargs : ReadsArgsBack classes args argTokens n) :
    ReadsBack classes .callable
      (.methodCall receiver method args (receiver.span.through stop.span))
      (tokens ++ dot :: word :: start :: (argTokens ++ [stop])) (max levels (spine + 1 + n))
      (spine + 1) := by
  have hdot : Layer.trailed.Closes dot.kind := Layer.trailed_closes_of_ne (by simp [dotKind])
  apply readsBack_of_extend .member (by decide) hdot hobject
  · intro level _
    rw [dotKind]
    rfl
  · intro budget c after hclasses hbudget hreads _
    have hopen : c.next.next.isAt (.symbol .openParen) = true :=
      (TokenKind.isA_symbol _ _).mpr (hreads.tail.tail.kind.trans startKind)
    have hclasses' : c.next.next.classes = classes := by simp [hclasses]
    have hbudget' : budget + c.next.next.depth = c.next.next.maxDepth := by simp [hbudget]
    have hyields := arguments_next hargs stopKind hclasses' hbudget' hreads.tail.tail
    rw [extend, memberOf_of_word hreads.tail.rest wordKind, bind_ok (skip_of_isAt hopen)]
    simp only [Cursor.maxDepth_next, Cursor.depth_next] at hyields
    apply hyields.map
    have hspan := Cursor.lastSpan_of_reads (hreads.tail.tail.tail.atDepth c.depth)
    rw [get_bind, hspan]
    rfl

theorem readsBack_member {dot word : Token} {attr : String} {receiver : Expr}
    (dotKind : dot.kind = .symbol .dot) (wordKind : word.kind = .identifier attr)
    (hobject : ReadsBack classes .trailed receiver tokens levels spine) :
    ReadsBack classes .trailed (.member receiver attr (receiver.span.through word.span))
      (tokens ++ [dot, word]) (max levels (spine + 1)) (spine + 1) := by
  have hdot : Layer.trailed.Closes dot.kind := Layer.trailed_closes_of_ne (by simp [dotKind])
  apply readsBack_of_extend (n := 0) .member (by decide) hdot hobject
  · intro level _
    rw [dotKind]
    rfl
  · intro budget c after _ _ hreads hcloses
    have hnext := hreads.tail.next_eq
    have hopen : c.next.next.isAt (.symbol .openParen) = false := by
      rw [Bool.eq_false_iff, Ne, Cursor.isAt, TokenKind.isA_symbol, hnext]
      -- an attribute with a parenthesis behind it is not closed
      intro hkind
      cases hcloses.call hkind
    rw [extend, memberOf_of_word hreads.tail.rest wordKind, bind_ok (skip_of_not_isAt hopen),
      hnext, Cursor.depth_next]
    exact (Yields.of_eq rfl).congr (by simp)

theorem readsBack_join {sign : Token} {rule : Production} {right : Expr}
    {rightTokens : List Token} {rightLevels rightSpine : Nat}
    (signKind : Production.ofKind? sign.kind = some rule)
    (hleft : ReadsBack classes rule.left left leftTokens levels spine)
    (hright : ReadsBack classes rule.right right rightTokens rightLevels rightSpine) :
    ReadsBack classes rule.result (.binary rule.op left right (left.span.through right.span))
      (leftTokens ++ sign :: rightTokens) (max levels (spine + 1 + (rightLevels + 1)))
      (spine + 1) := by
  have hlevels := Production.levels_of_ofKind? signKind
  have hlayer : rule.result.tightest ≤ rule.left.tightest := by
    unfold Layer.tightest
    omega
  have hright' : rule.right.level ≤ rule.right.tightest := by
    have htrailed : Layer.trailed.level = 9 := rfl
    unfold Layer.tightest
    omega
  apply readsBack_of_extend (.join rule.joining) hlayer (Layer.closes_left signKind) hleft
  · intro level hlevel
    exact extension?_of_rule signKind (Nat.le_trans hlevel (Nat.min_le_left _ _))
  · intro budget c after hclasses hbudget hreads hcloses
    have hstop := (Layer.closes_result_iff signKind).mp hcloses
    rw [extend, joinOf, bump_bind]
    exact (exprAt_next hright hclasses hright' hbudget hreads
      (Layer.closes_of_extension?_eq_none hstop) hstop).map rfl

/-- Where an expression ends, the parser takes all of it and nothing else, as long as the levels of
nesting that it takes are left. -/
theorem expr_of_readsBack (h : ReadsBack classes .or e tokens levels spine) {c after : Cursor}
    (hclasses : c.classes = classes) (hreads : c.Reads tokens after) (hdepth : after.depth = c.depth)
    (hends : after.kind.continuesExpr = false) :
    Yields c.maxDepth (levels + 1 ≤ c.budget) e after (expr Binding.lowest c) := by
  rcases Nat.lt_or_ge c.maxDepth c.depth with hlt | hle
  · -- a cursor beyond the limit reads no expression at all
    have hbudget : c.budget = 0 := Nat.sub_eq_zero_of_le (Nat.le_of_lt hlt)
    have hrefused : Refused c.maxDepth (enterNesting c) := by
      rw [enterNesting, if_neg (by omega)]
      exact refused_tooDeep c
    rw [expr, hbudget, exprAt]
    exact .inr ⟨Nat.not_succ_le_zero _, (hrefused.bind _).atDepth _⟩
  · have hbudget : c.budget + c.depth = c.maxDepth := Nat.sub_add_cancel hle
    have hyields := exprAt_of_readsBack h hclasses (Nat.zero_le _) hbudget hreads
      (Layer.closes_of_not_continuesExpr _ hends) (extension?_lowest_eq_none_iff.mpr hends)
    rwa [← hdepth] at hyields

/-! ### Everything in the grammar -/

/-- Reading takes some number of levels of nesting, which is less than there are tokens. -/
def ReadsBackShort (classes : List String) : Phrase → List Token → Prop
  | .expr layer e, tokens =>
    ∃ levels spine, levels < tokens.length ∧ ReadsBack classes layer e tokens levels spine
  | .args values, tokens =>
    ∃ levels, levels ≤ tokens.length ∧ ReadsArgsBack classes values tokens levels

end Parser

/-- Whatever the grammar derives is read back. -/
theorem Derives.readsBack {classes : List String} {phrase : Phrase} {tokens : List Token}
    (h : Derives classes phrase tokens) : Parser.ReadsBackShort classes phrase tokens := by
  induction h with
  | literal kind => exact ⟨0, 0, Nat.one_pos, Parser.readsBack_literal kind⟩
  | name kind => exact ⟨0, 0, Nat.one_pos, Parser.readsBack_name kind⟩
  | group startKind stopKind _ ih =>
    obtain ⟨levels, spine, hlt, hback⟩ := ih
    refine ⟨_, _, ?_, Parser.readsBack_group startKind stopKind hback⟩
    simp only [List.length_cons, List.length_append]
    omega
  | call startKind stopKind _ _ ihFunction ihActual =>
    obtain ⟨levels, spine, hlt, hback⟩ := ihFunction
    obtain ⟨n, hle, hargs⟩ := ihActual
    have hspine := hback.spine_le
    refine ⟨_, _, ?_, Parser.readsBack_call startKind stopKind hback hargs⟩
    simp only [List.length_cons, List.length_append]
    omega
  | methodCall dotKind wordKind startKind stopKind _ _ ihObject ihActual =>
    obtain ⟨levels, spine, hlt, hback⟩ := ihObject
    obtain ⟨n, hle, hargs⟩ := ihActual
    have hspine := hback.spine_le
    refine ⟨_, _, ?_,
      Parser.readsBack_methodCall dotKind wordKind startKind stopKind hback hargs⟩
    simp only [List.length_cons, List.length_append]
    omega
  | member dotKind wordKind _ ih =>
    obtain ⟨levels, spine, hlt, hback⟩ := ih
    have hspine := hback.spine_le
    refine ⟨_, _, ?_, Parser.readsBack_member dotKind wordKind hback⟩
    simp only [List.length_cons, List.length_append]
    omega
  | neg signKind _ ih =>
    obtain ⟨levels, spine, hlt, hback⟩ := ih
    exact ⟨_, _, Nat.succ_lt_succ hlt, Parser.readsBack_neg signKind hback⟩
  | plus signKind _ ih =>
    obtain ⟨levels, spine, hlt, hback⟩ := ih
    exact ⟨_, _, Nat.succ_lt_succ hlt, Parser.readsBack_plus signKind hback⟩
  | not wordKind _ ih =>
    obtain ⟨levels, spine, hlt, hback⟩ := ih
    exact ⟨_, _, Nat.succ_lt_succ hlt, Parser.readsBack_not wordKind hback⟩
  | join signKind _ _ ihFirst ihSecond =>
    obtain ⟨levels, spine, hlt, hback⟩ := ihFirst
    obtain ⟨rightLevels, rightSpine, hlt', hright⟩ := ihSecond
    have hspine := hback.spine_le
    refine ⟨_, _, ?_, Parser.readsBack_join signKind hback hright⟩
    simp only [List.length_cons, List.length_append]
    omega
  | widen step _ ih =>
    obtain ⟨levels, spine, hlt, hback⟩ := ih
    have hlevel := Layer.level_of_inner? step
    exact ⟨levels, spine, hlt, hback.widen_of_le (by omega)⟩
  | noArgs => exact ⟨0, Nat.le_refl _, Parser.readsArgsBack_nil⟩
  | lastArg arg ih =>
    obtain ⟨levels, spine, hlt, hback⟩ := ih
    exact ⟨_, hlt, Parser.readsArgsBack_last (arg.exists_first rfl) hback⟩
  | moreArgs commaKind arg _ ihArg ihRest =>
    obtain ⟨levels, spine, hlt, hback⟩ := ihArg
    obtain ⟨otherLevels, hle, hothers⟩ := ihRest
    refine ⟨_, ?_, Parser.readsArgsBack_more commaKind (arg.exists_first rfl) hback hothers⟩
    simp only [List.length_cons, List.length_append]
    omega

end Offside
