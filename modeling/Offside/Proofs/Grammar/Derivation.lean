/-
The grammar of expressions in layers, each made of the one inside it.  It knows no binding levels
and no order of reading; a derivation relates an expression, spans included, to all token lists
that spell it.
-/
import Offside.Program.Basic
import Offside.Token.Basic

namespace Offside

/-- The layers of the expression grammar, from the outermost to the innermost. -/
inductive Layer where
  | or
  | and
  | not
  | comparison
  | sum
  | product
  | unary
  | power
  /-- Operands with calls and attributes behind them. -/
  | trailed
  /-- The same, where a parenthesis that follows calls what has been read: behind a bare
  attribute it would make a method call instead. -/
  | callable
  deriving Repr, DecidableEq

/-- The layer of which a layer consists where nothing is added to it. -/
def Layer.inner? : Layer → Option Layer
  | or => some and
  | and => some not
  | not => some comparison
  | comparison => some sum
  | sum => some product
  | product => some unary
  | unary => some power
  | power => some trailed
  | trailed => some callable
  | callable => none

/-- A rule that makes a layer of two others with an operator between them. -/
structure Production where
  result : Layer
  left : Layer
  right : Layer
  op : BinaryOp
  deriving Repr, DecidableEq

/-- The rule of an operator. -/
def Production.ofKind? : TokenKind → Option Production
  | .keyword .or => some ⟨.or, .or, .and, .or⟩
  | .keyword .and => some ⟨.and, .and, .not, .and⟩
  | .symbol .equal => some ⟨.comparison, .comparison, .sum, .equal⟩
  | .symbol .notEqual => some ⟨.comparison, .comparison, .sum, .notEqual⟩
  | .symbol .less => some ⟨.comparison, .comparison, .sum, .less⟩
  | .symbol .lessEqual => some ⟨.comparison, .comparison, .sum, .lessEqual⟩
  | .symbol .greater => some ⟨.comparison, .comparison, .sum, .greater⟩
  | .symbol .greaterEqual => some ⟨.comparison, .comparison, .sum, .greaterEqual⟩
  | .symbol .plus => some ⟨.sum, .sum, .product, .add⟩
  | .symbol .minus => some ⟨.sum, .sum, .product, .sub⟩
  | .symbol .star => some ⟨.product, .product, .unary, .mul⟩
  | .symbol .slash => some ⟨.product, .product, .unary, .div⟩
  | .symbol .slashSlash => some ⟨.product, .product, .unary, .floorDiv⟩
  | .symbol .percent => some ⟨.product, .product, .unary, .mod⟩
  | .symbol .starStar => some ⟨.power, .trailed, .unary, .pow⟩
  | _ => none

/-- Whether an expression can go on with such a token behind it. -/
def TokenKind.continuesExpr (kind : TokenKind) : Bool :=
  kind == .symbol .openParen || kind == .symbol .dot || (Production.ofKind? kind).isSome

/-- What a call denotes: a construction where the callee is the name of a class. -/
def Expr.called (classes : List String) (callee : Expr) (args : List Expr) (span : Span) : Expr :=
  match callee with
  | .name className _ =>
    if classes.contains className then .construct className args span
    else .call callee args span
  | _ => .call callee args span

namespace Expr

section

variable (classes : List String) (callee : Expr) (args : List Expr) (place : Span)

theorem called_cases :
    callee.called classes args place = .call callee args place ∨
      ∃ className span, callee = .name className span ∧ classes.contains className = true ∧
        callee.called classes args place = .construct className args place := by
  unfold called
  split
  · next className span =>
    split
    · next hclass => exact .inr ⟨className, span, rfl, hclass, rfl⟩
    · exact .inl rfl
  · exact .inl rfl

@[simp] theorem span_called : (callee.called classes args place).span = place := by
  rcases called_cases classes callee args place with h | ⟨className, span, -, -, h⟩ <;> rw [h] <;> rfl

theorem called_nil : callee.called [] args place = .call callee args place := by
  rcases called_cases [] callee args place with h | ⟨className, span, -, hclass, -⟩
  · exact h
  · cases hclass

end

/-- Only a bare name can be that of a class. -/
theorem called_of_ne_name {classes : List String} {callee : Expr} {args : List Expr} {place : Span}
    (h : ∀ className span, callee ≠ .name className span) :
    callee.called classes args place = .call callee args place := by
  cases callee with
  | name className span => exact absurd rfl (h className span)
  | _ => rfl

end Expr

/-- What tokens can spell: an expression of a layer, or the arguments of a call. -/
inductive Phrase where
  | expr (layer : Layer) (value : Expr)
  | args (values : List Expr)

/-- Which tokens spell a phrase, given the known classes. -/
inductive Derives (classes : List String) : Phrase → List Token → Prop
  | literal {token : Token} {value : Literal} (kind : token.kind = .literal value) :
    Derives classes (.expr .callable (.constant value token.span)) [token]
  | name {token : Token} {id : String} (kind : token.kind = .identifier id) :
    Derives classes (.expr .callable (.name id token.span)) [token]
  /-- Parentheses denote what stands between them. -/
  | group {start stop : Token} {e : Expr} {tokens : List Token}
    (startKind : start.kind = .symbol .openParen) (stopKind : stop.kind = .symbol .closeParen)
    (inner : Derives classes (.expr .or e) tokens) :
    Derives classes (.expr .callable e) (start :: (tokens ++ [stop]))
  | call {start stop : Token} {callee : Expr} {args : List Expr} {tokens argTokens : List Token}
    (startKind : start.kind = .symbol .openParen) (stopKind : stop.kind = .symbol .closeParen)
    (function : Derives classes (.expr .callable callee) tokens)
    (actual : Derives classes (.args args) argTokens) :
    Derives classes (.expr .callable
      (callee.called classes args (callee.span.through stop.span)))
      (tokens ++ start :: (argTokens ++ [stop]))
  | methodCall {dot word start stop : Token} {method : String} {receiver : Expr}
    {args : List Expr} {tokens argTokens : List Token}
    (dotKind : dot.kind = .symbol .dot) (wordKind : word.kind = .identifier method)
    (startKind : start.kind = .symbol .openParen) (stopKind : stop.kind = .symbol .closeParen)
    (object : Derives classes (.expr .trailed receiver) tokens)
    (actual : Derives classes (.args args) argTokens) :
    Derives classes (.expr .callable
      (.methodCall receiver method args (receiver.span.through stop.span)))
      (tokens ++ dot :: word :: start :: (argTokens ++ [stop]))
  | member {dot word : Token} {attr : String} {receiver : Expr} {tokens : List Token}
    (dotKind : dot.kind = .symbol .dot) (wordKind : word.kind = .identifier attr)
    (object : Derives classes (.expr .trailed receiver) tokens) :
    Derives classes (.expr .trailed (.member receiver attr (receiver.span.through word.span)))
      (tokens ++ [dot, word])
  | neg {sign : Token} {e : Expr} {tokens : List Token} (signKind : sign.kind = .symbol .minus)
    (operand : Derives classes (.expr .unary e) tokens) :
    Derives classes (.expr .unary (.unary .neg e (sign.span.through e.span))) (sign :: tokens)
  /-- A plus sign denotes what stands behind it. -/
  | plus {sign : Token} {e : Expr} {tokens : List Token} (signKind : sign.kind = .symbol .plus)
    (operand : Derives classes (.expr .unary e) tokens) :
    Derives classes (.expr .unary e) (sign :: tokens)
  | not {word : Token} {e : Expr} {tokens : List Token} (wordKind : word.kind = .keyword .not)
    (operand : Derives classes (.expr .not e) tokens) :
    Derives classes (.expr .not (.unary .not e (word.span.through e.span))) (word :: tokens)
  | join {sign : Token} {rule : Production} {left right : Expr}
    {leftTokens rightTokens : List Token} (signKind : Production.ofKind? sign.kind = some rule)
    (first : Derives classes (.expr rule.left left) leftTokens)
    (second : Derives classes (.expr rule.right right) rightTokens) :
    Derives classes (.expr rule.result
      (.binary rule.op left right (left.span.through right.span)))
      (leftTokens ++ sign :: rightTokens)
  /-- A layer contains the one inside it. -/
  | widen {outer inner : Layer} {e : Expr} {tokens : List Token}
    (step : outer.inner? = some inner) (same : Derives classes (.expr inner e) tokens) :
    Derives classes (.expr outer e) tokens
  | noArgs : Derives classes (.args []) []
  | lastArg {e : Expr} {tokens : List Token} (arg : Derives classes (.expr .or e) tokens) :
    Derives classes (.args [e]) tokens
  /-- A comma may also follow the last argument. -/
  | moreArgs {comma : Token} {e : Expr} {others : List Expr} {tokens otherTokens : List Token}
    (commaKind : comma.kind = .symbol .comma) (arg : Derives classes (.expr .or e) tokens)
    (rest : Derives classes (.args others) otherTokens) :
    Derives classes (.args (e :: others)) (tokens ++ comma :: otherTokens)

namespace Layer

/-- How deep inside a layer lies. -/
def level : Layer → Nat
  | or => 1
  | and => 2
  | not => 3
  | comparison => 4
  | sum => 5
  | product => 6
  | unary => 7
  | power => 8
  | trailed => 9
  | callable => 10

theorem level_of_inner? {outer inner : Layer} (h : outer.inner? = some inner) :
    inner.level = outer.level + 1 := by
  cases outer <;> cases h <;> rfl

theorem level_injective {first second : Layer} (h : first.level = second.level) :
    first = second := by
  cases first <;> cases second <;> first | rfl | cases h

theorem exists_inner?_of_level_lt {outer inner : Layer} (h : outer.level < inner.level) :
    ∃ next, outer.inner? = some next ∧ next.level ≤ inner.level := by
  cases outer <;> first | exact ⟨_, rfl, h⟩ | (cases inner <;> simp [level] at h)

end Layer

namespace Derives

variable {classes : List String}

/-- An expression of a layer belongs to every layer around it. -/
theorem widen_of_le {outer inner : Layer} (h : outer.level ≤ inner.level) {e : Expr}
    {tokens : List Token} (hinner : Derives classes (.expr inner e) tokens) :
    Derives classes (.expr outer e) tokens := by
  obtain ⟨gap, hgap⟩ := Nat.exists_eq_add_of_le h
  induction gap generalizing outer with
  | zero => exact Layer.level_injective hgap ▸ hinner
  | succ gap ih =>
    have hlt : outer.level < inner.level := by omega
    obtain ⟨next, hnext, hle⟩ := Layer.exists_inner?_of_level_lt hlt
    exact .widen hnext (ih hle (by rw [Layer.level_of_inner? hnext]; omega))

end Derives

end Offside
