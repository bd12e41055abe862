/-
The expression parser one step at a time: what a first operand is made of, what can be wrapped
around it, and how a level of nesting is spent.
-/
import Offside.Proofs.Grammar.Extension

namespace Offside

namespace Parser

variable {c c' : Cursor} {level : Nat} {deeper : Nat → Parser Expr}

/-! ### Operands -/

theorem operand_literal {value : Literal} (h : c.kind = .literal value) :
    operand deeper level c = .ok (.constant value c.span) c.next := by
  simp only [operand, get_bind, h]
  rfl

theorem operand_name {id : String} (h : c.kind = .identifier id) :
    operand deeper level c = .ok (.name id c.span) c.next := by
  simp only [operand, get_bind, h]
  rfl

/-- Parentheses leave no trace in the tree; their inside is read from the lowest binding on. -/
theorem operand_group (h : c.kind = .symbol .openParen) :
    operand deeper level c = (do
      let inner ← deeper Binding.lowest
      let _ ← expect (.symbol .closeParen) "')'"
      pure inner : Parser Expr) c.next := by
  simp only [operand, get_bind, h]
  rfl

/-- A minus takes what binds at least as tightly as itself, and its span begins at the sign. -/
theorem operand_minus (h : c.kind = .symbol .minus) :
    operand deeper level c = (do
      let inner ← deeper Binding.unary
      pure (.unary .neg inner (c.span.through inner.span)) : Parser Expr) c.next := by
  simp only [operand, get_bind, h]
  rfl

/-- A plus in front is dropped, with its span. -/
theorem operand_plus (h : c.kind = .symbol .plus) :
    operand deeper level c = deeper Binding.unary c.next := by
  simp only [operand, get_bind, h]
  rfl

/-- Only where its own level is still read does a `not` begin an operand. -/
theorem operand_not (h : c.kind = .keyword .not) (hlevel : level ≤ Binding.not) :
    operand deeper level c = (do
      let inner ← deeper Binding.not
      pure (.unary .not inner (c.span.through inner.span)) : Parser Expr) c.next := by
  simp only [operand, get_bind, h, hlevel, if_true]
  rfl

/-- What a first operand is made of. -/
inductive OperandRead (deeper : Nat → Parser Expr) (level : Nat) (c : Cursor) :
    Expr → Cursor → Prop
  | literal {token : Token} {rest : List Token} {value : Literal} (hrest : c.rest = token :: rest)
    (hkind : token.kind = .literal value) :
    OperandRead deeper level c (.constant value token.span) c.next
  | name {token : Token} {rest : List Token} {id : String} (hrest : c.rest = token :: rest)
    (hkind : token.kind = .identifier id) :
    OperandRead deeper level c (.name id token.span) c.next
  | group {start stop : Token} {rest after : List Token} {e : Expr} {mid : Cursor}
    (hrest : c.rest = start :: rest) (hstart : start.kind = .symbol .openParen)
    (hinner : deeper Binding.lowest c.next = .ok e mid) (hafter : mid.rest = stop :: after)
    (hstop : stop.kind = .symbol .closeParen) :
    OperandRead deeper level c e mid.next
  | neg {sign : Token} {rest : List Token} {e : Expr} {mid : Cursor}
    (hrest : c.rest = sign :: rest) (hsign : sign.kind = .symbol .minus)
    (hinner : deeper Binding.unary c.next = .ok e mid) :
    OperandRead deeper level c (.unary .neg e (sign.span.through e.span)) mid
  | plus {sign : Token} {rest : List Token} {e : Expr} {mid : Cursor}
    (hrest : c.rest = sign :: rest) (hsign : sign.kind = .symbol .plus)
    (hinner : deeper Binding.unary c.next = .ok e mid) :
    OperandRead deeper level c e mid
  | not {word : Token} {rest : List Token} {e : Expr} {mid : Cursor}
    (hrest : c.rest = word :: rest) (hword : word.kind = .keyword .not)
    (hlevel : level ≤ Binding.not) (hinner : deeper Binding.not c.next = .ok e mid) :
    OperandRead deeper level c (.unary .not e (word.span.through e.span)) mid

/-- A first operand is one of these six, and no other token begins one. -/
theorem operand_ok {e : Expr} (h : operand deeper level c = .ok e c') :
    OperandRead deeper level c e c' := by
  cases hkind : c.kind with
  | literal value =>
    obtain ⟨token, rest, hrest, htoken⟩ := Cursor.exists_token hkind (by simp)
    rw [operand_literal hkind, Cursor.span_of_rest hrest] at h
    cases h
    exact .literal hrest htoken
  | identifier id =>
    obtain ⟨token, rest, hrest, htoken⟩ := Cursor.exists_token hkind (by simp)
    rw [operand_name hkind, Cursor.span_of_rest hrest] at h
    cases h
    exact .name hrest htoken
  | symbol sign =>
    obtain ⟨token, rest, hrest, htoken⟩ := Cursor.exists_token hkind (by simp)
    cases sign with
    | openParen =>
      rw [operand_group hkind] at h
      obtain ⟨inner, mid, hinner, h⟩ := exists_of_bind_ok h
      obtain ⟨stop, last, hstop, h⟩ := exists_of_bind_ok h
      cases h
      obtain ⟨after, hafter, hclose, rfl⟩ := expect_ok hstop
      exact .group hrest htoken hinner hafter ((TokenKind.isA_symbol _ _).mp hclose)
    | minus =>
      rw [operand_minus hkind, Cursor.span_of_rest hrest] at h
      obtain ⟨inner, mid, hinner, h⟩ := exists_of_bind_ok h
      cases h
      exact .neg hrest htoken hinner
    | plus =>
      rw [operand_plus hkind] at h
      exact .plus hrest htoken h
    | _ =>
      simp only [operand, get_bind, hkind] at h
      cases h
  | keyword word =>
    obtain ⟨token, rest, hrest, htoken⟩ := Cursor.exists_token hkind (by simp)
    cases word with
    | not =>
      rcases Nat.lt_or_ge Binding.not level with hlevel | hlevel
      · simp only [operand, get_bind, hkind, Nat.not_le.mpr hlevel, if_false] at h
        cases h
      · rw [operand_not hkind hlevel, Cursor.span_of_rest hrest] at h
        obtain ⟨inner, mid, hinner, h⟩ := exists_of_bind_ok h
        cases h
        exact .not hrest htoken hlevel hinner
    | _ =>
      simp only [operand, get_bind, hkind] at h
      cases h
  | reserved word =>
    simp only [operand, get_bind, hkind] at h
    cases h
  | layout layout =>
    simp only [operand, get_bind, hkind] at h
    cases h

/-! ### Wrapping -/

variable {left : Expr}

/-- Whether a call is one or constructs something is decided behind its arguments. -/
theorem callOf_eq (c : Cursor) :
    callOf deeper left c = (do
      let args ← arguments deeper
      let after ← get
      pure (left.called after.classes args (left.span.through after.lastSpan)) : Parser Expr)
        c.next := by
  cases left with
  | name className span =>
    simp only [callOf, bump_bind, Expr.called, Cursor.isClass, apply_ite]
    rfl
  | _ => rfl

theorem memberOf_of_word {word : Token} {rest : List Token} {name : String}
    (hrest : c.next.rest = word :: rest) (hword : word.kind = .identifier name) :
    memberOf deeper left c = (do
      if ← skip (.symbol .openParen) then
        let args ← arguments deeper
        let after ← get
        pure (.methodCall left name args (left.span.through after.lastSpan))
      else pure (.member left name (left.span.through word.span)) : Parser Expr) c.next.next := by
  rw [memberOf, bump_bind, bind_ok (expectIdentifier_of_rest hrest hword _)]

/-- How something is wrapped around what has been read. -/
inductive ExtendRead (deeper : Nat → Parser Expr) (c : Cursor) (left : Expr) :
    Extension → Expr → Cursor → Prop
  | call {args : List Expr} {after : Cursor} (hargs : arguments deeper c.next = .ok args after) :
    ExtendRead deeper c left .call
      (left.called after.classes args (left.span.through after.lastSpan)) after
  | member {word : Token} {rest : List Token} {name : String} (hrest : c.next.rest = word :: rest)
    (hword : word.kind = .identifier name)
    (hopen : c.next.next.kind ≠ .symbol .openParen) :
    ExtendRead deeper c left .member (.member left name (left.span.through word.span)) c.next.next
  | methodCall {word start : Token} {rest : List Token} {name : String} {args : List Expr}
    {after : Cursor} (hrest : c.next.rest = word :: start :: rest)
    (hword : word.kind = .identifier name) (hstart : start.kind = .symbol .openParen)
    (hargs : arguments deeper c.next.next.next = .ok args after) :
    ExtendRead deeper c left .member
      (.methodCall left name args (left.span.through after.lastSpan)) after
  | join {joining : Joining} {right : Expr} {after : Cursor}
    (hright : deeper joining.right c.next = .ok right after) :
    ExtendRead deeper c left (.join joining)
      (.binary joining.op left right (left.span.through right.span)) after

/-- Whatever is wrapped around an operand is a call, an attribute, a method call or an operator. -/
theorem extend_ok {extension : Extension} {wrapped : Expr}
    (h : extend deeper left extension c = .ok wrapped c') :
    ExtendRead deeper c left extension wrapped c' := by
  cases extension with
  | call =>
    rw [extend, callOf_eq] at h
    obtain ⟨args, after, hargs, h⟩ := exists_of_bind_ok h
    cases h
    exact .call hargs
  | member =>
    rw [extend] at h
    obtain ⟨_, bumped, hbump, hname⟩ := exists_of_bind_ok h
    cases hbump
    obtain ⟨⟨name, span⟩, mid, hname, -⟩ := exists_of_bind_ok hname
    obtain ⟨word, rest, hrest, hword, rfl, rfl⟩ := expectIdentifier_ok hname
    rw [memberOf_of_word hrest hword] at h
    cases hopen : c.next.next.isAt (.symbol .openParen) with
    | false =>
      rw [bind_ok (skip_of_not_isAt hopen)] at h
      cases h
      refine .member hrest hword fun hkind => ?_
      rw [Cursor.isAt, (TokenKind.isA_symbol _ _).mpr hkind] at hopen
      cases hopen
    | true =>
      rw [bind_ok (skip_of_isAt hopen)] at h
      obtain ⟨start, others, hothers, hstart⟩ := Cursor.exists_token
        ((TokenKind.isA_symbol _ _).mp hopen) (by simp)
      rw [Cursor.rest_next hrest] at hothers
      subst hothers
      obtain ⟨args, after, hargs, h⟩ := exists_of_bind_ok h
      cases h
      exact .methodCall hrest hword hstart hargs
  | join joining =>
    rw [extend, joinOf, bump_bind] at h
    obtain ⟨right, after, hright, h⟩ := exists_of_bind_ok h
    cases h
    exact .join hright

/-! ### Nesting -/

variable {budget : Nat}

/-- An expression takes one level for itself and gives it back. -/
theorem exprAt_succ (h : c.depth < c.maxDepth) :
    exprAt (budget + 1) level c = atDepth c.depth ((do
      let left ← operand (exprAt budget) level
      extendAt budget level left : Parser Expr) { c with depth := c.depth + 1 }) := by
  rw [exprAt]
  exact nested_of_lt h

/-- An answer shows that there was a level left, what the operand was and how it was extended. -/
theorem exprAt_ok {e : Expr} (h : exprAt budget level c = .ok e c') :
    ∃ left mid last fewer, budget = fewer + 1 ∧ c.depth < c.maxDepth ∧
      operand (exprAt fewer) level { c with depth := c.depth + 1 } = .ok left mid ∧
      extendAt fewer level left mid = .ok e last ∧ c' = { last with depth := c.depth } := by
  cases budget with
  | zero =>
    rw [exprAt] at h
    obtain ⟨-, mid, hmid, -⟩ := nested_ok h
    cases hmid
  | succ fewer =>
    rw [exprAt] at h
    obtain ⟨hlt, last, hlast, rfl⟩ := nested_ok h
    obtain ⟨left, mid, hleft, hextend⟩ := exists_of_bind_ok hlast
    exact ⟨left, mid, last, fewer, rfl, hlt, hleft, hextend, rfl⟩

/-- Where nothing can be wrapped around an operand, it stays as it is. -/
theorem extendAt_of_none (h : extension? level c.kind = none) :
    extendAt budget level left c = .ok left c := by
  cases budget with
  | zero =>
    rw [extendAt, get_bind]
    simp only [h]
    rfl
  | succ budget => simp only [extendAt, h]

theorem extendAt_zero_of_some {extension : Extension}
    (h : extension? level c.kind = some extension) :
    extendAt 0 level left c = (tooDeep : Parser Expr) c := by
  rw [extendAt, get_bind]
  simp only [h]

/-- Every wrapping takes a level more, and keeps it to the end of the expression. -/
theorem extendAt_succ_of_some {extension : Extension}
    (h : extension? level c.kind = some extension) (hlt : c.depth < c.maxDepth) :
    extendAt (budget + 1) level left c = (do
      let wrapped ← extend (exprAt budget) left extension
      extendAt budget level wrapped : Parser Expr) { c with depth := c.depth + 1 } := by
  simp only [extendAt, h]
  exact bind_ok (enterNesting_of_lt hlt)

/-- An operand is handed on, or wrapped once on a deeper level and then extended from there. -/
theorem extendAt_ok {e : Expr} (h : extendAt budget level left c = .ok e c') :
    (extension? level c.kind = none ∧ e = left ∧ c' = c) ∨
    ∃ extension wrapped mid fewer, budget = fewer + 1 ∧
      extension? level c.kind = some extension ∧ c.depth < c.maxDepth ∧
      extend (exprAt fewer) left extension { c with depth := c.depth + 1 } = .ok wrapped mid ∧
      extendAt fewer level wrapped mid = .ok e c' := by
  cases hkind : extension? level c.kind with
  | none =>
    rw [extendAt_of_none hkind] at h
    cases h
    exact .inl ⟨rfl, rfl, rfl⟩
  | some extension =>
    right
    cases budget with
    | zero =>
      rw [extendAt, get_bind] at h
      simp only [hkind] at h
      cases h
    | succ fewer =>
      simp only [extendAt, hkind] at h
      obtain ⟨_, entered, henter, h⟩ := exists_of_bind_ok h
      obtain ⟨hlt, rfl⟩ := enterNesting_ok henter
      obtain ⟨wrapped, mid, hwrapped, h⟩ := exists_of_bind_ok h
      exact ⟨extension, wrapped, mid, fewer, rfl, rfl, hlt, hwrapped, h⟩

end Parser

end Offside
