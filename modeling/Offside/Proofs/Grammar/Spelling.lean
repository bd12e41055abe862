/-
Expressions from their own text: tokens of the kinds that are written for an expression are read as
this expression, with other places, and take the levels of nesting that it takes.
-/
import Offside.Proofs.Grammar.Completeness
import Offside.Proofs.Program.Layout
import Offside.Proofs.Program.Levels

namespace Offside

/-! ### What the bare form keeps -/

namespace Expr

theorem isClassName_bare (classes : List String) (e : Expr) :
    e.bare.isClassName classes = e.isClassName classes := by
  cases e <;> rfl

theorem isAssignable_bare (e : Expr) : e.bare.isAssignable = e.isAssignable := by
  cases e <;> rfl

/-- What is no name of a class is called, not constructed. -/
theorem called_of_not_isClassName {classes : List String} {callee : Expr}
    (h : callee.isClassName classes = false) (args : List Expr) (span : Span) :
    callee.called classes args span = .call callee args span := by
  cases callee with
  | name id place => exact if_neg (Bool.eq_false_iff.mp h)
  | _ => rfl

end Expr

theorem Layer.or_level_le (layer : Layer) : Layer.or.level ≤ layer.level := by
  cases layer <;> decide

/-! ### Reading -/

namespace Parser

variable {classes : List String} {tokens : List Token} {e : Expr}

/-- Tokens of grouped kinds are a pair of parentheses around tokens of these kinds. -/
theorem exists_of_map_grouped {kinds : List TokenKind} (h : tokens.map Token.kind = grouped kinds) :
    ∃ start inner stop, tokens = start :: (inner ++ [stop]) ∧ start.kind = .symbol .openParen ∧
      stop.kind = .symbol .closeParen ∧ inner.map Token.kind = kinds := by
  obtain ⟨start, rest, rfl, hstart, hrest⟩ := List.map_eq_cons_iff.mp h
  obtain ⟨inner, last, rfl, hinner, hlast⟩ := List.map_eq_append_iff.mp hrest
  obtain ⟨stop, others, rfl, hstop, hothers⟩ := List.map_eq_cons_iff.mp hlast
  obtain rfl := List.map_eq_nil_iff.mp hothers
  exact ⟨start, inner, stop, rfl, hstart, hstop, hinner⟩

/-- Tokens of the kinds of an expression are read as it is, but for its places. -/
def ReadsKinds (classes : List String) (e : Expr) : Prop :=
  ∀ ⦃tokens : List Token⦄, tokens.map Token.kind = e.kinds →
    ∃ found : Expr, found.bare = e.bare ∧
      ReadsBack classes e.layer found tokens e.levels e.spine

theorem ReadsKinds.whole (h : ReadsKinds classes e) (htokens : tokens.map Token.kind = e.kinds) :
    ∃ found : Expr, found.bare = e.bare ∧
      ReadsBack classes .or found tokens e.levels e.spine := by
  obtain ⟨found, hbare, hback⟩ := h htokens
  exact ⟨found, hbare, hback.widen_of_le (Layer.or_level_le _)⟩

/-- An operand is read where its operator asks for it: as it is where it binds tightly enough, and
between parentheses elsewhere. -/
theorem ReadsKinds.enclosed (h : ReadsKinds classes e) {outer : Layer}
    (htokens : tokens.map Token.kind = outer.enclose e.layer e.kinds) :
    ∃ found : Expr, found.bare = e.bare ∧
      ReadsBack classes outer found tokens (outer.deepen e.layer e.levels)
        (outer.held e.layer e.spine) := by
  unfold Layer.enclose at htokens
  unfold Layer.deepen Layer.held
  split at htokens
  case isTrue hle =>
    obtain ⟨found, hbare, hback⟩ := h htokens
    rw [if_pos hle, if_pos hle]
    exact ⟨found, hbare, hback.widen_of_le hle⟩
  case isFalse hle =>
    obtain ⟨start, inner, stop, rfl, hstart, hstop, hinner⟩ := exists_of_map_grouped htokens
    obtain ⟨found, hbare, hback⟩ := h.whole hinner
    have hcallable : outer.level ≤ Layer.callable.level := by cases outer <;> decide
    rw [if_neg hle, if_neg hle]
    exact ⟨found, hbare,
      (readsBack_group hstart hstop hback).widen_of_le hcallable⟩

theorem ReadsKinds.startsArg (htokens : tokens.map Token.kind = e.kinds) : StartsArg tokens := by
  obtain ⟨kind, others, hcons, hkind⟩ := e.exists_first_kind
  obtain ⟨first, rest, rfl, rfl, -⟩ := List.map_eq_cons_iff.mp (htokens.trans hcons)
  refine ⟨first, rest, rfl, fun hclose => ?_⟩
  rw [hclose] at hkind
  cases hkind

/-- Arguments are read one after the other, each behind the comma of the one before. -/
theorem readsArgsBack_separated {args : List Expr} (h : ∀ arg ∈ args, ReadsKinds classes arg)
    (htokens : tokens.map Token.kind = separated (args.map Expr.kinds)) :
    ∃ found : List Expr, found.map Expr.bare = args.map Expr.bare ∧
      ReadsArgsBack classes found tokens (Expr.levelsAll args) := by
  induction args generalizing tokens with
  | nil =>
    obtain rfl := List.map_eq_nil_iff.mp htokens
    exact ⟨[], rfl, readsArgsBack_nil⟩
  | cons arg others ih =>
    obtain ⟨harg, hothers⟩ := List.forall_mem_cons.mp h
    cases others with
    | nil =>
      obtain ⟨found, hbare, hback⟩ := harg.whole htokens
      refine ⟨[found], by simp [hbare], ?_⟩
      rw [Expr.levelsAll, Expr.levelsAll, Nat.max_zero]
      exact readsArgsBack_last (ReadsKinds.startsArg htokens) hback
    | cons next others =>
      obtain ⟨first, rest, rfl, hfirst, hrest⟩ := List.map_eq_append_iff.mp htokens
      obtain ⟨comma, behind, rfl, hcomma, hbehind⟩ := List.map_eq_cons_iff.mp hrest
      obtain ⟨found, hbare, hback⟩ := harg.whole hfirst
      obtain ⟨more, hmore, hargs⟩ := ih hothers hbehind
      exact ⟨found :: more, by rw [List.map_cons, List.map_cons, hbare, hmore],
        readsArgsBack_more hcomma (ReadsKinds.startsArg hfirst) hback hargs⟩

/-- By induction on the expression: whatever can be written is read from its own tokens, in the
layer that these are written for. -/
theorem readsKinds_of_isWritable [IdentifierTables] (h : e.isWritable classes = true) :
    ReadsKinds classes e := by
  have hargs {args : List Expr} (hall : Expr.isWritableAll classes args = true)
      (ih : ∀ arg ∈ args, arg.isWritable classes = true → ReadsKinds classes arg) :
      ∀ arg ∈ args, ReadsKinds classes arg := by
    rw [Expr.isWritableAll_eq_all, List.all_eq_true] at hall
    exact fun arg harg => ih arg harg (hall arg harg)
  induction e using Expr.induction with
  | constant value span =>
    intro tokens htokens
    obtain ⟨token, rest, rfl, hkind, hrest⟩ := List.map_eq_cons_iff.mp htokens
    obtain rfl := List.map_eq_nil_iff.mp hrest
    exact ⟨.constant value token.span, rfl, readsBack_literal hkind⟩
  | name id span =>
    intro tokens htokens
    obtain ⟨token, rest, rfl, hkind, hrest⟩ := List.map_eq_cons_iff.mp htokens
    obtain rfl := List.map_eq_nil_iff.mp hrest
    exact ⟨.name id token.span, rfl, readsBack_name hkind⟩
  | binary op left right span ihLeft ihRight =>
    obtain ⟨hleft, hright⟩ := Bool.and_eq_true_iff.mp h
    intro tokens htokens
    obtain ⟨first, rest, rfl, hfirst, hrest⟩ := List.map_eq_append_iff.mp htokens
    obtain ⟨sign, second, rfl, hsign, hsecond⟩ := List.map_eq_cons_iff.mp hrest
    obtain ⟨newLeft, hbareLeft, hbackLeft⟩ := (ihLeft hleft).enclosed hfirst
    obtain ⟨newRight, hbareRight, hbackRight⟩ := (ihRight hright).enclosed hsecond
    have hrule : Production.ofKind? sign.kind = some op.rule := by rw [hsign, op.ofKind?_kind]
    refine ⟨_, ?_, readsBack_join hrule hbackLeft hbackRight⟩
    rw [Expr.bare, Expr.bare, hbareLeft, hbareRight, op.op_rule]
  | unary op operand span ih =>
    intro tokens htokens
    cases op with
    | neg =>
      obtain ⟨sign, rest, rfl, hsign, hrest⟩ := List.map_eq_cons_iff.mp htokens
      obtain ⟨found, hbare, hback⟩ := (ih h).enclosed hrest
      exact ⟨_, by rw [Expr.bare, Expr.bare, hbare], readsBack_neg hsign hback⟩
    | not =>
      obtain ⟨word, rest, rfl, hword, hrest⟩ := List.map_eq_cons_iff.mp htokens
      obtain ⟨found, hbare, hback⟩ := (ih h).enclosed hrest
      exact ⟨_, by rw [Expr.bare, Expr.bare, hbare], readsBack_not hword hback⟩
  | call callee args span ihCallee ihArgs =>
    simp only [Expr.isWritable, Bool.and_eq_true, Bool.not_eq_true'] at h
    obtain ⟨⟨hplain, hcallee⟩, hall⟩ := h
    intro tokens htokens
    rw [Expr.kinds, Expr.kindsAll_eq_map] at htokens
    obtain ⟨first, rest, rfl, hfirst, hrest⟩ := List.map_eq_append_iff.mp htokens
    obtain ⟨start, inner, stop, rfl, hstart, hstop, hinner⟩ := exists_of_map_grouped hrest
    obtain ⟨newCallee, hbareCallee, hbackCallee⟩ := (ihCallee hcallee).enclosed hfirst
    obtain ⟨newArgs, hbareArgs, hbackArgs⟩ := readsArgsBack_separated (hargs hall ihArgs) hinner
    have hcall := readsBack_call hstart hstop hbackCallee hbackArgs
    rw [← Expr.isClassName_bare, ← hbareCallee, Expr.isClassName_bare] at hplain
    rw [Expr.called_of_not_isClassName hplain] at hcall
    refine ⟨_, ?_, hcall⟩
    simp only [Expr.bare, Expr.bareAll_eq_map, hbareCallee, hbareArgs]
  | methodCall receiver method args span ihReceiver ihArgs =>
    simp only [Expr.isWritable, Bool.and_eq_true] at h
    obtain ⟨⟨hreceiver, -⟩, hall⟩ := h
    intro tokens htokens
    rw [Expr.kinds, Expr.kindsAll_eq_map] at htokens
    obtain ⟨first, rest, rfl, hfirst, hrest⟩ := List.map_eq_append_iff.mp htokens
    obtain ⟨dot, behind, rfl, hdot, hbehind⟩ := List.map_eq_cons_iff.mp hrest
    obtain ⟨word, last, rfl, hword, hlast⟩ := List.map_eq_cons_iff.mp hbehind
    obtain ⟨start, inner, stop, rfl, hstart, hstop, hinner⟩ := exists_of_map_grouped hlast
    obtain ⟨object, hbareObject, hbackObject⟩ := (ihReceiver hreceiver).enclosed hfirst
    obtain ⟨newArgs, hbareArgs, hbackArgs⟩ := readsArgsBack_separated (hargs hall ihArgs) hinner
    refine ⟨_, ?_, readsBack_methodCall hdot hword hstart hstop hbackObject hbackArgs⟩
    simp only [Expr.bare, Expr.bareAll_eq_map, hbareObject, hbareArgs]
  | construct className args span ihArgs =>
    simp only [Expr.isWritable, Bool.and_eq_true] at h
    obtain ⟨⟨-, hclass⟩, hall⟩ := h
    intro tokens htokens
    rw [Expr.kinds, Expr.kindsAll_eq_map] at htokens
    obtain ⟨word, rest, rfl, hword, hrest⟩ := List.map_eq_cons_iff.mp htokens
    obtain ⟨start, inner, stop, rfl, hstart, hstop, hinner⟩ := exists_of_map_grouped hrest
    obtain ⟨newArgs, hbareArgs, hbackArgs⟩ := readsArgsBack_separated (hargs hall ihArgs) hinner
    have hcall := readsBack_call hstart hstop (readsBack_name hword) hbackArgs
    rw [Expr.called, if_pos hclass, Nat.zero_max, Nat.zero_add] at hcall
    refine ⟨_, ?_, hcall⟩
    simp only [Expr.bare, Expr.bareAll_eq_map, hbareArgs]
  | member receiver attr span ih =>
    obtain ⟨hreceiver, -⟩ := Bool.and_eq_true_iff.mp h
    intro tokens htokens
    obtain ⟨first, rest, rfl, hfirst, hrest⟩ := List.map_eq_append_iff.mp htokens
    obtain ⟨dot, behind, rfl, hdot, hbehind⟩ := List.map_eq_cons_iff.mp hrest
    obtain ⟨word, last, rfl, hword, hlast⟩ := List.map_eq_cons_iff.mp hbehind
    obtain rfl := List.map_eq_nil_iff.mp hlast
    obtain ⟨object, hbare, hback⟩ := (ih hreceiver).enclosed hfirst
    exact ⟨_, by rw [Expr.bare, Expr.bare, hbare], readsBack_member hdot hword hback⟩

end Parser

end Offside
