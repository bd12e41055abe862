/-
Binding levels against layers: which tokens make the parser go on behind an expression, and which
of them take all of it as their left operand.
-/
import Offside.Proofs.Grammar.Derivation
import Offside.Proofs.Grammar.Reading

namespace Offside

namespace Production

/-- How an operator binds in the layer that its rule makes. -/
def joining (rule : Production) : Joining := ⟨rule.result.level, rule.right.level, rule.op⟩

theorem joining_ofKind? (kind : TokenKind) :
    Joining.ofKind? kind = (ofKind? kind).map joining := by
  cases kind with
  | keyword word => cases word <;> rfl
  | symbol sign => cases sign <;> rfl
  | _ => rfl

/-- Operators group to the left, except for the power operator. -/
theorem levels_of_ofKind? {kind : TokenKind} {rule : Production} (h : ofKind? kind = some rule) :
    (rule.left.level = rule.result.level ∧ rule.right.level = rule.result.level + 1 ∧
      1 ≤ rule.result.level ∧ rule.result.level ≤ 6 ∧ rule.result.level ≠ 3) ∨
    (rule.left.level = 9 ∧ rule.right.level = 7 ∧ rule.result.level = 8) := by
  unfold ofKind? at h
  split at h <;> cases h <;> decide

end Production

namespace Parser

theorem extension?_eq_none_iff {level : Nat} {kind : TokenKind} :
    extension? level kind = none ↔
      kind ≠ .symbol .openParen ∧ kind ≠ .symbol .dot ∧
        ∀ rule, Production.ofKind? kind = some rule → rule.result.level < level := by
  unfold extension?
  split
  case h_1 => simp
  case h_2 => simp
  case h_3 hcall hmember =>
    rw [Production.joining_ofKind?]
    cases hrule : Production.ofKind? kind with
    | none => simpa using ⟨hcall, hmember⟩
    | some rule =>
      have hkinds : kind ≠ .symbol .openParen ∧ kind ≠ .symbol .dot := ⟨hcall, hmember⟩
      simp [Production.joining, hkinds]

/-- The three ways of going on. -/
theorem extension?_eq_some {level : Nat} {kind : TokenKind} {extension : Extension}
    (h : extension? level kind = some extension) :
    (kind = .symbol .openParen ∧ extension = .call) ∨
    (kind = .symbol .dot ∧ extension = .member) ∨
    ∃ rule, Production.ofKind? kind = some rule ∧ level ≤ rule.result.level ∧
      extension = .join rule.joining := by
  unfold extension? at h
  split at h
  case h_1 => exact .inl ⟨rfl, by cases h; rfl⟩
  case h_2 => exact .inr (.inl ⟨rfl, by cases h; rfl⟩)
  case h_3 =>
    rw [Production.joining_ofKind?] at h
    cases hrule : Production.ofKind? kind with
    | none => rw [hrule] at h; cases h
    | some rule =>
      rw [hrule] at h
      simp only [Option.map_some] at h
      split at h
      case isTrue => cases h
      case isFalse hlevel =>
        cases h
        exact .inr (.inr ⟨rule, rfl, Nat.le_of_not_lt hlevel, rfl⟩)

theorem extension?_of_rule {level : Nat} {kind : TokenKind} {rule : Production}
    (h : Production.ofKind? kind = some rule) (hlevel : level ≤ rule.result.level) :
    extension? level kind = some (.join rule.joining) := by
  unfold extension?
  split
  case h_1 => cases h
  case h_2 => cases h
  case h_3 =>
    rw [Production.joining_ofKind?, h]
    simp [Production.joining, Nat.not_lt.mpr hlevel]

theorem extension?_lowest_eq_none_iff {kind : TokenKind} :
    extension? Binding.lowest kind = none ↔ kind.continuesExpr = false := by
  rw [extension?_eq_none_iff]
  simp [TokenKind.continuesExpr, Binding.lowest, Option.eq_none_iff_forall_ne_some, and_assoc]

end Parser

namespace Layer

/-- Behind an expression of the layer such a token leaves the expression as it is: it takes all
of it as callee, receiver or left operand, or ends it. -/
structure Closes (layer : Layer) (kind : TokenKind) : Prop where
  call : kind = .symbol .openParen → layer = callable
  member : kind = .symbol .dot → trailed.level ≤ layer.level
  join : ∀ rule, Production.ofKind? kind = some rule → rule.left.level ≤ layer.level

theorem Closes.callable (kind : TokenKind) : Layer.callable.Closes kind where
  call _ := rfl
  member _ := by decide
  join rule h := by
    have := Production.levels_of_ofKind? h
    change rule.left.level ≤ 10
    omega

theorem Closes.mono {outer inner : Layer} {kind : TokenKind} (h : outer.Closes kind)
    (hle : outer.level ≤ inner.level) : inner.Closes kind where
  call hkind := by
    have hcallable := h.call hkind
    subst hcallable
    cases inner <;> first | rfl | (simp [level] at hle)
  member hkind := Nat.le_trans (h.member hkind) hle
  join rule hrule := Nat.le_trans (h.join rule hrule) hle

/-- Behind a bare attribute a parenthesis would change its meaning. -/
theorem trailed_closes_of_ne {kind : TokenKind} (h : kind ≠ .symbol .openParen) :
    Layer.trailed.Closes kind where
  call hkind := absurd hkind h
  member _ := Nat.le_refl _
  join rule hrule := by
    have := Production.levels_of_ofKind? hrule
    change rule.left.level ≤ 9
    omega

/-- An operator takes all of its left operand. -/
theorem closes_left {rule : Production} {sign : TokenKind}
    (h : Production.ofKind? sign = some rule) : rule.left.Closes sign where
  call hsign := by rw [hsign] at h; cases h
  member hsign := by rw [hsign] at h; cases h
  join other hother := by
    rw [h] at hother
    cases hother
    exact Nat.le_refl _

/-- A layer whose expressions end exactly where reading at a level stops. -/
theorem closes_iff {layer : Layer} {kind : TokenKind} {level : Nat}
    (hlayer : layer.level < trailed.level)
    (hlevel : ∀ rule, Production.ofKind? kind = some rule →
      (rule.left.level ≤ layer.level ↔ rule.result.level < level)) :
    layer.Closes kind ↔ Parser.extension? level kind = none := by
  rw [Parser.extension?_eq_none_iff]
  constructor
  · intro h
    refine ⟨?_, ?_, fun rule hrule => (hlevel rule hrule).mp (h.join rule hrule)⟩
    · intro hkind
      rw [h.call hkind] at hlayer
      exact absurd hlayer (by decide)
    · intro hkind
      exact absurd (h.member hkind) (Nat.not_le.mpr hlayer)
  · rintro ⟨hcall, hmember, hjoin⟩
    exact ⟨fun hkind => absurd hkind hcall, fun hkind => absurd hkind hmember,
      fun rule hrule => (hlevel rule hrule).mpr (hjoin rule hrule)⟩

/-- A layer is closed by what reading at its own level stops at. -/
theorem closes_of_extension?_eq_none {layer : Layer} {kind : TokenKind}
    (h : Parser.extension? layer.level kind = none) : layer.Closes kind := by
  obtain ⟨hcall, hmember, hjoin⟩ := Parser.extension?_eq_none_iff.mp h
  refine ⟨fun hkind => absurd hkind hcall, fun hkind => absurd hkind hmember, ?_⟩
  intro rule hrule
  have hlt := hjoin rule hrule
  have := Production.levels_of_ofKind? hrule
  omega

theorem closes_of_not_continuesExpr (layer : Layer) {kind : TokenKind}
    (h : kind.continuesExpr = false) : layer.Closes kind := by
  obtain ⟨hcall, hmember, hjoin⟩ := Parser.extension?_eq_none_iff.mp
    (Parser.extension?_lowest_eq_none_iff.mpr h)
  refine ⟨fun hkind => absurd hkind hcall, fun hkind => absurd hkind hmember, ?_⟩
  intro rule hrule
  exact absurd (hjoin rule hrule) (Nat.not_lt_zero _)

/-- Behind an operation the tokens that close it are those at which its right operand stops. -/
theorem closes_result_iff {rule : Production} {sign kind : TokenKind}
    (h : Production.ofKind? sign = some rule) :
    rule.result.Closes kind ↔ Parser.extension? rule.right.level kind = none := by
  have hrule := Production.levels_of_ofKind? h
  apply closes_iff
  · change rule.result.level < 9
    omega
  · intro other hother
    have := Production.levels_of_ofKind? hother
    omega

theorem closes_not_iff {kind : TokenKind} :
    Layer.not.Closes kind ↔ Parser.extension? Binding.not kind = none := by
  apply closes_iff (by decide)
  intro rule h
  have := Production.levels_of_ofKind? h
  change rule.left.level ≤ 3 ↔ rule.result.level < 3
  omega

theorem closes_unary_iff {kind : TokenKind} :
    Layer.unary.Closes kind ↔ Parser.extension? Binding.unary kind = none := by
  apply closes_iff (by decide)
  intro rule h
  have := Production.levels_of_ofKind? h
  change rule.left.level ≤ 7 ↔ rule.result.level < 7
  omega

end Layer

end Offside
