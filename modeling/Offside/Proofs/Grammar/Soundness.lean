/-
What the expression parser accepts is in the grammar: the tokens it has read spell the expression
it answers with, and it stops only where no token goes on.
-/
import Offside.Proofs.Grammar.Steps

namespace Offside

namespace Parser

variable {c c' : Cursor} {level : Nat} {deeper : Nat → Parser Expr}

/-- At every level the parser reads an expression of each layer that the level admits, and stops
before a token that does not go on at that level. -/
def ReadsExprs (deeper : Nat → Parser Expr) : Prop :=
  ∀ (layer : Layer) ⦃level : Nat⦄ ⦃c : Cursor⦄ ⦃e : Expr⦄ ⦃c' : Cursor⦄,
    layer.level ≤ min Binding.unary (max level 1) → deeper level c = .ok e c' →
    ∃ read, c.Reads read c' ∧ c'.depth = c.depth ∧
      Derives c.classes (.expr layer e) read ∧ extension? level c'.kind = none

theorem itemsAfter_reads (hdeeper : ReadsExprs deeper) {count : Nat} {before found : List Expr}
    (h : itemsAfter (fun _ => deeper Binding.lowest) count before c = .ok found c') :
    ∃ args read, found = before.reverse ++ args ∧ c.Reads read c' ∧ c'.depth = c.depth ∧
      Derives c.classes (.args args) read := by
  induction count generalizing before c with
  | zero =>
    cases h
    exact ⟨[], [], by simp, .refl _, rfl, .noArgs⟩
  | succ count ih =>
    rw [itemsAfter, get_bind] at h
    split at h
    case isTrue =>
      cases h
      exact ⟨[], [], by simp, .refl _, rfl, .noArgs⟩
    case isFalse =>
      obtain ⟨first, mid, hfirst, h⟩ := exists_of_bind_ok h
      obtain ⟨read, hread, hdepth, hderives, -⟩ := hdeeper .or (by decide) hfirst
      cases hcomma : mid.isAt (.symbol .comma) with
      | false =>
        rw [bind_ok (skip_of_not_isAt hcomma)] at h
        cases h
        exact ⟨[first], read, by simp, hread, hdepth, .lastArg hderives⟩
      | true =>
        rw [bind_ok (skip_of_isAt hcomma)] at h
        obtain ⟨args, others, rfl, hothers, hdepth', hargs⟩ := ih h
        obtain ⟨comma, rest, hrest, hkind⟩ := Cursor.exists_token
          ((TokenKind.isA_symbol _ _).mp hcomma) (by simp)
        have hnext := Cursor.reads_next hrest
        rw [hnext.classes, hread.classes] at hargs
        refine ⟨first :: args, read ++ comma :: others, by simp,
          hread.trans (hnext.trans hothers), ?_, .moreArgs hkind hderives hargs⟩
        rw [hdepth', Cursor.depth_next, hdepth]

theorem arguments_reads (hdeeper : ReadsExprs deeper) {args : List Expr}
    (h : arguments deeper c = .ok args c') :
    ∃ read stop, c.Reads (read ++ [stop]) c' ∧ c'.depth = c.depth ∧
      stop.kind = .symbol .closeParen ∧ Derives c.classes (.args args) read := by
  rw [arguments, items, get_bind] at h
  obtain ⟨found, mid, hfound, h⟩ := exists_of_bind_ok h
  obtain ⟨stop, last, hstop, h⟩ := exists_of_bind_ok h
  cases h
  obtain ⟨args, read, rfl, hread, hdepth, hargs⟩ := itemsAfter_reads hdeeper hfound
  obtain ⟨rest, hrest, hkind, rfl⟩ := expect_ok hstop
  exact ⟨read, stop, hread.trans (Cursor.reads_next hrest), by simp [hdepth],
    (TokenKind.isA_symbol _ _).mp hkind, hargs⟩

theorem operand_reads (hdeeper : ReadsExprs deeper) {e : Expr}
    (h : OperandRead deeper level c e c') :
    ∃ layer read, c.Reads read c' ∧ c'.depth = c.depth ∧ Derives c.classes (.expr layer e) read ∧
      layer.Closes c'.kind ∧ min Binding.unary (max level 1) ≤ layer.level := by
  have hunary : min Binding.unary (max level 1) ≤ Binding.unary := Nat.min_le_left _ _
  have hcallable : min Binding.unary (max level 1) ≤ Layer.callable.level :=
    Nat.le_trans hunary (by decide)
  cases h with
  | literal hrest hkind =>
    exact ⟨.callable, _, Cursor.reads_next hrest, by simp, .literal hkind, .callable _, hcallable⟩
  | name hrest hkind =>
    exact ⟨.callable, _, Cursor.reads_next hrest, by simp, .name hkind, .callable _, hcallable⟩
  | group hrest hstart hinner hafter hstop =>
    have hnext := Cursor.reads_next hrest
    obtain ⟨read, hread, hdepth, hderives, -⟩ := hdeeper .or (by decide) hinner
    rw [hnext.classes] at hderives
    exact ⟨.callable, _, hnext.trans (hread.trans (Cursor.reads_next hafter)), by simp [hdepth],
      .group hstart hstop hderives, .callable _, hcallable⟩
  | neg hrest hsign hinner =>
    have hnext := Cursor.reads_next hrest
    obtain ⟨read, hread, hdepth, hderives, hstop⟩ :=
      hdeeper .unary (by decide) hinner
    rw [hnext.classes] at hderives
    exact ⟨.unary, _, hnext.trans hread, by simp [hdepth], .neg hsign hderives,
      Layer.closes_unary_iff.mpr hstop, hunary⟩
  | plus hrest hsign hinner =>
    have hnext := Cursor.reads_next hrest
    obtain ⟨read, hread, hdepth, hderives, hstop⟩ :=
      hdeeper .unary (by decide) hinner
    rw [hnext.classes] at hderives
    exact ⟨.unary, _, hnext.trans hread, by simp [hdepth], .plus hsign hderives,
      Layer.closes_unary_iff.mpr hstop, hunary⟩
  | not hrest hword hlevel hinner =>
    have hnext := Cursor.reads_next hrest
    obtain ⟨read, hread, hdepth, hderives, hstop⟩ := hdeeper .not (by decide) hinner
    rw [hnext.classes] at hderives
    refine ⟨.not, _, hnext.trans hread, by simp [hdepth], .not hword hderives,
      Layer.closes_not_iff.mpr hstop, ?_⟩
    change level ≤ 3 at hlevel
    change min 7 (max level 1) ≤ 3
    omega

/-- What goes on behind an expression that it closes becomes part of a larger one. -/
theorem extend_reads (hdeeper : ReadsExprs deeper) {layer : Layer} {left wrapped : Expr}
    {tokens : List Token} {extension : Extension}
    (hleft : Derives c.classes (.expr layer left) tokens) (hcloses : layer.Closes c.kind)
    (hextension : extension? level c.kind = some extension)
    (h : ExtendRead deeper c left extension wrapped c') :
    ∃ outer read, c.Reads read c' ∧ c'.depth = c.depth ∧
      Derives c.classes (.expr outer wrapped) (tokens ++ read) ∧
      outer.Closes c'.kind ∧ min Binding.unary (max level 1) ≤ outer.level := by
  have hunary : min Binding.unary (max level 1) ≤ Binding.unary := Nat.min_le_left _ _
  have hcallable : min Binding.unary (max level 1) ≤ Layer.callable.level :=
    Nat.le_trans hunary (by decide)
  obtain ⟨hkind, rfl⟩ | ⟨hkind, rfl⟩ | ⟨rule, hrule, hlevel, rfl⟩ :=
    extension?_eq_some hextension
  · obtain ⟨start, rest, hrest, hstart⟩ := Cursor.exists_token hkind (by simp)
    have hnext := Cursor.reads_next hrest
    cases h with
    | call hargs =>
      obtain ⟨read, stop, hread, hdepth, hstop, hactual⟩ := arguments_reads hdeeper hargs
      have hcallee := hcloses.call hkind
      subst hcallee
      rw [hnext.classes] at hactual
      rw [hread.classes, hnext.classes, Cursor.lastSpan_of_reads hread]
      exact ⟨.callable, _, hnext.trans hread, by simp [hdepth],
        .call hstart hstop hleft hactual, .callable _, hcallable⟩
  · obtain ⟨dot, rest, hrest, hdot⟩ := Cursor.exists_token hkind (by simp)
    have hnext := Cursor.reads_next hrest
    have htrailed := hleft.widen_of_le (hcloses.member hkind)
    cases h with
    | member hword hname hopen =>
      refine ⟨.trailed, _, hnext.trans (Cursor.reads_next hword), by simp,
        .member hdot hname htrailed, Layer.trailed_closes_of_ne hopen,
        Nat.le_trans hunary (by decide)⟩
    | methodCall hword hname hstart hargs =>
      obtain ⟨read, stop, hread, hdepth, hstop, hactual⟩ := arguments_reads hdeeper hargs
      have hopen := (hnext.trans (Cursor.reads_next hword)).trans
        (Cursor.reads_next (Cursor.rest_next hword))
      rw [hopen.classes] at hactual
      rw [Cursor.lastSpan_of_reads hread]
      exact ⟨.callable, _, hopen.trans hread, by simp [hdepth],
        .methodCall hdot hname hstart hstop htrailed hactual, .callable _, hcallable⟩
  · obtain ⟨sign, rest, hrest, hsign⟩ := Cursor.exists_token rfl
      (by rintro hend; rw [hend] at hrule; cases hrule)
    have hnext := Cursor.reads_next hrest
    have hrule' := Production.levels_of_ofKind? hrule
    cases h with
    | join hright =>
      obtain ⟨read, hread, hdepth, hderives, hstop⟩ := hdeeper rule.right
        (by simp only [Production.joining, Binding.unary]; omega) hright
      rw [hnext.classes] at hderives
      rw [← hsign] at hrule
      refine ⟨rule.result, _, hnext.trans hread, by simp [hdepth],
        .join hrule (hleft.widen_of_le (hcloses.join rule (hsign ▸ hrule))) hderives,
        (Layer.closes_result_iff hrule).mpr hstop, ?_⟩
      simp only [Binding.unary]
      omega

theorem extendAt_reads {budget : Nat} (hdeeper : ∀ fewer < budget, ReadsExprs (exprAt fewer))
    {layer : Layer} {left e : Expr} {tokens : List Token}
    (hleft : Derives c.classes (.expr layer left) tokens) (hcloses : layer.Closes c.kind)
    (hlayer : min Binding.unary (max level 1) ≤ layer.level)
    (h : extendAt budget level left c = .ok e c') :
    ∃ outer read, c.Reads read c' ∧ Derives c.classes (.expr outer e) (tokens ++ read) ∧
      min Binding.unary (max level 1) ≤ outer.level ∧ extension? level c'.kind = none := by
  induction budget generalizing layer left tokens c with
  | zero =>
    obtain ⟨hstop, rfl, rfl⟩ | ⟨_, _, _, fewer, hfewer, -⟩ := extendAt_ok h
    · exact ⟨layer, [], .refl _, by simpa using hleft, hlayer, hstop⟩
    · cases hfewer
  | succ budget ih =>
    obtain ⟨hstop, rfl, rfl⟩ | ⟨extension, wrapped, mid, fewer, hfewer, hextension, -, hwrapped,
      hrest⟩ := extendAt_ok h
    · exact ⟨layer, [], .refl _, by simpa using hleft, hlayer, hstop⟩
    · cases hfewer
      obtain ⟨outer, read, hread, -, hderives, hcloses', houter⟩ :=
        extend_reads (c := { c with depth := c.depth + 1 }) (hdeeper budget (Nat.lt_succ_self _))
          hleft hcloses hextension (extend_ok hwrapped)
      have hread := hread.fromDepth
      rw [← hread.classes] at hderives
      obtain ⟨last, others, hothers, hderives', hlast, hstop⟩ :=
        ih (fun fewer hlt => hdeeper fewer (Nat.lt_succ_of_lt hlt)) hderives hcloses' houter hrest
      rw [hread.classes, List.append_assoc] at hderives'
      exact ⟨last, read ++ others, hread.trans hothers, hderives', hlast, hstop⟩

theorem exprAt_reads (budget : Nat) : ReadsExprs (exprAt budget) := by
  induction budget using Nat.strongRecOn with
  | _ budget ih =>
    intro layer level c e c' hlayer h
    obtain ⟨left, mid, last, fewer, rfl, -, hleft, hextend, rfl⟩ := exprAt_ok h
    obtain ⟨inner, read, hread, -, hderives, hcloses, hinner⟩ :=
      operand_reads (ih fewer (Nat.lt_succ_self _)) (operand_ok hleft)
    have hread := hread.fromDepth
    rw [← hread.classes] at hderives
    obtain ⟨outer, others, hothers, hderives', houter, hstop⟩ :=
      extendAt_reads (fun less hlt => ih less (Nat.lt_succ_of_lt hlt)) hderives hcloses hinner
        hextend
    rw [hread.classes] at hderives'
    exact ⟨read ++ others, (hread.trans hothers).atDepth _, rfl,
      hderives'.widen_of_le (Nat.le_trans hlayer houter), hstop⟩

end Parser

end Offside
