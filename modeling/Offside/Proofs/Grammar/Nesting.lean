/-
How tall an expression can get within the levels of nesting that are left.  Parentheses give the
levels inside them back, so what they enclose can be wrapped again as often as if it were a name.
-/
import Mathlib.Data.Nat.Choose.Basic
import Offside.Proofs.Grammar.Soundness
import Offside.Proofs.Program.Height

namespace Offside

namespace Parser

/-- The height of the tallest expression that this many levels of nesting allow. -/
def tallest (budget : Nat) : Nat := budget * (budget - 1) / 2 + 1

theorem tallest_succ (budget : Nat) : tallest (budget + 1) = tallest budget + budget := by
  rw [tallest, tallest, Nat.triangle_succ]
  omega

theorem tallest_mono {fewer budget : Nat} (h : fewer ≤ budget) :
    tallest fewer ≤ tallest budget := by
  induction h with
  | refl => exact Nat.le_refl _
  | step _ ih =>
    rw [tallest_succ]
    omega

theorem tallest_pos (budget : Nat) : 1 ≤ tallest budget := Nat.succ_pos _

theorem le_tallest (budget : Nat) : budget ≤ tallest budget := by
  induction budget with
  | zero => exact Nat.zero_le _
  | succ budget ih =>
    have hpos := tallest_pos budget
    rw [tallest_succ]
    omega

variable {c c' : Cursor} {level : Nat} {deeper : Nat → Parser Expr} {bound : Nat}

/-- The parser reads expressions of at most this height, as far as they go on. -/
def ReadsWithin (bound : Nat) (deeper : Nat → Parser Expr) : Prop :=
  ∀ ⦃level : Nat⦄ ⦃c : Cursor⦄ ⦃e : Expr⦄ ⦃c' : Cursor⦄, deeper level c = .ok e c' →
    e.height ≤ bound ∧ extension? level c'.kind = none

theorem itemsAfter_height (hdeeper : ReadsWithin bound deeper) {count : Nat}
    {before found : List Expr} (hbefore : ∀ arg ∈ before, arg.height ≤ bound)
    (h : itemsAfter (fun _ => deeper Binding.lowest) count before c = .ok found c') :
    ∀ arg ∈ found, arg.height ≤ bound := by
  induction count generalizing before c with
  | zero =>
    cases h
    simpa using hbefore
  | succ count ih =>
    by_cases hclose : c.kind = .symbol .closeParen
    · rw [itemsAfter_of_close hclose] at h
      cases h
      simpa using hbefore
    · rw [itemsAfter_of_not_close hclose] at h
      obtain ⟨first, mid, hfirst, h⟩ := exists_of_bind_ok h
      have hall : ∀ arg ∈ first :: before, arg.height ≤ bound :=
        List.forall_mem_cons.mpr ⟨(hdeeper hfirst).1, hbefore⟩
      obtain ⟨comma, last, -, h⟩ := exists_of_bind_ok h
      cases comma with
      | true => exact ih hall h
      | false =>
        cases h
        simpa [or_comm] using hall

theorem arguments_height (hdeeper : ReadsWithin bound deeper) {args : List Expr}
    (h : arguments deeper c = .ok args c') : Expr.heightAll args ≤ bound := by
  rw [arguments, items, get_bind] at h
  obtain ⟨found, mid, hfound, h⟩ := exists_of_bind_ok h
  obtain ⟨stop, last, -, h⟩ := exists_of_bind_ok h
  cases h
  exact Expr.heightAll_le_iff.mpr (itemsAfter_height hdeeper (by simp) hfound)

/-- Whether a call or an attribute follows. -/
def trails (kind : TokenKind) : Bool :=
  kind == .symbol .openParen || kind == .symbol .dot

theorem trails_eq_false {kind : TokenKind} (h : extension? level kind = none) :
    trails kind = false := by
  obtain ⟨hcall, hmember, -⟩ := extension?_eq_none_iff.mp h
  simp [trails, hcall, hmember]

/-- A first operand is no taller than what can be inside it, or one taller than an expression that
it ends with. -/
theorem operand_height (hdeeper : ReadsWithin bound deeper) (hbound : 1 ≤ bound) {e : Expr}
    (h : OperandRead deeper level c e c') :
    e.height ≤ bound ∨
      ∃ tighter inner, deeper tighter c.next = .ok inner c' ∧ e.height = inner.height + 1 := by
  cases h with
  | literal | name => exact .inl hbound
  | group _ _ hinner => exact .inl (hdeeper hinner).1
  | neg _ _ hinner | not _ _ _ hinner => exact .inr ⟨_, _, hinner, rfl⟩
  | plus _ _ hinner => exact .inl (hdeeper hinner).1

theorem height_called_le (classes : List String) (callee : Expr) (args : List Expr) (span : Span) :
    (callee.called classes args span).height ≤ max callee.height (Expr.heightAll args) + 1 := by
  cases callee with
  | name id _ =>
    rw [Expr.called]
    split
    · exact Nat.succ_le_succ (Nat.le_max_right _ _)
    · exact Nat.le_refl _
  | _ => exact Nat.le_refl _

/-- Wrapping adds one to the height. -/
theorem extend_height (hdeeper : ReadsWithin bound deeper) {left wrapped : Expr}
    {extension : Extension} (h : ExtendRead deeper c left extension wrapped c') :
    wrapped.height ≤ max left.height bound + 1 := by
  cases h with
  | call hargs =>
    have hall := arguments_height hdeeper hargs
    apply Nat.le_trans (height_called_le _ _ _ _)
    omega
  | member => exact Nat.succ_le_succ (Nat.le_max_left _ _)
  | methodCall _ _ _ hargs =>
    have hall := arguments_height hdeeper hargs
    rw [Expr.height]
    omega
  | join hright =>
    have hheight := (hdeeper hright).1
    rw [Expr.height]
    omega

theorem exists_right_of_join {left wrapped : Expr} {joining : Joining}
    (h : ExtendRead deeper c left (.join joining) wrapped c') :
    ∃ right, deeper joining.right c.next = .ok right c' := by
  cases h with
  | join hright => exact ⟨_, hright⟩

/-- Every wrap costs a level, and an operation needs one more for its right operand; behind it no
call or attribute follows. -/
theorem extendAt_height {budget : Nat}
    (hdeeper : ∀ fewer < budget, ReadsWithin (tallest fewer) (exprAt fewer)) {left e : Expr}
    (h : extendAt budget level left c = .ok e c') :
    e.height ≤ max left.height (tallest budget) + budget ∧
      (trails c.kind = false → e.height ≤ max left.height (tallest budget) + (budget - 1)) ∧
      extension? level c'.kind = none := by
  induction budget generalizing left c with
  | zero =>
    rcases extendAt_ok h with ⟨hstop, rfl, rfl⟩ | ⟨_, _, _, fewer, hfewer, -⟩
    · exact ⟨Nat.le_max_left _ _, fun _ => Nat.le_max_left _ _, hstop⟩
    · cases hfewer
  | succ budget ih =>
    rcases extendAt_ok h with ⟨hstop, rfl, rfl⟩ |
      ⟨extension, wrapped, mid, fewer, hfewer, hextension, -, hwrapped, hrest⟩
    · refine ⟨?_, fun _ => ?_, hstop⟩ <;> omega
    · cases hfewer
      have hbelow := hdeeper budget (Nat.lt_succ_self _)
      have hheight := extend_height hbelow (extend_ok hwrapped)
      obtain ⟨hany, hbare, hstop⟩ := ih (fun fewer hlt => hdeeper fewer (Nat.lt_succ_of_lt hlt))
        hrest
      have htallest := tallest_succ budget
      refine ⟨by omega, fun htrails => ?_, hstop⟩
      obtain ⟨hkind, -⟩ | ⟨hkind, -⟩ | ⟨rule, -, -, rfl⟩ := extension?_eq_some hextension
      · simp [trails, hkind] at htrails
      · simp [trails, hkind] at htrails
      · obtain ⟨right, hright⟩ := exists_right_of_join (extend_ok hwrapped)
        have hmid := hbare (trails_eq_false (hbelow hright).2)
        -- the right operand has entered a level of its own
        obtain ⟨_, _, _, less, rfl, -⟩ := exprAt_ok hright
        omega

theorem exprAt_height (budget : Nat) : ReadsWithin (tallest budget) (exprAt budget) := by
  induction budget using Nat.strongRecOn with
  | _ budget ih =>
    intro level c e c' h
    obtain ⟨left, mid, last, fewer, rfl, -, hleft, hextend, rfl⟩ := exprAt_ok h
    obtain ⟨hany, hbare, hstop⟩ :=
      extendAt_height (fun less hlt => ih less (Nat.lt_succ_of_lt hlt)) hextend
    refine ⟨?_, hstop⟩
    rw [tallest_succ]
    have hbelow := ih fewer (Nat.lt_succ_self _)
    rcases operand_height hbelow (tallest_pos fewer) (operand_ok hleft) with
      hheight | ⟨tighter, inner, hinner, hheight⟩
    · omega
    · obtain ⟨hinnerHeight, hinnerStop⟩ := hbelow hinner
      have hbound := hbare (trails_eq_false hinnerStop)
      -- what stands behind a sign has entered a level of its own
      obtain ⟨_, _, _, less, rfl, -⟩ := exprAt_ok hinner
      omega

end Parser

end Offside
