/-
The temporaries of an expression: its code writes only to numbers from the given one on, and what
it leaves behind reads only numbers that have been given out.
-/
import Offside.Proofs.Code.Lowered

namespace Offside

/-- The instruction of an operation, given the operands that its own operands lower to. -/
inductive Expr.Emits : Expr → List Operand → (Temp → Instruction) → Prop
  | binary (op : BinaryOp) (left right : Expr) (span : Span) (x y : Operand) :
    Emits (.binary op left right span) [x, y] (.binary · op x y)
  | unary (op : UnaryOp) (operand : Expr) (span : Span) (x : Operand) :
    Emits (.unary op operand span) [x] (.unary · op x)
  | call (callee : Expr) (args : List Expr) (span : Span) (f : Operand) (xs : List Operand) :
    Emits (.call callee args span) (f :: xs) (.call · f xs)
  | methodCall (receiver : Expr) (method : String) (args : List Expr) (span : Span)
    (object : Operand) (xs : List Operand) :
    Emits (.methodCall receiver method args span) (object :: xs) (.methodCall · object method xs)
  | construct (className : String) (args : List Expr) (span : Span) (xs : List Operand) :
    Emits (.construct className args span) xs (.construct · className xs)

/-- Operations lower to the code of their operands and one instruction. -/
theorem Expr.lower_operation {expr : Expr} (h : expr.isOperation = true) (next : Nat) :
    ∃ instruction, expr.Emits (lowerAll expr.operands next).value instruction ∧
      expr.lower next = Lowered.emit (lowerAll expr.operands next).code
        (lowerAll expr.operands next).next instruction := by
  cases expr with
  | constant | name | member => cases h
  | binary op left right span =>
    exact ⟨_, .binary op left right span _ _, by simp [lower, lowerAll, operands]⟩
  | unary op operand span =>
    exact ⟨_, .unary op operand span _, by simp [lower, lowerAll, operands]⟩
  | call callee args span => exact ⟨_, .call callee args span _ _, rfl⟩
  | methodCall receiver method args span =>
    exact ⟨_, .methodCall receiver method args span _ _, rfl⟩
  | construct className args span => exact ⟨_, .construct className args span _, rfl⟩

theorem Expr.Emits.result? {expr : Expr} {operands : List Operand}
    {instruction : Temp → Instruction} (h : expr.Emits operands instruction) (result : Temp) :
    (instruction result).result? = some result := by
  cases h <;> rfl

/-- Lowered code that keeps to the numbers it was given. -/
structure Lowered.Fresh {α : Type} (temps : α → List Temp) (start : Nat) (lowered : Lowered α) :
    Prop where
  le : start ≤ lowered.next
  reads : ∀ temp ∈ temps lowered.value, temp.number < lowered.next
  results : ∀ i ∈ lowered.code, ∃ result, i.result? = some result ∧ start ≤ result.number

namespace Expr

theorem fresh_lowerAll {exprs : List Expr}
    (h : ∀ expr ∈ exprs, ∀ next, (expr.lower next).Fresh Operand.temps next) (next : Nat) :
    (lowerAll exprs next).Fresh (·.flatMap Operand.temps) next := by
  induction exprs generalizing next with
  | nil => exact ⟨Nat.le_refl _, by simp [lowerAll], by simp [lowerAll]⟩
  | cons expr others ih =>
    rw [List.forall_mem_cons] at h
    have hfirst := h.1 next
    have hrest := ih h.2 (expr.lower next).next
    constructor
    · exact Nat.le_trans hfirst.le hrest.le
    · intro temp htemp
      rw [lowerAll, List.flatMap_cons, List.mem_append] at htemp
      rcases htemp with htemp | htemp
      · exact Nat.lt_of_lt_of_le (hfirst.reads temp htemp) hrest.le
      · exact hrest.reads temp htemp
    · intro i hi
      rw [lowerAll, List.mem_append] at hi
      rcases hi with hi | hi
      · exact hfirst.results i hi
      · obtain ⟨result, hresult, hle⟩ := hrest.results i hi
        exact ⟨result, hresult, Nat.le_trans hfirst.le hle⟩

theorem fresh_lower (expr : Expr) (next : Nat) : (expr.lower next).Fresh Operand.temps next := by
  induction expr using operation_induction generalizing next with
  | constant value span => exact ⟨Nat.le_refl _, by simp [lower, Operand.temps], by simp [lower]⟩
  | name id span => exact ⟨Nat.le_refl _, by simp [lower, Operand.temps], by simp [lower]⟩
  | member receiver attr span ih => exact ⟨(ih next).le, (ih next).reads, (ih next).results⟩
  | operation expr hkind ih =>
    have hoperands := fresh_lowerAll ih next
    obtain ⟨instruction, hemits, hlower⟩ := lower_operation hkind next
    rw [hlower]
    constructor
    · exact Nat.le_succ_of_le hoperands.le
    · intro temp htemp
      rw [Lowered.emit, Operand.temps, List.mem_singleton] at htemp
      subst htemp
      exact Nat.lt_succ_self _
    · intro i hi
      rw [Lowered.emit, List.mem_append, List.mem_singleton] at hi
      rcases hi with hi | rfl
      · exact hoperands.results i hi
      · exact ⟨_, hemits.result? _, hoperands.le⟩

end Expr

end Offside
