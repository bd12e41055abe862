/-
Lowering an expression can be undone.  Its code has one instruction for every operation, in the
order in which operations are carried out, and when each temporary is replaced by the instruction
that defines it, the expression comes back.
-/
import Offside.Proofs.Code.Temporaries
import Offside.Proofs.Program.Bare

namespace Offside

/-! ### Operations in their order -/

namespace Expr

mutual

/-- The operations in an expression, each behind those in its operands, from left to right. -/
def operations : Expr → List Expr
  | constant _ _ => []
  | name _ _ => []
  | binary op left right span =>
    operations left ++ operations right ++ [.binary op left right span]
  | unary op operand span => operations operand ++ [.unary op operand span]
  | call callee args span =>
    operations callee ++ operationsAll args ++ [.call callee args span]
  | methodCall receiver method args span =>
    operations receiver ++ operationsAll args ++ [.methodCall receiver method args span]
  | construct className args span => operationsAll args ++ [.construct className args span]
  | member receiver _ _ => operations receiver

/-- The operations in several expressions. -/
def operationsAll : List Expr → List Expr
  | [] => []
  | expr :: others => operations expr ++ operationsAll others

end

theorem operations_of_isOperation {expr : Expr} (h : expr.isOperation = true) :
    expr.operations = operationsAll expr.operands ++ [expr] := by
  cases expr with
  | constant | name | member => cases h
  | _ => simp [operations, operationsAll, operands]

end Expr

/-- Code with one instruction for each of these operations, in order, into temporaries with
consecutive numbers. -/
inductive EmitsAll : Nat → List Expr → List Instruction → Prop
  | nil {next : Nat} : EmitsAll next [] []
  | cons {next : Nat} {expr : Expr} {operands : List Operand} {instruction : Temp → Instruction}
    {others : List Expr} {code : List Instruction} (first : expr.Emits operands instruction)
    (rest : EmitsAll (next + 1) others code) :
    EmitsAll next (expr :: others) (instruction ⟨next⟩ :: code)

namespace EmitsAll

variable {next : Nat} {first second : List Expr} {left right : List Instruction}

theorem append (hleft : EmitsAll next first left)
    (hright : EmitsAll (next + first.length) second right) :
    EmitsAll next (first ++ second) (left ++ right) := by
  induction hleft with
  | nil => exact hright
  | cons hemits _ ih =>
    refine .cons hemits (ih ?_)
    rwa [List.length_cons, ← Nat.add_assoc, Nat.add_right_comm] at hright

end EmitsAll

/-- Lowered code with one instruction for each of these operations and nothing else. -/
structure Lowered.Performs {α : Type} (operations : List Expr) (start : Nat)
    (lowered : Lowered α) : Prop where
  code : EmitsAll start operations lowered.code
  next : lowered.next = start + operations.length

namespace Expr

theorem performs_lowerAll {exprs : List Expr}
    (h : ∀ expr ∈ exprs, ∀ next, (expr.lower next).Performs expr.operations next) (next : Nat) :
    (lowerAll exprs next).Performs (operationsAll exprs) next := by
  induction exprs generalizing next with
  | nil => exact ⟨.nil, rfl⟩
  | cons expr others ih =>
    rw [List.forall_mem_cons] at h
    have hfirst := h.1 next
    have hrest := ih h.2 (expr.lower next).next
    constructor
    · rw [operationsAll, lowerAll]
      exact hfirst.code.append (hfirst.next ▸ hrest.code)
    · rw [operationsAll, List.length_append, lowerAll, hrest.next, hfirst.next, Nat.add_assoc]

theorem performs_lower (expr : Expr) (next : Nat) :
    (expr.lower next).Performs expr.operations next := by
  induction expr using operation_induction generalizing next with
  | constant value span => exact ⟨.nil, rfl⟩
  | name id span => exact ⟨.nil, rfl⟩
  | member receiver attr span ih => exact ⟨(ih next).code, (ih next).next⟩
  | operation expr hkind ih =>
    have hoperands := performs_lowerAll ih next
    obtain ⟨instruction, hemits, hlower⟩ := lower_operation hkind next
    rw [hlower, operations_of_isOperation hkind]
    constructor
    · refine hoperands.code.append ?_
      rw [← hoperands.next]
      exact .cons hemits .nil
    · rw [Lowered.emit, hoperands.next, List.length_append, List.length_singleton, Nat.add_assoc]

end Expr

/-! ### What temporaries stand for -/

/-- The expression that an operand stands for, given what temporaries stand for. -/
def Operand.expr? (meaning : Temp → Option Expr) : Operand → Option Expr
  | temp t => meaning t
  | var name => some (.name name .absent)
  | const value => some (.constant value .absent)
  | attr base name => (base.expr? meaning).map (.member · name .absent)

/-- The operation that an instruction carries out, given what temporaries stand for. -/
def Instruction.expr? (meaning : Temp → Option Expr) : Instruction → Option Expr
  | call _ callee args => do
    let callee ← callee.expr? meaning
    let args ← args.mapM (Operand.expr? meaning)
    pure (.call callee args .absent)
  | methodCall _ receiver method args => do
    let receiver ← receiver.expr? meaning
    let args ← args.mapM (Operand.expr? meaning)
    pure (.methodCall receiver method args .absent)
  | construct _ className args => do
    let args ← args.mapM (Operand.expr? meaning)
    pure (.construct className args .absent)
  | binary _ op left right => do
    let left ← left.expr? meaning
    let right ← right.expr? meaning
    pure (.binary op left right .absent)
  | unary _ op source => do
    let source ← source.expr? meaning
    pure (.unary op source .absent)
  | assign _ source => source.expr? meaning
  | store _ _ | leave _ | label _ | branch _ _ | jump _ => none

/-- What a temporary stands for behind this code, which is given latest instruction first: the
operation of the instruction that defines it, whose own temporaries are replaced in turn. -/
def meaningOf : List Instruction → Temp → Option Expr
  | [], _ => none
  | i :: earlier, temp =>
    if i.result? = some temp then i.expr? (meaningOf earlier) else meaningOf earlier temp

/-- An instruction stands for its operation when its operands stand for those of the operation. -/
theorem Expr.Emits.expr?_eq {expr : Expr} {operands : List Operand}
    {instruction : Temp → Instruction} (h : expr.Emits operands instruction)
    {meaning : Temp → Option Expr}
    (hoperands : operands.mapM (Operand.expr? meaning) = some (expr.operands.map Expr.bare))
    (result : Temp) : (instruction result).expr? meaning = some expr.bare := by
  cases h <;>
    simp_all [Expr.operands, Instruction.expr?, Expr.bare, Option.bind_eq_some_iff]

/-! ### Undoing the lowering -/

/-- Instructions that leave all temporaries below this number alone. -/
def WritesFrom (next : Nat) (code : List Instruction) : Prop :=
  ∀ i ∈ code, ∀ temp, i.result? = some temp → next ≤ temp.number

/-- Behind this code, given latest instruction first, the temporaries from `next` on stand for these
operations. -/
def MeansOperations (code : List Instruction) (next : Nat) (operations : List Expr) : Prop :=
  ∀ ⦃n sub⦄, operations[n]? = some sub → meaningOf code ⟨next + n⟩ = some sub.bare

section

variable {later earlier : List Instruction} {next : Nat}

theorem meaningOf_append {temp : Temp} (hlater : WritesFrom next later) (htemp : temp.number < next) :
    meaningOf (later ++ earlier) temp = meaningOf earlier temp := by
  induction later with
  | nil => rfl
  | cons i later ih =>
    obtain ⟨hi, hlater⟩ := List.forall_mem_cons.mp hlater
    have hresult : i.result? ≠ some temp :=
      fun hresult => absurd (hi temp hresult) (Nat.not_le.mpr htemp)
    rw [List.cons_append, meaningOf, if_neg hresult, ih hlater]

/-- Code that writes only to later temporaries changes nothing about an operand. -/
theorem Operand.expr?_append {operand : Operand} (hlater : WritesFrom next later)
    (hreads : ∀ temp ∈ operand.temps, temp.number < next) :
    operand.expr? (meaningOf (later ++ earlier)) = operand.expr? (meaningOf earlier) := by
  induction operand with
  | temp t => exact meaningOf_append hlater (hreads t (List.mem_singleton.mpr rfl))
  | var | const => rfl
  | attr base name ih => rw [expr?, expr?, ih hreads]

variable {first second : List Expr}

theorem MeansOperations.behind (h : MeansOperations earlier next first)
    (hlater : WritesFrom (next + first.length) later) :
    MeansOperations (later ++ earlier) next first := by
  intro n sub hsub
  obtain ⟨hn, -⟩ := List.getElem?_eq_some_iff.mp hsub
  rw [meaningOf_append hlater (Nat.add_lt_add_left hn next), h hsub]

theorem MeansOperations.append (hfirst : MeansOperations earlier next first)
    (hsecond : MeansOperations earlier (next + first.length) second) :
    MeansOperations earlier next (first ++ second) := by
  intro n sub hsub
  rcases Nat.lt_or_ge n first.length with hn | hn
  · rw [List.getElem?_append_left hn] at hsub
    exact hfirst hsub
  · rw [List.getElem?_append_right hn] at hsub
    have hmeans := hsecond hsub
    rwa [Nat.add_assoc, Nat.add_sub_cancel' hn] at hmeans

end

namespace Expr

theorem writesFrom_lowerAll (exprs : List Expr) (next : Nat) :
    WritesFrom next (lowerAll exprs next).code := by
  intro i hi temp htemp
  obtain ⟨result, hresult, hle⟩ :=
    (fresh_lowerAll (fun expr _ => fresh_lower expr) next).results i hi
  cases hresult.symm.trans htemp
  exact hle

/-- Whatever stands before the code of an expression, behind it the operand stands for the
expression and each temporary for its operation. -/
def Rebuilt (expr : Expr) (next : Nat) : Prop :=
  ∀ earlier,
    (expr.lower next).value.expr? (meaningOf ((expr.lower next).code.reverse ++ earlier)) =
      some expr.bare ∧
    MeansOperations ((expr.lower next).code.reverse ++ earlier) next expr.operations

theorem rebuilt_lowerAll {exprs : List Expr} (h : ∀ expr ∈ exprs, ∀ next, expr.Rebuilt next)
    (next : Nat) (earlier : List Instruction) :
    (lowerAll exprs next).value.mapM
        (Operand.expr? (meaningOf ((lowerAll exprs next).code.reverse ++ earlier))) =
      some (exprs.map bare) ∧
    MeansOperations ((lowerAll exprs next).code.reverse ++ earlier) next (operationsAll exprs) := by
  induction exprs generalizing next earlier with
  | nil => exact ⟨rfl, fun n sub hsub => by cases hsub⟩
  | cons expr others ih =>
    rw [List.forall_mem_cons] at h
    obtain ⟨hvalue, hmeans⟩ := h.1 next earlier
    obtain ⟨hvalues, hothers⟩ :=
      ih h.2 (expr.lower next).next ((expr.lower next).code.reverse ++ earlier)
    have hnext := (performs_lower expr next).next
    -- the code of the other expressions writes no temporary of the first one
    have hlater : WritesFrom (expr.lower next).next
        (lowerAll others (expr.lower next).next).code.reverse :=
      fun i hi => writesFrom_lowerAll others _ i (List.mem_reverse.mp hi)
    rw [lowerAll, List.reverse_append, List.append_assoc]
    constructor
    · rw [List.mapM_cons, Operand.expr?_append hlater (fresh_lower expr next).reads, hvalue,
        hvalues]
      rfl
    · rw [hnext] at hlater hothers ⊢
      exact (hmeans.behind hlater).append hothers

theorem rebuilt_lower (expr : Expr) (next : Nat) : expr.Rebuilt next := by
  induction expr using operation_induction generalizing next with
  | constant value span => exact fun earlier => ⟨rfl, fun n sub hsub => by cases hsub⟩
  | name id span => exact fun earlier => ⟨rfl, fun n sub hsub => by cases hsub⟩
  | member receiver attr span ih =>
    intro earlier
    obtain ⟨hvalue, hmeans⟩ := ih next earlier
    exact ⟨by rw [lower, Operand.expr?, hvalue]; rfl, hmeans⟩
  | operation expr hkind ih =>
    intro earlier
    obtain ⟨hvalues, hmeans⟩ := rebuilt_lowerAll ih next earlier
    obtain ⟨instruction, hemits, hlower⟩ := lower_operation hkind next
    have hperforms : (lowerAll expr.operands next).Performs (operationsAll expr.operands) next :=
      performs_lowerAll (fun expr _ => performs_lower expr) next
    have hnext := hperforms.next
    -- the last temporary stands for the whole operation
    have hlast : meaningOf (instruction ⟨(lowerAll expr.operands next).next⟩ ::
          ((lowerAll expr.operands next).code.reverse ++ earlier))
        ⟨(lowerAll expr.operands next).next⟩ = some expr.bare := by
      rw [meaningOf, if_pos (hemits.result? _), hemits.expr?_eq hvalues]
    rw [hlower, operations_of_isOperation hkind, Lowered.emit, List.reverse_append,
      List.reverse_singleton, List.singleton_append, List.cons_append]
    have hlater : WritesFrom (next + (operationsAll expr.operands).length)
        [instruction ⟨(lowerAll expr.operands next).next⟩] := by
      intro i hi temp htemp
      rw [List.mem_singleton.mp hi, hemits.result?] at htemp
      cases htemp
      exact Nat.le_of_eq hnext.symm
    refine ⟨hlast, MeansOperations.append (hmeans.behind hlater) ?_⟩
    intro n sub hsub
    obtain ⟨hn, hsub⟩ := List.getElem?_eq_some_iff.mp hsub
    obtain rfl : n = 0 := Nat.lt_one_iff.mp hn
    rw [← hsub, Nat.add_zero, ← hnext]
    exact hlast

/-- Lowering has one instruction for each operation, in the order in which operations are carried
out and into consecutive temporaries, and nothing else.  Whatever code stands before it, and
whatever code behind it writes to later temporaries, replacing temporaries by the instructions that
define them gives the expression back, and each temporary gives its own operation. -/
theorem lower_rebuilds (expr : Expr) (next : Nat) :
    (expr.lower next).Performs expr.operations next ∧
    ∀ before after, WritesFrom (expr.lower next).next after →
      let meaning := meaningOf (before ++ (expr.lower next).code ++ after).reverse
      (expr.lower next).value.expr? meaning = some expr.bare ∧
      ∀ n sub, expr.operations[n]? = some sub → meaning ⟨next + n⟩ = some sub.bare := by
  have hperforms := performs_lower expr next
  refine ⟨hperforms, fun before after hafter => ?_⟩
  have hlater : WritesFrom (expr.lower next).next after.reverse :=
    fun i hi => hafter i (List.mem_reverse.mp hi)
  obtain ⟨hvalue, hmeans⟩ := rebuilt_lower expr next before.reverse
  rw [List.reverse_append, List.reverse_append]
  constructor
  · rw [Operand.expr?_append hlater (fresh_lower expr next).reads, hvalue]
  · intro n sub hsub
    rw [hperforms.next] at hlater
    exact hmeans.behind hlater hsub

end Expr

namespace ReconstructionWitness

/-- `f(a.b + 1).m(-x)` -/
def expr : Expr :=
  let name (id : String) : Expr := .name id (.point ⟨1, 1, 0⟩)
  let sum : Expr := .binary .add (.member (name "a") "b" .absent) (.constant (.int 1) .absent) .absent
  .methodCall (.call (name "f") [sum] .absent) "m" [.unary .neg (name "x") .absent] .absent

def before : List Instruction := [.assign ⟨4⟩ (.var "y"), .label ⟨1⟩]

def after : List Instruction := [.unary ⟨9⟩ .not (.temp ⟨8⟩), .branch (.temp ⟨9⟩) ⟨1⟩]

theorem writesFrom_after : WritesFrom (expr.lower 5).next after := by
  simp [WritesFrom, after, Instruction.result?, expr, Expr.lower, Expr.lowerAll, Lowered.emit]

/-- The code in the middle, and what its last operand stands for in all of it. -/
theorem lower_call :
    (expr.lower 5).code =
      [.binary ⟨5⟩ .add (.attr (.var "a") "b") (.const (.int 1)),
        .call ⟨6⟩ (.var "f") [.temp ⟨5⟩], .unary ⟨7⟩ .neg (.var "x"),
        .methodCall ⟨8⟩ (.temp ⟨6⟩) "m" [.temp ⟨7⟩]] ∧
    WritesFrom (expr.lower 5).next after ∧
    (Operand.temp ⟨8⟩).expr? (meaningOf (before ++ (expr.lower 5).code ++ after).reverse) =
      some expr.bare :=
  ⟨rfl, writesFrom_after, ((expr.lower_rebuilds 5).2 before after writesFrom_after).1⟩

end ReconstructionWitness

end Offside
