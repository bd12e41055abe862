/-
Code that a text can spell.  Lowering takes the names and the constants of a program over into its
code and adds none but temporaries and labels, so the code of what is read from a text has nothing
in it that a text could not spell.
-/
import Offside.Proofs.Code.InstructionText
import Offside.Proofs.Code.SingleAssignment
import Offside.Proofs.Grammar.Spellable

namespace Offside

variable [IdentifierTables]

/-- Whether a text can spell the names and the values in code. -/
def IsSpellableCode (code : List Instruction) : Prop := ∀ i ∈ code, i.IsSpellable

@[simp] theorem isSpellableCode_nil : IsSpellableCode [] := List.forall_mem_nil _

@[simp] theorem isSpellableCode_cons {i : Instruction} {code : List Instruction} :
    IsSpellableCode (i :: code) ↔ i.IsSpellable ∧ IsSpellableCode code :=
  List.forall_mem_cons

@[simp] theorem isSpellableCode_append {left right : List Instruction} :
    IsSpellableCode (left ++ right) ↔ IsSpellableCode left ∧ IsSpellableCode right :=
  List.forall_mem_append

theorem Instruction.isSpellable_iff {i : Instruction} :
    i.IsSpellable ↔ (∀ operand ∈ i.operands, operand.IsSpellable) ∧
      ∀ name ∈ i.name?, isName name = true :=
  ⟨fun h => ⟨h.operands, h.name⟩, fun h => ⟨h.1, h.2⟩⟩

section

variable {target : Label} {condition : Operand}

@[simp] theorem Instruction.isSpellable_label : (Instruction.label target).IsSpellable := by
  simp [isSpellable_iff, operands, name?]

@[simp] theorem Instruction.isSpellable_jump : (Instruction.jump target).IsSpellable := by
  simp [isSpellable_iff, operands, name?]

@[simp] theorem Instruction.isSpellable_branch :
    (Instruction.branch condition target).IsSpellable ↔ condition.IsSpellable := by
  simp [isSpellable_iff, operands, name?]

end

/-! ### Expressions -/

/-- Lowered code that a text can spell, with a value that it can spell, too. -/
structure Lowered.IsSpellable {α : Type} (spells : α → Prop) (lowered : Lowered α) : Prop where
  code : IsSpellableCode lowered.code
  value : spells lowered.value

namespace Expr

theorem IsSpellable.operands {expr : Expr} (h : expr.IsSpellable) :
    ∀ operand ∈ expr.operands, operand.IsSpellable := by
  cases expr with
  | constant | name | member => exact List.forall_mem_nil _
  | binary => exact List.forall_mem_cons.mpr ⟨h.1, List.forall_mem_singleton.mpr h.2⟩
  | unary => exact List.forall_mem_singleton.mpr h
  | call => exact List.forall_mem_cons.mpr ⟨h.1, isSpellableAll_iff.mp h.2⟩
  | methodCall => exact List.forall_mem_cons.mpr ⟨h.1, isSpellableAll_iff.mp h.2.2⟩
  | construct => exact isSpellableAll_iff.mp h.2

theorem Emits.isSpellable {expr : Expr} {operands : List Operand} {instruction : Temp → Instruction}
    (hemits : expr.Emits operands instruction) (h : expr.IsSpellable)
    (hoperands : ∀ operand ∈ operands, operand.IsSpellable) (result : Temp) :
    (instruction result).IsSpellable := by
  cases hemits with
  | binary | unary | call =>
    refine ⟨hoperands, ?_⟩
    rintro _ ⟨⟩
  | methodCall =>
    refine ⟨hoperands, ?_⟩
    rintro _ ⟨⟩
    exact h.2.1
  | construct =>
    refine ⟨hoperands, ?_⟩
    rintro _ ⟨⟩
    exact h.1

theorem isSpellable_lowerAll {exprs : List Expr}
    (h : ∀ expr ∈ exprs, ∀ next, (expr.lower next).IsSpellable Operand.IsSpellable) (next : Nat) :
    (lowerAll exprs next).IsSpellable (∀ operand ∈ ·, Operand.IsSpellable operand) := by
  induction exprs generalizing next with
  | nil => exact ⟨isSpellableCode_nil, List.forall_mem_nil _⟩
  | cons expr others ih =>
    rw [List.forall_mem_cons] at h
    have hfirst := h.1 next
    have hrest := ih h.2 (expr.lower next).next
    exact ⟨isSpellableCode_append.mpr ⟨hfirst.code, hrest.code⟩,
      List.forall_mem_cons.mpr ⟨hfirst.value, hrest.value⟩⟩

theorem isSpellable_lower {expr : Expr} (h : expr.IsSpellable) (next : Nat) :
    (expr.lower next).IsSpellable Operand.IsSpellable := by
  induction expr using operation_induction generalizing next with
  | constant | name => exact ⟨isSpellableCode_nil, h⟩
  | member receiver attr span ih => exact ⟨(ih h.1 next).code, (ih h.1 next).value, h.2⟩
  | operation expr hkind ih =>
    have hoperands := isSpellable_lowerAll
      (fun operand hmem => ih operand hmem (h.operands operand hmem)) next
    obtain ⟨instruction, hemits, hlower⟩ := lower_operation hkind next
    rw [hlower]
    exact ⟨isSpellableCode_append.mpr ⟨hoperands.code,
      List.forall_mem_singleton.mpr (hemits.isSpellable h hoperands.value _)⟩, trivial⟩

theorem isSpellable_lowerTarget {target : Expr} (h : target.IsSpellable) {next : Nat}
    {place : Lowered Place} (hplace : target.lowerTarget next = .ok place) :
    place.IsSpellable (·.operand.IsSpellable) := by
  cases target with
  | name => cases hplace; exact ⟨isSpellableCode_nil, h⟩
  | member receiver =>
    cases hplace
    have hreceiver := isSpellable_lower h.1 next
    exact ⟨hreceiver.code, hreceiver.value, h.2⟩
  | _ => cases hplace

theorem isSpellable_lowerStatement {expr : Expr} (h : expr.IsSpellable) (next : Nat) :
    IsSpellableCode (expr.lowerStatement next).1 := by
  have hlowered := isSpellable_lower h next
  have hassigned : IsSpellableCode ((expr.lower next).code ++
      [.assign ⟨(expr.lower next).next⟩ (expr.lower next).value]) := by
    simp [Instruction.isSpellable_iff, Instruction.operands, Instruction.name?, hlowered.code,
      hlowered.value]
  cases expr with
  | constant | name | member => exact hassigned
  | _ => exact hlowered.code

theorem isSpellable_augmented? {target value right : Expr} {op : BinaryOp}
    (h : target.augmented? value = some (op, right)) (hvalue : value.IsSpellable) :
    right.IsSpellable := by
  cases value with
  | binary =>
    rw [augmented?] at h
    split at h
    · cases h
      exact hvalue.2
    · cases h
  | _ => cases h

end Expr

/-! ### Statements -/

namespace Stmt

theorem isSpellable_lowerAssign {target value : Expr} {next last : Nat} {code : List Instruction}
    (htarget : target.IsSpellable) (hvalue : value.IsSpellable)
    (h : lowerAssign target value next = .ok (code, last)) : IsSpellableCode code := by
  rcases lowerAssign_ok h with
    ⟨op, right, place, haugmented, hplace, rfl, -⟩ | ⟨place, -, hplace, rfl, -⟩
  · have hplace := Expr.isSpellable_lowerTarget htarget hplace
    have hright :=
      Expr.isSpellable_lower (Expr.isSpellable_augmented? haugmented hvalue) place.next
    simp [Instruction.isSpellable_iff, Instruction.operands, Instruction.name?,
      Operand.IsSpellable, hplace.code, hplace.value, hright.code, hright.value]
  · have hplace := Expr.isSpellable_lowerTarget htarget hplace
    have hvalue := Expr.isSpellable_lower hvalue next
    simp [Instruction.isSpellable_iff, Instruction.operands, Instruction.name?,
      hplace.code, hplace.value, hvalue.code, hvalue.value]

private theorem isSpellable_induction :
    (∀ around stmt start code last, lower around stmt start = .ok (code, last) →
      stmt.IsSpellable → IsSpellableCode code) ∧
    (∀ around body start code last, lowerAll around body start = .ok (code, last) →
      IsSpellableBody body → IsSpellableCode code) := by
  apply lower_induction (fun _ stmt _ code _ => stmt.IsSpellable → IsSpellableCode code)
    (fun _ body _ code _ => IsSpellableBody body → IsSpellableCode code)
  case assign =>
    intro around target value span start code next h hstmt
    exact isSpellable_lowerAssign hstmt.1 hstmt.2 h
  case branch =>
    intro around test thenBody span start thenCode last hthen hstmt
    have htest := Expr.isSpellable_lower hstmt.1 start.temp
    simp [htest.code, htest.value, hthen hstmt.2.1]
  case branchElse =>
    intro around test thenBody elseBody span start thenCode mid elseCode last _ hthen helse hstmt
    have htest := Expr.isSpellable_lower hstmt.1 start.temp
    simp [htest.code, htest.value, hthen hstmt.2.1, helse hstmt.2.2.2]
  case loop =>
    intro around test body span start bodyCode last hbody hstmt
    have htest := Expr.isSpellable_lower hstmt.1 start.temp
    simp [htest.code, htest.value, hbody hstmt.2]
  case leave =>
    intro around span start _ _
    simp [Instruction.isSpellable_iff, Instruction.operands, Instruction.name?]
  case leaveWith =>
    intro around value span start _ hstmt
    have hvalue := Expr.isSpellable_lower hstmt start.temp
    simp [Instruction.isSpellable_iff, Instruction.operands, Instruction.name?, hvalue.code,
      hvalue.value]
  case pass => exact fun _ _ _ _ => isSpellableCode_nil
  case breakLoop => simp
  case continueLoop => simp
  case eval =>
    intro around expr span start hstmt
    exact Expr.isSpellable_lowerStatement hstmt start.temp
  case nil => exact fun _ _ _ => isSpellableCode_nil
  case cons =>
    intro around stmt others start first mid rest last _ hfirst hrest hstmts
    exact isSpellableCode_append.mpr ⟨hfirst hstmts.1, hrest hstmts.2⟩

theorem isSpellable_lower {around : Surroundings} {stmt : Stmt} {start last : Counters}
    {code : List Instruction} (hstmt : stmt.IsSpellable)
    (h : lower around stmt start = .ok (code, last)) : IsSpellableCode code :=
  isSpellable_induction.1 around stmt start code last h hstmt

theorem isSpellable_lowerAll_body {around : Surroundings} {body : List Stmt}
    {start last : Counters} {code : List Instruction} (hbody : ∀ stmt ∈ body, stmt.IsSpellable)
    (h : lowerAll around body start = .ok (code, last)) : IsSpellableCode code :=
  isSpellable_induction.2 around body start code last h (isSpellableBody_iff.mpr hbody)

end Stmt

/-! ### Programs -/

/-- Whether a text can spell the names and the values in a procedure. -/
structure Procedure.IsSpellable (procedure : Procedure) : Prop where
  name : ∀ c ∈ procedure.name.toList, isPlain c = true
  params : ∀ param ∈ procedure.params, isName param = true
  body : IsSpellableCode procedure.body

/-- Whether a text can spell the names and the values in a lowered program. -/
structure Listing.IsSpellable (listing : Listing) : Prop where
  procedures : ∀ procedure ∈ listing.procedures, procedure.IsSpellable
  toplevel : IsSpellableCode listing.toplevel

namespace FunctionDef

theorem isSpellable_lower {definition : FunctionDef Stmt} {name : String} {returns : Bool}
    {procedure : Procedure} (hdefinition : Stmt.IsSpellableFunction definition)
    (hname : ∀ c ∈ name.toList, isPlain c = true)
    (h : definition.lower name returns = .ok procedure) : procedure.IsSpellable := by
  obtain ⟨-, hparams, hbody⟩ := Stmt.isSpellableFunction_iff.mp hdefinition
  obtain ⟨⟨code, last⟩, hcode, h⟩ := exists_of_bind_eq_ok h
  cases h
  refine ⟨hname, List.forall_mem_map.mpr hparams,
    isSpellableCode_append.mpr ⟨Stmt.isSpellable_lowerAll_body hbody hcode, ?_⟩⟩
  split <;> simp [Instruction.isSpellable_iff, Instruction.operands, Instruction.name?]

theorem isSpellable_lowerMethod {method : FunctionDef Stmt} {className : String}
    {procedure : Procedure} (hmethod : Stmt.IsSpellableFunction method)
    (hclass : isName className = true) (h : method.lowerMethod className = .ok procedure) :
    procedure.IsSpellable := by
  refine isSpellable_lower hmethod ?_ h
  rw [FunctionDef.qualifiedName, String.toList_append, String.toList_append]
  exact List.forall_mem_append.mpr ⟨List.forall_mem_append.mpr
    ⟨isPlain_of_isName hclass, List.all_eq_true.mp rfl⟩,
    isPlain_of_isName (Stmt.isSpellableFunction_iff.mp hmethod).1⟩

end FunctionDef

namespace Listing

theorem isSpellable_putMethods {className : String} {methods : List (FunctionDef Stmt)}
    {entries last : List (String × Procedure)} (hclass : isName className = true)
    (hmethods : ∀ method ∈ methods, Stmt.IsSpellableFunction method)
    (h : putMethods className methods entries = .ok last)
    (hentries : ∀ entry ∈ entries, entry.2.IsSpellable) : ∀ entry ∈ last, entry.2.IsSpellable := by
  induction methods generalizing entries with
  | nil => cases h; exact hentries
  | cons method others ih =>
    rw [List.forall_mem_cons] at hmethods
    obtain ⟨procedure, hmethod, h⟩ := exists_of_bind_eq_ok h
    exact ih hmethods.2 h (forall_mem_put
      (FunctionDef.isSpellable_lowerMethod hmethods.1 hclass hmethod) hentries)

theorem isSpellable_ofStmts {stmts : List Stmt} {entries : List (String × Procedure)}
    {start : Counters} {listing : Listing} (hstmts : ∀ stmt ∈ stmts, stmt.IsSpellable)
    (h : ofStmts stmts entries start = .ok listing)
    (hentries : ∀ entry ∈ entries, entry.2.IsSpellable) : listing.IsSpellable := by
  induction stmts, entries, start using ofStmts.induct generalizing listing with
  | case1 entries start =>
    cases h
    exact ⟨List.forall_mem_map.mpr hentries, isSpellableCode_nil⟩
  | case2 definition span others entries start ih =>
    rw [List.forall_mem_cons] at hstmts
    obtain ⟨procedure, hprocedure, h⟩ := exists_of_bind_eq_ok h
    have hname := isPlain_of_isName (Stmt.isSpellableFunction_iff.mp hstmts.1).1
    exact ih procedure hstmts.2 h (forall_mem_put
      (FunctionDef.isSpellable_lower hstmts.1 hname hprocedure) hentries)
  | case3 name methods span others entries start ih =>
    rw [List.forall_mem_cons] at hstmts
    obtain ⟨last, hlast, h⟩ := exists_of_bind_eq_ok h
    exact ih last hstmts.2 h (isSpellable_putMethods hstmts.1.1
      (Stmt.isSpellableFunctions_iff.mp hstmts.1.2) hlast hentries)
  | case4 stmt others entries start hfunction hclass ih =>
    rw [List.forall_mem_cons] at hstmts
    rw [ofStmts.eq_4 entries start stmt others hfunction hclass] at h
    obtain ⟨⟨code, mid⟩, hcode, h⟩ := exists_of_bind_eq_ok h
    obtain ⟨rest, hrest, h⟩ := exists_of_bind_eq_ok h
    cases h
    have hothers := ih mid hstmts.2 hrest hentries
    exact ⟨hothers.procedures, isSpellableCode_append.mpr
      ⟨Stmt.isSpellable_lower hstmts.1 hcode, hothers.toplevel⟩⟩

end Listing

/-- The code of a program that a text can spell is such as a text can spell. -/
theorem Module.isSpellable_lower {program : Module} {listing : Listing} (h : program.IsSpellable)
    (hlower : program.lower = .ok listing) : listing.IsSpellable :=
  Listing.isSpellable_ofStmts h hlower (List.forall_mem_nil _)

end Offside
