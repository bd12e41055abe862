/-
The temporaries of lowered code.  In every scope they are given out one after another and each is
written once; what an instruction reads was written by the straight code right in front of it, so
that no run of the machine reads a temporary that it has not written.
-/
import Offside.Proofs.Code.Machine
import Offside.Proofs.Code.Reconstruction

namespace Offside

universe u

/-! ### The temporaries that code writes -/

/-- The temporaries that code writes, in order. -/
def results (code : List Instruction) : List Temp :=
  code.filterMap Instruction.result?

@[simp] theorem results_nil : results [] = [] := rfl

@[simp] theorem results_cons (i : Instruction) (code : List Instruction) :
    results (i :: code) = i.result?.toList ++ results code := by
  cases i <;> rfl

@[simp] theorem results_append (left right : List Instruction) :
    results (left ++ right) = results left ++ results right :=
  List.filterMap_append

/-- The temporaries with consecutive numbers from `first` on. -/
def tempsFrom (first count : Nat) : List Temp :=
  (List.range' first count).map Temp.mk

theorem tempsFrom_add (first left right : Nat) :
    tempsFrom first (left + right) = tempsFrom first left ++ tempsFrom (first + left) right := by
  simp [tempsFrom, ← List.map_append, List.range'_append_1]

/-- Code writes exactly the temporaries whose numbers were taken while lowering it, in order. -/
def TakesTemps (start : Nat) (code : List Instruction) (last : Nat) : Prop :=
  ∃ count, last = start + count ∧ results code = tempsFrom start count

namespace TakesTemps

variable {start mid last : Nat} {left right code : List Instruction} {i : Instruction}

theorem of_results_eq_nil (h : results code = []) : TakesTemps start code start :=
  ⟨0, rfl, h⟩

theorem of_result (h : i.result? = some ⟨start⟩) : TakesTemps start [i] (start + 1) :=
  ⟨1, rfl, by simp [h, tempsFrom]⟩

theorem append (hleft : TakesTemps start left mid) (hright : TakesTemps mid right last) :
    TakesTemps start (left ++ right) last := by
  obtain ⟨m, rfl, hm⟩ := hleft
  obtain ⟨n, rfl, hn⟩ := hright
  exact ⟨m + n, Nat.add_assoc .., by rw [results_append, tempsFrom_add, hm, hn]⟩

theorem append_quiet (h : TakesTemps start left last) (hright : results right = []) :
    TakesTemps start (left ++ right) last :=
  h.append (of_results_eq_nil hright)

end TakesTemps

theorem EmitsAll.takesTemps {next : Nat} {operations : List Expr} {code : List Instruction}
    (h : EmitsAll next operations code) : TakesTemps next code (next + operations.length) := by
  induction h with
  | nil => exact .of_results_eq_nil rfl
  | @cons next expr operands instruction others code hemits _ ih =>
    have hfirst : TakesTemps next [instruction ⟨next⟩] (next + 1) :=
      .of_result (hemits.result? _)
    rw [List.length_cons, Nat.add_comm others.length, ← Nat.add_assoc]
    exact hfirst.append ih

namespace Expr

theorem takesTemps_lower (expr : Expr) (next : Nat) :
    TakesTemps next (expr.lower next).code (expr.lower next).next := by
  have hperforms := performs_lower expr next
  rw [hperforms.next]
  exact hperforms.code.takesTemps

theorem takesTemps_lowerTarget {target : Expr} {next : Nat} {place : Lowered Place}
    (h : target.lowerTarget next = .ok place) : TakesTemps next place.code place.next := by
  cases target with
  | name => cases h; exact .of_results_eq_nil rfl
  | member receiver => cases h; exact takesTemps_lower receiver next
  | _ => cases h

theorem takesTemps_lowerStatement (expr : Expr) (next : Nat) :
    TakesTemps next (expr.lowerStatement next).1 (expr.lowerStatement next).2 := by
  have hcode := expr.takesTemps_lower next
  cases expr with
  | constant | name | member => exact hcode.append (.of_result rfl)
  | _ => exact hcode

end Expr

/-! ### The temporaries that are at hand -/

/-- The temporaries at hand behind an instruction: those from before it and its result, and none
where control may come from elsewhere or go elsewhere. -/
def Instruction.after (known : List Temp) (i : Instruction) : List Temp :=
  if i.isStraight then known ++ i.result?.toList else []

/-- The temporaries at hand behind code. -/
def available (known : List Temp) (code : List Instruction) : List Temp :=
  code.foldl Instruction.after known

/-- Each instruction reads only temporaries that are at hand in front of it. -/
def Supplied (known : List Temp) : List Instruction → Prop
  | [] => True
  | i :: code => (∀ temp ∈ i.reads, temp ∈ known) ∧ Supplied (i.after known) code

section

variable {known other : List Temp} {i : Instruction} {left right code : List Instruction}

theorem Instruction.after_subset (h : known ⊆ other) : i.after known ⊆ i.after other := by
  rw [after, after]
  split
  · exact List.append_subset.mpr
      ⟨List.Subset.trans h (List.subset_append_left _ _), List.subset_append_right _ _⟩
  · exact List.Subset.refl _

theorem available_append :
    available known (left ++ right) = available (available known left) right :=
  List.foldl_append

theorem subset_available (hcode : ∀ i ∈ code, i.isStraight = true) :
    known ⊆ available known code := by
  induction code generalizing known with
  | nil => exact List.Subset.refl _
  | cons i code ih =>
    rw [List.forall_mem_cons] at hcode
    have hafter : known ⊆ i.after known := by
      rw [Instruction.after, if_pos hcode.1]
      exact List.subset_append_left _ _
    exact List.Subset.trans hafter (ih hcode.2)

namespace Supplied

theorem mono (h : Supplied known code) (hsub : known ⊆ other) : Supplied other code := by
  induction code generalizing known other with
  | nil => trivial
  | cons i code ih =>
    exact ⟨fun temp htemp => hsub (h.1 temp htemp), ih h.2 (Instruction.after_subset hsub)⟩

theorem append (hleft : Supplied known left) (hright : Supplied (available known left) right) :
    Supplied known (left ++ right) := by
  induction left generalizing known with
  | nil => exact hright
  | cons i left ih => exact ⟨hleft.1, ih hleft.2 hright⟩

theorem of_closed (h : Supplied [] code) : Supplied known code :=
  h.mono (List.nil_subset _)

/-- Code that needs nothing at hand may stand behind any code. -/
theorem append_closed (hleft : Supplied known left) (hright : Supplied [] right) :
    Supplied known (left ++ right) :=
  hleft.append hright.of_closed

end Supplied

theorem supplied_of_reads_eq_nil (h : ∀ i ∈ code, i.reads = []) : Supplied known code := by
  induction code generalizing known with
  | nil => trivial
  | cons i code ih =>
    rw [List.forall_mem_cons] at h
    refine ⟨fun temp htemp => ?_, ih h.2⟩
    rw [h.1] at htemp
    cases htemp

end

/-- Lowered code that needs nothing at hand, with everything at hand behind it that its value
reads. -/
structure Lowered.Supplied {α : Type} (temps : α → List Temp) (lowered : Lowered α) : Prop where
  code : ∀ known, Offside.Supplied known lowered.code
  value : ∀ known, temps lowered.value ⊆ available known lowered.code

theorem Expr.Emits.reads {expr : Expr} {operands : List Operand}
    {instruction : Temp → Instruction} (h : expr.Emits operands instruction) (result : Temp) :
    (instruction result).reads = operands.flatMap Operand.temps := by
  cases h <;> simp [Instruction.reads]

namespace Expr

theorem supplied_lowerAll {exprs : List Expr}
    (h : ∀ expr ∈ exprs, ∀ next, (expr.lower next).Supplied Operand.temps) (next : Nat) :
    (lowerAll exprs next).Supplied (·.flatMap Operand.temps) := by
  induction exprs generalizing next with
  | nil => exact ⟨fun known => trivial, fun known => List.nil_subset _⟩
  | cons expr others ih =>
    have hrestStraight : ∀ i ∈ (lowerAll others (expr.lower next).next).code, i.isStraight = true :=
      isStraight_of_mem_lowerAll (fun arg _ next => arg.isStraight_of_mem_lower next) _
    rw [List.forall_mem_cons] at h
    have hfirst := h.1 next
    have hrest := ih h.2 (expr.lower next).next
    constructor
    · exact fun known => (hfirst.code known).append (hrest.code _)
    · intro known
      rw [lowerAll, available_append, List.flatMap_cons, List.append_subset]
      exact ⟨List.Subset.trans (hfirst.value known) (subset_available hrestStraight),
        hrest.value _⟩

theorem supplied_lower (expr : Expr) (next : Nat) :
    (expr.lower next).Supplied Operand.temps := by
  induction expr using operation_induction generalizing next with
  | constant => exact ⟨fun known => trivial, fun known => List.nil_subset _⟩
  | name => exact ⟨fun known => trivial, fun known => List.nil_subset _⟩
  | member receiver attr span ih => exact ⟨(ih next).code, (ih next).value⟩
  | operation expr hkind ih =>
    have hoperands := supplied_lowerAll ih next
    have hstraight := expr.isStraight_of_mem_lower next
    obtain ⟨instruction, hemits, hlower⟩ := lower_operation hkind next
    rw [hlower, Lowered.emit] at hstraight ⊢
    have hlast := hstraight _ (List.mem_append_right _ (List.mem_singleton.mpr rfl))
    constructor
    · refine fun known => (hoperands.code known).append ⟨?_, trivial⟩
      rw [hemits.reads]
      exact hoperands.value known
    · intro known
      rw [available_append]
      simp only [available, List.foldl_cons, List.foldl_nil, Instruction.after, hlast, if_true,
        hemits.result?, Option.toList_some, Operand.temps]
      exact List.subset_append_right _ _

theorem supplied_lowerTarget {target : Expr} {next : Nat} {place : Lowered Place}
    (h : target.lowerTarget next = .ok place) : place.Supplied Place.temps := by
  cases target with
  | name => cases h; exact ⟨fun known => trivial, fun known => List.nil_subset _⟩
  | member receiver =>
    cases h
    exact ⟨(supplied_lower receiver next).code, (supplied_lower receiver next).value⟩
  | _ => cases h

/-- Code behind an expression that reads at most the value of the expression at first. -/
theorem supplied_lower_append (expr : Expr) (next : Nat) {known : List Temp}
    {rest : List Instruction} (h : Supplied (expr.lower next).value.temps rest) :
    Supplied known ((expr.lower next).code ++ rest) :=
  ((supplied_lower expr next).code known).append (h.mono ((supplied_lower expr next).value known))

theorem supplied_lowerStatement (expr : Expr) (next : Nat) :
    Supplied [] (expr.lowerStatement next).1 := by
  have hassigned : Supplied [] ((expr.lower next).code ++
      [.assign ⟨(expr.lower next).next⟩ (expr.lower next).value]) :=
    supplied_lower_append expr next ⟨fun temp htemp => htemp, trivial⟩
  have hcode := (supplied_lower expr next).code []
  cases expr with
  | constant | name | member => exact hassigned
  | _ => exact hcode

end Expr

/-! ### Statements and scopes -/

/-- Code that writes the temporaries whose numbers were taken while lowering it, in order, and that
reads only what its own straight code has written. -/
structure KeepsTemps (start : Nat) (code : List Instruction) (last : Nat) : Prop where
  takes : TakesTemps start code last
  supplied : Supplied [] code

namespace KeepsTemps

variable {start mid last : Nat} {left right code : List Instruction}

theorem append (hleft : KeepsTemps start left mid) (hright : KeepsTemps mid right last) :
    KeepsTemps start (left ++ right) last :=
  ⟨hleft.takes.append hright.takes, hleft.supplied.append_closed hright.supplied⟩

/-- Instructions that neither read nor write a temporary. -/
theorem of_idle (h : ∀ i ∈ code, i.result? = none ∧ i.reads = []) :
    KeepsTemps start code start where
  takes := .of_results_eq_nil (List.filterMap_eq_nil_iff.mpr fun i hi => (h i hi).1)
  supplied := supplied_of_reads_eq_nil fun i hi => (h i hi).2

/-- An expression, and instructions behind it that write nothing and read at most its value. -/
theorem of_value (expr : Expr) (next : Nat) {rest : List Instruction}
    (hresults : results rest = []) (hrest : Supplied (expr.lower next).value.temps rest) :
    KeepsTemps next ((expr.lower next).code ++ rest) (expr.lower next).next where
  takes := (expr.takesTemps_lower next).append_quiet hresults
  supplied := expr.supplied_lower_append next hrest

/-- The code of a condition and the jumps behind it. -/
theorem of_test (test : Expr) (next : Nat) (yes no : Label) :
    KeepsTemps next
      ((test.lower next).code ++ [.branch (test.lower next).value yes, .jump no, .label yes])
      (test.lower next).next :=
  of_value test next rfl
    ⟨fun _ htemp => htemp, supplied_of_reads_eq_nil (by simp [Instruction.reads])⟩

end KeepsTemps

namespace Stmt

theorem keepsTemps_lowerAssign {target value : Expr} {next last : Nat} {code : List Instruction}
    (h : lowerAssign target value next = .ok (code, last)) : KeepsTemps next code last := by
  rcases lowerAssign_ok h with
    ⟨op, right, place, -, hplace, rfl, rfl⟩ | ⟨place, -, hplace, rfl, rfl⟩
  · have hright := right.supplied_lower place.next
    have hplaceSupplied := Expr.supplied_lowerTarget hplace
    constructor
    · have hlast (result : Nat) (left value : Operand) (target : Place) : TakesTemps result
          [.binary ⟨result⟩ op left value, .store (.temp ⟨result⟩) target] (result + 1) :=
        ⟨1, rfl, rfl⟩
      exact ((Expr.takesTemps_lowerTarget hplace).append
        (right.takesTemps_lower place.next)).append (hlast _ _ _ _)
    · -- the place is read by the operation and by the store, behind the code of the right operand
      have hread : place.value.temps ⊆ available [] (place.code ++ (right.lower place.next).code) := by
        rw [available_append]
        exact List.Subset.trans (hplaceSupplied.value [])
          (subset_available (right.isStraight_of_mem_lower place.next))
      have hvalue : (right.lower place.next).value.temps ⊆
          available [] (place.code ++ (right.lower place.next).code) := by
        rw [available_append]
        exact hright.value _
      refine ((hplaceSupplied.code []).append (hright.code _)).append ⟨?_, ?_, trivial⟩
      · have hoperand : place.value.operand.temps = place.value.temps := by
          cases place.value <;> rfl
        rw [Instruction.reads, hoperand]
        exact List.append_subset.mpr ⟨hread, hvalue⟩
      · simp only [Instruction.after, Instruction.isStraight, if_true, Instruction.result?,
          Option.toList_some, Instruction.reads, Operand.temps]
        exact List.append_subset.mpr
          ⟨List.subset_append_right _ _, List.Subset.trans hread (List.subset_append_left _ _)⟩
  · have hvalue := value.supplied_lower next
    have hplaceSupplied := Expr.supplied_lowerTarget hplace
    constructor
    · exact ((value.takesTemps_lower next).append (Expr.takesTemps_lowerTarget hplace)).append_quiet
        rfl
    · refine ((hvalue.code []).append (hplaceSupplied.code _)).append ⟨?_, trivial⟩
      rw [available_append]
      exact List.append_subset.mpr
        ⟨List.Subset.trans (hvalue.value [])
            (subset_available (Expr.isStraight_of_mem_lowerTarget hplace)),
          hplaceSupplied.value _⟩

private theorem keepsTemps_induction :
    (∀ around stmt start code last, lower around stmt start = .ok (code, last) →
      KeepsTemps start.temp code last.temp) ∧
    (∀ around body start code last, lowerAll around body start = .ok (code, last) →
      KeepsTemps start.temp code last.temp) := by
  apply lower_induction (fun _ _ start code last => KeepsTemps start.temp code last.temp)
    (fun _ _ start code last => KeepsTemps start.temp code last.temp)
  case assign =>
    intro around target value span start code next h
    exact keepsTemps_lowerAssign h
  case branch =>
    intro around test thenBody span start thenCode last hthen
    exact ((KeepsTemps.of_test test start.temp _ _).append hthen).append
      (.of_idle (by simp [Instruction.result?, Instruction.reads]))
  case branchElse =>
    intro around test thenBody elseBody span start thenCode mid elseCode last _ hthen helse
    exact ((((KeepsTemps.of_test test start.temp _ _).append hthen).append
      (.of_idle (by simp [Instruction.result?, Instruction.reads]))).append helse).append
      (.of_idle (by simp [Instruction.result?, Instruction.reads]))
  case loop =>
    intro around test body span start bodyCode last hbody
    rw [List.append_assoc [Instruction.label ⟨start.label⟩]]
    have hhead : KeepsTemps start.temp [.label ⟨start.label⟩] start.temp :=
      .of_idle (by simp [Instruction.result?, Instruction.reads])
    exact ((hhead.append (.of_test test start.temp _ _)).append hbody).append
      (.of_idle (by simp [Instruction.result?, Instruction.reads]))
  case leave =>
    intro around span start _
    exact .of_idle (by simp [Instruction.result?, Instruction.reads])
  case leaveWith =>
    intro around value span start _
    exact .of_value value start.temp rfl ⟨fun _ htemp => htemp, trivial⟩
  case pass =>
    intro around span start
    exact .of_idle (by simp)
  case breakLoop =>
    intro around span start labels _
    exact .of_idle (by simp [Instruction.result?, Instruction.reads])
  case continueLoop =>
    intro around span start labels _
    exact .of_idle (by simp [Instruction.result?, Instruction.reads])
  case eval =>
    intro around expr span start
    exact ⟨expr.takesTemps_lowerStatement start.temp, expr.supplied_lowerStatement start.temp⟩
  case nil =>
    intro around start
    exact .of_idle (by simp)
  case cons =>
    intro around stmt others start first mid rest last _ hfirst hrest
    exact hfirst.append hrest

theorem keepsTemps_lower {around : Surroundings} {stmt : Stmt} {start last : Counters}
    {code : List Instruction} (h : lower around stmt start = .ok (code, last)) :
    KeepsTemps start.temp code last.temp :=
  keepsTemps_induction.1 around stmt start code last h

theorem keepsTemps_lowerAll {around : Surroundings} {body : List Stmt} {start last : Counters}
    {code : List Instruction} (h : lowerAll around body start = .ok (code, last)) :
    KeepsTemps start.temp code last.temp :=
  keepsTemps_induction.2 around body start code last h

end Stmt

/-- A procedure whose body keeps its temporaries, which are numbered from one on. -/
def Procedure.KeepsTemps (procedure : Procedure) : Prop :=
  ∃ last, Offside.KeepsTemps 1 procedure.body last

theorem FunctionDef.keepsTemps_lower {definition : FunctionDef Stmt} {name : String}
    {returns : Bool} {procedure : Procedure}
    (h : definition.lower name returns = .ok procedure) : procedure.KeepsTemps := by
  obtain ⟨⟨code, last⟩, hcode, h⟩ := exists_of_bind_eq_ok h
  cases h
  refine ⟨last.temp, (Stmt.keepsTemps_lowerAll hcode).append (.of_idle ?_)⟩
  intro i hi
  split at hi
  · rw [List.mem_singleton.mp hi]
    exact ⟨rfl, rfl⟩
  · cases hi

namespace Listing

theorem forall_mem_put {P : String × Procedure → Prop} {entries : List (String × Procedure)}
    {key : String} {new : Procedure} (hnew : P (key, new)) (h : ∀ entry ∈ entries, P entry) :
    ∀ entry ∈ put entries key new, P entry := by
  induction entries with
  | nil => exact List.forall_mem_singleton.mpr hnew
  | cons old others ih =>
    rw [List.forall_mem_cons] at h
    rw [put]
    split
    · exact List.forall_mem_cons.mpr ⟨hnew, h.2⟩
    · exact List.forall_mem_cons.mpr ⟨h.1, ih h.2⟩

theorem keepsTemps_putMethods {className : String} {methods : List (FunctionDef Stmt)}
    {entries last : List (String × Procedure)}
    (h : putMethods className methods entries = .ok last)
    (hkeep : ∀ entry ∈ entries, entry.2.KeepsTemps) : ∀ entry ∈ last, entry.2.KeepsTemps := by
  induction methods generalizing entries with
  | nil => cases h; exact hkeep
  | cons method others ih =>
    obtain ⟨procedure, hmethod, h⟩ := exists_of_bind_eq_ok h
    exact ih h (forall_mem_put (FunctionDef.keepsTemps_lower hmethod) hkeep)

theorem keepsTemps_ofStmts {stmts : List Stmt} {entries : List (String × Procedure)}
    {start : Counters} {listing : Listing} (h : ofStmts stmts entries start = .ok listing)
    (hkeep : ∀ entry ∈ entries, entry.2.KeepsTemps) :
    (∀ procedure ∈ listing.procedures, procedure.KeepsTemps) ∧
      ∃ last, KeepsTemps start.temp listing.toplevel last := by
  induction stmts, entries, start using ofStmts.induct generalizing listing with
  | case1 entries start =>
    cases h
    exact ⟨List.forall_mem_map.mpr hkeep, start.temp, .of_idle (by simp)⟩
  | case2 definition span others entries start ih =>
    obtain ⟨procedure, hprocedure, h⟩ := exists_of_bind_eq_ok h
    exact ih procedure h (forall_mem_put (FunctionDef.keepsTemps_lower hprocedure) hkeep)
  | case3 name methods span others entries start ih =>
    obtain ⟨last, hlast, h⟩ := exists_of_bind_eq_ok h
    exact ih last h (keepsTemps_putMethods hlast hkeep)
  | case4 stmt others entries start hfunction hclass ih =>
    rw [ofStmts.eq_4 entries start stmt others hfunction hclass] at h
    obtain ⟨⟨code, mid⟩, hcode, h⟩ := exists_of_bind_eq_ok h
    obtain ⟨rest, hrest, h⟩ := exists_of_bind_eq_ok h
    cases h
    obtain ⟨hprocedures, last, hlast⟩ := ih mid hrest hkeep
    exact ⟨hprocedures, last, (Stmt.keepsTemps_lower hcode).append hlast⟩

end Listing

/-! ### Places -/

/-- The instruction at `j` writes a temporary for the one at `i`, and between them control only goes
from one instruction to the next. -/
structure Supplies (code : List Instruction) (temp : Temp) (j i : Nat) : Prop where
  lt : j < i
  writes : ∃ writer, code[j]? = some writer ∧ writer.result? = some temp
  straight : ∀ k between, j < k → k < i → code[k]? = some between → between.isStraight = true

theorem Supplies.succ {head : Instruction} {code : List Instruction} {temp : Temp} {j i : Nat}
    (h : Supplies code temp j i) : Supplies (head :: code) temp (j + 1) (i + 1) where
  lt := Nat.succ_lt_succ h.lt
  writes := h.writes
  straight := by
    intro k between hj hi hk
    cases k with
    | zero => exact absurd hj (Nat.not_lt_zero _)
    | succ k => exact h.straight k between (Nat.lt_of_succ_lt_succ hj) (Nat.lt_of_succ_lt_succ hi) hk

/-- What an instruction reads was written in the code, or was at hand in front of it and control
comes from there. -/
theorem Supplied.supplies {known : List Temp} {code : List Instruction} (h : Supplied known code)
    {i : Nat} {reader : Instruction} {temp : Temp} (hi : code[i]? = some reader)
    (htemp : temp ∈ reader.reads) :
    (∃ j, Supplies code temp j i) ∨
      (temp ∈ known ∧ ∀ k between, k < i → code[k]? = some between → between.isStraight = true) := by
  induction code generalizing known i with
  | nil => cases hi
  | cons head code ih =>
    cases i with
    | zero =>
      cases hi
      exact .inr ⟨h.1 temp htemp, fun k _ hk => absurd hk (Nat.not_lt_zero k)⟩
    | succ i =>
      rcases ih h.2 hi with ⟨j, hj⟩ | ⟨hknown, hstraight⟩
      · exact .inl ⟨j + 1, hj.succ⟩
      · rw [Instruction.after] at hknown
        split at hknown
        case isFalse => cases hknown
        case isTrue hhead =>
          rcases List.mem_append.mp hknown with hknown | hresult
          · refine .inr ⟨hknown, fun k between hk hbetween => ?_⟩
            cases k with
            | zero => cases hbetween; exact hhead
            | succ k => exact hstraight k between (Nat.lt_of_succ_lt_succ hk) hbetween
          · refine .inl ⟨0, Nat.succ_pos i, ⟨head, rfl, Option.mem_toList.mp hresult⟩, ?_⟩
            intro k between hpos hk hbetween
            cases k with
            | zero => exact absurd hpos (Nat.lt_irrefl 0)
            | succ k => exact hstraight k between (Nat.lt_of_succ_lt_succ hk) hbetween

/-! ### Runs -/

namespace Interpretation

variable {σ : Type u} {I : Interpretation σ} {program : List Instruction}

theorem Steps.exists_last {n : Nat} {c e : Config σ} (h : I.Steps program (n + 1) c e) :
    ∃ d, I.Steps program n c d ∧ I.step program d = some e := by
  induction n generalizing c with
  | zero =>
    obtain _ | ⟨hstep, hrest⟩ := h
    cases hrest
    exact ⟨c, .refl c, hstep⟩
  | succ n ih =>
    obtain _ | ⟨hstep, hrest⟩ := h
    obtain ⟨d, hsteps, hlast⟩ := ih hrest
    exact ⟨d, .head hstep hsteps, hlast⟩

theorem getElem?_of_labelPlace? {label : Label} {place : Nat}
    (h : labelPlace? program label = some place) : program[place]? = some (.label label) := by
  obtain ⟨hlt, hat, -⟩ := List.idxOf?_eq_some_iff.mp h
  exact List.getElem?_eq_some_iff.mpr ⟨hlt, hat⟩

/-- A step that does not end at a label goes on to the next instruction. -/
theorem place_of_step {c d : Config σ} (hstep : I.step program c = some d)
    (hlabel : ∀ label, program[d.place]? ≠ some (.label label)) : d.place = c.place + 1 := by
  have hjump (target : Label) :
      (labelPlace? program target).map (⟨·, c.state⟩ : Nat → Config σ) ≠ some d := by
    intro h
    obtain ⟨place, hplace, rfl⟩ := Option.map_eq_some_iff.mp h
    exact hlabel target (getElem?_of_labelPlace? hplace)
  rw [step] at hstep
  split at hstep
  case h_1 | h_2 => cases hstep
  case h_3 => cases hstep; rfl
  case h_4 target _ => exact absurd hstep (hjump target)
  case h_5 condition target _ =>
    split at hstep
    · exact absurd hstep (hjump target)
    · cases hstep; rfl
  case h_6 =>
    obtain ⟨state, -, rfl⟩ := Option.map_eq_some_iff.mp hstep
    rfl

/-- A run that comes to a place by instructions without a label came there one by one. -/
theorem Steps.back {n j d : Nat} {start final : σ}
    (h : I.Steps program n ⟨0, start⟩ ⟨j + d, final⟩)
    (hlabel : ∀ k label, j < k → k ≤ j + d → program[k]? ≠ some (.label label)) :
    ∃ m mid, n = m + d ∧ I.Steps program m ⟨0, start⟩ ⟨j, mid⟩ ∧
      I.Steps program d ⟨j, mid⟩ ⟨j + d, final⟩ := by
  induction d generalizing n final with
  | zero => exact ⟨n, final, rfl, h, .refl _⟩
  | succ d ih =>
    cases n with
    | zero => cases h
    | succ n =>
      obtain ⟨⟨place, state⟩, hsteps, hstep⟩ := h.exists_last
      have hbehind : j < j + (d + 1) := Nat.lt_add_of_pos_right (Nat.succ_pos d)
      have hplace := place_of_step hstep (fun label => hlabel _ label hbehind (Nat.le_refl _))
      obtain rfl : place = j + d := (Nat.succ.inj hplace).symm
      obtain ⟨m, mid, rfl, hbefore, hbehind⟩ :=
        ih hsteps (fun k label hj hk => hlabel k label hj (Nat.le_succ_of_le hk))
      exact ⟨m, mid, rfl, hbefore, hbehind.trans (.head hstep (.refl _))⟩

/-- A run of this many steps from the first instruction to the one at `i` has, on its way, carried
out the one at `j`, which writes the temporary, and only went from one instruction to the next
since. -/
def PassesWriter (I : Interpretation σ) (program : List Instruction) (temp : Temp) (j i n : Nat)
    (start final : σ) : Prop :=
  ∃ writer m mid next, program[j]? = some writer ∧ writer.result? = some temp ∧
    I.Steps program m ⟨0, start⟩ ⟨j, mid⟩ ∧ I.effect writer mid = some next ∧
    I.Steps program (i - (j + 1)) ⟨j + 1, next⟩ ⟨i, final⟩ ∧ n = m + (i - j)

end Interpretation

theorem Instruction.isStraight_of_result? {i : Instruction} {temp : Temp}
    (h : i.result? = some temp) : i.isStraight = true := by
  cases i with
  | leave | label | branch | jump => cases h
  | _ => rfl

/-- Where one instruction writes a temporary for another, no run gets around it. -/
theorem Supplies.passesWriter {σ : Type u} {code : List Instruction} {temp : Temp} {j i n : Nat}
    (h : Supplies code temp j i) {reader : Instruction} (hi : code[i]? = some reader)
    (htemp : temp ∈ reader.reads) (I : Interpretation σ) {start final : σ}
    (hsteps : I.Steps code n ⟨0, start⟩ ⟨i, final⟩) :
    I.PassesWriter code temp j i n start final := by
  obtain ⟨writer, hwriter, hresult⟩ := h.writes
  obtain ⟨d, rfl⟩ := Nat.exists_eq_add_of_lt h.lt
  have hlabel (k : Nat) (label : Label) (hj : j < k) (hk : k ≤ j + (d + 1)) :
      code[k]? ≠ some (.label label) := by
    intro hat
    rcases Nat.lt_or_eq_of_le hk with hk | rfl
    · cases h.straight k _ hj hk hat
    · cases hi.symm.trans hat
      cases htemp
  obtain ⟨m, mid, rfl, hbefore, hbehind⟩ :=
    Interpretation.Steps.back (j := j) (d := d + 1) hsteps hlabel
  obtain _ | ⟨hstep, hrest⟩ := hbehind
  rw [Interpretation.step_of_isStraight hwriter
    (Instruction.isStraight_of_result? hresult)] at hstep
  obtain ⟨next, hnext, rfl⟩ := Option.map_eq_some_iff.mp hstep
  have hdistance : j + d + 1 - (j + 1) = d := by omega
  refine ⟨writer, m, mid, next, hwriter, hresult, hbefore, hnext, ?_, by omega⟩
  rwa [hdistance]

/-- The scopes of a lowered program: its toplevel code and the body of each procedure. -/
def Listing.scopes (listing : Listing) : List (List Instruction) :=
  listing.toplevel :: listing.procedures.map Procedure.body

/-- In every scope of a lowered program the temporaries from `t1` on are written one after another,
each once.  A temporary that an instruction reads was written in front of it, with neither a label
nor a jump, branch or return between the two, and so every run that comes to the instruction has
written the temporary on its way. -/
theorem Module.lower_temps {program : Module} {listing : Listing}
    (h : program.lower = .ok listing) :
    ∀ scope ∈ listing.scopes,
      (∃ count, results scope = tempsFrom 1 count) ∧
      ∀ i reader temp, scope[i]? = some reader → temp ∈ reader.reads →
        ∃ j, Supplies scope temp j i ∧
          ∀ {σ : Type u} (I : Interpretation σ) (n : Nat) (start final : σ),
            I.Steps scope n ⟨0, start⟩ ⟨i, final⟩ → I.PassesWriter scope temp j i n start final := by
  obtain ⟨hprocedures, htoplevel⟩ := Listing.keepsTemps_ofStmts h (by simp)
  have hscopes : ∀ scope ∈ listing.scopes, ∃ last, KeepsTemps 1 scope last := by
    rw [Listing.scopes, List.forall_mem_cons, List.forall_mem_map]
    exact ⟨htoplevel, hprocedures⟩
  intro scope hscope
  obtain ⟨last, hkeep⟩ := hscopes scope hscope
  obtain ⟨count, -, hresults⟩ := hkeep.takes
  refine ⟨⟨count, hresults⟩, fun i reader temp hi htemp => ?_⟩
  rcases hkeep.supplied.supplies hi htemp with ⟨j, hj⟩ | ⟨hnone, -⟩
  · exact ⟨j, hj, fun I n start final hsteps => hj.passesWriter hi htemp I hsteps⟩
  · cases hnone

namespace SingleAssignmentWitness

def name (id : String) : Expr := .name id .absent

def call (id : String) (args : List Expr) : Expr := .call (name id) args .absent

/-- `while p(): q().n += r(s)`, and the same loop in a function -/
def program : Module :=
  let target : Expr := .member (call "q" []) "n" .absent
  let count : Stmt :=
    .loop (call "p" [])
      [.assign target (.binary .add target (call "r" [name "s"]) .absent) .absent] .absent
  ⟨[.function ⟨"f", [⟨"s", .absent⟩], [count], .absent⟩ .absent, count], .absent⟩

def code : List Instruction :=
  [.label ⟨1⟩, .call ⟨1⟩ (.var "p") [], .branch (.temp ⟨1⟩) ⟨2⟩, .jump ⟨3⟩, .label ⟨2⟩,
    .call ⟨2⟩ (.var "q") [], .call ⟨3⟩ (.var "r") [.var "s"],
    .binary ⟨4⟩ .add (.attr (.temp ⟨2⟩) "n") (.temp ⟨3⟩),
    .store (.temp ⟨4⟩) (.attr (.temp ⟨2⟩) "n"), .jump ⟨1⟩, .label ⟨3⟩]

def listing : Listing := ⟨[("f", ⟨"f", ["s"], code⟩)], code⟩

theorem lower_program : program.lower = .ok listing := by decide

/-- The receiver of the target is read by the operation, with the value that is added, and by the
assignment, with the sum; each time it was written in the same round. -/
theorem lower_temps_program :
    program.lower = .ok listing ∧ code ∈ listing.scopes ∧
    (∃ count, results code = tempsFrom 1 count) ∧
    code[7]?.map Instruction.reads = some [⟨2⟩, ⟨3⟩] ∧ (∃ j, Supplies code ⟨2⟩ j 7) ∧
    code[8]?.map Instruction.reads = some [⟨4⟩, ⟨2⟩] ∧ ∃ j, Supplies code ⟨2⟩ j 8 := by
  have hmem : code ∈ listing.scopes := by simp [Listing.scopes, Listing.procedures, listing]
  obtain ⟨hresults, hreads⟩ := Module.lower_temps.{0} lower_program code hmem
  obtain ⟨j, hj, -⟩ := hreads 7 _ ⟨2⟩ rfl (by decide)
  obtain ⟨k, hk, -⟩ := hreads 8 _ ⟨2⟩ rfl (by decide)
  exact ⟨lower_program, hmem, hresults, rfl, ⟨j, hj⟩, rfl, ⟨k, hk⟩⟩

end SingleAssignmentWitness

end Offside
