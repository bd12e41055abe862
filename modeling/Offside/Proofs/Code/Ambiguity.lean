/-
What the texts of code leave open.  Where no variable that is read is called like a temporary of its
scope or like an infinity, and no attribute is called, every operand and every instruction can be
read back from what its text shows.
-/
import Offside.Proofs.Code.InstructionText
import Offside.Proofs.Code.SingleAssignment

namespace Offside

namespace Operand

/-- The variable in an operand. -/
def root? : Operand → Option String
  | temp _ => none
  | var name => some name
  | const _ => none
  | attr base _ => base.root?

/-- Whether an operand has no other temporaries than these, and no variable that is called like one
of them or like an infinity. -/
structure IsClear (written : List Temp) (operand : Operand) : Prop where
  temps : ∀ temp ∈ operand.temps, temp ∈ written
  root : ∀ name ∈ operand.root?, name ≠ "inf" ∧ ∀ temp ∈ written, name ≠ temp.text

/-- The operand that is shown, where variables that are called like one of these temporaries stand
for it. -/
def sharpened (temps : List Temp) : Operand → Operand
  | temp t => .temp t
  | var name =>
    match temps.find? (·.text == name) with
    | some t => .temp t
    | none => if name = "inf" then .const .infinity else .var name
  | const value => .const value
  | attr base name => .attr (base.sharpened temps) name

theorem sharpened_blurred {temps : List Temp} {operand : Operand} (h : operand.IsClear temps) :
    operand.blurred.sharpened temps = operand := by
  induction operand with
  | temp t =>
    have hmem := h.temps t (List.mem_singleton.mpr rfl)
    rw [blurred, sharpened]
    split
    · next found hfound =>
      have htext := List.find?_some hfound
      rw [Temp.text_injective (beq_iff_eq.mp htext)]
    · next hnone => simpa using List.find?_eq_none.mp hnone t hmem
  | var name =>
    obtain ⟨hinf, htemps⟩ := h.root name rfl
    have hnone : temps.find? (·.text == name) = none :=
      List.find?_eq_none.mpr fun t ht htext => htemps t ht (beq_iff_eq.mp htext).symm
    rw [blurred, sharpened, hnone]
    exact if_neg hinf
  | const value =>
    rw [blurred]
    split
    · next hinfinity =>
      have hnone : temps.find? (·.text == "inf") = none := by
        refine List.find?_eq_none.mpr fun t ht htext => ?_
        have hlists := congrArg String.toList (beq_iff_eq.mp htext)
        rw [t.toList_text] at hlists
        cases hlists
      rw [sharpened, hnone, hinfinity]
      rfl
    · rfl
  | attr base name ih => rw [blurred, sharpened, ih ⟨h.temps, h.root⟩]

end Operand

namespace Instruction

variable {i : Instruction} {temps : List Temp}

/-- Whether an instruction calls the value of an attribute. -/
def callsAttribute : Instruction → Bool
  | call _ (.attr _ _) _ => true
  | _ => false

/-- The instruction, a call of an attribute as a method call. -/
def bound : Instruction → Instruction
  | call result (.attr receiver method) args => .methodCall result receiver method args
  | other => other

theorem bound_unbound (h : i.callsAttribute = false) : i.unbound.bound = i := by
  cases i with
  | call result callee args =>
    cases callee with
    | attr => cases h
    | _ => rfl
  | _ => rfl

/-- The operands that an instruction reads. -/
def sources : Instruction → List Operand
  | store source (.var _) => [source]
  | store source (.attr base _) => [source, base]
  | other => other.operands

theorem flatMap_temps_sources (i : Instruction) : i.sources.flatMap Operand.temps = i.reads := by
  cases i with
  | store source target => cases target <;> simp [sources, reads, Place.temps]
  | leave value => cases value <;> simp [sources, operands, reads]
  | _ => simp [sources, operands, reads]

theorem sources_unbound {i : Instruction} (h : ∀ operand ∈ i.sources, operand.IsClear temps) :
    ∀ operand ∈ i.unbound.sources, operand.IsClear temps := by
  cases i with
  | methodCall result receiver method args =>
    obtain ⟨hreceiver, hargs⟩ := List.forall_mem_cons.mp h
    exact List.forall_mem_cons.mpr ⟨⟨hreceiver.temps, hreceiver.root⟩, hargs⟩
  | _ => exact h

theorem sharpened_map_blurred (h : ∀ operand ∈ i.sources, operand.IsClear temps) :
    (i.map Operand.blurred).map (Operand.sharpened temps) = i := by
  have hone {operand : Operand} (hmem : operand ∈ i.sources) :=
    Operand.sharpened_blurred (h operand hmem)
  have hargs {args : List Operand} (hmem : ∀ arg ∈ args, arg ∈ i.sources) :
      (args.map Operand.blurred).map (Operand.sharpened temps) = args := by
    rw [List.map_map]
    exact (List.map_congr_left fun arg harg => hone (hmem arg harg)).trans (List.map_id args)
  cases i with
  | store source target =>
    cases target with
    | var name => rw [map, map, hone List.mem_cons_self, Place.map, Place.map]
    | attr base name =>
      rw [map, map, hone List.mem_cons_self, Place.map, Place.map,
        hone (List.mem_cons_of_mem _ List.mem_cons_self)]
  | call result callee args =>
    rw [map, map, hone List.mem_cons_self, hargs fun arg => List.mem_cons_of_mem callee]
  | methodCall result receiver method args =>
    rw [map, map, hone List.mem_cons_self, hargs fun arg => List.mem_cons_of_mem receiver]
  | construct result className args =>
    have hargs : (args.map Operand.blurred).map (Operand.sharpened temps) = args :=
      hargs fun arg harg => harg
    rw [map, map, hargs]
  | binary result op left right =>
    rw [map, map, hone List.mem_cons_self, hone (List.mem_cons_of_mem _ List.mem_cons_self)]
  | leave value =>
    cases value with
    | none => rfl
    | some value => rw [map, map, Option.map_some, Option.map_some, hone List.mem_cons_self]
  | label | jump => rfl
  | _ => rw [map, map, hone List.mem_cons_self]

theorem bound_sharpened_blurred (h : ∀ operand ∈ i.sources, operand.IsClear temps)
    (hcall : i.callsAttribute = false) :
    (i.blurred.map (Operand.sharpened temps)).bound = i := by
  rw [blurred, sharpened_map_blurred (sources_unbound h), bound_unbound hcall]

theorem result?_blurred (i : Instruction) : i.blurred.result? = i.result? := by
  cases i <;> rfl

end Instruction

/-! ### Scopes -/

/-- Whether the text of a scope leaves nothing open: it calls no attribute, and no variable that it
reads is called like an infinity or like a temporary that it writes. -/
def IsClearCode (scope : List Instruction) : Prop :=
  ∀ i ∈ scope, i.callsAttribute = false ∧
    ∀ operand ∈ i.sources, ∀ name ∈ operand.root?,
      name ≠ "inf" ∧ ∀ temp ∈ results scope, name ≠ temp.text

theorem results_map_blurred (code : List Instruction) :
    results (code.map Instruction.blurred) = results code := by
  rw [results, List.filterMap_map]
  exact congrArg (List.filterMap · code) (funext Instruction.result?_blurred)

/-- What an instruction of a scope reads was written in the scope. -/
theorem KeepsTemps.mem_results {start last : Nat} {scope : List Instruction}
    (h : KeepsTemps start scope last) {i : Instruction} (hi : i ∈ scope) {temp : Temp}
    (htemp : temp ∈ i.reads) : temp ∈ results scope := by
  obtain ⟨place, hplace⟩ := List.mem_iff_getElem?.mp hi
  rcases h.supplied.supplies hplace htemp with ⟨j, hj⟩ | ⟨hnone, -⟩
  · obtain ⟨writer, hwriter, hresult⟩ := hj.writes
    exact List.mem_filterMap.mpr ⟨writer, List.mem_of_getElem? hwriter, hresult⟩
  · cases hnone

/-- A scope that is clear can be read back. -/
theorem IsClearCode.read_back {scope : List Instruction} {start last : Nat} (h : IsClearCode scope)
    (hkeep : KeepsTemps start scope last) :
    (scope.map Instruction.blurred).map
      (fun i => (i.map (Operand.sharpened (results scope))).bound) = scope := by
  rw [List.map_map]
  refine (List.map_congr_left fun i hi => ?_).trans (List.map_id scope)
  obtain ⟨hcall, hnames⟩ := h i hi
  refine Instruction.bound_sharpened_blurred (fun operand hmem => ⟨?_, hnames operand hmem⟩) hcall
  refine fun temp htemp => hkeep.mem_results hi ?_
  rw [← Instruction.flatMap_temps_sources]
  exact List.mem_flatMap.mpr ⟨operand, hmem, htemp⟩

/-- Clear scopes that show the same are the same. -/
theorem IsClearCode.eq_of_blurred {scope other : List Instruction} {start last start' last' : Nat}
    (h : IsClearCode scope) (hother : IsClearCode other) (hkeep : KeepsTemps start scope last)
    (hkeep' : KeepsTemps start' other last')
    (heq : scope.map Instruction.blurred = other.map Instruction.blurred) : scope = other := by
  have hresults : results scope = results other := by
    rw [← results_map_blurred scope, heq, results_map_blurred]
  rw [← h.read_back hkeep, heq, hresults, hother.read_back hkeep']

end Offside
