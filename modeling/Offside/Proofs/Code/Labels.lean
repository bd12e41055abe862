/-
The labels of lowered code: lowering takes consecutive numbers and puts every label it takes into
the code exactly once.
-/
import Mathlib.Data.List.Nodup
import Offside.Proofs.Code.Lowered

namespace Offside

/-- The label that an instruction places. -/
def Instruction.placed? : Instruction → Option Label
  | label l => some l
  | _ => none

/-- The labels that code places, in order. -/
def placedLabels (code : List Instruction) : List Label :=
  code.filterMap Instruction.placed?

@[simp] theorem placedLabels_nil : placedLabels [] = [] := rfl

@[simp] theorem placedLabels_cons (i : Instruction) (code : List Instruction) :
    placedLabels (i :: code) = i.placed?.toList ++ placedLabels code := by
  cases i <;> rfl

@[simp] theorem placedLabels_append (left right : List Instruction) :
    placedLabels (left ++ right) = placedLabels left ++ placedLabels right :=
  List.filterMap_append

theorem Instruction.placed?_of_isStraight {i : Instruction} (h : i.isStraight = true) :
    i.placed? = none := by
  cases i with
  | label => cases h
  | _ => rfl

theorem placedLabels_eq_nil {code : List Instruction}
    (h : ∀ i ∈ code, i.isStraight = true) : placedLabels code = [] := by
  rw [placedLabels, List.filterMap_eq_nil_iff]
  intro i hi
  exact Instruction.placed?_of_isStraight (h i hi)

@[simp] theorem Expr.placedLabels_lower (expr : Expr) (next : Nat) :
    placedLabels (expr.lower next).code = [] :=
  placedLabels_eq_nil (expr.isStraight_of_mem_lower next)

/-- The labels with consecutive numbers from `first` on. -/
def labelsFrom (first count : Nat) : List Label :=
  (List.range' first count).map Label.mk

theorem labelsFrom_succ (first count : Nat) :
    labelsFrom first (count + 1) = ⟨first⟩ :: labelsFrom (first + 1) count := by
  simp [labelsFrom, List.range'_succ]

theorem labelsFrom_add (first left right : Nat) :
    labelsFrom first (left + right) =
      labelsFrom first left ++ labelsFrom (first + left) right := by
  simp [labelsFrom, ← List.map_append, List.range'_append_1]

theorem labelsFrom_nodup (first count : Nat) : (labelsFrom first count).Nodup := by
  apply List.Nodup.map
  · intro left right h
    exact congrArg Label.number h
  · exact List.nodup_range'

/-- Code places exactly the labels whose numbers were taken while lowering it. -/
def TakesLabels (start : Counters) (code : List Instruction) (last : Counters) : Prop :=
  ∃ count, last.label = start.label + count ∧
    (placedLabels code).Perm (labelsFrom start.label count)

theorem TakesLabels.of_straight {start last : Counters} {code : List Instruction}
    (hcode : ∀ i ∈ code, i.isStraight = true) (hlast : last.label = start.label) :
    TakesLabels start code last :=
  ⟨0, hlast, by rw [placedLabels_eq_nil hcode]; exact .refl _⟩

theorem TakesLabels.append {start mid last : Counters} {left right : List Instruction}
    (hleft : TakesLabels start left mid) (hright : TakesLabels mid right last) :
    TakesLabels start (left ++ right) last := by
  obtain ⟨m, hm, hpermLeft⟩ := hleft
  obtain ⟨n, hn, hpermRight⟩ := hright
  refine ⟨m + n, by omega, ?_⟩
  rw [placedLabels_append, labelsFrom_add, ← hm]
  exact hpermLeft.append hpermRight

namespace Stmt

open List in
private theorem takesLabels_induction :
    (∀ around stmt start code last, lower around stmt start = .ok (code, last) →
      TakesLabels start code last) ∧
    (∀ around body start code last, lowerAll around body start = .ok (code, last) →
      TakesLabels start code last) := by
  apply lower_induction (fun _ _ => TakesLabels) (fun _ _ => TakesLabels)
  case assign =>
    intro around target value span start code next h
    exact .of_straight (isStraight_of_mem_lowerAssign h) rfl
  case branch =>
    intro around test thenBody span start thenCode last hthen
    obtain ⟨n, hn, hperm⟩ := hthen
    refine ⟨n + 1 + 1, by simp only at hn; omega, ?_⟩
    have hlabels : placedLabels thenCode ++ [⟨start.label + 1⟩] ~
        ⟨start.label + 1⟩ :: labelsFrom (start.label + 2) n :=
      (List.perm_append_singleton _ _).trans (hperm.cons _)
    simpa [labelsFrom_succ, Instruction.placed?] using hlabels
  case branchElse =>
    intro around test thenBody elseBody span start thenCode mid elseCode last _ hthen helse
    obtain ⟨n, hn, hperm⟩ := hthen.append helse
    refine ⟨n + 1 + 1 + 1, by simp only at hn; omega, ?_⟩
    rw [placedLabels_append] at hperm
    have hlabels : placedLabels thenCode ++ ⟨start.label + 1⟩ ::
        (placedLabels elseCode ++ [⟨start.label + 2⟩]) ~
        ⟨start.label + 1⟩ :: ⟨start.label + 2⟩ :: labelsFrom (start.label + 3) n := by
      refine List.perm_middle.trans (List.Perm.cons _ ?_)
      rw [← List.append_assoc]
      exact (List.perm_append_singleton _ _).trans (hperm.cons _)
    simpa [labelsFrom_succ, Instruction.placed?] using hlabels
  case loop =>
    intro around test body span start bodyCode last hbody
    obtain ⟨n, hn, hperm⟩ := hbody
    refine ⟨n + 1 + 1 + 1, by simp only at hn; omega, ?_⟩
    have hlabels : ⟨start.label + 1⟩ :: (placedLabels bodyCode ++ [⟨start.label + 2⟩]) ~
        ⟨start.label + 1⟩ :: ⟨start.label + 2⟩ :: labelsFrom (start.label + 3) n :=
      ((List.perm_append_singleton _ _).trans (hperm.cons _)).cons _
    simpa [labelsFrom_succ, Instruction.placed?] using hlabels
  case leave =>
    intro around span start _
    exact ⟨0, rfl, .refl _⟩
  case leaveWith =>
    intro around value span start _
    exact ⟨0, rfl, by simp [labelsFrom, Instruction.placed?]⟩
  case pass =>
    intro around span start
    exact .of_straight (by simp) rfl
  case breakLoop =>
    intro around span start labels _
    exact ⟨0, rfl, .refl _⟩
  case continueLoop =>
    intro around span start labels _
    exact ⟨0, rfl, .refl _⟩
  case eval =>
    intro around expr span start
    exact .of_straight (expr.isStraight_of_mem_lowerStatement start.temp) rfl
  case nil =>
    intro around start
    exact .of_straight (by simp) rfl
  case cons =>
    intro around stmt others start first mid rest last _ hfirst hrest
    exact hfirst.append hrest

theorem takesLabels_lowerAll {around : Surroundings} {body : List Stmt}
    {start last : Counters} {code : List Instruction}
    (h : lowerAll around body start = .ok (code, last)) : TakesLabels start code last :=
  takesLabels_induction.2 around body start code last h

theorem placedLabels_nodup {around : Surroundings} {body : List Stmt}
    {start last : Counters} {code : List Instruction}
    (h : lowerAll around body start = .ok (code, last)) : (placedLabels code).Nodup := by
  obtain ⟨n, -, hperm⟩ := takesLabels_lowerAll h
  exact hperm.nodup_iff.mpr (labelsFrom_nodup _ _)

end Stmt

end Offside
