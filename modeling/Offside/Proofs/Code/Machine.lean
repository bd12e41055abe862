/-
Running code with a place counter.  The instructions that leave the counter alone may do anything
to a state of any type; labels, jumps, branches and returns mean the same under every
interpretation.
-/
import Offside.Proofs.Code.Labels

namespace Offside

universe u

variable {σ : Type u}

/-- A reading of the instructions that leave the place counter alone, and of conditions. -/
structure Interpretation (σ : Type u) where
  /-- The state after an instruction, if the instruction ever finishes. -/
  effect : Instruction → σ → Option σ
  holds : Operand → σ → Bool

/-- The place of the next instruction, and the state. -/
structure Config (σ : Type u) where
  place : Nat
  state : σ

/-- How code ends: at its end, by leaving the loop around it, by going back to the test of that
loop, or by a return. -/
inductive Outcome where
  | finished
  | broke
  | continued
  | left (value : Option Operand)
  deriving Repr, DecidableEq

/-- The place of a label. -/
def labelPlace? (program : List Instruction) (label : Label) : Option Nat :=
  program.idxOf? (.label label)

/-- Code that stands in a program from a place on. -/
def Placed (program : List Instruction) (place : Nat) (code : List Instruction) : Prop :=
  ∃ before rest, program = before ++ code ++ rest ∧ before.length = place

namespace Placed

variable {program first second code : List Instruction} {place : Nat} {i : Instruction}

theorem self (program : List Instruction) : Placed program 0 program :=
  ⟨[], [], by simp, rfl⟩

theorem left (h : Placed program place (first ++ second)) : Placed program place first := by
  obtain ⟨before, rest, rfl, hlength⟩ := h
  exact ⟨before, second ++ rest, by simp, hlength⟩

theorem right (h : Placed program place (first ++ second)) :
    Placed program (place + first.length) second := by
  obtain ⟨before, rest, rfl, hlength⟩ := h
  exact ⟨before ++ first, rest, by simp, by simp [hlength]⟩

theorem of_eq {other : Nat} (h : Placed program place code) (hplace : place = other) :
    Placed program other code := hplace ▸ h

theorem head (h : Placed program place (i :: code)) : program[place]? = some i := by
  obtain ⟨before, rest, rfl, rfl⟩ := h
  simp

theorem tail (h : Placed program place (i :: code)) : Placed program (place + 1) code :=
  (show Placed program place ([i] ++ code) from h).right

end Placed

/-- A label that is placed once is found where it stands. -/
theorem labelPlace?_eq_some {program : List Instruction}
    (hunique : (placedLabels program).Nodup) {label : Label} {place : Nat}
    (h : program[place]? = some (.label label)) : labelPlace? program label = some place := by
  induction program generalizing place with
  | nil => simp at h
  | cons i rest ih =>
    rw [placedLabels_cons, List.nodup_append] at hunique
    rw [labelPlace?, List.idxOf?_cons]
    cases place with
    | zero =>
      simp only [List.getElem?_cons_zero, Option.some.injEq] at h
      simp [h]
    | succ place =>
      rw [List.getElem?_cons_succ] at h
      have hmem : label ∈ placedLabels rest :=
        List.mem_filterMap.mpr ⟨_, List.mem_of_getElem? h, rfl⟩
      have hne : i ≠ .label label := by
        rintro rfl
        exact hunique.2.2 label (by simp [Instruction.placed?]) label hmem rfl
      rw [if_neg (by simpa using hne)]
      simpa [labelPlace?] using ih hunique.2.1 h

namespace Interpretation

variable (I : Interpretation σ) (program : List Instruction)

/-- Run instructions one after another. -/
def run (code : List Instruction) (state : σ) : Option σ :=
  code.foldlM (fun state i => I.effect i state) state

@[simp] theorem run_nil (state : σ) : I.run [] state = some state := rfl

@[simp] theorem run_cons (i : Instruction) (code : List Instruction) (state : σ) :
    I.run (i :: code) state = (I.effect i state).bind (I.run code) := rfl

theorem run_singleton (i : Instruction) (state : σ) : I.run [i] state = I.effect i state := by
  cases h : I.effect i state <;> simp [h]

theorem run_append (left right : List Instruction) (state : σ) :
    I.run (left ++ right) state = (I.run left state).bind (I.run right) := by
  simp only [run, List.foldlM_append]
  rfl

/-- One step of the machine; none from a return, from past the end, and where the next
instruction cannot finish. -/
def step (c : Config σ) : Option (Config σ) :=
  match program[c.place]? with
  | none => none
  | some (.leave _) => none
  | some (.label _) => some ⟨c.place + 1, c.state⟩
  | some (.jump target) => (labelPlace? program target).map (⟨·, c.state⟩)
  | some (.branch condition target) =>
    if I.holds condition c.state then (labelPlace? program target).map (⟨·, c.state⟩)
    else some ⟨c.place + 1, c.state⟩
  | some i => (I.effect i c.state).map (⟨c.place + 1, ·⟩)

/-- A number of steps. -/
inductive Steps : Nat → Config σ → Config σ → Prop
  | refl (c : Config σ) : Steps 0 c c
  | head {n : Nat} {c d e : Config σ} :
    I.step program c = some d → Steps n d e → Steps (n + 1) c e

/-- Where a run of the whole program ends. -/
def EndsAt : Outcome → Nat → Prop
  | .finished, place => place = program.length
  | .left value, place => program[place]? = some (.leave value)
  | .broke, _ => False
  | .continued, _ => False

/-- Running the program from its first instruction stops in this state, at the end of the program
or at a return. -/
def Terminates (start : σ) (outcome : Outcome) (final : σ) : Prop :=
  ∃ n place, I.Steps program n ⟨0, start⟩ ⟨place, final⟩ ∧ EndsAt program outcome place

variable {I program}

theorem Steps.trans {m n : Nat} {c d e : Config σ} (hleft : I.Steps program m c d)
    (hright : I.Steps program n d e) : I.Steps program (m + n) c e := by
  induction hleft with
  | refl c => simpa using hright
  | @head k c d e hstep _ ih =>
    rw [Nat.add_right_comm]
    exact .head hstep (ih hright)

theorem step_eq_none_of_endsAt {outcome : Outcome} {c : Config σ}
    (h : EndsAt program outcome c.place) : I.step program c = none := by
  cases outcome with
  | finished =>
    have hnone : program[c.place]? = none := by simp [show c.place = _ from h]
    simp [step, hnone]
  | left value => simp [step, show program[c.place]? = _ from h]
  | broke => exact h.elim
  | continued => exact h.elim

theorem EndsAt.unique {first second : Outcome} {place : Nat}
    (hfirst : EndsAt program first place) (hsecond : EndsAt program second place) :
    first = second := by
  cases first <;> cases second <;> simp_all [EndsAt]

/-- A run that has ended took the step that there was to take. -/
theorem Steps.of_step {outcome : Outcome} {n : Nat} {c d last : Config σ}
    (h : I.Steps program n c last) (hlast : EndsAt program outcome last.place)
    (hstep : I.step program c = some d) : ∃ m, n = m + 1 ∧ I.Steps program m d last := by
  cases h with
  | refl => simp [step_eq_none_of_endsAt hlast] at hstep
  | @head m _ e _ hfirst hrest =>
    obtain rfl : e = d := Option.some.inj (hfirst.symm.trans hstep)
    exact ⟨m, rfl, hrest⟩

/-! ### Single steps -/

variable {i : Instruction} {place : Nat} {state : σ}

theorem step_of_isStraight (hat : program[place]? = some i) (hi : i.isStraight = true) :
    I.step program ⟨place, state⟩ = (I.effect i state).map (⟨place + 1, ·⟩) := by
  cases i with
  | leave | label | branch | jump => cases hi
  | _ => simp [step, hat]

theorem not_endsAt_of_isStraight {outcome : Outcome} (hat : program[place]? = some i)
    (hi : i.isStraight = true) : ¬ EndsAt program outcome place := by
  intro h
  cases outcome with
  | finished => simp [show place = _ from h] at hat
  | left value =>
    obtain rfl : i = .leave value := Option.some.inj (hat.symm.trans h)
    cases hi
  | broke => exact h
  | continued => exact h

variable (I program) in
/-- The instruction at the first place does nothing but go on at the second. -/
def Leads (place next : Nat) : Prop :=
  ∀ state : σ, I.step program ⟨place, state⟩ = some ⟨next, state⟩

theorem leads_label {label : Label} (hat : program[place]? = some (.label label)) :
    I.Leads program place (place + 1) := by
  intro state
  simp [step, hat]

theorem leads_jump {target : Label} {next : Nat} (hat : program[place]? = some (.jump target))
    (htarget : labelPlace? program target = some next) : I.Leads program place next := by
  intro state
  simp [step, hat, htarget]

theorem step_branch {condition : Operand} {target : Label} {next : Nat}
    (hat : program[place]? = some (.branch condition target))
    (htarget : labelPlace? program target = some next) (state : σ) :
    I.step program ⟨place, state⟩ =
      some ⟨if I.holds condition state then next else place + 1, state⟩ := by
  by_cases h : I.holds condition state <;> simp [step, hat, htarget, h]

end Interpretation

end Offside
