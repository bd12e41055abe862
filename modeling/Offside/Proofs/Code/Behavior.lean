/-
What statements do when they are run as they are written: one branch of a conditional, a test
before every round of a loop, and jumps out of bodies as outcomes.  Only the straight-line code of
expressions and stores comes from lowering.
-/
import Offside.Proofs.Code.Machine

namespace Offside

universe u

variable {σ : Type u}

/-- Which outcomes and final states a piece of code can have from a state. -/
abbrev Behavior (σ : Type u) := σ → Outcome → σ → Prop

namespace Behavior

/-- End at once, in the same state. -/
def ends (outcome : Outcome) : Behavior σ := fun s o s' => o = outcome ∧ s' = s

/-- Run instructions that do not move control. -/
def straight (I : Interpretation σ) (code : List Instruction) : Behavior σ :=
  fun s o s' => o = .finished ∧ I.run code s = some s'

/-- Go on with the second only if the first has finished. -/
def andThen (first second : Behavior σ) : Behavior σ := fun s o s' =>
  (∃ mid, first s .finished mid ∧ second mid o s') ∨ (o ≠ .finished ∧ first s o s')

/-- Run exactly one of two. -/
def ifElse (holds : σ → Bool) (yes no : Behavior σ) : Behavior σ := fun s =>
  if holds s then yes s else no s

/-- Go round after round until one breaks out of the loop or returns; finishing a round and
continuing both lead to the next one. -/
inductive rounds (round : Behavior σ) : Behavior σ
  | again {s mid s' : σ} {before after : Outcome} :
    round s before mid → before = .finished ∨ before = .continued →
    rounds round mid after s' → rounds round s after s'
  | broke {s s' : σ} : round s .broke s' → rounds round s .finished s'
  | left {s s' : σ} {value : Option Operand} :
    round s (.left value) s' → rounds round s (.left value) s'

theorem andThen_ends (first : Behavior σ) : first.andThen (ends .finished) = first := by
  funext s o s'
  by_cases ho : o = .finished <;> simp [andThen, ends, ho]

end Behavior

namespace Stmt

mutual

/-- The number of the next temporary after the code of a statement. -/
def nextTemp : Stmt → Nat → Nat
  | function _ _, next => next
  | classDef _ _ _, next => next
  | assign target value _, next =>
    match lowerAssign target value next with
    | .ok (_, last) => last
    | .error _ => next
  | branch test thenBody none _, next => nextTempAll thenBody (test.lower next).next
  | branch test thenBody (some elseBody) _, next =>
    nextTempAll elseBody (nextTempAll thenBody (test.lower next).next)
  | loop test body _, next => nextTempAll body (test.lower next).next
  | leave none _, next => next
  | leave (some value) _, next => (value.lower next).next
  | pass _, next => next
  | breakLoop _, next => next
  | continueLoop _, next => next
  | eval expr _, next => (expr.lowerStatement next).2

/-- The same, after several statements. -/
def nextTempAll : List Stmt → Nat → Nat
  | [], next => next
  | stmt :: others, next => nextTempAll others (nextTemp stmt next)

end

open Behavior

mutual

/-- How a statement runs whose temporaries are numbered from `next` on.  A definition inside a
body does not run at all. -/
def behavior (I : Interpretation σ) : Stmt → Nat → Behavior σ
  | function _ _, _ => fun _ _ _ => False
  | classDef _ _ _, _ => fun _ _ _ => False
  | assign target value _, next =>
    match lowerAssign target value next with
    | .ok (code, _) => straight I code
    | .error _ => fun _ _ _ => False
  | branch test thenBody none _, next =>
    (straight I (test.lower next).code).andThen
      (ifElse (I.holds (test.lower next).value)
        (behaviorAll I thenBody (test.lower next).next)
        (ends .finished))
  | branch test thenBody (some elseBody) _, next =>
    (straight I (test.lower next).code).andThen
      (ifElse (I.holds (test.lower next).value)
        (behaviorAll I thenBody (test.lower next).next)
        (behaviorAll I elseBody (nextTempAll thenBody (test.lower next).next)))
  | loop test body _, next =>
    rounds ((straight I (test.lower next).code).andThen
      (ifElse (I.holds (test.lower next).value)
        (behaviorAll I body (test.lower next).next)
        (ends .broke)))
  | leave none _, _ => ends (.left none)
  | leave (some value) _, next =>
    (straight I (value.lower next).code).andThen
      (ends (.left (some (value.lower next).value)))
  | pass _, _ => ends .finished
  | breakLoop _, _ => ends .broke
  | continueLoop _, _ => ends .continued
  | eval expr _, next => straight I (expr.lowerStatement next).1

/-- How several statements run. -/
def behaviorAll (I : Interpretation σ) : List Stmt → Nat → Behavior σ
  | [], _ => ends .finished
  | stmt :: others, next =>
    (behavior I stmt next).andThen (behaviorAll I others (nextTemp stmt next))

end

private theorem nextTemp_induction :
    (∀ around stmt start code last, lower around stmt start = .ok (code, last) →
      last.temp = nextTemp stmt start.temp) ∧
    (∀ around body start code last, lowerAll around body start = .ok (code, last) →
      last.temp = nextTempAll body start.temp) := by
  apply lower_induction (fun _ stmt start _ last => last.temp = nextTemp stmt start.temp)
    (fun _ body start _ last => last.temp = nextTempAll body start.temp)
  case assign =>
    intro around target value span start code next h
    simp [nextTemp, h]
  case branch =>
    intro around test thenBody span start thenCode last hthen
    simpa [nextTemp] using hthen
  case branchElse =>
    intro around test thenBody elseBody span start thenCode mid elseCode last _ hthen helse
    rw [nextTemp, helse, hthen]
  case loop =>
    intro around test body span start bodyCode last hbody
    simpa [nextTemp] using hbody
  case cons =>
    intro around stmt others start first mid rest last _ hfirst hrest
    rw [nextTempAll, hrest, hfirst]
  all_goals
    intros
    simp [nextTemp, nextTempAll]

theorem temp_of_lower {around : Surroundings} {stmt : Stmt} {start last : Counters}
    {code : List Instruction} (h : lower around stmt start = .ok (code, last)) :
    last.temp = nextTemp stmt start.temp :=
  nextTemp_induction.1 around stmt start code last h

theorem temp_of_lowerAll {around : Surroundings} {body : List Stmt}
    {start last : Counters} {code : List Instruction}
    (h : lowerAll around body start = .ok (code, last)) :
    last.temp = nextTempAll body start.temp :=
  nextTemp_induction.2 around body start code last h

end Stmt

end Offside
