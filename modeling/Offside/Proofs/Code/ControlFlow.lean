/-
Lowered control flow.  A stretch of code realizes a behavior when the machine that enters it can
reach exactly the exits that the behavior names; the stretches that lowering writes down are
composed as the statements are.
-/
import Offside.Proofs.Code.Behavior

namespace Offside

universe u

variable {σ : Type u}

namespace Interpretation

variable {I : Interpretation σ} {program : List Instruction}

/-- Entered at `start`, the program does what the behavior says: it reaches the exit of every
outcome that is possible, and every run that ends has passed one of these exits. -/
structure Realizes (I : Interpretation σ) (program : List Instruction) (start : Nat)
    (exits : Outcome → Nat → Prop) (behavior : Behavior σ) : Prop where
  reaches : ∀ {s o s'}, behavior s o s' →
    ∃ n place, I.Steps program n ⟨start, s⟩ ⟨place, s'⟩ ∧ exits o place
  passes : ∀ {n s last outcome}, I.Steps program n ⟨start, s⟩ last →
    EndsAt program outcome last.place →
    ∃ m o s' place, m ≤ n ∧ behavior s o s' ∧ exits o place ∧
      I.Steps program m ⟨place, s'⟩ last

namespace Realizes

variable {start : Nat} {exits : Outcome → Nat → Prop} {first second : Behavior σ}

/-- Nothing to do: the exit is where the code is entered. -/
theorem ends {outcome : Outcome} (h : exits outcome start) :
    I.Realizes program start exits (Behavior.ends outcome) where
  reaches := by
    rintro s o s' ⟨rfl, rfl⟩
    exact ⟨0, start, .refl _, h⟩
  passes := by
    intro n s last _ hsteps _
    exact ⟨n, outcome, s, start, Nat.le_refl n, ⟨rfl, rfl⟩, h, hsteps⟩

/-- A first instruction that only moves control. -/
theorem of_leads {next : Nat} (hlead : I.Leads program start next)
    (h : I.Realizes program next exits first) : I.Realizes program start exits first where
  reaches := by
    intro s o s' hrun
    obtain ⟨n, place, hsteps, hexit⟩ := h.reaches hrun
    exact ⟨n + 1, place, .head (hlead s) hsteps, hexit⟩
  passes := by
    intro n s last outcome hsteps hlast
    obtain ⟨k, rfl, hrest⟩ := hsteps.of_step hlast (hlead s)
    obtain ⟨m, o, s', place, hle, hrun, hexit, hend⟩ := h.passes hrest hlast
    exact ⟨m, o, s', place, by omega, hrun, hexit, hend⟩

theorem straight {code : List Instruction} (hplaced : Placed program start code)
    (hcode : ∀ i ∈ code, i.isStraight = true)
    (hexit : exits .finished (start + code.length)) :
    I.Realizes program start exits (Behavior.straight I code) := by
  induction code generalizing start with
  | nil =>
    have hends : Behavior.straight I [] = Behavior.ends .finished := by
      funext s o s'
      simp [Behavior.straight, Behavior.ends, eq_comm]
    rw [hends]
    exact ends hexit
  | cons i rest ih =>
    rw [List.forall_mem_cons] at hcode
    have hrest := ih hplaced.tail hcode.2 (by
      rwa [List.length_cons, Nat.add_comm rest.length, ← Nat.add_assoc] at hexit)
    have hstep (s : σ) : I.step program ⟨start, s⟩ = (I.effect i s).map (⟨start + 1, ·⟩) :=
      step_of_isStraight hplaced.head hcode.1
    constructor
    · rintro s o s' ⟨rfl, hrun⟩
      rw [run_cons, Option.bind_eq_some_iff] at hrun
      obtain ⟨mid, hmid, hrun⟩ := hrun
      obtain ⟨n, place, hsteps, hexit⟩ := hrest.reaches ⟨rfl, hrun⟩
      exact ⟨n + 1, place, .head (by rw [hstep, hmid]; rfl) hsteps, hexit⟩
    · intro n s last outcome hsteps hlast
      cases hmid : I.effect i s with
      | none =>
        -- the machine is stuck at the instruction, which is not an end
        have hstuck : I.step program ⟨start, s⟩ = none := by rw [hstep, hmid]; rfl
        cases hsteps with
        | refl => exact absurd hlast (not_endsAt_of_isStraight hplaced.head hcode.1)
        | head hnext _ => rw [hstuck] at hnext; cases hnext
      | some mid =>
        have hnext : I.step program ⟨start, s⟩ = some ⟨start + 1, mid⟩ := by
          rw [hstep, hmid]; rfl
        obtain ⟨k, rfl, htail⟩ := hsteps.of_step hlast hnext
        obtain ⟨m, o, s', place, hle, ⟨rfl, hrun⟩, hexit, hend⟩ := hrest.passes htail hlast
        refine ⟨m, .finished, s', place, by omega, ⟨rfl, ?_⟩, hexit, hend⟩
        rw [run_cons, hmid]
        exact hrun

theorem andThen {exitsFirst : Outcome → Nat → Prop}
    (hfirst : I.Realizes program start exitsFirst first)
    (hsecond : ∀ mid, exitsFirst .finished mid → I.Realizes program mid exits second)
    (hother : ∀ o place, o ≠ .finished → exitsFirst o place → exits o place) :
    I.Realizes program start exits (first.andThen second) where
  reaches := by
    rintro s o s' (⟨mid, hrunFirst, hrunSecond⟩ | ⟨hne, hrun⟩)
    · obtain ⟨m, place, hsteps, hexit⟩ := hfirst.reaches hrunFirst
      obtain ⟨n, last, hrest, hlast⟩ := (hsecond place hexit).reaches hrunSecond
      exact ⟨m + n, last, hsteps.trans hrest, hlast⟩
    · obtain ⟨n, place, hsteps, hexit⟩ := hfirst.reaches hrun
      exact ⟨n, place, hsteps, hother o place hne hexit⟩
  passes := by
    intro n s last outcome hsteps hlast
    obtain ⟨m, o, mid, place, hle, hrun, hexit, hrest⟩ := hfirst.passes hsteps hlast
    by_cases ho : o = .finished
    · subst ho
      obtain ⟨k, o, s', final, hle', hrun', hexit', hend⟩ :=
        (hsecond place hexit).passes hrest hlast
      exact ⟨k, o, s', final, by omega, .inl ⟨mid, hrun, hrun'⟩, hexit', hend⟩
    · exact ⟨m, o, mid, place, hle, .inr ⟨ho, hrun⟩, hother o place ho hexit, hrest⟩

theorem straight_andThen {code : List Instruction} (hplaced : Placed program start code)
    (hcode : ∀ i ∈ code, i.isStraight = true)
    (hsecond : I.Realizes program (start + code.length) exits second) :
    I.Realizes program start exits ((Behavior.straight I code).andThen second) := by
  have hfirst : I.Realizes program start
      (fun o place => o = .finished ∧ place = start + code.length)
      (Behavior.straight I code) := straight hplaced hcode ⟨rfl, rfl⟩
  apply hfirst.andThen
  · rintro _ ⟨-, rfl⟩
    exact hsecond
  · rintro o place ho ⟨hfinished, -⟩
    exact absurd hfinished ho

theorem ifElse {holds : σ → Bool} {yes no : Nat}
    (hstep : ∀ s, I.step program ⟨start, s⟩ = some ⟨if holds s then yes else no, s⟩)
    (hfirst : I.Realizes program yes exits first)
    (hsecond : I.Realizes program no exits second) :
    I.Realizes program start exits (Behavior.ifElse holds first second) where
  reaches := by
    intro s o s' hrun
    rw [Behavior.ifElse] at hrun
    have hhead := hstep s
    split at hrun
    case isTrue h =>
      obtain ⟨n, place, hsteps, hexit⟩ := hfirst.reaches hrun
      rw [if_pos h] at hhead
      exact ⟨n + 1, place, .head hhead hsteps, hexit⟩
    case isFalse h =>
      obtain ⟨n, place, hsteps, hexit⟩ := hsecond.reaches hrun
      rw [if_neg h] at hhead
      exact ⟨n + 1, place, .head hhead hsteps, hexit⟩
  passes := by
    intro n s last outcome hsteps hlast
    obtain ⟨k, rfl, hrest⟩ := hsteps.of_step hlast (hstep s)
    by_cases h : holds s
    · rw [if_pos h] at hrest
      obtain ⟨m, o, s', place, hle, hrun, hexit, hend⟩ := hfirst.passes hrest hlast
      exact ⟨m, o, s', place, by omega, by rwa [Behavior.ifElse, if_pos h], hexit, hend⟩
    · rw [if_neg h] at hrest
      obtain ⟨m, o, s', place, hle, hrun, hexit, hend⟩ := hsecond.passes hrest hlast
      exact ⟨m, o, s', place, by omega, by rwa [Behavior.ifElse, if_neg h], hexit, hend⟩

/-- A loop whose rounds start behind a first instruction at `start`: finished rounds lead back
there, and a break leads to the end of the loop. -/
theorem rounds {inner : Nat} {exitsRound : Outcome → Nat → Prop}
    (hlead : I.Leads program start inner)
    (hround : I.Realizes program inner exitsRound first)
    (hfinished : ∀ place, exitsRound .finished place → I.Leads program place start)
    (hcontinued : ∀ place, exitsRound .continued place → place = start)
    (hbroke : ∀ place, exitsRound .broke place →
      ∃ next, I.Leads program place next ∧ exits .finished next)
    (hleft : ∀ value place, exitsRound (.left value) place → exits (.left value) place) :
    I.Realizes program start exits (Behavior.rounds first) := by
  constructor
  · intro s o s' hrun
    have hround := of_leads hlead hround
    induction hrun with
    | @again s mid s' before after hfirst hbefore _ ih =>
      obtain ⟨m, place, hsteps, hexit⟩ := hround.reaches hfirst
      obtain ⟨n, last, hrest, hlast⟩ := ih
      rcases hbefore with rfl | rfl
      · exact ⟨m + (n + 1), last, hsteps.trans (.head (hfinished place hexit mid) hrest), hlast⟩
      · obtain rfl := hcontinued place hexit
        exact ⟨m + n, last, hsteps.trans hrest, hlast⟩
    | @broke s s' hfirst =>
      obtain ⟨m, place, hsteps, hexit⟩ := hround.reaches hfirst
      obtain ⟨next, hnext, hlast⟩ := hbroke place hexit
      exact ⟨m + 1, next, hsteps.trans (.head (hnext s') (.refl _)), hlast⟩
    | @left s s' value hfirst =>
      obtain ⟨m, place, hsteps, hexit⟩ := hround.reaches hfirst
      exact ⟨m, place, hsteps, hleft value place hexit⟩
  · -- each round takes at least the step into it, so the rest of the run is shorter
    intro n
    induction n using Nat.strongRecOn with
    | ind n ih =>
      intro s last outcome hsteps hlast
      obtain ⟨k, rfl, hinner⟩ := hsteps.of_step hlast (hlead s)
      obtain ⟨m, o, mid, place, hle, hrun, hexit, hrest⟩ := hround.passes hinner hlast
      cases o with
      | finished =>
        obtain ⟨l, rfl, hback⟩ := hrest.of_step hlast (hfinished place hexit mid)
        obtain ⟨j, o, s', final, hle', hloop, hexit', hend⟩ := ih l (by omega) hback hlast
        exact ⟨j, o, s', final, by omega, .again hrun (.inl rfl) hloop, hexit', hend⟩
      | continued =>
        obtain rfl := hcontinued place hexit
        obtain ⟨j, o, s', final, hle', hloop, hexit', hend⟩ := ih m (by omega) hrest hlast
        exact ⟨j, o, s', final, by omega, .again hrun (.inr rfl) hloop, hexit', hend⟩
      | broke =>
        obtain ⟨next, hnext, hfinal⟩ := hbroke place hexit
        obtain ⟨l, rfl, hend⟩ := hrest.of_step hlast (hnext mid)
        exact ⟨l, .finished, mid, next, by omega, .broke hrun, hfinal, hend⟩
      | left value =>
        exact ⟨m, .left value, mid, place, by omega, .left hrun, hleft value place hexit, hrest⟩

end Realizes

/-- The exits of code that lies in these surroundings and ends before `finish`. -/
def exitsFrom (program : List Instruction) (around : Surroundings) (finish : Nat) :
    Outcome → Nat → Prop
  | .finished, place => place = finish
  | .broke, place =>
    ∃ labels, around.innermost = some labels ∧ labelPlace? program labels.exit = some place
  | .continued, place =>
    ∃ labels, around.innermost = some labels ∧ labelPlace? program labels.head = some place
  | .left value, place => program[place]? = some (.leave value)

/-- The program has a place for the labels of the loop around a piece of code. -/
def Resolves (program : List Instruction) (around : Surroundings) : Prop :=
  ∀ labels, around.innermost = some labels →
    (∃ place, labelPlace? program labels.head = some place) ∧
      ∃ place, labelPlace? program labels.exit = some place

theorem Realizes.seq {around : Surroundings} {start mid finish : Nat}
    {first second : Behavior σ}
    (hfirst : I.Realizes program start (exitsFrom program around mid) first)
    (hsecond : I.Realizes program mid (exitsFrom program around finish) second) :
    I.Realizes program start (exitsFrom program around finish) (first.andThen second) := by
  apply hfirst.andThen
  · rintro _ rfl
    exact hsecond
  · intro o place ho hexit
    cases o with
    | finished => exact absurd rfl ho
    | _ => exact hexit

/-- Code that ends before an instruction that only moves control may as well end behind it. -/
theorem Realizes.extend {around : Surroundings} {start finish next : Nat}
    {behavior : Behavior σ}
    (h : I.Realizes program start (exitsFrom program around finish) behavior)
    (hlead : I.Leads program finish next) :
    I.Realizes program start (exitsFrom program around next) behavior := by
  rw [← behavior.andThen_ends]
  exact h.seq (.of_leads hlead (.ends rfl))

/-- Wherever the code stands in a program with distinct labels, the program does there what the
behavior says. -/
def RealizedBy (I : Interpretation σ) (around : Surroundings) (code : List Instruction)
    (behavior : Behavior σ) : Prop :=
  ∀ program place finish, Placed program place code → finish = place + code.length →
    (placedLabels program).Nodup → Resolves program around →
    I.Realizes program place (exitsFrom program around finish) behavior

namespace RealizedBy

variable {around : Surroundings} {test code thenCode elseCode : List Instruction}
  {condition : Operand} {first second : Behavior σ}

theorem straight (hcode : ∀ i ∈ code, i.isStraight = true) :
    I.RealizedBy around code (Behavior.straight I code) := by
  rintro program place _ hplaced rfl _ _
  exact .straight hplaced hcode rfl

theorem append {rest : List Instruction} (hfirst : I.RealizedBy around code first)
    (hsecond : I.RealizedBy around rest second) :
    I.RealizedBy around (code ++ rest) (first.andThen second) := by
  intro program place finish hplaced hfinish hunique hresolves
  rw [List.length_append, ← Nat.add_assoc] at hfinish
  exact (hfirst program place _ hplaced.left rfl hunique hresolves).seq
    (hsecond program _ finish hplaced.right hfinish hunique hresolves)

theorem leave (value : Option Operand) :
    I.RealizedBy around [.leave value] (Behavior.ends (.left value)) := by
  rintro program place _ hplaced rfl _ _
  exact .ends hplaced.head

theorem jumpExit {labels : LoopLabels} (hlabels : around.innermost = some labels) :
    I.RealizedBy around [.jump labels.exit] (Behavior.ends .broke) := by
  rintro program place _ hplaced rfl _ hresolves
  obtain ⟨-, exit, hexit⟩ := hresolves labels hlabels
  exact .of_leads (leads_jump hplaced.head hexit) (.ends ⟨labels, hlabels, hexit⟩)

theorem jumpHead {labels : LoopLabels} (hlabels : around.innermost = some labels) :
    I.RealizedBy around [.jump labels.head] (Behavior.ends .continued) := by
  rintro program place _ hplaced rfl _ hresolves
  obtain ⟨⟨head, hhead⟩, -⟩ := hresolves labels hlabels
  exact .of_leads (leads_jump hplaced.head hhead) (.ends ⟨labels, hlabels, hhead⟩)

/-- A conditional without an alternative. -/
theorem branch {yes done : Label} (htest : ∀ i ∈ test, i.isStraight = true)
    (hthen : I.RealizedBy around thenCode first) :
    I.RealizedBy around
      (test ++ [.branch condition yes, .jump done, .label yes] ++ thenCode ++ [.label done])
      ((Behavior.straight I test).andThen
        (Behavior.ifElse (I.holds condition) first (Behavior.ends .finished))) := by
  intro program place finish hplaced hfinish hunique hresolves
  let fork := place + test.length
  have hjumps : Placed program fork _ := hplaced.left.left.right
  have hthenCode : Placed program (fork + 3) thenCode :=
    hplaced.left.right.of_eq (by simp [fork]; omega)
  have hlast : Placed program (fork + 3 + thenCode.length) _ :=
    hplaced.right.of_eq (by simp [fork]; omega)
  obtain rfl : finish = fork + 3 + thenCode.length + 1 := by
    simp [fork] at hfinish ⊢; omega
  have hyes := labelPlace?_eq_some hunique hjumps.tail.tail.head
  have hend := labelPlace?_eq_some hunique hlast.head
  have hbody := (hthen program _ _ hthenCode rfl hunique hresolves).extend
    (leads_label hlast.head)
  apply Realizes.straight_andThen hplaced.left.left.left htest
  apply Realizes.ifElse (step_branch hjumps.head hyes)
  · exact .of_leads (leads_label hjumps.tail.tail.head) hbody
  · exact .of_leads (leads_jump hjumps.tail.head hend)
      (.of_leads (leads_label hlast.head) (.ends rfl))

/-- A conditional with an alternative; both branches meet at the last label. -/
theorem branchElse {yes no done : Label} (htest : ∀ i ∈ test, i.isStraight = true)
    (hthen : I.RealizedBy around thenCode first)
    (helse : I.RealizedBy around elseCode second) :
    I.RealizedBy around
      (test ++ [.branch condition yes, .jump no, .label yes] ++ thenCode ++
        [.jump done, .label no] ++ elseCode ++ [.label done])
      ((Behavior.straight I test).andThen
        (Behavior.ifElse (I.holds condition) first second)) := by
  intro program place finish hplaced hfinish hunique hresolves
  let fork := place + test.length
  have hjumps : Placed program fork _ := hplaced.left.left.left.left.right
  have hthenCode : Placed program (fork + 3) thenCode :=
    hplaced.left.left.left.right.of_eq (by simp [fork]; omega)
  have hmiddle : Placed program (fork + 3 + thenCode.length) _ :=
    hplaced.left.left.right.of_eq (by simp [fork]; omega)
  have helseCode : Placed program (fork + 3 + thenCode.length + 2) elseCode :=
    hplaced.left.right.of_eq (by simp [fork]; omega)
  have hlast : Placed program (fork + 3 + thenCode.length + 2 + elseCode.length) _ :=
    hplaced.right.of_eq (by simp [fork]; omega)
  obtain rfl : finish = fork + 3 + thenCode.length + 2 + elseCode.length + 1 := by
    simp [fork] at hfinish ⊢; omega
  have hyes := labelPlace?_eq_some hunique hjumps.tail.tail.head
  have hno := labelPlace?_eq_some hunique hmiddle.tail.head
  have hend := labelPlace?_eq_some hunique hlast.head
  have hthenBody := ((hthen program _ _ hthenCode rfl hunique hresolves).extend
    (leads_jump hmiddle.head hend)).extend (leads_label hlast.head)
  have helseBody := (helse program _ _ helseCode rfl hunique hresolves).extend
    (leads_label hlast.head)
  apply Realizes.straight_andThen hplaced.left.left.left.left.left htest
  apply Realizes.ifElse (step_branch hjumps.head hyes)
  · exact .of_leads (leads_label hjumps.tail.tail.head) hthenBody
  · exact .of_leads (leads_jump hjumps.tail.head hno)
      (.of_leads (leads_label hmiddle.tail.head) helseBody)

/-- A loop: its body lies in surroundings that know the two labels of the loop. -/
theorem loop {head yes exit : Label} (htest : ∀ i ∈ test, i.isStraight = true)
    (hbody : I.RealizedBy (around.inLoop ⟨head, exit⟩) code first) :
    I.RealizedBy around
      ([.label head] ++ test ++ [.branch condition yes, .jump exit, .label yes] ++ code ++
        [.jump head, .label exit])
      (Behavior.rounds ((Behavior.straight I test).andThen
        (Behavior.ifElse (I.holds condition) first (Behavior.ends .broke)))) := by
  intro program place finish hplaced hfinish hunique hresolves
  let fork := place + 1 + test.length
  have hfirst := hplaced.left.left.left.left
  have hjumps : Placed program fork _ := hplaced.left.left.right.of_eq (by simp [fork]; omega)
  have hbodyCode : Placed program (fork + 3) code :=
    hplaced.left.right.of_eq (by simp [fork]; omega)
  have hlast : Placed program (fork + 3 + code.length) _ :=
    hplaced.right.of_eq (by simp [fork]; omega)
  obtain rfl : finish = fork + 3 + code.length + 1 + 1 := by
    simp [fork] at hfinish ⊢; omega
  have hhead := labelPlace?_eq_some hunique hfirst.head
  have hyes := labelPlace?_eq_some hunique hjumps.tail.tail.head
  have hexit := labelPlace?_eq_some hunique hlast.tail.head
  have hround : I.Realizes program (place + 1)
      (exitsFrom program (around.inLoop ⟨head, exit⟩) (fork + 3 + code.length))
      ((Behavior.straight I test).andThen
        (Behavior.ifElse (I.holds condition) first (Behavior.ends .broke))) := by
    apply Realizes.straight_andThen hplaced.left.left.left.right htest
    apply Realizes.ifElse (step_branch hjumps.head hyes)
    · apply Realizes.of_leads (leads_label hjumps.tail.tail.head)
      apply hbody program _ _ hbodyCode rfl hunique
      rintro _ ⟨⟩
      exact ⟨⟨_, hhead⟩, ⟨_, hexit⟩⟩
    · exact .of_leads (leads_jump hjumps.tail.head hexit) (.ends ⟨_, rfl, hexit⟩)
  apply Realizes.rounds (leads_label hfirst.head) hround
  · rintro _ rfl
    exact leads_jump hlast.head hhead
  · rintro back ⟨_, ⟨⟩, hback⟩
    exact Option.some.inj (hback.symm.trans hhead)
  · rintro out ⟨_, ⟨⟩, hout⟩
    obtain rfl := Option.some.inj (hout.symm.trans hexit)
    exact ⟨_, leads_label hlast.tail.head, rfl⟩
  · intro value back hback
    exact hback

end RealizedBy

end Interpretation

namespace Stmt

open Interpretation

variable {I : Interpretation σ}

private theorem realizedBy_induction :
    (∀ around stmt start code last, lower around stmt start = .ok (code, last) →
      I.RealizedBy around code (stmt.behavior I start.temp)) ∧
    (∀ around body start code last, lowerAll around body start = .ok (code, last) →
      I.RealizedBy around code (behaviorAll I body start.temp)) := by
  apply lower_induction
    (fun around stmt start code _ => I.RealizedBy around code (stmt.behavior I start.temp))
    (fun around body start code _ => I.RealizedBy around code (behaviorAll I body start.temp))
  case assign =>
    intro around target value span start code next h
    have hbehavior : behavior I (.assign target value span) start.temp =
        Behavior.straight I code := by simp [behavior, h]
    rw [hbehavior]
    exact .straight (isStraight_of_mem_lowerAssign h)
  case branch =>
    intro around test thenBody span start thenCode last hthen
    rw [behavior]
    exact .branch (test.isStraight_of_mem_lower _) hthen
  case branchElse =>
    intro around test thenBody elseBody span start thenCode mid elseCode last hlower hthen helse
    rw [behavior]
    rw [temp_of_lowerAll hlower] at helse
    exact .branchElse (test.isStraight_of_mem_lower _) hthen helse
  case loop =>
    intro around test body span start bodyCode last hbody
    rw [behavior]
    exact .loop (test.isStraight_of_mem_lower _) hbody
  case leave =>
    intro around span start _
    exact .leave none
  case leaveWith =>
    intro around value span start _
    exact .append (.straight (value.isStraight_of_mem_lower _)) (.leave _)
  case pass =>
    rintro around span start program place _ hplaced rfl _ _
    exact .ends rfl
  case breakLoop =>
    intro around span start labels hlabels
    exact .jumpExit hlabels
  case continueLoop =>
    intro around span start labels hlabels
    exact .jumpHead hlabels
  case eval =>
    intro around expr span start
    exact .straight (expr.isStraight_of_mem_lowerStatement start.temp)
  case nil =>
    rintro around start program place _ hplaced rfl _ _
    exact .ends rfl
  case cons =>
    intro around stmt others start first mid rest last hlower hfirst hrest
    rw [temp_of_lower hlower] at hrest
    exact .append hfirst hrest

theorem realizedBy_lowerAll {around : Surroundings} {body : List Stmt} {start last : Counters}
    {code : List Instruction} (h : lowerAll around body start = .ok (code, last)) :
    I.RealizedBy around code (behaviorAll I body start.temp) :=
  realizedBy_induction.2 around body start code last h

theorem exitsFrom_outside (program : List Instruction) (inFunction : Bool)
    (outcome : Outcome) (place : Nat) :
    exitsFrom program ⟨inFunction, none⟩ program.length outcome place ↔
      EndsAt program outcome place := by
  cases outcome <;> simp [exitsFrom, EndsAt]

/-- Running the code of a body outside of loops ends as running the body as it is written does:
in the same states, at the end or at the same return. -/
theorem terminates_lowerAll_iff (I : Interpretation σ) {inFunction : Bool} {body : List Stmt}
    {start last : Counters} {code : List Instruction}
    (h : lowerAll ⟨inFunction, none⟩ body start = .ok (code, last))
    (s : σ) (outcome : Outcome) (s' : σ) :
    I.Terminates code s outcome s' ↔ behaviorAll I body start.temp s outcome s' := by
  have hrealizes := realizedBy_lowerAll (I := I) h code 0 code.length (.self code)
    (Nat.zero_add _).symm (placedLabels_nodup h) (fun labels hlabels => by cases hlabels)
  constructor
  · rintro ⟨n, place, hsteps, hend⟩
    obtain ⟨m, o, mid, exit, -, hrun, hexit, hrest⟩ := hrealizes.passes hsteps hend
    rw [exitsFrom_outside] at hexit
    -- the exit is an end already, so nothing was left to run behind it
    cases hrest with
    | refl =>
      obtain rfl := hend.unique hexit
      exact hrun
    | head hstep _ =>
      have hstuck := step_eq_none_of_endsAt (I := I) (c := ⟨exit, mid⟩) hexit
      rw [hstuck] at hstep
      cases hstep
  · intro hrun
    obtain ⟨n, place, hsteps, hexit⟩ := hrealizes.reaches hrun
    exact ⟨n, place, hsteps, (exitsFrom_outside _ _ _ _).mp hexit⟩

end Stmt

namespace ControlFlowWitness

/-- Calls count down, and a condition holds while the count is positive. -/
def countdown : Interpretation Nat where
  effect := fun
    | .call _ _ _, count => some (count - 1)
    | _, count => some count
  holds := fun _ count => 0 < count

def x : Expr := .name "x" Span.absent

/-- `while x: (f(); if x: continue; else: break)` -/
def spin : Stmt :=
  .loop x
    [.eval (.call (.name "f" Span.absent) [] Span.absent) Span.absent,
     .branch x [.continueLoop Span.absent] (some [.breakLoop Span.absent]) Span.absent]
    Span.absent

def body : List Stmt := [spin, .leave (some x) Span.absent]

def code : List Instruction :=
  [.label ⟨1⟩, .branch (.var "x") ⟨2⟩, .jump ⟨3⟩, .label ⟨2⟩, .call ⟨1⟩ (.var "f") [],
   .branch (.var "x") ⟨4⟩, .jump ⟨5⟩, .label ⟨4⟩, .jump ⟨1⟩, .jump ⟨6⟩, .label ⟨5⟩, .jump ⟨3⟩,
   .label ⟨6⟩, .jump ⟨1⟩, .label ⟨3⟩, .leave (some (.var "x"))]

/-- From two the loop goes round twice: the first round continues, the second breaks. -/
theorem terminates_lowerAll_countdown :
    Stmt.lowerAll ⟨true, none⟩ body .first = .ok (code, ⟨2, 7⟩) ∧
      countdown.Terminates code 2 (.left (some (.var "x"))) 0 := by
  have hlower : Stmt.lowerAll ⟨true, none⟩ body .first = .ok (code, ⟨2, 7⟩) := by decide
  have hspin : spin.behavior countdown 1 2 .finished 0 := by
    rw [spin, Stmt.behavior]
    refine @Behavior.rounds.again _ _ 2 1 0 .continued .finished ?_ (.inr rfl) (.broke ?_) <;>
      simp [Stmt.behaviorAll, Stmt.behavior, Behavior.andThen, Behavior.ifElse,
        Behavior.straight, Behavior.ends, Expr.lower, Expr.lowerAll, Expr.lowerStatement,
        Lowered.emit, countdown, x]
  refine ⟨hlower, (Stmt.terminates_lowerAll_iff countdown hlower 2 _ 0).mpr ?_⟩
  refine .inl ⟨0, hspin, .inr ⟨by decide, .inl ⟨0, ⟨rfl, rfl⟩, rfl, rfl⟩⟩⟩

end ControlFlowWitness

end Offside
