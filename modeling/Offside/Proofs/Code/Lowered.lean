/-
What lowering leaves behind: expressions lower to straight-line code, and code that lowering
accepts can be taken apart along the statements it came from.
-/
import Offside.Code.Lowering
import Offside.Proofs.Program.Induction

namespace Offside

/-- A sequence that succeeds is made of two steps that succeed. -/
theorem exists_of_bind_eq_ok {ε α β : Type} {first : Except ε α}
    {second : α → Except ε β} {result : β} (h : (first >>= second) = .ok result) :
    ∃ value, first = .ok value ∧ second value = .ok result := by
  cases first with
  | error => cases h
  | ok value => exact ⟨value, rfl, h⟩

/-- Instructions after which control goes on to the next one. -/
def Instruction.isStraight : Instruction → Bool
  | leave _ | label _ | branch _ _ | jump _ => false
  | _ => true

/-! ### Expressions -/

theorem Expr.isStraight_of_mem_lowerAll {args : List Expr}
    (hargs : ∀ arg ∈ args, ∀ (next : Nat) (i : Instruction),
      i ∈ (arg.lower next).code → i.isStraight = true)
    (next : Nat) : ∀ i ∈ (Expr.lowerAll args next).code, i.isStraight = true := by
  induction args generalizing next with
  | nil => simp [Expr.lowerAll]
  | cons arg others ih =>
    rw [List.forall_mem_cons] at hargs
    simp only [Expr.lowerAll, List.mem_append]
    rintro i (hi | hi)
    · exact hargs.1 next i hi
    · exact ih hargs.2 _ i hi

theorem Expr.isStraight_of_mem_lower (expr : Expr) (next : Nat) :
    ∀ i ∈ (expr.lower next).code, i.isStraight = true := by
  induction expr using Expr.induction generalizing next with
  | constant value span => simp [Expr.lower]
  | name id span => simp [Expr.lower]
  | binary op left right span ihLeft ihRight =>
    simp only [Expr.lower, Lowered.emit, List.mem_append, List.mem_singleton]
    rintro i ((hi | hi) | rfl)
    · exact ihLeft _ i hi
    · exact ihRight _ i hi
    · rfl
  | unary op operand span ih =>
    simp only [Expr.lower, Lowered.emit, List.mem_append, List.mem_singleton]
    rintro i (hi | rfl)
    · exact ih _ i hi
    · rfl
  | call callee args span ihCallee ihArgs =>
    simp only [Expr.lower, Lowered.emit, List.mem_append, List.mem_singleton]
    rintro i ((hi | hi) | rfl)
    · exact ihCallee _ i hi
    · exact Expr.isStraight_of_mem_lowerAll ihArgs _ i hi
    · rfl
  | methodCall receiver method args span ihReceiver ihArgs =>
    simp only [Expr.lower, Lowered.emit, List.mem_append, List.mem_singleton]
    rintro i ((hi | hi) | rfl)
    · exact ihReceiver _ i hi
    · exact Expr.isStraight_of_mem_lowerAll ihArgs _ i hi
    · rfl
  | construct className args span ihArgs =>
    simp only [Expr.lower, Lowered.emit, List.mem_append, List.mem_singleton]
    rintro i (hi | rfl)
    · exact Expr.isStraight_of_mem_lowerAll ihArgs _ i hi
    · rfl
  | member receiver attr span ih => exact ih next

theorem Expr.isStraight_of_mem_lowerTarget {target : Expr} {next : Nat}
    {place : Lowered Place} (h : target.lowerTarget next = .ok place) :
    ∀ i ∈ place.code, i.isStraight = true := by
  cases target with
  | name id span => cases h; simp
  | member receiver attr span => cases h; exact receiver.isStraight_of_mem_lower next
  | _ => cases h

theorem Expr.isStraight_of_mem_lowerStatement (expr : Expr) (next : Nat) :
    ∀ i ∈ (expr.lowerStatement next).1, i.isStraight = true := by
  have hcode := expr.isStraight_of_mem_lower next
  have hassigned : ∀ i ∈ (expr.lower next).code ++
      [.assign ⟨(expr.lower next).next⟩ (expr.lower next).value], i.isStraight = true := by
    simp only [List.mem_append, List.mem_singleton]
    rintro i (hi | rfl)
    · exact hcode i hi
    · rfl
  cases expr with
  | constant | name | member => exact hassigned
  | _ => exact hcode

/-! ### Statements -/

namespace Stmt

/-- The two ways of lowering an assignment. -/
theorem lowerAssign_ok {target value : Expr} {next last : Nat} {code : List Instruction}
    (h : lowerAssign target value next = .ok (code, last)) :
    (∃ op right place, target.augmented? value = some (op, right) ∧
      target.lowerTarget next = .ok place ∧
      code = place.code ++ (right.lower place.next).code ++
        [.binary ⟨(right.lower place.next).next⟩ op place.value.operand
          (right.lower place.next).value,
         .store (.temp ⟨(right.lower place.next).next⟩) place.value] ∧
      last = (right.lower place.next).next + 1) ∨
    (∃ place, target.augmented? value = none ∧
      target.lowerTarget (value.lower next).next = .ok place ∧
      code = (value.lower next).code ++ place.code ++
        [.store (value.lower next).value place.value] ∧
      last = place.next) := by
  rw [lowerAssign] at h
  split at h
  case h_1 op right haugmented =>
    obtain ⟨place, hplace, hrest⟩ := exists_of_bind_eq_ok h
    cases hrest
    exact .inl ⟨op, right, place, haugmented, hplace, rfl, rfl⟩
  case h_2 haugmented =>
    obtain ⟨place, hplace, hrest⟩ := exists_of_bind_eq_ok h
    cases hrest
    exact .inr ⟨place, haugmented, hplace, rfl, rfl⟩

theorem isStraight_of_mem_lowerAssign {target value : Expr} {next last : Nat}
    {code : List Instruction} (h : lowerAssign target value next = .ok (code, last)) :
    ∀ i ∈ code, i.isStraight = true := by
  rcases lowerAssign_ok h with
    ⟨op, right, place, -, hplace, rfl, -⟩ | ⟨place, -, hplace, rfl, -⟩
  · simp only [List.mem_append, List.mem_cons, List.not_mem_nil, or_false]
    rintro i ((hi | hi) | rfl | rfl)
    · exact Expr.isStraight_of_mem_lowerTarget hplace i hi
    · exact right.isStraight_of_mem_lower _ i hi
    · rfl
    · rfl
  · simp only [List.mem_append, List.mem_cons, List.not_mem_nil, or_false]
    rintro i ((hi | hi) | rfl)
    · exact value.isStraight_of_mem_lower _ i hi
    · exact Expr.isStraight_of_mem_lowerTarget hplace i hi
    · rfl

/-- Induction along a lowering that succeeds: one case for each statement that has code, with
the code it has.  Where code starts from the counters that other code leaves, the case also has
the lowering of that other code. -/
theorem lower_induction
    (motive : Surroundings → Stmt → Counters → List Instruction → Counters → Prop)
    (motiveAll : Surroundings → List Stmt → Counters → List Instruction → Counters → Prop)
    (assign : ∀ around target value span (start : Counters) code next,
      lowerAssign target value start.temp = .ok (code, next) →
      motive around (.assign target value span) start code { start with temp := next })
    (branch : ∀ around test thenBody span (start : Counters) thenCode last,
      motiveAll around thenBody ⟨(test.lower start.temp).next, start.label + 2⟩ thenCode last →
      motive around (.branch test thenBody none span) start
        ((test.lower start.temp).code ++
          [.branch (test.lower start.temp).value ⟨start.label⟩, .jump ⟨start.label + 1⟩,
            .label ⟨start.label⟩] ++
          thenCode ++ [.label ⟨start.label + 1⟩]) last)
    (branchElse : ∀ around test thenBody elseBody span (start : Counters) thenCode mid
        elseCode last,
      lowerAll around thenBody ⟨(test.lower start.temp).next, start.label + 3⟩ =
        .ok (thenCode, mid) →
      motiveAll around thenBody ⟨(test.lower start.temp).next, start.label + 3⟩ thenCode mid →
      motiveAll around elseBody mid elseCode last →
      motive around (.branch test thenBody (some elseBody) span) start
        ((test.lower start.temp).code ++
          [.branch (test.lower start.temp).value ⟨start.label⟩, .jump ⟨start.label + 1⟩,
            .label ⟨start.label⟩] ++
          thenCode ++ [.jump ⟨start.label + 2⟩, .label ⟨start.label + 1⟩] ++ elseCode ++
          [.label ⟨start.label + 2⟩]) last)
    (loop : ∀ (around : Surroundings) test body span (start : Counters) bodyCode last,
      motiveAll (around.inLoop ⟨⟨start.label⟩, ⟨start.label + 2⟩⟩) body
        ⟨(test.lower start.temp).next, start.label + 3⟩ bodyCode last →
      motive around (.loop test body span) start
        ([.label ⟨start.label⟩] ++ (test.lower start.temp).code ++
          [.branch (test.lower start.temp).value ⟨start.label + 1⟩,
            .jump ⟨start.label + 2⟩, .label ⟨start.label + 1⟩] ++
          bodyCode ++ [.jump ⟨start.label⟩, .label ⟨start.label + 2⟩]) last)
    (leave : ∀ (around : Surroundings) span start, around.inFunction = true →
      motive around (.leave none span) start [.leave none] start)
    (leaveWith : ∀ (around : Surroundings) value span (start : Counters),
      around.inFunction = true →
      motive around (.leave (some value) span) start
        ((value.lower start.temp).code ++ [.leave (some (value.lower start.temp).value)])
        { start with temp := (value.lower start.temp).next })
    (pass : ∀ around span start, motive around (.pass span) start [] start)
    (breakLoop : ∀ (around : Surroundings) span start labels,
      around.innermost = some labels →
      motive around (.breakLoop span) start [.jump labels.exit] start)
    (continueLoop : ∀ (around : Surroundings) span start labels,
      around.innermost = some labels →
      motive around (.continueLoop span) start [.jump labels.head] start)
    (eval : ∀ around expr span (start : Counters),
      motive around (.eval expr span) start (expr.lowerStatement start.temp).1
        { start with temp := (expr.lowerStatement start.temp).2 })
    (nil : ∀ around start, motiveAll around [] start [] start)
    (cons : ∀ around stmt others start first mid rest last,
      lower around stmt start = .ok (first, mid) → motive around stmt start first mid →
      motiveAll around others mid rest last →
      motiveAll around (stmt :: others) start (first ++ rest) last) :
    (∀ around stmt start code last, lower around stmt start = .ok (code, last) →
      motive around stmt start code last) ∧
    (∀ around body start code last, lowerAll around body start = .ok (code, last) →
      motiveAll around body start code last) := by
  have hall : ∀ body : List Stmt,
      (∀ stmt ∈ body, ∀ around start code last, lower around stmt start = .ok (code, last) →
        motive around stmt start code last) →
      ∀ around start code last, lowerAll around body start = .ok (code, last) →
        motiveAll around body start code last := by
    intro body hbody
    induction body with
    | nil =>
      intro around start code last h
      cases h
      exact nil around start
    | cons stmt others ih =>
      rw [List.forall_mem_cons] at hbody
      intro around start code last h
      rw [lowerAll] at h
      obtain ⟨⟨first, mid⟩, hfirst, h⟩ := exists_of_bind_eq_ok h
      obtain ⟨⟨rest, last⟩, hrest, h⟩ := exists_of_bind_eq_ok h
      cases h
      exact cons _ _ _ _ _ _ _ _ hfirst (hbody.1 _ _ _ _ hfirst)
        (ih hbody.2 _ _ _ _ hrest)
  have hone : ∀ stmt around start code last, lower around stmt start = .ok (code, last) →
      motive around stmt start code last := by
    intro stmt
    induction stmt using Stmt.induction with
    | function definition span => intro _ _ _ _ h; cases h
    | classDef name methods span => intro _ _ _ _ h; cases h
    | assign target value span =>
      intro around start code last h
      obtain ⟨⟨code, next⟩, hcode, h⟩ := exists_of_bind_eq_ok h
      cases h
      exact assign _ _ _ _ _ _ _ hcode
    | branch test thenBody elseBody span ihThen ihElse =>
      intro around start code last h
      cases elseBody with
      | none =>
        obtain ⟨⟨thenCode, last⟩, hthen, h⟩ := exists_of_bind_eq_ok h
        cases h
        exact branch _ _ _ _ _ _ _ (hall thenBody ihThen _ _ _ _ hthen)
      | some elseBody =>
        obtain ⟨⟨thenCode, mid⟩, hthen, h⟩ := exists_of_bind_eq_ok h
        obtain ⟨⟨elseCode, last⟩, helse, h⟩ := exists_of_bind_eq_ok h
        cases h
        exact branchElse _ _ _ _ _ _ _ _ _ _ hthen (hall thenBody ihThen _ _ _ _ hthen)
          (hall elseBody (ihElse elseBody rfl) _ _ _ _ helse)
    | loop test body span ih =>
      intro around start code last h
      obtain ⟨⟨bodyCode, last⟩, hbody, h⟩ := exists_of_bind_eq_ok h
      cases h
      exact loop _ _ _ _ _ _ _ (hall body ih _ _ _ _ hbody)
    | leave value span =>
      intro around start code last h
      by_cases hfunction : around.inFunction = true
      · cases value with
        | none =>
          simp only [lower, hfunction, if_true] at h
          cases h
          exact leave _ _ _ hfunction
        | some value =>
          simp only [lower, hfunction, if_true] at h
          cases h
          exact leaveWith _ _ _ _ hfunction
      · simp only [lower, hfunction] at h
        cases h
    | pass span => intro around start code last h; cases h; exact pass _ _ _
    | breakLoop span =>
      intro around start code last h
      rw [lower] at h
      split at h
      case h_1 labels hlabels => cases h; exact breakLoop _ _ _ _ hlabels
      case h_2 => cases h
    | continueLoop span =>
      intro around start code last h
      rw [lower] at h
      split at h
      case h_1 labels hlabels => cases h; exact continueLoop _ _ _ _ hlabels
      case h_2 => cases h
    | eval expr span => intro around start code last h; cases h; exact eval _ _ _ _
  exact ⟨fun around stmt start code last => hone stmt around start code last,
    fun around body => hall body (fun stmt _ => hone stmt) around⟩

end Stmt

end Offside
