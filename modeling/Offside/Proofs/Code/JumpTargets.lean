/-
Where jumps go.  Every jump of a scope goes to a label of the same scope, and what a statement that
leaves or restarts a loop adds to the code is one jump to the end or the head of the innermost loop
around it.
-/
import Offside.Proofs.Code.SingleAssignment
import Offside.Proofs.Program.Gap

namespace Offside

/-! ### Jumps -/

/-- The label to which an instruction may send control. -/
def Instruction.target? : Instruction → Option Label
  | branch _ target => some target
  | jump target => some target
  | _ => none

/-- Code that sends control to no labels but these. -/
def JumpsInto (labels : List Label) (code : List Instruction) : Prop :=
  ∀ i ∈ code, ∀ target, i.target? = some target → target ∈ labels

/-- The code of a condition, and the jumps behind it to where it holds and to where it does not. -/
def Expr.lowerTest (test : Expr) (next : Nat) (yes no : Label) : List Instruction :=
  (test.lower next).code ++ [.branch (test.lower next).value yes, .jump no, .label yes]

/-- The labels of the loop around a statement. -/
def Surroundings.loopLabels (around : Surroundings) : List Label :=
  match around.innermost with
  | some labels => [labels.head, labels.exit]
  | none => []

namespace JumpsInto

variable {labels : List Label} {i : Instruction} {left right code : List Instruction}

theorem nil : JumpsInto labels [] := List.forall_mem_nil _

theorem cons (hi : ∀ target, i.target? = some target → target ∈ labels)
    (h : JumpsInto labels code) : JumpsInto labels (i :: code) :=
  List.forall_mem_cons.mpr ⟨hi, h⟩

theorem append (hleft : JumpsInto labels left) (hright : JumpsInto labels right) :
    JumpsInto labels (left ++ right) :=
  List.forall_mem_append.mpr ⟨hleft, hright⟩

theorem of_straight (h : ∀ i ∈ code, i.isStraight = true) : JumpsInto labels code := by
  intro i hi target htarget
  have hstraight := h i hi
  cases i with
  | branch | jump => cases hstraight
  | _ => cases htarget

theorem of_test (test : Expr) (next : Nat) {yes no : Label} (hyes : yes ∈ labels)
    (hno : no ∈ labels) : JumpsInto labels (test.lowerTest next yes no) := by
  refine (of_straight (test.isStraight_of_mem_lower next)).append
    (.cons ?_ (.cons ?_ (.cons ?_ nil)))
  · rintro _ ⟨⟩
    exact hyes
  · rintro _ ⟨⟩
    exact hno
  · rintro _ ⟨⟩

theorem jump {target : Label} (h : target ∈ labels) : JumpsInto labels [.jump target] := by
  refine cons ?_ nil
  rintro _ ⟨⟩
  exact h

/-- Instructions that send control nowhere. -/
theorem of_none (h : ∀ i ∈ code, i.target? = none) : JumpsInto labels code := by
  intro i hi target htarget
  rw [h i hi] at htarget
  cases htarget

end JumpsInto

namespace Stmt

/-- Code whose jumps stay among its own labels and those of the loop around it. -/
private def Closed (around : Surroundings) (code : List Instruction) : Prop :=
  ∀ labels, placedLabels code ⊆ labels → around.loopLabels ⊆ labels → JumpsInto labels code

private theorem closed_induction :
    (∀ around stmt start code last, lower around stmt start = .ok (code, last) →
      Closed around code) ∧
    (∀ around body start code last, lowerAll around body start = .ok (code, last) →
      Closed around code) := by
  apply lower_induction (fun around _ _ code _ => Closed around code)
    (fun around _ _ code _ => Closed around code)
  case assign =>
    intro around target value span start code next h labels _ _
    exact .of_straight (isStraight_of_mem_lowerAssign h)
  case branch =>
    intro around test thenBody span start thenCode last hthen labels hplaced haround
    obtain ⟨hyes, hinner, hno⟩ : (⟨start.label⟩ : Label) ∈ labels ∧
        placedLabels thenCode ⊆ labels ∧ ⟨start.label + 1⟩ ∈ labels := by
      simpa [Instruction.placed?] using hplaced
    exact ((JumpsInto.of_test test _ hyes hno).append (hthen labels hinner haround)).append
      (.of_none (by simp [Instruction.target?]))
  case branchElse =>
    intro around test thenBody elseBody span start thenCode mid elseCode last _ hthen helse labels
      hplaced haround
    obtain ⟨hyes, hfirst, hno, hsecond, hend⟩ : (⟨start.label⟩ : Label) ∈ labels ∧
        placedLabels thenCode ⊆ labels ∧ ⟨start.label + 1⟩ ∈ labels ∧
        placedLabels elseCode ⊆ labels ∧ ⟨start.label + 2⟩ ∈ labels := by
      simpa [Instruction.placed?] using hplaced
    have hskip : JumpsInto labels [.jump ⟨start.label + 2⟩, .label ⟨start.label + 1⟩] :=
      (JumpsInto.jump hend).append (.of_none (by simp [Instruction.target?]))
    exact ((((JumpsInto.of_test test _ hyes hno).append (hthen labels hfirst haround)).append
      hskip).append (helse labels hsecond haround)).append
        (.of_none (by simp [Instruction.target?]))
  case loop =>
    intro around test body span start bodyCode last hbody labels hplaced haround
    obtain ⟨hhead, hyes, hinner, hexit⟩ : (⟨start.label⟩ : Label) ∈ labels ∧
        ⟨start.label + 1⟩ ∈ labels ∧ placedLabels bodyCode ⊆ labels ∧
        ⟨start.label + 2⟩ ∈ labels := by
      simpa [Instruction.placed?] using hplaced
    have hloop : (around.inLoop ⟨⟨start.label⟩, ⟨start.label + 2⟩⟩).loopLabels ⊆ labels := by
      simp [Surroundings.loopLabels, Surroundings.inLoop, hhead, hexit]
    have hback : JumpsInto labels [.jump ⟨start.label⟩, .label ⟨start.label + 2⟩] :=
      (JumpsInto.jump hhead).append (.of_none (by simp [Instruction.target?]))
    rw [List.append_assoc [_]]
    exact (((JumpsInto.of_none (by simp [Instruction.target?])).append
      (.of_test test _ hyes hexit)).append (hbody labels hinner hloop)).append hback
  case leave =>
    intro around span start _ labels _ _
    exact .of_none (by simp [Instruction.target?])
  case leaveWith =>
    intro around value span start _ labels _ _
    exact (JumpsInto.of_straight (value.isStraight_of_mem_lower _)).append
      (.of_none (by simp [Instruction.target?]))
  case pass =>
    intro around span start labels _ _
    exact .nil
  case breakLoop =>
    intro around span start loop hloop labels _ haround
    exact .jump (haround (by simp [Surroundings.loopLabels, hloop]))
  case continueLoop =>
    intro around span start loop hloop labels _ haround
    exact .jump (haround (by simp [Surroundings.loopLabels, hloop]))
  case eval =>
    intro around expr span start labels _ _
    exact .of_straight (expr.isStraight_of_mem_lowerStatement start.temp)
  case nil =>
    intro around start labels _ _
    exact .nil
  case cons =>
    intro around stmt others start first mid rest last _ hfirst hrest labels hplaced haround
    rw [placedLabels_append, List.append_subset] at hplaced
    exact (hfirst labels hplaced.1 haround).append (hrest labels hplaced.2 haround)

theorem jumpsInto_of_lowerAll {around : Surroundings} {body : List Stmt} {start last : Counters}
    {code : List Instruction} (h : lowerAll around body start = .ok (code, last))
    (haround : around.innermost = none) : JumpsInto (placedLabels code) code := by
  refine closed_induction.2 around body start code last h _ (List.Subset.refl _) ?_
  rw [Surroundings.loopLabels, haround]
  exact List.nil_subset _

end Stmt

/-! ### The code around a gap -/

/-- What is lowered at a place of some code: in which surroundings and between which counters, and
the code before and behind its own. -/
structure Opening where
  around : Surroundings
  start : Counters
  last : Counters
  before : List Instruction
  after : List Instruction

/-- A way to lower something. -/
abbrev LowersAs (α : Type) :=
  Surroundings → α → Counters → Except LoweringError (List Instruction × Counters)

/-- Where the whole lowers, its part lowers at an opening of its code, and whatever else lowers
there has its code in the same place.  The part may be said to keep the surroundings of the
whole. -/
def Encloses {α : Type} (whole part : LowersAs α) (keeps : Bool) : Prop :=
  ∀ ⦃around a start code last⦄, whole around a start = .ok (code, last) →
    ∃ o : Opening, (keeps = true → o.around = around) ∧
      (∃ inner, part o.around a o.start = .ok (inner, o.last)) ∧
      ∀ b inner, part o.around b o.start = .ok (inner, o.last) →
        whole around b start = .ok (o.before ++ inner ++ o.after, last)

namespace Encloses

variable {α β : Type} {whole mid part : LowersAs α} {first second : Bool}

theorem trans (houter : Encloses whole mid first) (hinner : Encloses mid part second) :
    Encloses whole part (first && second) := by
  intro around a start code last h
  obtain ⟨o, hkeepsOuter, ⟨between, hbetween⟩, houter⟩ := houter h
  obtain ⟨i, hkeepsInner, hpart, hinner⟩ := hinner hbetween
  refine ⟨⟨i.around, i.start, i.last, o.before ++ i.before, i.after ++ o.after⟩, fun hkeeps => ?_,
    hpart, fun b inner hb => ?_⟩
  · rw [Bool.and_eq_true] at hkeeps
    exact (hkeepsInner hkeeps.2).trans (hkeepsOuter hkeeps.1)
  · rw [houter b _ (hinner b inner hb)]
    simp

/-- The same, for things of which only some are of interest. -/
theorem along (h : Encloses whole part first) (f : β → α) :
    Encloses (fun around b => whole around (f b)) (fun around b => part around (f b)) first := by
  intro around b start code last hb
  obtain ⟨o, hkeeps, hpart, hreplace⟩ := h hb
  exact ⟨o, hkeeps, hpart, fun b => hreplace (f b)⟩

end Encloses

namespace Stmt

variable {around : Surroundings} {start mid last : Counters} {test : Expr} {span : Span}

theorem lowerAll_cons {stmt : Stmt} {others : List Stmt} {first rest : List Instruction}
    (hfirst : lower around stmt start = .ok (first, mid))
    (hrest : lowerAll around others mid = .ok (rest, last)) :
    lowerAll around (stmt :: others) start = .ok (first ++ rest, last) := by
  rw [lowerAll, hfirst]
  change (lowerAll around others mid >>= _) = _
  rw [hrest]
  rfl

theorem lower_branch {thenBody : List Stmt} {thenCode : List Instruction}
    (h : lowerAll around thenBody ⟨(test.lower start.temp).next, start.label + 2⟩ =
      .ok (thenCode, last)) :
    lower around (.branch test thenBody none span) start =
      .ok (test.lowerTest start.temp ⟨start.label⟩ ⟨start.label + 1⟩ ++ thenCode ++
        [.label ⟨start.label + 1⟩], last) := by
  rw [lower, h]
  rfl

theorem lower_branchElse {thenBody elseBody : List Stmt} {thenCode elseCode : List Instruction}
    (hthen : lowerAll around thenBody ⟨(test.lower start.temp).next, start.label + 3⟩ =
      .ok (thenCode, mid))
    (helse : lowerAll around elseBody mid = .ok (elseCode, last)) :
    lower around (.branch test thenBody (some elseBody) span) start =
      .ok (test.lowerTest start.temp ⟨start.label⟩ ⟨start.label + 1⟩ ++ thenCode ++
        [.jump ⟨start.label + 2⟩, .label ⟨start.label + 1⟩] ++ elseCode ++
        [.label ⟨start.label + 2⟩], last) := by
  rw [lower, hthen]
  change (lowerAll around elseBody mid >>= _) = _
  rw [helse]
  rfl

theorem lower_loop {body : List Stmt} {bodyCode : List Instruction}
    (h : lowerAll (around.inLoop ⟨⟨start.label⟩, ⟨start.label + 2⟩⟩) body
      ⟨(test.lower start.temp).next, start.label + 3⟩ = .ok (bodyCode, last)) :
    lower around (.loop test body span) start =
      .ok ([.label ⟨start.label⟩] ++
        test.lowerTest start.temp ⟨start.label + 1⟩ ⟨start.label + 2⟩ ++ bodyCode ++
        [.jump ⟨start.label⟩, .label ⟨start.label + 2⟩], last) := by
  rw [lower, h]
  simp only [Expr.lowerTest, List.append_assoc]
  rfl

end Stmt

/-- Statements on both sides of a statement. -/
theorem encloses_between (before after : List Stmt) :
    Encloses (fun around s => Stmt.lowerAll around (before ++ s :: after)) Stmt.lower true := by
  intro around s start code last h
  induction before generalizing start code with
  | nil =>
    obtain ⟨⟨first, mid⟩, hfirst, h⟩ := exists_of_bind_eq_ok h
    obtain ⟨⟨rest, last⟩, hrest, h⟩ := exists_of_bind_eq_ok h
    cases h
    exact ⟨⟨around, start, mid, [], rest⟩, fun _ => rfl, ⟨first, hfirst⟩,
      fun b inner hb => Stmt.lowerAll_cons hb hrest⟩
  | cons stmt before ih =>
    obtain ⟨⟨first, mid⟩, hfirst, h⟩ := exists_of_bind_eq_ok h
    obtain ⟨⟨rest, last⟩, hrest, h⟩ := exists_of_bind_eq_ok h
    cases h
    obtain ⟨o, hkeeps, hpart, hreplace⟩ := ih hrest
    refine ⟨{ o with before := first ++ o.before }, hkeeps, hpart, fun b inner hb => ?_⟩
    refine (Stmt.lowerAll_cons hfirst (hreplace b inner hb)).trans ?_
    simp

/-- A body of a statement. -/
theorem encloses_frame (frame : Frame) :
    Encloses (fun around body => Stmt.lower around (frame.fill body)) Stmt.lowerAll
      (!frame.isLoop) := by
  intro around body start code last h
  cases frame with
  | thenBody test second span =>
    let before := test.lowerTest start.temp ⟨start.label⟩ ⟨start.label + 1⟩
    cases second with
    | none =>
      obtain ⟨⟨thenCode, last⟩, hthen, h⟩ := exists_of_bind_eq_ok h
      cases h
      exact ⟨⟨around, _, last, before, [.label ⟨start.label + 1⟩]⟩, fun _ => rfl,
        ⟨thenCode, hthen⟩, fun b inner hb => Stmt.lower_branch hb⟩
    | some second =>
      obtain ⟨⟨thenCode, mid⟩, hthen, h⟩ := exists_of_bind_eq_ok h
      obtain ⟨⟨elseCode, last⟩, helse, h⟩ := exists_of_bind_eq_ok h
      cases h
      let after := [.jump ⟨start.label + 2⟩, .label ⟨start.label + 1⟩] ++ elseCode ++
        [.label ⟨start.label + 2⟩]
      refine ⟨⟨around, _, mid, before, after⟩, fun _ => rfl, ⟨thenCode, hthen⟩,
        fun b inner hb => (Stmt.lower_branchElse hb helse).trans ?_⟩
      simp [before, after]
  | elseBody test first span =>
    obtain ⟨⟨thenCode, mid⟩, hthen, h⟩ := exists_of_bind_eq_ok h
    obtain ⟨⟨elseCode, last⟩, helse, h⟩ := exists_of_bind_eq_ok h
    cases h
    let before := test.lowerTest start.temp ⟨start.label⟩ ⟨start.label + 1⟩ ++ thenCode ++
      [.jump ⟨start.label + 2⟩, .label ⟨start.label + 1⟩]
    exact ⟨⟨around, mid, last, before, [.label ⟨start.label + 2⟩]⟩, fun _ => rfl,
      ⟨elseCode, helse⟩, fun b inner hb => Stmt.lower_branchElse hthen hb⟩
  | loopBody test span =>
    obtain ⟨⟨bodyCode, last⟩, hbody, h⟩ := exists_of_bind_eq_ok h
    cases h
    let before := [.label ⟨start.label⟩] ++
      test.lowerTest start.temp ⟨start.label + 1⟩ ⟨start.label + 2⟩
    exact ⟨⟨around.inLoop ⟨⟨start.label⟩, ⟨start.label + 2⟩⟩, _, last, before,
      [.jump ⟨start.label⟩, .label ⟨start.label + 2⟩]⟩, nofun, ⟨bodyCode, hbody⟩,
      fun b inner hb => Stmt.lower_loop hb⟩

/-- A gap at any depth; its surroundings are those of the whole where no loop lies between. -/
theorem Gap.encloses (gap : Gap) :
    Encloses (fun around s => Stmt.lowerAll around (gap.fill s)) Stmt.lower gap.isLoopFree := by
  induction gap with
  | here before after => exact encloses_between before after
  | inside before frame inner after ih =>
    have hframe := (encloses_frame frame).along inner.fill
    have hbody := (encloses_between before after).along fun s => frame.fill (inner.fill s)
    exact hbody.trans (hframe.trans ih)

/-! ### Statements that leave or restart a loop -/

/-- Where a statement that leaves or restarts a loop goes, given the labels of the loop. -/
def Stmt.loopTarget? (labels : LoopLabels) : Stmt → Option Label
  | breakLoop _ => some labels.exit
  | continueLoop _ => some labels.head
  | _ => none

theorem Stmt.lower_of_loopTarget? {s : Stmt} {labels : LoopLabels} {target : Label}
    (h : s.loopTarget? labels = some target) (around : Surroundings) (start : Counters) :
    lower (around.inLoop labels) s start = .ok ([.jump target], start) := by
  cases s with
  | breakLoop | continueLoop => cases h; rfl
  | _ => cases h

/-- Outside of all loops there is nothing to leave or restart. -/
theorem Stmt.not_lower_of_loopTarget? {s : Stmt} {labels : LoopLabels} {target : Label}
    (h : s.loopTarget? labels = some target) {around : Surroundings}
    (haround : around.innermost = none) {start last : Counters} {code : List Instruction} :
    lower around s start ≠ .ok (code, last) := by
  cases s with
  | breakLoop | continueLoop =>
    rw [lower, haround]
    intro hlower
    cases hlower
  | _ => cases h

/-- The code of a loop, of the same shape whatever stands in the gap. -/
theorem LoopGap.exists_lower {gap : LoopGap} {s : Stmt} {around : Surroundings}
    {start last : Counters} {code : List Instruction}
    (h : (gap.loop s).lower around start = .ok (code, last)) :
    ∃ (left right : List Instruction) (before behind : Counters),
      (∃ inner, s.lower (around.inLoop ⟨⟨start.label⟩, ⟨start.label + 2⟩⟩) before =
        .ok (inner, behind)) ∧
      ∀ b inner, Stmt.lower (around.inLoop ⟨⟨start.label⟩, ⟨start.label + 2⟩⟩) b before =
          .ok (inner, behind) →
        (gap.loop b).lower around start = .ok (.label ⟨start.label⟩ :: (left ++ inner ++ right) ++
          [.label ⟨start.label + 2⟩], last) := by
  obtain ⟨⟨bodyCode, last⟩, hbody, h⟩ := exists_of_bind_eq_ok h
  cases h
  obtain ⟨o, hkeeps, hpart, hreplace⟩ := gap.inner.encloses hbody
  rw [hkeeps gap.innermost] at hpart hreplace
  refine ⟨gap.test.lowerTest start.temp ⟨start.label + 1⟩ ⟨start.label + 2⟩ ++ o.before,
    o.after ++ [.jump ⟨start.label⟩], o.start, o.last, hpart, fun b inner hb => ?_⟩
  refine (Stmt.lower_loop (hreplace b inner hb)).trans ?_
  simp

/-- The code of a body in which a statement leaves or restarts a loop.  The code of the loop lies
between the two labels that the loop takes, and the statement is one jump to the label that belongs
to it: with an idle statement in its place the code is the same without the jump.  Nothing else
inside or outside of the loop places that label. -/
def LoopGap.Jumps (gap : LoopGap) (s : Stmt) (around : Surroundings) (start : Counters)
    (code : List Instruction) (last : Counters) : Prop :=
  ∃ (o : Opening) (labels : LoopLabels) (target : Label) (left right : List Instruction),
    s.loopTarget? labels = some target ∧
    (gap.loop s).lower o.around o.start =
      .ok (.label labels.head :: (left ++ .jump target :: right) ++ [.label labels.exit], o.last) ∧
    code = o.before ++ (.label labels.head :: (left ++ .jump target :: right) ++
      [.label labels.exit]) ++ o.after ∧
    (∀ span, Stmt.lowerAll around (gap.fill (.pass span)) start =
      .ok (o.before ++ (.label labels.head :: (left ++ right) ++ [.label labels.exit]) ++ o.after,
        last)) ∧
    target ∉ placedLabels (o.before ++ (left ++ right) ++ o.after)

theorem LoopGap.jumps_of_lowerAll {gap : LoopGap} {s : Stmt} {around : Surroundings}
    {start last : Counters} {code : List Instruction}
    (h : Stmt.lowerAll around (gap.fill s) start = .ok (code, last))
    (hs : ∀ labels, (s.loopTarget? labels).isSome) : gap.Jumps s around start code last := by
  obtain ⟨o, -, ⟨loopCode, hloop⟩, hreplace⟩ := gap.outer.encloses h
  obtain ⟨left, right, before, behind, ⟨inner, hinner⟩, hshape⟩ := LoopGap.exists_lower hloop
  let labels : LoopLabels := ⟨⟨o.start.label⟩, ⟨o.start.label + 2⟩⟩
  obtain ⟨target, htarget⟩ := Option.isSome_iff_exists.mp (hs labels)
  have hjump := Stmt.lower_of_loopTarget? htarget o.around before
  -- the statement leaves the counters as they are, and so an idle statement does the same
  obtain rfl : before = behind := by
    cases hjump.symm.trans hinner
    rfl
  have hwhole := hshape s _ hjump
  have hcode := hreplace _ _ hwhole
  rw [List.append_assoc left] at hwhole hcode
  obtain rfl : code = _ := congrArg Prod.fst (Except.ok.inj (h.symm.trans hcode))
  refine ⟨o, labels, target, left, right, htarget, hwhole, rfl, fun span => ?_, ?_⟩
  · have hpass := hreplace _ _ (hshape (.pass span) [] rfl)
    rwa [List.append_nil] at hpass
  · have honce := List.nodup_iff_count_le_one.mp (Stmt.placedLabels_nodup h) target
    have hends : 1 ≤ [(⟨o.start.label⟩ : Label), ⟨o.start.label + 2⟩].count target := by
      rw [List.one_le_count_iff]
      cases s with
      | breakLoop | continueLoop => cases htarget; simp [labels]
      | _ => cases htarget
    rw [← List.count_eq_zero]
    simp only [placedLabels_append, placedLabels_cons, Instruction.placed?, List.count_append,
      Option.toList_some, List.count_cons, List.count_nil] at honce hends ⊢
    omega

/-! ### Scopes -/

/-- The statements that share the numbers of their labels, and what surrounds them. -/
structure Scope where
  around : Surroundings
  body : List Stmt

/-- The code of a scope: that of its body, behind which a bare return may stand. -/
def Scope.LowersTo (scope : Scope) (code : List Instruction) : Prop :=
  ∃ body last, Stmt.lowerAll scope.around scope.body .first = .ok (body, last) ∧
    (code = body ∨ code = body ++ [.leave none])

def Stmt.isDefinition : Stmt → Bool
  | function _ _ | classDef _ _ _ => true
  | _ => false

/-- The scopes that a statement opens outside of its own. -/
def Stmt.scopes : Stmt → List Scope
  | function definition _ => [⟨.function, definition.body⟩]
  | classDef _ methods _ => methods.map fun method => ⟨.function, method.body⟩
  | _ => []

/-- The scopes of a program: its statements outside of definitions, and the body of each function
and method. -/
def Module.scopes (program : Module) : List Scope :=
  ⟨.toplevel, program.body.filter (!·.isDefinition)⟩ :: program.body.flatMap Stmt.scopes

theorem FunctionDef.lowersTo_lower {definition : FunctionDef Stmt} {name : String}
    {returns : Bool} {procedure : Procedure} (h : definition.lower name returns = .ok procedure) :
    Scope.LowersTo ⟨.function, definition.body⟩ procedure.body := by
  obtain ⟨⟨code, last⟩, hcode, h⟩ := exists_of_bind_eq_ok h
  cases h
  refine ⟨code, last, hcode, ?_⟩
  dsimp only
  split
  · exact .inr rfl
  · exact .inl (List.append_nil code)

namespace Listing

/-- Entries whose procedures have the code of these scopes for their bodies. -/
def From (scopes : List Scope) (entries : List (String × Procedure)) : Prop :=
  ∀ entry ∈ entries, ∃ scope ∈ scopes, scope.LowersTo entry.2.body

variable {scopes : List Scope} {entries last : List (String × Procedure)}

theorem from_putMethods {className : String} {methods : List (FunctionDef Stmt)}
    (h : putMethods className methods entries = .ok last)
    (hscopes : ∀ method ∈ methods, ⟨.function, method.body⟩ ∈ scopes)
    (hfrom : From scopes entries) :
    From scopes last ∧
      ∀ method ∈ methods, ∃ code, Scope.LowersTo ⟨.function, method.body⟩ code := by
  induction methods generalizing entries with
  | nil =>
    cases h
    exact ⟨hfrom, List.forall_mem_nil _⟩
  | cons method others ih =>
    rw [List.forall_mem_cons] at hscopes
    obtain ⟨procedure, hmethod, h⟩ := exists_of_bind_eq_ok h
    have hlowers := FunctionDef.lowersTo_lower hmethod
    obtain ⟨hlast, hothers⟩ := ih h hscopes.2 (forall_mem_put ⟨_, hscopes.1, hlowers⟩ hfrom)
    exact ⟨hlast, List.forall_mem_cons.mpr ⟨⟨_, hlowers⟩, hothers⟩⟩

theorem from_ofStmts {stmts : List Stmt} {start : Counters} {listing : Listing}
    (h : ofStmts stmts entries start = .ok listing)
    (hscopes : ∀ stmt ∈ stmts, ∀ scope ∈ stmt.scopes, scope ∈ scopes)
    (hfrom : From scopes entries) :
    From scopes listing.entries ∧
      (∀ stmt ∈ stmts, ∀ scope ∈ stmt.scopes, ∃ code, scope.LowersTo code) ∧
      ∃ last, Stmt.lowerAll .toplevel (stmts.filter (!·.isDefinition)) start =
        .ok (listing.toplevel, last) := by
  induction stmts, entries, start using ofStmts.induct generalizing listing with
  | case1 entries start =>
    cases h
    exact ⟨hfrom, List.forall_mem_nil _, start, rfl⟩
  | case2 definition span others entries start ih =>
    rw [List.forall_mem_cons] at hscopes
    obtain ⟨procedure, hprocedure, h⟩ := exists_of_bind_eq_ok h
    have hlowers := FunctionDef.lowersTo_lower hprocedure
    have hmem := hscopes.1 _ (List.mem_singleton.mpr rfl)
    obtain ⟨hlast, hothers, htoplevel⟩ :=
      ih procedure h hscopes.2 (forall_mem_put ⟨_, hmem, hlowers⟩ hfrom)
    refine ⟨hlast, List.forall_mem_cons.mpr ⟨?_, hothers⟩, htoplevel⟩
    intro scope hscope
    rw [List.mem_singleton.mp hscope]
    exact ⟨_, hlowers⟩
  | case3 name methods span others entries start ih =>
    rw [List.forall_mem_cons] at hscopes
    obtain ⟨last, hlast, h⟩ := exists_of_bind_eq_ok h
    rw [Stmt.scopes, List.forall_mem_map] at hscopes
    obtain ⟨hfromLast, hmethods⟩ := from_putMethods hlast hscopes.1 hfrom
    obtain ⟨hentries, hothers, htoplevel⟩ := ih last h hscopes.2 hfromLast
    refine ⟨hentries, List.forall_mem_cons.mpr ⟨?_, hothers⟩, htoplevel⟩
    rwa [Stmt.scopes, List.forall_mem_map]
  | case4 stmt others entries start hfunction hclass ih =>
    rw [ofStmts.eq_4 entries start stmt others hfunction hclass] at h
    obtain ⟨⟨code, mid⟩, hcode, h⟩ := exists_of_bind_eq_ok h
    obtain ⟨rest, hrest, h⟩ := exists_of_bind_eq_ok h
    cases h
    rw [List.forall_mem_cons] at hscopes
    obtain ⟨hentries, hothers, last, htoplevel⟩ := ih mid hrest hscopes.2 hfrom
    have hplain : stmt.isDefinition = false ∧ stmt.scopes = [] := by
      cases stmt with
      | function definition span => exact absurd rfl (hfunction definition span)
      | classDef name methods span => exact absurd rfl (hclass name methods span)
      | _ => exact ⟨rfl, rfl⟩
    refine ⟨hentries, List.forall_mem_cons.mpr ⟨by simp [hplain.2], hothers⟩, last, ?_⟩
    rw [List.filter_cons_of_pos (by simp [hplain.1])]
    exact Stmt.lowerAll_cons hcode htoplevel

end Listing

/-- What lowering a scope makes of its labels and jumps. -/
structure Scope.WellLabelled (scope : Scope) (code : List Instruction) : Prop where
  /-- The labels from `L1` on are each placed once. -/
  labels : ∃ count, (placedLabels code).Perm (labelsFrom 1 count)
  /-- No jump leaves the scope. -/
  closed : JumpsInto (placedLabels code) code
  /-- What leaves or restarts a loop stands in one and goes to a label of the innermost one. -/
  loops : ∀ (gap : Gap) (s : Stmt), scope.body = gap.fill s →
    (∀ labels, (s.loopTarget? labels).isSome) →
      ∃ found : LoopGap, found.fill = gap.fill ∧
        ∃ body last rest, code = body ++ rest ∧ found.Jumps s scope.around .first body last

theorem Scope.LowersTo.wellLabelled {scope : Scope} {code : List Instruction}
    (h : scope.LowersTo code) (haround : scope.around.innermost = none) :
    scope.WellLabelled code := by
  obtain ⟨body, last, hbody, hcode⟩ := h
  obtain ⟨rest, rfl, hrest⟩ : ∃ rest, code = body ++ rest ∧ (rest = [] ∨ rest = [.leave none]) := by
    rcases hcode with rfl | rfl
    · exact ⟨[], (List.append_nil _).symm, .inl rfl⟩
    · exact ⟨_, rfl, .inr rfl⟩
  have hplaced : placedLabels (body ++ rest) = placedLabels body := by
    rcases hrest with rfl | rfl <;> simp [Instruction.placed?]
  constructor
  · obtain ⟨count, -, hperm⟩ := Stmt.takesLabels_lowerAll hbody
    exact ⟨count, hplaced ▸ hperm⟩
  · rw [hplaced]
    refine (Stmt.jumpsInto_of_lowerAll hbody haround).append (.of_none ?_)
    rcases hrest with rfl | rfl <;> simp [Instruction.target?]
  · intro gap s hfill hs
    have hloop : gap.isLoopFree = false := by
      rw [← Bool.not_eq_true]
      intro hfree
      rw [hfill] at hbody
      obtain ⟨o, hkeeps, ⟨inner, hinner⟩, -⟩ := gap.encloses hbody
      obtain ⟨target, htarget⟩ := Option.isSome_iff_exists.mp (hs ⟨⟨1⟩, ⟨1⟩⟩)
      rw [hkeeps hfree] at hinner
      exact Stmt.not_lower_of_loopTarget? htarget haround hinner
    obtain ⟨found, hfound⟩ := gap.exists_loopGap hloop
    rw [hfill, ← hfound] at hbody
    exact ⟨found, hfound, body, last, rest, rfl, LoopGap.jumps_of_lowerAll hbody hs⟩

theorem Module.innermost_of_mem_scopes {program : Module} {scope : Scope}
    (h : scope ∈ program.scopes) : scope.around.innermost = none := by
  rcases List.mem_cons.mp h with rfl | hmem
  · rfl
  · obtain ⟨stmt, -, hmem⟩ := List.mem_flatMap.mp hmem
    cases stmt with
    | function definition span =>
      rw [List.mem_singleton.mp hmem]
      rfl
    | classDef name methods span =>
      obtain ⟨method, -, rfl⟩ := List.mem_map.mp hmem
      rfl
    | _ => cases hmem

/-- The scopes of a lowered program are the code of scopes of the program, and all scopes of the
program have code. -/
theorem Module.lowersTo_of_lower {program : Module} {listing : Listing}
    (h : program.lower = .ok listing) :
    (∀ code ∈ listing.scopes, ∃ scope ∈ program.scopes, scope.LowersTo code) ∧
    ∀ scope ∈ program.scopes, ∃ code, scope.LowersTo code := by
  have hscopes : ∀ stmt ∈ program.body, ∀ scope ∈ stmt.scopes, scope ∈ program.scopes :=
    fun stmt hstmt scope hscope =>
      List.mem_cons_of_mem _ (List.mem_flatMap.mpr ⟨stmt, hstmt, hscope⟩)
  obtain ⟨hentries, hlowers, last, htoplevel⟩ :=
    Listing.from_ofStmts h hscopes (List.forall_mem_nil _)
  have htop : Scope.LowersTo ⟨.toplevel, program.body.filter (!·.isDefinition)⟩ listing.toplevel :=
    ⟨_, last, htoplevel, .inl rfl⟩
  constructor
  · rw [Listing.scopes, List.forall_mem_cons, Listing.procedures, List.forall_mem_map,
      List.forall_mem_map]
    exact ⟨⟨_, List.mem_cons_self, htop⟩, hentries⟩
  · intro scope hscope
    rcases List.mem_cons.mp hscope with rfl | hmem
    · exact ⟨_, htop⟩
    · obtain ⟨stmt, hstmt, hmem⟩ := List.mem_flatMap.mp hmem
      exact hlowers stmt hstmt scope hmem

/-- Every scope of a program that lowers has code in which its labels are those from `L1` on, each
placed once, and every jump stays inside.  A statement that leaves a loop, or goes back to its test,
is a jump to the label that the innermost loop around it has for this.  The scopes of the lowered
program are of this kind: each is the code of a scope of the program. -/
theorem Module.jumps_of_lower {program : Module} {listing : Listing}
    (h : program.lower = .ok listing) :
    (∀ code ∈ listing.scopes, ∃ scope ∈ program.scopes, scope.LowersTo code) ∧
    ∀ scope ∈ program.scopes, (∃ code, scope.LowersTo code) ∧
      ∀ code, scope.LowersTo code → scope.WellLabelled code := by
  obtain ⟨hlisting, hlowers⟩ := lowersTo_of_lower h
  refine ⟨hlisting, fun scope hscope => ⟨hlowers scope hscope, fun code hcode => ?_⟩⟩
  exact hcode.wellLabelled (innermost_of_mem_scopes hscope)

namespace JumpTargetsWitness

def name (id : String) : Expr := .name id .absent

/-- `while p: if q: while r: break else: continue`, where the `else` belongs to the `if`. -/
def gap : Gap :=
  .inside [] (.loopBody (name "p") .absent)
    (.inside [] (.elseBody (name "q") [.loop (name "r") [.breakLoop .absent] .absent] .absent)
      (.here [] []) []) []

def program : Module := ⟨gap.fill (.continueLoop .absent), .absent⟩

def code : List Instruction :=
  [.label ⟨1⟩, .branch (.var "p") ⟨2⟩, .jump ⟨3⟩, .label ⟨2⟩,
    .branch (.var "q") ⟨4⟩, .jump ⟨5⟩, .label ⟨4⟩,
    .label ⟨7⟩, .branch (.var "r") ⟨8⟩, .jump ⟨9⟩, .label ⟨8⟩, .jump ⟨9⟩, .jump ⟨7⟩, .label ⟨9⟩,
    .jump ⟨6⟩, .label ⟨5⟩, .jump ⟨1⟩, .label ⟨6⟩, .jump ⟨1⟩, .label ⟨3⟩]

theorem lower_program : program.lower = .ok ⟨[], code⟩ := by decide

/-- The statement behind the inner loop goes back to the test of the outer one. -/
theorem jumps_of_lower_program :
    program.lower = .ok ⟨[], code⟩ ∧
    (∃ count, (placedLabels code).Perm (labelsFrom 1 count)) ∧ JumpsInto (placedLabels code) code ∧
    ∃ found : LoopGap, found.fill = gap.fill ∧
      ∃ body last rest, code = body ++ rest ∧
        found.Jumps (.continueLoop .absent) .toplevel .first body last := by
  obtain ⟨hfrom, hscopes⟩ := Module.jumps_of_lower lower_program
  obtain ⟨scope, hscope, hlowers⟩ := hfrom code List.mem_cons_self
  obtain rfl : scope = ⟨.toplevel, gap.fill (.continueLoop .absent)⟩ := List.mem_singleton.mp hscope
  have hwell := (hscopes _ hscope).2 code hlowers
  exact ⟨lower_program, hwell.labels, hwell.closed,
    hwell.loops gap (.continueLoop .absent) rfl fun _ => rfl⟩

end JumpTargetsWitness

end Offside
