/-
What code owes to spans.  Lowering looks at spans only to tell which assignments operate on their
own targets, so programs that say the same, and in which the same assignments do, have the same
code or have none.
-/
import Offside.Proofs.Code.Assignments

namespace Offside

/-! ### Answers up to their errors -/

theorem toOption_bind_congr {ε α β : Type} {first second : Except ε α}
    {next other : α → Except ε β} (h : second.toOption = first.toOption)
    (hnext : ∀ value, (other value).toOption = (next value).toOption) :
    (second >>= other).toOption = (first >>= next).toOption := by
  cases first <;> cases second <;> cases h
  · rfl
  · exact hnext _

/-! ### Expressions -/

namespace Expr

theorem lowerAll_bare {exprs : List Expr}
    (h : ∀ expr ∈ exprs, ∀ next, expr.bare.lower next = expr.lower next) (next : Nat) :
    lowerAll (exprs.map bare) next = lowerAll exprs next := by
  induction exprs generalizing next with
  | nil => rfl
  | cons expr others ih =>
    rw [List.forall_mem_cons] at h
    simp only [List.map_cons, lowerAll, h.1, ih h.2]

theorem lower_bare (expr : Expr) (next : Nat) : expr.bare.lower next = expr.lower next := by
  induction expr using Expr.induction generalizing next with
  | constant | name => rfl
  | binary op left right span ihLeft ihRight => simp only [bare, lower, ihLeft, ihRight]
  | unary op operand span ih | member operand attr span ih => simp only [bare, lower, ih]
  | call callee args span ihCallee ihArgs =>
    simp only [bare, lower, bareAll_eq_map, ihCallee, lowerAll_bare ihArgs]
  | methodCall receiver method args span ihReceiver ihArgs =>
    simp only [bare, lower, bareAll_eq_map, ihReceiver, lowerAll_bare ihArgs]
  | construct className args span ihArgs =>
    simp only [bare, lower, bareAll_eq_map, lowerAll_bare ihArgs]

theorem toOption_lowerTarget_bare (target : Expr) (next : Nat) :
    (target.bare.lowerTarget next).toOption = (target.lowerTarget next).toOption := by
  cases target with
  | member receiver attr span => simp only [bare, lowerTarget, lower_bare]
  | _ => rfl

theorem lowerStatement_bare (expr : Expr) (next : Nat) :
    expr.bare.lowerStatement next = expr.lowerStatement next := by
  simp only [lowerStatement, lower_bare]
  cases expr <;> rfl

variable {expr other : Expr}

theorem lower_eq_of_bare (h : other.bare = expr.bare) (next : Nat) :
    other.lower next = expr.lower next := by
  rw [← lower_bare other, h, lower_bare]

theorem toOption_lowerTarget_of_bare (h : other.bare = expr.bare) (next : Nat) :
    (other.lowerTarget next).toOption = (expr.lowerTarget next).toOption := by
  rw [← toOption_lowerTarget_bare other, h, toOption_lowerTarget_bare]

theorem lowerStatement_eq_of_bare (h : other.bare = expr.bare) (next : Nat) :
    other.lowerStatement next = expr.lowerStatement next := by
  rw [← lowerStatement_bare other, h, lowerStatement_bare]

end Expr

/-! ### Assignments -/

namespace Assignment

/-- The assignment with every span absent. -/
def bare (a : Assignment) : Assignment := ⟨a.target.bare, a.value.bare⟩

/-- Assignments that say the same and are both taken to operate on their targets, or neither. -/
structure Alike (a other : Assignment) : Prop where
  bare : other.bare = a.bare
  operator : other.augmentation? = a.augmentation?

variable {a other : Assignment}

theorem Alike.augmented?_eq_none (h : a.Alike other) (ha : a.target.augmented? a.value = none) :
    other.target.augmented? other.value = none := by
  have hoperator := h.operator
  rw [augmentation?, augmentation?, ha] at hoperator
  exact Option.map_eq_none_iff.mp hoperator

theorem exists_binary_of_augmented? {target value right : Expr} {op : BinaryOp}
    (h : target.augmented? value = some (op, right)) :
    ∃ left span, value = .binary op left right span := by
  cases value with
  | binary found left operand span =>
    rw [Expr.augmented?] at h
    split at h
    · cases h
      exact ⟨left, span, rfl⟩
    · cases h
  | _ => cases h

/-- What their targets are operated with says the same as well. -/
theorem Alike.exists_augmented? (h : a.Alike other) {op : BinaryOp} {right : Expr}
    (ha : a.target.augmented? a.value = some (op, right)) :
    ∃ found, other.target.augmented? other.value = some (op, found) ∧ found.bare = right.bare := by
  have hoperator := h.operator
  rw [augmentation?, augmentation?, ha, Option.map_some, Option.map_eq_some_iff] at hoperator
  obtain ⟨⟨op, found⟩, hother, rfl⟩ := hoperator
  obtain ⟨left, span, hvalue⟩ := exists_binary_of_augmented? ha
  obtain ⟨left', span', hvalue'⟩ := exists_binary_of_augmented? hother
  have hbare : other.value.bare = a.value.bare := congrArg value h.bare
  rw [hvalue, hvalue', Expr.bare, Expr.bare, Expr.binary.injEq] at hbare
  exact ⟨found, hother, hbare.2.2.1⟩

/-- Such assignments have the same code or have none. -/
theorem Alike.toOption_lowerAssign (h : a.Alike other) (next : Nat) :
    (Stmt.lowerAssign other.target other.value next).toOption =
      (Stmt.lowerAssign a.target a.value next).toOption := by
  have htarget := Expr.toOption_lowerTarget_of_bare (congrArg target h.bare)
  have hvalue := Expr.lower_eq_of_bare (congrArg value h.bare)
  rw [Stmt.lowerAssign, Stmt.lowerAssign]
  cases ha : a.target.augmented? a.value with
  | none =>
    rw [h.augmented?_eq_none ha, hvalue]
    exact toOption_bind_congr (htarget _) fun place => rfl
  | some found =>
    obtain ⟨op, right⟩ := found
    obtain ⟨found, hother, hright⟩ := h.exists_augmented? ha
    rw [hother]
    refine toOption_bind_congr (htarget next) fun place => ?_
    rw [Expr.lower_eq_of_bare hright]

end Assignment

/-! ### Statements -/

namespace Stmt

theorem flatMap_assignments_bare {stmts : List Stmt}
    (h : ∀ s ∈ stmts, s.bare.assignments = s.assignments.map Assignment.bare) :
    (stmts.map bare).flatMap assignments = (stmts.flatMap assignments).map Assignment.bare := by
  rw [List.flatMap_map, List.map_flatMap]
  exact List.flatMap_congr h

theorem assignments_bare (s : Stmt) : s.bare.assignments = s.assignments.map Assignment.bare := by
  have hfunction {definition : FunctionDef Stmt}
      (h : ∀ s ∈ definition.body, s.bare.assignments = s.assignments.map Assignment.bare) :
      (bareFunction definition).body.flatMap assignments =
        (definition.body.flatMap assignments).map Assignment.bare := by
    cases definition
    rw [bareFunction, bareAll_eq_map]
    exact flatMap_assignments_bare h
  induction s using Stmt.induction with
  | function definition span ih =>
    rw [bare, assignments, assignments, functionAssignments_eq, functionAssignments_eq,
      hfunction ih]
  | classDef name methods span ih =>
    simp only [bare, assignments, methodAssignments_eq, bareFunctions_eq_map]
    rw [List.flatMap_map, List.map_flatMap]
    exact List.flatMap_congr fun method hmethod => hfunction (ih method hmethod)
  | branch test thenBody elseBody span ihThen ihElse =>
    simp only [bare, assignments, allAssignments_eq_flatMap, bareAll_eq_map, List.map_append,
      flatMap_assignments_bare ihThen]
    cases elseBody with
    | none => rfl
    | some body =>
      simp only [bareElse, elseAssignments, allAssignments_eq_flatMap, bareAll_eq_map,
        flatMap_assignments_bare (ihElse body rfl)]
  | loop test body span ih =>
    simp only [bare, assignments, allAssignments_eq_flatMap, bareAll_eq_map,
      flatMap_assignments_bare ih]
  | assign | leave | pass | breakLoop | continueLoop | eval => rfl

/-- Statements that say the same and whose assignments are alike. -/
structure Alike (s other : Stmt) : Prop where
  bare : other.bare = s.bare
  operators : other.assignments.map Assignment.augmentation? =
    s.assignments.map Assignment.augmentation?

theorem length_flatMap_assignments_of_bare {stmts others : List Stmt}
    (h : others.map Stmt.bare = stmts.map Stmt.bare) :
    (others.flatMap assignments).length = (stmts.flatMap assignments).length := by
  have hall := congrArg (fun stmts => (stmts.flatMap assignments).length) h
  simpa [flatMap_assignments_bare fun s _ => assignments_bare s] using hall

/-- Bodies that say the same and whose assignments are alike are so statement by statement. -/
theorem forall₂_alike {stmts others : List Stmt}
    (hbare : others.map Stmt.bare = stmts.map Stmt.bare)
    (hoperators : (others.flatMap assignments).map Assignment.augmentation? =
      (stmts.flatMap assignments).map Assignment.augmentation?) :
    List.Forall₂ Alike stmts others := by
  induction stmts generalizing others with
  | nil =>
    rw [List.map_eq_nil_iff.mp hbare]
    exact .nil
  | cons s stmts ih =>
    cases others with
    | nil => cases hbare
    | cons other others =>
      rw [List.map_cons, List.map_cons, List.cons.injEq] at hbare
      rw [List.flatMap_cons, List.flatMap_cons, List.map_append, List.map_append] at hoperators
      have hlength : (other.assignments.map Assignment.augmentation?).length =
          (s.assignments.map Assignment.augmentation?).length := by
        have hone : [other].map Stmt.bare = [s].map Stmt.bare := congrArg (fun s => [s]) hbare.1
        simpa using length_flatMap_assignments_of_bare hone
      obtain ⟨hfirst, hrest⟩ := List.append_inj hoperators hlength
      exact .cons ⟨hbare.1, hfirst⟩ (ih hbare.2 hrest)

/-- Bodies have the same code or have none, if this holds of statements like theirs. -/
theorem toOption_lowerAll_congr {stmts others : List Stmt}
    (hlower : ∀ s ∈ stmts, ∀ {other}, s.Alike other → ∀ around counters,
      (other.lower around counters).toOption = (s.lower around counters).toOption)
    (hbare : others.map Stmt.bare = stmts.map Stmt.bare)
    (hoperators : (others.flatMap assignments).map Assignment.augmentation? =
      (stmts.flatMap assignments).map Assignment.augmentation?)
    (around : Surroundings) (counters : Counters) :
    (lowerAll around others counters).toOption = (lowerAll around stmts counters).toOption := by
  have halike := forall₂_alike hbare hoperators
  clear hbare hoperators
  induction halike generalizing counters with
  | nil => rfl
  | cons hfirst _ ih =>
    rw [List.forall_mem_cons] at hlower
    rw [lowerAll, lowerAll]
    exact toOption_bind_congr (hlower.1 hfirst _ _) fun first =>
      toOption_bind_congr (ih hlower.2 _) fun rest => rfl

theorem Alike.toOption_lower {s other : Stmt} (h : s.Alike other) (around : Surroundings)
    (counters : Counters) :
    (other.lower around counters).toOption = (s.lower around counters).toOption := by
  induction s using Stmt.induction generalizing other around counters with
  | function | classDef =>
    obtain ⟨hbare, -⟩ := h
    cases other <;> simp only [Stmt.bare, reduceCtorEq] at hbare
    rw [lower, lower]
    rfl
  | pass =>
    obtain ⟨hbare, -⟩ := h
    cases other <;> simp only [Stmt.bare, reduceCtorEq] at hbare
    rw [lower, lower]
  | breakLoop | continueLoop =>
    obtain ⟨hbare, -⟩ := h
    cases other <;> simp only [Stmt.bare, reduceCtorEq] at hbare
    rw [lower, lower]
    cases around.innermost <;> rfl
  | assign target value span =>
    obtain ⟨hbare, hoperators⟩ := h
    cases other <;> simp only [Stmt.bare, reduceCtorEq, assign.injEq] at hbare
    next target' value' span' =>
    have hassign : Assignment.Alike ⟨target, value⟩ ⟨target', value'⟩ := by
      refine ⟨?_, List.singleton_inj.mp hoperators⟩
      rw [Assignment.bare, Assignment.bare, hbare.1, hbare.2.1]
    exact toOption_bind_congr (hassign.toOption_lowerAssign _) fun code => rfl
  | loop test body span ih =>
    obtain ⟨hbare, hoperators⟩ := h
    cases other <;> simp only [Stmt.bare, reduceCtorEq, loop.injEq, bareAll_eq_map] at hbare
    next test' body' span' =>
    simp only [assignments, allAssignments_eq_flatMap] at hoperators
    rw [lower, lower, Expr.lower_eq_of_bare hbare.1]
    exact toOption_bind_congr (toOption_lowerAll_congr ih hbare.2.1 hoperators _ _) fun code => rfl
  | leave value span =>
    obtain ⟨hbare, -⟩ := h
    cases other <;> simp only [Stmt.bare, reduceCtorEq, leave.injEq] at hbare
    next value' span' =>
    cases value with
    | none =>
      obtain rfl : value' = none := Option.map_eq_none_iff.mp hbare.1
      rw [lower, lower]
      cases around.inFunction <;> rfl
    | some expr =>
      obtain ⟨expr', rfl, hexpr⟩ := Option.map_eq_some_iff.mp hbare.1
      rw [lower, lower, Expr.lower_eq_of_bare hexpr]
      cases around.inFunction <;> rfl
  | eval expr span =>
    obtain ⟨hbare, -⟩ := h
    cases other <;> simp only [Stmt.bare, reduceCtorEq, eval.injEq] at hbare
    next expr' span' =>
    rw [lower, lower, Expr.lowerStatement_eq_of_bare hbare.1]
  | branch test thenBody elseBody span ihThen ihElse =>
    obtain ⟨hbare, hoperators⟩ := h
    cases other <;>
      simp only [Stmt.bare, reduceCtorEq, branch.injEq, bareAll_eq_map, bareElse_eq_map] at hbare
    next test' thenBody' elseBody' span' =>
    obtain ⟨htest, hthen, helse, -⟩ := hbare
    simp only [assignments, allAssignments_eq_flatMap, List.map_append] at hoperators
    cases elseBody with
    | none =>
      obtain rfl : elseBody' = none := Option.map_eq_none_iff.mp helse
      simp only [elseAssignments, List.map_nil, List.append_nil] at hoperators
      rw [lower, lower, Expr.lower_eq_of_bare htest]
      exact toOption_bind_congr (toOption_lowerAll_congr ihThen hthen hoperators _ _)
        fun code => rfl
    | some body =>
      obtain ⟨body', rfl, hbare⟩ := Option.map_eq_some_iff.mp helse
      simp only [elseAssignments, allAssignments_eq_flatMap] at hoperators
      have hlength : ((thenBody'.flatMap assignments).map Assignment.augmentation?).length =
          ((thenBody.flatMap assignments).map Assignment.augmentation?).length := by
        rw [List.length_map, List.length_map, length_flatMap_assignments_of_bare hthen]
      obtain ⟨hfirst, hsecond⟩ := List.append_inj hoperators hlength
      rw [lower, lower, Expr.lower_eq_of_bare htest]
      exact toOption_bind_congr (toOption_lowerAll_congr ihThen hthen hfirst _ _) fun code =>
        toOption_bind_congr (toOption_lowerAll_congr (ihElse body rfl) hbare hsecond _ _)
          fun code => rfl

theorem isLeave_bare (s : Stmt) : s.bare.isLeave = s.isLeave := by
  cases s <;> rfl

theorem isDefinition_bare (s : Stmt) : s.bare.isDefinition = s.isDefinition := by
  cases s <;> rfl

theorem Alike.name_eq {definition other : FunctionDef Stmt} {span otherSpan : Span}
    (h : (function definition span).Alike (.function other otherSpan)) :
    other.name = definition.name := by
  have hbare := h.bare
  cases definition
  cases other
  simp only [Stmt.bare, bareFunction, function.injEq, FunctionDef.mk.injEq] at hbare
  exact hbare.1.1

/-- Functions that say the same and whose assignments are alike have the same code or have none. -/
theorem Alike.toOption_lower_function {definition other : FunctionDef Stmt}
    {span otherSpan : Span} (h : (function definition span).Alike (.function other otherSpan))
    (name : String) (returns : Bool) :
    (other.lower name returns).toOption = (definition.lower name returns).toOption := by
  obtain ⟨id, params, body, inner⟩ := definition
  obtain ⟨id', params', body', inner'⟩ := other
  obtain ⟨hbare, hoperators⟩ := h
  simp only [Stmt.bare, bareFunction, function.injEq, FunctionDef.mk.injEq, bareAll_eq_map] at hbare
  simp only [assignments, functionAssignments_eq] at hoperators
  obtain ⟨⟨-, hparams, hbody, -⟩, -⟩ := hbare
  have hnames : params'.map Param.name = params.map Param.name := by
    have hall := congrArg (List.map Param.name) hparams
    rwa [List.map_map, List.map_map] at hall
  have hlast : body'.getLast?.map isLeave = body.getLast?.map isLeave := by
    have hall := congrArg (fun stmts => (List.getLast? stmts).map isLeave) hbody
    simpa [List.getLast?_map, Function.comp_def, isLeave_bare] using hall
  have hcode := toOption_lowerAll_congr (fun _ _ _ h => h.toOption_lower) hbody hoperators
    .function .first
  rw [FunctionDef.lower, FunctionDef.lower]
  dsimp only
  rw [hnames, hlast]
  exact toOption_bind_congr hcode fun code => rfl

end Stmt

/-! ### Programs -/

namespace Listing

theorem toOption_putMethods {className : String} {methods others : List (FunctionDef Stmt)}
    (h : List.Forall₂ (fun method other => Stmt.Alike (.function method method.span)
      (.function other other.span)) methods others) (entries : List (String × Procedure)) :
    (putMethods className others entries).toOption =
      (putMethods className methods entries).toOption := by
  induction h generalizing entries with
  | nil => rfl
  | @cons method other methods others halike _ ih =>
    rw [putMethods, putMethods, FunctionDef.lowerMethod, FunctionDef.lowerMethod,
      FunctionDef.qualifiedName, FunctionDef.qualifiedName, halike.name_eq]
    exact toOption_bind_congr (halike.toOption_lower_function _ _) fun procedure => ih _

/-- The methods of classes that say the same and whose assignments are alike. -/
theorem forall₂_methods {name name' : String} {methods others : List (FunctionDef Stmt)}
    {span span' : Span}
    (h : (Stmt.classDef name methods span).Alike (.classDef name' others span')) :
    name' = name ∧
      List.Forall₂ (fun method other => Stmt.Alike (.function method method.span)
        (.function other other.span)) methods others := by
  obtain ⟨hbare, hoperators⟩ := h
  simp only [Stmt.bare, Stmt.classDef.injEq, Stmt.bareFunctions_eq_map] at hbare
  simp only [Stmt.assignments, Stmt.methodAssignments_eq] at hoperators
  let stmt (method : FunctionDef Stmt) : Stmt := .function method method.span
  have hfunctions : (others.map stmt).map Stmt.bare = (methods.map stmt).map Stmt.bare := by
    have hall := congrArg (List.map fun method => Stmt.function method .absent) hbare.2.1
    simpa [stmt, Function.comp_def, Stmt.bare] using hall
  refine ⟨hbare.1, ?_⟩
  have hall : List.Forall₂ Stmt.Alike (methods.map stmt) (others.map stmt) :=
    Stmt.forall₂_alike hfunctions
      (by simpa [stmt, List.flatMap_map, Stmt.assignments] using hoperators)
  rwa [List.forall₂_map_left_iff, List.forall₂_map_right_iff] at hall

theorem toOption_ofStmts {stmts others : List Stmt} (h : List.Forall₂ Stmt.Alike stmts others)
    (entries : List (String × Procedure)) (counters : Counters) :
    (ofStmts others entries counters).toOption =
      (ofStmts stmts entries counters).toOption := by
  induction h generalizing entries counters with
  | nil => rfl
  | @cons s other stmts others halike _ ih =>
    have hplain (s : Stmt) (h : s.isDefinition = false) (others : List Stmt) :=
      ofStmts.eq_4 entries counters s others (fun _ _ heq => by rw [heq] at h; cases h)
        (fun _ _ _ heq => by rw [heq] at h; cases h)
    have hbare := halike.bare
    by_cases hdefinition : s.isDefinition = false
    · have hother : other.isDefinition = false := by
        rw [← Stmt.isDefinition_bare, hbare, Stmt.isDefinition_bare, hdefinition]
      rw [hplain s hdefinition, hplain other hother]
      exact toOption_bind_congr (halike.toOption_lower _ _) fun code =>
        toOption_bind_congr (ih _ _) fun listing => rfl
    · cases s with
      | function definition span =>
        cases other <;> simp only [Stmt.bare, reduceCtorEq] at hbare
        rw [ofStmts, ofStmts, halike.name_eq]
        exact toOption_bind_congr (halike.toOption_lower_function _ _) fun procedure => ih _ _
      | classDef name methods span =>
        cases other <;> simp only [Stmt.bare, reduceCtorEq] at hbare
        obtain ⟨rfl, hmethods⟩ := forall₂_methods halike
        rw [ofStmts, ofStmts]
        exact toOption_bind_congr (toOption_putMethods hmethods _) fun entries => ih _ _
      | _ => exact absurd rfl hdefinition

end Listing

/-- Programs that say the same, and in which the same assignments operate on their targets, have
the same code or have none. -/
theorem Module.toOption_lower {program other : Module} (hbare : other.bare = program.bare)
    (hoperators : other.assignments.map Assignment.augmentation? =
      program.assignments.map Assignment.augmentation?) :
    other.lower.toOption = program.lower.toOption := by
  have hbody : other.body.map Stmt.bare = program.body.map Stmt.bare := congrArg Module.body hbare
  exact Listing.toOption_ofStmts (Stmt.forall₂_alike hbody hoperators) _ _

end Offside
