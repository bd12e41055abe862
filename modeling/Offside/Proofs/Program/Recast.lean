/-
Programs in another light: with other spans, and with calls of certain names taken for
constructions.  Forgetting every span is one such light, resolving the names of classes another.
-/
import Offside.Grammar.Error
import Offside.Proofs.Grammar.Derivation
import Offside.Proofs.Program.Bare

namespace Offside

/-- What becomes of spans, and the names whose calls are constructions. -/
structure Recast where
  span : Span → Span
  classes : List String
  span_through : ∀ first last, span (first.through last) = (span first).through (span last)
  span_absent : span .absent = .absent

namespace Recast

/-- Calls of these names become constructions, and nothing else changes. -/
def resolve (classes : List String) : Recast where
  span := id
  classes := classes
  span_through _ _ := rfl
  span_absent := rfl

/-- Spans are forgotten. -/
def bare : Recast where
  span _ := .absent
  classes := []
  span_through _ _ := rfl
  span_absent := rfl

end Recast

namespace Expr

mutual

def recast (r : Recast) : Expr → Expr
  | constant value span => .constant value (r.span span)
  | name id span => .name id (r.span span)
  | binary op left right span => .binary op (recast r left) (recast r right) (r.span span)
  | unary op operand span => .unary op (recast r operand) (r.span span)
  | call callee args span => (recast r callee).called r.classes (recastAll r args) (r.span span)
  | methodCall receiver method args span =>
    .methodCall (recast r receiver) method (recastAll r args) (r.span span)
  | construct className args span => .construct className (recastAll r args) (r.span span)
  | member receiver attr span => .member (recast r receiver) attr (r.span span)

def recastAll (r : Recast) : List Expr → List Expr
  | [] => []
  | expr :: others => recast r expr :: recastAll r others

end

@[simp] theorem recastAll_eq_map (r : Recast) (exprs : List Expr) :
    recastAll r exprs = exprs.map (recast r) := by
  induction exprs with
  | nil => rfl
  | cons expr others ih => rw [recastAll, ih, List.map_cons]

theorem recast_ne_name (r : Recast) {callee : Expr}
    (h : ∀ className place, callee ≠ .name className place) :
    ∀ className place, callee.recast r ≠ .name className place := by
  intro className place heq
  cases callee with
  | name id span => exact h id span rfl
  | call callee args span =>
    rw [recast] at heq
    unfold called at heq
    split at heq
    · split at heq <;> cases heq
    · cases heq
  | _ => cases heq

theorem span_recast (r : Recast) (expr : Expr) : (expr.recast r).span = r.span expr.span := by
  cases expr with
  | call callee args span => exact span_called _ _ _ _
  | _ => rfl

end Expr

def Param.recast (r : Recast) (param : Param) : Param := ⟨param.name, r.span param.span⟩

namespace Stmt

mutual

def recast (r : Recast) : Stmt → Stmt
  | function definition span => .function (recastFunction r definition) (r.span span)
  | classDef name methods span => .classDef name (recastFunctions r methods) (r.span span)
  | assign target value span => .assign (target.recast r) (value.recast r) (r.span span)
  | branch test thenBody elseBody span =>
    .branch (test.recast r) (recastAll r thenBody) (recastElse r elseBody) (r.span span)
  | loop test body span => .loop (test.recast r) (recastAll r body) (r.span span)
  | leave value span => .leave (value.map (Expr.recast r)) (r.span span)
  | pass span => .pass (r.span span)
  | breakLoop span => .breakLoop (r.span span)
  | continueLoop span => .continueLoop (r.span span)
  | eval expr span => .eval (expr.recast r) (r.span span)

def recastFunction (r : Recast) : FunctionDef Stmt → FunctionDef Stmt
  | ⟨name, params, body, span⟩ =>
    ⟨name, params.map (Param.recast r), recastAll r body, r.span span⟩

def recastFunctions (r : Recast) : List (FunctionDef Stmt) → List (FunctionDef Stmt)
  | [] => []
  | definition :: others => recastFunction r definition :: recastFunctions r others

def recastAll (r : Recast) : List Stmt → List Stmt
  | [] => []
  | stmt :: others => recast r stmt :: recastAll r others

def recastElse (r : Recast) : Option (List Stmt) → Option (List Stmt)
  | none => none
  | some body => some (recastAll r body)

end

section

variable (r : Recast)

@[simp] theorem recastAll_eq_map (stmts : List Stmt) : recastAll r stmts = stmts.map (recast r) := by
  induction stmts with
  | nil => rfl
  | cons stmt others ih => rw [recastAll, ih, List.map_cons]

@[simp] theorem recastFunctions_eq_map (definitions : List (FunctionDef Stmt)) :
    recastFunctions r definitions = definitions.map (recastFunction r) := by
  induction definitions with
  | nil => rfl
  | cons definition others ih => rw [recastFunctions, ih, List.map_cons]

@[simp] theorem recastElse_eq_map (elseBody : Option (List Stmt)) :
    recastElse r elseBody = elseBody.map (List.map (recast r)) := by
  cases elseBody with
  | none => rfl
  | some body => simp [recastElse]

end

theorem span_recastFunction (r : Recast) (definition : FunctionDef Stmt) :
    (recastFunction r definition).span = r.span definition.span := by
  cases definition
  rfl

theorem span_recast (r : Recast) (stmt : Stmt) : (stmt.recast r).span = r.span stmt.span := by
  cases stmt <;> rfl

end Stmt

def Module.recast (r : Recast) (program : Module) : Module :=
  ⟨program.body.map (Stmt.recast r), r.span program.span⟩

namespace GrammarError

/-- The error with its span in another light. -/
def recast (r : Recast) : GrammarError → GrammarError
  | expectedToken expected found span => .expectedToken expected found (r.span span)
  | unexpectedToken found span => .unexpectedToken found (r.span span)
  | emptyBlock span => .emptyBlock (r.span span)
  | invalidTarget target span => .invalidTarget target (r.span span)
  | duplicateParameter name span => .duplicateParameter name (r.span span)
  | unsupportedWord word span => .unsupportedWord word (r.span span)
  | nestedDefinition construct span => .nestedDefinition construct (r.span span)
  | nestingTooDeep limit span => .nestingTooDeep limit (r.span span)

/-- Resolving names changes no error. -/
theorem recast_resolve (classes : List String) (error : GrammarError) :
    error.recast (.resolve classes) = error := by
  cases error <;> rfl

end GrammarError

/-! ### Forgetting spans -/

theorem Expr.recast_bare (expr : Expr) : expr.recast .bare = expr.bare := by
  induction expr using Expr.induction with
  | constant | name => rfl
  | binary op left right span ihLeft ihRight =>
    simp only [recast, bare, ihLeft, ihRight]
    rfl
  | unary op operand span ih | member operand attr span ih =>
    simp only [recast, bare, ih]
    rfl
  | call callee args span ihCallee ihArgs =>
    simp only [recast, bare, recastAll_eq_map, bareAll_eq_map, ihCallee, List.map_congr_left ihArgs]
    exact called_nil _ _ _
  | methodCall receiver method args span ihReceiver ihArgs =>
    simp only [recast, bare, recastAll_eq_map, bareAll_eq_map, ihReceiver,
      List.map_congr_left ihArgs]
    rfl
  | construct className args span ihArgs =>
    simp only [recast, bare, recastAll_eq_map, bareAll_eq_map, List.map_congr_left ihArgs]
    rfl

theorem Stmt.recastFunction_bare {definition : FunctionDef Stmt}
    (h : ∀ stmt ∈ definition.body, stmt.recast .bare = stmt.bare) :
    recastFunction .bare definition = bareFunction definition := by
  cases definition
  simp only [recastFunction, bareFunction, recastAll_eq_map, bareAll_eq_map, List.map_congr_left h]
  rfl

theorem Stmt.recast_bare (stmt : Stmt) : stmt.recast .bare = stmt.bare := by
  induction stmt using Stmt.induction with
  | function definition span ih =>
    rw [recast, bare, recastFunction_bare ih]
    rfl
  | classDef name methods span ih =>
    have hmethods := List.map_congr_left fun method hmethod => recastFunction_bare (ih method hmethod)
    simp only [recast, bare, recastFunctions_eq_map, bareFunctions_eq_map, hmethods]
    rfl
  | assign target value span =>
    simp only [recast, bare, Expr.recast_bare]
    rfl
  | branch test thenBody elseBody span ihThen ihElse =>
    have helse : elseBody.map (List.map (recast .bare)) = elseBody.map (List.map bare) := by
      cases elseBody with
      | none => rfl
      | some body => exact congrArg some (List.map_congr_left (ihElse body rfl))
    simp only [recast, bare, Expr.recast_bare, recastAll_eq_map, bareAll_eq_map, recastElse_eq_map,
      bareElse_eq_map, List.map_congr_left ihThen, helse]
    rfl
  | loop test body span ih =>
    simp only [recast, bare, Expr.recast_bare, recastAll_eq_map, bareAll_eq_map,
      List.map_congr_left ih]
    rfl
  | leave value span =>
    have hvalue : Expr.recast .bare = Expr.bare := funext Expr.recast_bare
    simp only [recast, bare, hvalue]
    rfl
  | eval expr span =>
    simp only [recast, bare, Expr.recast_bare]
    rfl
  | pass | breakLoop | continueLoop => rfl

theorem Module.recast_bare (program : Module) : program.recast .bare = program.bare := by
  rw [recast, bare, List.map_congr_left fun stmt _ => stmt.recast_bare]
  rfl

end Offside
