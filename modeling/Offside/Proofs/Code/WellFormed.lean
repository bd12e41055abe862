/-
Programs that were read from tokens are well-formed: definitions stand outside of everything, no
block is empty, and what is assigned to can be assigned to.  So the only statements without code
among theirs are jumps that have nowhere to go.
-/
import Offside.Proofs.Code.Misplacement
import Offside.Proofs.Grammar.Signs
import Offside.Proofs.Grammar.Spans
import Offside.Proofs.Program.Parts

namespace Offside

/-! ### Well-formed statements -/

namespace Stmt

/-- The blocks of a statement. -/
def blocks : Stmt → List (List Stmt)
  | branch _ thenBody elseBody _ => thenBody :: elseBody.toList
  | loop _ body _ => [body]
  | s => s.definitions.map FunctionDef.body

end Stmt

/-- A statement that is shaped as the grammar has it where it stands. -/
structure Visit.WellFormed (visit : Visit) : Prop where
  outside : visit.stmt.isDefinition = true → visit.standing = .outside
  block_ne_nil : ∀ block ∈ visit.stmt.blocks, block ≠ []
  methods_ne_nil : ∀ name methods span, visit.stmt = .classDef name methods span → methods ≠ []
  params_nodup : ∀ definition ∈ visit.stmt.definitions, (definition.params.map Param.name).Nodup
  assignable : ∀ target value span, visit.stmt = .assign target value span →
    target.isAssignable = true

/-- A well-formed statement is misplaced only as a jump. -/
theorem Visit.WellFormed.eq_of_misplaced {visit : Visit} {error : LoweringError}
    (h : visit.WellFormed) (hmisplaced : visit.Misplaced error) :
    error = .breakOutsideLoop visit.stmt.span ∨ error = .continueOutsideLoop visit.stmt.span ∨
      error = .returnOutsideFunction visit.stmt.span := by
  cases hmisplaced with
  | breakLoop => exact .inl rfl
  | continueLoop => exact .inr (.inl rfl)
  | leave => exact .inr (.inr rfl)
  | function nested | classDef nested =>
    obtain rfl : _ = Standing.outside := h.outside rfl
    cases nested
  | assign target_not_place =>
    have hassignable := h.assignable _ _ _ rfl
    rw [target_not_place] at hassignable
    cases hassignable

/-- A well-formed program lowers, or fails over a jump that has nowhere to go. -/
theorem Module.lower_of_wellFormed {program : Module}
    (h : ∀ visit ∈ program.visits, visit.WellFormed) :
    (∃ listing, program.lower = .ok listing) ∨
      ∃ visit ∈ program.visits, ∃ error, program.lower = .error error ∧ visit.Misplaced error ∧
        (error = .breakOutsideLoop visit.stmt.span ∨ error = .continueOutsideLoop visit.stmt.span ∨
          error = .returnOutsideFunction visit.stmt.span) := by
  cases hlower : program.lower with
  | ok listing => exact .inl ⟨listing, rfl⟩
  | error error =>
    have hfault : firstFault? program.visits = some error := by
      rw [← program.failure?_lower, hlower]
      rfl
    obtain ⟨visit, hvisit, hmisplaced⟩ := List.exists_of_findSome?_eq_some hfault
    rw [Visit.fault?_eq_some_iff] at hmisplaced
    exact .inr ⟨visit, hvisit, error, rfl, hmisplaced, (h visit hvisit).eq_of_misplaced hmisplaced⟩

/-! ### Statements that were read -/

/-- A well-formed statement that is spelled by some of these tokens in one piece, and on one line
if no block belongs to it. -/
structure Visit.ReadFrom (text : List Token) (visit : Visit) : Prop where
  wellFormed : visit.WellFormed
  spelled : visit.stmt.span.OfPiece text
  inline : visit.stmt.blocks = [] → visit.stmt.span.OfInline text

/-- The statements of a part of a program that stands here. -/
def Clause.visits (standing : Standing) : Clause → List Visit
  | stmt value => value.visits standing
  | branch _ value => value.visits standing
  | otherwise elseBody => Stmt.visitsOfElse standing elseBody
  | body stmts => Stmt.visitsOfBody standing stmts
  | block stmts => Stmt.visitsOfBody standing stmts
  | function definition => Stmt.visitsOfFunction definition
  | methods definitions => Stmt.visitsOfMethods definitions

theorem ClauseForm.block_ne_nil {classes : List String} {body : List Stmt} {tokens : List Token}
    (h : ClauseForm classes (.block body) tokens) : body ≠ [] := by
  cases h with
  | block _ _ _ _ nonempty => exact nonempty

theorem ClauseForm.otherwise_ne_nil {classes : List String} {elseBody : Option (List Stmt)}
    {tokens : List Token} (h : ClauseForm classes (.otherwise elseBody) tokens) :
    ∀ body ∈ elseBody.toList, body ≠ [] := by
  cases h with
  | noElse => exact List.forall_mem_nil _
  | elseBlock _ second => exact List.forall_mem_singleton.mpr second.block_ne_nil
  | elif _ => exact List.forall_mem_singleton.mpr (List.cons_ne_nil _ _)

theorem ClauseForm.function_shape {classes : List String} {definition : FunctionDef Stmt}
    {tokens : List Token} (h : ClauseForm classes (.function definition) tokens) :
    definition.body ≠ [] ∧ (definition.params.map Param.name).Nodup := by
  cases h with
  | function _ _ _ _ distinct _ inside => exact ⟨inside.block_ne_nil, distinct⟩

theorem ClauseForm.methods_shape {classes : List String} {methods : List (FunctionDef Stmt)}
    {tokens : List Token} (h : ClauseForm classes (.methods methods) tokens) :
    ∀ definition ∈ methods,
      definition.body ≠ [] ∧ (definition.params.map Param.name).Nodup := by
  induction methods generalizing tokens with
  | nil => exact List.forall_mem_nil _
  | cons definition others ih =>
    cases h with
    | methods first rest => exact List.forall_mem_cons.mpr ⟨first.function_shape, ih rest⟩

section

variable {text : List Token}

theorem SimpleForm.readFrom {classes : List String} {s : Stmt} {tokens : List Token}
    (h : SimpleForm classes s tokens) (hpiece : tokens <:+: text) (standing : Standing) :
    ∀ visit ∈ s.visits standing, visit.ReadFrom text := by
  have hne := h.ne_nil
  have hinline := h.isLayout
  cases h with
  | assign _ assignable | augmented _ assignable =>
    refine List.forall_mem_singleton.mpr ⟨⟨nofun, nofun, nofun, nofun, ?_⟩,
      ⟨_, hne, hpiece, rfl⟩, fun _ => ⟨_, hne, hpiece, hinline, rfl⟩⟩
    rintro _ _ _ ⟨⟩
    exact assignable
  | eval | leave | leaveWith | pass | breakLoop | continueLoop =>
    exact List.forall_mem_singleton.mpr ⟨⟨nofun, nofun, nofun, nofun, nofun⟩,
      ⟨_, hne, hpiece, rfl⟩, fun _ => ⟨_, hne, hpiece, hinline, rfl⟩⟩

theorem ClauseForm.readFrom {classes : List String} {clause : Clause} {tokens : List Token}
    (h : ClauseForm classes clause tokens) (hpiece : tokens <:+: text) (standing : Standing) :
    ∀ visit ∈ clause.visits standing, visit.ReadFrom text := by
  induction h generalizing standing with
  | simple _ form => exact form.readFrom (infix_left hpiece) standing
  | conditional _ ih => exact ih hpiece standing
  | loop _ _ repeated ih =>
    refine List.forall_mem_cons.mpr ⟨⟨⟨nofun, ?_, nofun, nofun, nofun⟩,
      ⟨_, List.cons_ne_nil _ _, hpiece, rfl⟩, nofun⟩,
      ih (infix_right (infix_tail hpiece)) standing.inRound⟩
    exact List.forall_mem_singleton.mpr repeated.block_ne_nil
  | branch _ _ first second ihFirst ihSecond =>
    have hbodies := infix_right (infix_tail hpiece)
    refine List.forall_mem_cons.mpr ⟨⟨⟨nofun, ?_, nofun, nofun, nofun⟩,
      ⟨_, List.cons_ne_nil _ _, hpiece, rfl⟩, nofun⟩, List.forall_mem_append.mpr
        ⟨ihFirst (infix_left hbodies) standing.inBranch,
          ihSecond (infix_right hbodies) standing.inBranch⟩⟩
    exact List.forall_mem_cons.mpr ⟨first.block_ne_nil, second.otherwise_ne_nil⟩
  | noElse | noStmts | noMethods => exact List.forall_mem_nil _
  | elseBlock _ _ ih => exact ih (infix_tail hpiece) standing
  | elif _ ih =>
    have hbranch := ih hpiece standing
    rw [← List.append_nil (Clause.visits _ _)] at hbranch
    exact hbranch
  | stmts _ _ ihFirst ihRest =>
    exact List.forall_mem_append.mpr
      ⟨ihFirst (infix_left hpiece) standing, ihRest (infix_right hpiece) standing⟩
  | block _ _ _ _ _ _ ih =>
    exact ih (infix_left (infix_tail (infix_tail (infix_tail hpiece)))) standing
  | function _ _ _ _ _ _ _ ih =>
    exact ih (infix_tail (infix_right (infix_tail (infix_tail (infix_tail hpiece))))) .ofFunction
  | methods _ _ ihFirst ihRest =>
    exact List.forall_mem_append.mpr
      ⟨ihFirst (infix_left hpiece) standing, ihRest (infix_right hpiece) standing⟩

theorem TopForm.readFrom {classes known : List String} {s : Stmt} {tokens : List Token}
    (h : TopForm classes s tokens known) (hpiece : tokens <:+: text) :
    ∀ visit ∈ s.visits .outside, visit.ReadFrom text := by
  cases h with
  | stmt form => exact form.readFrom hpiece .outside
  | @function _ definition _ form =>
    obtain ⟨hbody, hparams⟩ := form.function_shape
    refine List.forall_mem_cons.mpr ⟨⟨⟨fun _ => rfl, List.forall_mem_singleton.mpr hbody, nofun,
      List.forall_mem_singleton.mpr hparams, nofun⟩, ⟨tokens, ?_, hpiece, ?_⟩, nofun⟩,
      form.readFrom hpiece .outside⟩
    · cases form
      exact List.cons_ne_nil _ _
    · cases form
      rfl
  | classDef _ _ _ _ _ _ nonempty inside =>
    have hmethods := infix_left (infix_tail (infix_tail (infix_tail (infix_tail
      (infix_tail hpiece)))))
    refine List.forall_mem_cons.mpr ⟨⟨⟨fun _ => rfl, ?_, ?_,
      fun definition hmem => (inside.methods_shape definition hmem).2, nofun⟩,
      ⟨_, List.cons_ne_nil _ _, hpiece, rfl⟩, fun hnone => absurd (List.map_eq_nil_iff.mp hnone)
        nonempty⟩, inside.readFrom hmethods .outside⟩
    · exact List.forall_mem_map.mpr fun definition hmem => (inside.methods_shape definition hmem).1
    · rintro _ _ _ ⟨⟩
      exact nonempty

theorem ProgramForm.readFrom {classes : List String} {stmts : List Stmt} {tokens : List Token}
    (h : ProgramForm classes stmts tokens) (hpiece : tokens <:+: text) :
    ∀ visit ∈ stmts.flatMap (Stmt.visits .outside), visit.ReadFrom text := by
  induction h with
  | nil => exact List.forall_mem_nil _
  | cons first _ ih =>
    rw [List.flatMap_cons]
    exact List.forall_mem_append.mpr
      ⟨first.readFrom (infix_left hpiece), ih (infix_right hpiece)⟩
  | unended form =>
    rw [List.flatMap_cons, List.flatMap_nil, List.append_nil]
    exact form.readFrom hpiece .outside

end

namespace Module

variable {tokens : List Token} {predeclare : Bool} {program : Module}

theorem readFrom_of_ofTokens (h : ofTokens tokens predeclare = .ok program) :
    ∀ visit ∈ program.visits, visit.ReadFrom (textTokens tokens) :=
  (programForm_of_ofTokens h).readFrom List.infix_rfl

/-- Every statement of a program that is read from tokens is well-formed, and an augmented sign
denotes an operation on the very target in front of it.  So the program has only shapes that can be
lowered; what may fail is a jump that has nowhere to go. -/
theorem wellFormed_of_ofTokens (h : ofTokens tokens predeclare = .ok program) :
    (∀ visit ∈ program.visits, visit.WellFormed) ∧
      List.Forall₂ (Assignment.SpelledIn (textTokens tokens)) program.assignments
        (assignmentSigns (textTokens tokens)) ∧
      (∀ construct span, program.lower ≠ .error (.unsupported construct span)) ∧
      ((∃ listing, program.lower = .ok listing) ∨
        ∃ visit ∈ program.visits, ∃ error, program.lower = .error error ∧ visit.Misplaced error ∧
          (error = .breakOutsideLoop visit.stmt.span ∨
            error = .continueOutsideLoop visit.stmt.span ∨
            error = .returnOutsideFunction visit.stmt.span)) := by
  have hvisits : ∀ visit ∈ program.visits, visit.WellFormed :=
    fun visit hvisit => (readFrom_of_ofTokens h visit hvisit).wellFormed
  have hlower := lower_of_wellFormed hvisits
  refine ⟨hvisits, alongSigns_of_ofTokens h, fun construct span hunsupported => ?_, hlower⟩
  obtain ⟨listing, hlisting⟩ | ⟨visit, -, error, herror, -, hjump⟩ := hlower
  · rw [hunsupported] at hlisting
    cases hlisting
  · rw [hunsupported] at herror
    obtain rfl := Except.error.inj herror
    obtain hjump | hjump | hjump := hjump <;> cases hjump

end Module

namespace WellFormedWitness

def token (kind : TokenKind) : Token := ⟨kind, "", .absent⟩

/-- A class whose method adds to an attribute of `self`, and in an `elif` wants to leave a loop. -/
def kinds : List TokenKind :=
  [.keyword .classDefinition, .identifier "A", .symbol .colon, .layout .newline, .layout .indent,
   .keyword .definition, .identifier "m", .symbol .openParen, .identifier "self",
   .symbol .closeParen, .symbol .colon, .layout .newline, .layout .indent,
   .keyword .ifTest, .identifier "x", .symbol .colon, .layout .newline, .layout .indent,
   .identifier "self", .symbol .dot, .identifier "n", .symbol .plusAssign, .identifier "x",
   .layout .newline, .layout .dedent,
   .keyword .elifTest, .identifier "y", .symbol .colon, .layout .newline, .layout .indent,
   .keyword .breakLoop, .layout .newline, .layout .dedent, .layout .dedent, .layout .dedent]

def tokens : List Token := kinds.map token ++ [token (.layout .endOfInput)]

/-- How many statements there are, and the error of lowering them. -/
def answer : Option (Nat × Option LoweringError) :=
  (Module.ofTokens tokens false).toOption.map fun program =>
    (program.visits.length, failure? program.lower)

theorem wellFormed_tokens :
    ∃ program, Module.ofTokens tokens false = .ok program ∧ program.visits.length = 5 ∧
      (∀ visit ∈ program.visits, visit.WellFormed) ∧
      List.Forall₂ (Assignment.SpelledIn (kinds.map token)) program.assignments
        [token (.symbol .plusAssign)] ∧
      program.lower = .error (.breakOutsideLoop .absent) := by
  have hanswer : answer = some (5, some (.breakOutsideLoop .absent)) := by decide +kernel
  rw [answer] at hanswer
  cases hread : Module.ofTokens tokens false with
  | error error => rw [hread] at hanswer; cases hanswer
  | ok program =>
    rw [hread] at hanswer
    obtain ⟨hcount, hlower⟩ := Prod.mk.inj (Option.some.inj hanswer)
    obtain ⟨hvisits, hsigns, -, -⟩ := Module.wellFormed_of_ofTokens hread
    exact ⟨program, rfl, hcount, hvisits, hsigns, failure?_eq_some_iff.mp hlower⟩

end WellFormedWitness

end Offside
