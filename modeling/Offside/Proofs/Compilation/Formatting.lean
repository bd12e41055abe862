/-
Formatting and compiling.  What a source compiles to depends on the kinds of its tokens alone, as
far as outlines and code go, so a source and its formatted text are answered in the same way.
-/
import Offside.Compilation.Payload
import Offside.Proofs.Code.Likeness
import Offside.Proofs.Grammar.Mirroring
import Offside.Proofs.Token.Formatted
import Offside.Text.IdentifierRanges

namespace Offside

/-! ### Outlines -/

namespace Outline

theorem ofArgs_bare {args : List Expr}
    (h : ∀ arg ∈ args, ∀ role id, ofExpr arg.bare role id = ofExpr arg role id) (id : Nat) :
    ofArgs (args.map Expr.bare) id = ofArgs args id := by
  induction args generalizing id with
  | nil => rfl
  | cons arg others ih =>
    rw [List.forall_mem_cons] at h
    simp only [List.map_cons, ofArgs, h.1, ih h.2]

/-- Outlines show no spans. -/
theorem ofExpr_bare (expr : Expr) (role : Option Role) (id : Nat) :
    ofExpr expr.bare role id = ofExpr expr role id := by
  induction expr using Expr.induction generalizing role id with
  | constant | name => rfl
  | binary op left right span ihLeft ihRight => simp only [Expr.bare, ofExpr, ihLeft, ihRight]
  | unary op operand span ih | member operand attr span ih => simp only [Expr.bare, ofExpr, ih]
  | call callee args span ihCallee ihArgs =>
    simp only [Expr.bare, Expr.bareAll_eq_map, ofExpr, ihCallee, ofArgs_bare ihArgs]
  | methodCall receiver method args span ihReceiver ihArgs =>
    simp only [Expr.bare, Expr.bareAll_eq_map, ofExpr, ihReceiver, ofArgs_bare ihArgs]
  | construct className args span ihArgs =>
    simp only [Expr.bare, Expr.bareAll_eq_map, ofExpr, ofArgs_bare ihArgs]

theorem ofParams_bare (params : List Param) (id : Nat) :
    ofParams (params.map Param.bare) id = ofParams params id := by
  induction params generalizing id with
  | nil => rfl
  | cons param others ih => simp only [List.map_cons, ofParams, ih, Param.bare]

theorem ofBody_bare {stmts : List Stmt}
    (h : ∀ s ∈ stmts, ∀ role id, ofStmt s.bare role id = ofStmt s role id) (role : Option Role)
    (id : Nat) : ofBody (stmts.map Stmt.bare) role id = ofBody stmts role id := by
  induction stmts generalizing id with
  | nil => rfl
  | cons s others ih =>
    rw [List.forall_mem_cons] at h
    simp only [List.map_cons, ofBody, h.1, ih h.2]

theorem ofFunction_bare {definition : FunctionDef Stmt}
    (h : ∀ s ∈ definition.body, ∀ role id, ofStmt s.bare role id = ofStmt s role id)
    (role : Option Role) (id : Nat) :
    ofFunction (Stmt.bareFunction definition) role id = ofFunction definition role id := by
  cases definition
  simp only [Stmt.bareFunction, Stmt.bareAll_eq_map, ofFunction, ofParams_bare, ofBody_bare h]

theorem ofMethods_bare {methods : List (FunctionDef Stmt)}
    (h : ∀ method ∈ methods, ∀ s ∈ method.body, ∀ role id,
      ofStmt s.bare role id = ofStmt s role id) (id : Nat) :
    ofMethods (methods.map Stmt.bareFunction) id = ofMethods methods id := by
  induction methods generalizing id with
  | nil => rfl
  | cons method others ih =>
    rw [List.forall_mem_cons] at h
    simp only [List.map_cons, ofMethods, ofFunction_bare h.1, ih h.2]

theorem ofStmt_bare (s : Stmt) (role : Option Role) (id : Nat) :
    ofStmt s.bare role id = ofStmt s role id := by
  induction s using Stmt.induction generalizing role id with
  | function definition span ih => simp only [Stmt.bare, ofStmt, ofFunction_bare ih]
  | classDef name methods span ih =>
    simp only [Stmt.bare, Stmt.bareFunctions_eq_map, ofStmt, ofMethods_bare ih]
  | assign target value span => simp only [Stmt.bare, ofStmt, ofExpr_bare]
  | branch test thenBody elseBody span ihThen ihElse =>
    simp only [Stmt.bare, Stmt.bareAll_eq_map, ofStmt, ofExpr_bare, ofBody_bare ihThen]
    cases elseBody with
    | none => rfl
    | some body =>
      simp only [Stmt.bareElse, Stmt.bareAll_eq_map, ofElse, ofBody_bare (ihElse body rfl)]
  | loop test body span ih =>
    simp only [Stmt.bare, Stmt.bareAll_eq_map, ofStmt, ofExpr_bare, ofBody_bare ih]
  | leave value span =>
    cases value with
    | none => rfl
    | some value => simp only [Stmt.bare, Option.map_some, ofStmt, ofExpr_bare]
  | pass | breakLoop | continueLoop => rfl
  | eval expr span => simp only [Stmt.bare, ofStmt, ofExpr_bare]

theorem ofModule_bare (program : Module) : ofModule program.bare = ofModule program := by
  rw [ofModule, ofModule, Module.bare, ofBody_bare fun s _ => ofStmt_bare s]

end Outline

/-- The answer about a source shows what its program says and its code. -/
theorem Analysis.json_congr {analysis other : Analysis}
    (hprogram : other.program.bare = analysis.program.bare) (hcode : other.code = analysis.code) :
    other.json = analysis.json := by
  have houtline : Outline.ofModule other.program = Outline.ofModule analysis.program := by
    rw [← Outline.ofModule_bare other.program, hprogram, Outline.ofModule_bare]
  simp only [json, Module.outlineText, Module.outlineLines, houtline, hcode]

/-! ### Programs from tokens of the same kinds -/

theorem classNames_bare (tokens : List Token) :
    Cursor.classNames (tokens.map Token.bare) = Cursor.classNames tokens := by
  induction tokens with
  | nil => rfl
  | cons first tokens ih =>
    cases tokens with
    | nil => rfl
    | cons second others =>
      rw [List.map_cons] at ih
      simp only [List.map_cons, Cursor.classNames, ih]
      rfl

namespace Module

theorem toOption_ofTokens_bare (tokens : List Token) (predeclare : Bool) :
    (ofTokens (tokens.map Token.bare) predeclare).toOption =
      (ofTokens tokens predeclare).toOption.map bare := by
  have hknown (name : String) : name ∈ knownAtStart (tokens.map Token.bare) predeclare ↔
      name ∈ Recast.bare.classes ∨ name ∈ knownAtStart tokens predeclare := by
    rw [knownAtStart, knownAtStart, classNames_bare]
    simp [Recast.bare]
  rw [ofTokens_mirrors (Token.forall₂_mirrors_bare (fun _ => rfl) tokens) hknown]
  cases ofTokens tokens predeclare with
  | error error => rfl
  | ok program => exact congrArg some program.recast_bare

/-- Tokens of the same kinds are read as programs that say the same. -/
theorem toOption_ofTokens_of_kinds {tokens others : List Token}
    (h : others.map Token.kind = tokens.map Token.kind) (predeclare : Bool) :
    (ofTokens others predeclare).toOption.map bare =
      (ofTokens tokens predeclare).toOption.map bare := by
  rw [← toOption_ofTokens_bare, Token.map_bare_of_kinds h, toOption_ofTokens_bare]

end Module

theorem map_augmentation?_assignmentSigns {tokens others : List Token}
    (h : others.map Token.kind = tokens.map Token.kind) :
    (assignmentSigns others).map (·.kind.augmentation?) =
      (assignmentSigns tokens).map (·.kind.augmentation?) := by
  have hsigns (tokens : List Token) : (assignmentSigns tokens).map (·.kind.augmentation?) =
      ((tokens.map Token.kind).filter TokenKind.isAssignment).map TokenKind.augmentation? := by
    rw [List.filter_map, List.map_map]
    rfl
  rw [hsigns, hsigns, h]

/-! ### Formatted sources -/

namespace CompileOptions

variable [IdentifierTables] {options : CompileOptions} {source : String} {tokens : List Token}

theorem toOption_compile (h : tokenize source options.tabWidth = .ok tokens) :
    (options.compile source).toOption =
      (Module.ofTokens tokens options.predeclare).toOption.bind fun program =>
        program.lower.toOption.map fun code => ⟨program, code⟩ := by
  have hlex : options.lex source = .ok tokens := by
    rw [lex, h]
    rfl
  have hphases : options.compile source =
      ((options.parse tokens).mapError .reported).bind fun program =>
        ((options.lower program).mapError .reported).bind fun code => .ok ⟨program, code⟩ := by
    rw [compile, hlex]
    rfl
  rw [hphases, parse]
  cases Module.ofTokens tokens options.predeclare with
  | error error => rfl
  | ok program =>
    change (((options.lower program).mapError Failure.reported).bind fun code =>
      .ok (Analysis.mk program code)).toOption = program.lower.toOption.map (Analysis.mk program)
    rw [lower]
    cases program.lower <;> rfl

/-- Sources whose tokens have the same kinds are answered in the same way, if they compile at
all. -/
theorem map_json_of_kinds {text : String} {width : Nat} {others : List Token}
    (hlex : tokenize source options.tabWidth = .ok tokens)
    (hother : tokenize text width = .ok others)
    (hkinds : others.map Token.kind = tokens.map Token.kind) :
    ({ options with tabWidth := width }.compile text).toOption.map Analysis.json =
      (options.compile source).toOption.map Analysis.json := by
  have hread := Module.toOption_ofTokens_of_kinds hkinds options.predeclare
  have hsecond : ({ options with tabWidth := width }.compile text).toOption = _ :=
    toOption_compile hother
  rw [toOption_compile hlex, hsecond]
  dsimp only
  cases hprogram : Module.ofTokens tokens options.predeclare with
  | error error =>
    rw [hprogram] at hread
    rw [Option.map_eq_none_iff.mp hread]
    rfl
  | ok program =>
    rw [hprogram] at hread
    obtain ⟨other, hsome, hbare⟩ := Option.map_eq_some_iff.mp hread
    have hparse : Module.ofTokens others options.predeclare = .ok other := by
      cases hothers : Module.ofTokens others options.predeclare with
      | error error =>
        rw [hothers] at hsome
        cases hsome
      | ok found =>
        rw [hothers] at hsome
        exact congrArg Except.ok (Option.some.inj hsome)
    have hoperators := (Module.agreeWithSigns_of_ofTokens hother hparse).map_augmentation?.trans
      ((map_augmentation?_assignmentSigns hkinds).trans
        (Module.agreeWithSigns_of_ofTokens hlex hprogram).map_augmentation?.symm)
    rw [hsome, Option.bind_some, Module.toOption_lower hbare hoperators]
    change _ = (Option.map _ program.lower.toOption).map Analysis.json
    cases program.lower.toOption with
    | none => rfl
    | some code => exact congrArg some (Analysis.json_congr hbare rfl)

/-- A source that is cut into tokens has the same tokens when it is formatted, whatever the width of
a tab is then, and formatting it again changes nothing.  So it compiles exactly when its formatted
text does, and the answer shows the same outline and the same code.  The size is that of texts in
memory, in which no margin is too wide. -/
theorem compile_formatted (h : tokenize source options.tabWidth = .ok tokens)
    (hsize : source.utf8ByteSize < 2 ^ 63) (width : Nat) :
    (∃ others, tokenize (formatted tokens) width = .ok others ∧
      List.Forall₂ Token.SpelledAs tokens others ∧ formatted others = formatted tokens) ∧
    ({ options with tabWidth := width }.compile (formatted tokens)).toOption.map Analysis.json =
      (options.compile source).toOption.map Analysis.json := by
  obtain ⟨others, hspelled, hother⟩ := exists_tokenize_formatted h hsize width
  exact ⟨⟨others, hother, hspelled, formatted_eq_of_spelledAs hspelled⟩,
    map_json_of_kinds h hother (map_kind_of_spelledAs hspelled)⟩

end CompileOptions

namespace FormattingWitness

/-- A loop indented with a tab, with a call over two lines, a comment and an empty line. -/
def source : String := "while a<1:\n\n\ta+=f(2.50,\n  3)  # more\n"

def text : String := "while a < 1 :\n    a += f ( 2.50 , 3 )\n"

theorem compile_formatted_source :
    ∃ tokens others, tokenize source 4 = .ok tokens ∧ formatted tokens = text ∧
      tokenize text 8 = .ok others ∧ List.Forall₂ Token.SpelledAs tokens others ∧
      formatted others = text ∧
      ({ CompileOptions.default with tabWidth := 8 }.compile text).toOption.map Analysis.json =
        (CompileOptions.default.compile source).toOption.map Analysis.json ∧
      (CompileOptions.default.compile source).toOption.isSome = true := by
  have htext : (tokenize source 4).toOption.map formatted = some text := by decide +kernel
  have hcompiles : (CompileOptions.default.compile source).toOption.isSome = true := by
    decide +kernel
  have hsize : source.utf8ByteSize < 2 ^ 63 := by decide +kernel
  cases hlex : tokenize source CompileOptions.default.tabWidth with
  | error error =>
    have hnone : (tokenize source 4).toOption = none := congrArg Except.toOption hlex
    rw [hnone] at htext
    cases htext
  | ok tokens =>
    have hsome : (tokenize source 4).toOption = some tokens := congrArg Except.toOption hlex
    rw [hsome] at htext
    have hformatted : formatted tokens = text := Option.some.inj htext
    obtain ⟨⟨others, hother, hspelled, hagain⟩, hanswer⟩ :=
      CompileOptions.compile_formatted hlex hsize 8
    rw [hformatted] at hother hagain hanswer
    exact ⟨tokens, others, hlex, hformatted, hother, hspelled, hagain, hanswer, hcompiles⟩

end FormattingWitness

end Offside
