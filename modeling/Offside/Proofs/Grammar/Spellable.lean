/-
Programs that a text can spell.  Every name in such a program is a name, every constant has a value
that a literal can have, and no body of an alternative is empty; whatever is read from a text is
like that.
-/
import Offside.Compilation.Basic
import Offside.Proofs.Grammar.Programs
import Offside.Proofs.Grammar.Spans
import Offside.Proofs.Token.Literals

namespace Offside

/-! ### Programs -/

variable [IdentifierTables]

namespace Expr

mutual

/-- Whether a text can spell the names and the constants of an expression. -/
def IsSpellable : Expr → Prop
  | constant value _ => value.IsSpellable
  | name id _ => isName id = true
  | binary _ left right _ => IsSpellable left ∧ IsSpellable right
  | unary _ operand _ => IsSpellable operand
  | call callee args _ => IsSpellable callee ∧ IsSpellableAll args
  | methodCall receiver method args _ =>
    IsSpellable receiver ∧ isName method = true ∧ IsSpellableAll args
  | construct className args _ => isName className = true ∧ IsSpellableAll args
  | member receiver attr _ => IsSpellable receiver ∧ isName attr = true

def IsSpellableAll : List Expr → Prop
  | [] => True
  | expr :: others => IsSpellable expr ∧ IsSpellableAll others

end

@[simp] theorem isSpellableAll_iff {exprs : List Expr} :
    IsSpellableAll exprs ↔ ∀ expr ∈ exprs, expr.IsSpellable := by
  induction exprs with
  | nil => simp [IsSpellableAll]
  | cons expr others ih => rw [IsSpellableAll, ih, List.forall_mem_cons]

end Expr

namespace Stmt

mutual

/-- Whether a text can spell the names and the constants of a statement; an alternative has a
statement in its body. -/
def IsSpellable : Stmt → Prop
  | function definition _ => IsSpellableFunction definition
  | classDef name methods _ => isName name = true ∧ IsSpellableFunctions methods
  | assign target value _ => target.IsSpellable ∧ value.IsSpellable
  | branch test thenBody elseBody _ =>
    test.IsSpellable ∧ IsSpellableBody thenBody ∧ IsSpellableElse elseBody
  | loop test body _ => test.IsSpellable ∧ IsSpellableBody body
  | leave none _ => True
  | leave (some value) _ => value.IsSpellable
  | pass _ => True
  | breakLoop _ => True
  | continueLoop _ => True
  | eval expr _ => expr.IsSpellable

def IsSpellableFunction : FunctionDef Stmt → Prop
  | ⟨name, params, body, _⟩ =>
    isName name = true ∧ (∀ param ∈ params, isName param.name = true) ∧ IsSpellableBody body

def IsSpellableFunctions : List (FunctionDef Stmt) → Prop
  | [] => True
  | definition :: others => IsSpellableFunction definition ∧ IsSpellableFunctions others

def IsSpellableBody : List Stmt → Prop
  | [] => True
  | stmt :: others => IsSpellable stmt ∧ IsSpellableBody others

def IsSpellableElse : Option (List Stmt) → Prop
  | none => True
  | some body => body ≠ [] ∧ IsSpellableBody body

end

@[simp] theorem isSpellableBody_iff {body : List Stmt} :
    IsSpellableBody body ↔ ∀ stmt ∈ body, stmt.IsSpellable := by
  induction body with
  | nil => simp [IsSpellableBody]
  | cons stmt others ih => rw [IsSpellableBody, ih, List.forall_mem_cons]

theorem isSpellableFunction_iff {definition : FunctionDef Stmt} :
    IsSpellableFunction definition ↔ isName definition.name = true ∧
      (∀ param ∈ definition.params, isName param.name = true) ∧
      ∀ stmt ∈ definition.body, stmt.IsSpellable := by
  cases definition
  rw [IsSpellableFunction, isSpellableBody_iff]

@[simp] theorem isSpellableFunctions_iff {definitions : List (FunctionDef Stmt)} :
    IsSpellableFunctions definitions ↔
      ∀ definition ∈ definitions, IsSpellableFunction definition := by
  induction definitions with
  | nil => simp [IsSpellableFunctions]
  | cons definition others ih => rw [IsSpellableFunctions, ih, List.forall_mem_cons]

end Stmt

/-- Whether a text can spell a program. -/
def Module.IsSpellable (program : Module) : Prop := ∀ stmt ∈ program.body, stmt.IsSpellable

/-! ### What is read from a text -/

/-- Whether tokens are such as a text spells. -/
def AreSpellable (tokens : List Token) : Prop := ∀ token ∈ tokens, token.kind.IsSpellable

@[simp] theorem areSpellable_append {tokens others : List Token} :
    AreSpellable (tokens ++ others) ↔ AreSpellable tokens ∧ AreSpellable others :=
  List.forall_mem_append

@[simp] theorem areSpellable_cons {token : Token} {others : List Token} :
    AreSpellable (token :: others) ↔ token.kind.IsSpellable ∧ AreSpellable others :=
  List.forall_mem_cons

theorem Expr.IsSpellable.called {callee : Expr} {args : List Expr} (hcallee : callee.IsSpellable)
    (hargs : ∀ arg ∈ args, arg.IsSpellable) (classes : List String) (place : Span) :
    (callee.called classes args place).IsSpellable := by
  rcases called_cases classes callee args place with h | ⟨className, span, rfl, -, h⟩
  · simpa [h, IsSpellable] using ⟨hcallee, hargs⟩
  · simpa [h, IsSpellable] using ⟨hcallee, hargs⟩

theorem Derives.isSpellable {classes : List String} {phrase : Phrase} {tokens : List Token}
    (h : Derives classes phrase tokens) (htokens : AreSpellable tokens) :
    ∀ e ∈ phrase.exprs, e.IsSpellable := by
  induction h with
  | literal kind | name kind =>
    have htoken := htokens _ (List.mem_singleton.mpr rfl)
    rw [kind] at htoken
    exact List.forall_mem_singleton.mpr htoken
  | group _ _ _ ih =>
    simp only [areSpellable_cons, areSpellable_append] at htokens
    exact ih htokens.2.1
  | call _ _ _ _ ihCallee ihArgs =>
    simp only [areSpellable_cons, areSpellable_append] at htokens
    obtain ⟨hcallee, -, hargs, -⟩ := htokens
    exact List.forall_mem_singleton.mpr
      ((ihCallee hcallee _ (List.mem_singleton.mpr rfl)).called (ihArgs hargs) _ _)
  | methodCall _ wordKind _ _ _ _ ihReceiver ihArgs =>
    simp only [areSpellable_cons, areSpellable_append, wordKind] at htokens
    obtain ⟨hreceiver, -, hword, -, hargs, -⟩ := htokens
    refine List.forall_mem_singleton.mpr ?_
    rw [Expr.IsSpellable, Expr.isSpellableAll_iff]
    exact ⟨ihReceiver hreceiver _ (List.mem_singleton.mpr rfl), hword, ihArgs hargs⟩
  | member _ wordKind _ ih =>
    simp only [areSpellable_cons, areSpellable_append, wordKind] at htokens
    obtain ⟨hreceiver, -, hword, -⟩ := htokens
    exact List.forall_mem_singleton.mpr ⟨ih hreceiver _ (List.mem_singleton.mpr rfl), hword⟩
  | neg _ _ ih | not _ _ ih =>
    have hoperand := ih (areSpellable_cons.mp htokens).2 _ (List.mem_singleton.mpr rfl)
    exact List.forall_mem_singleton.mpr hoperand
  | plus _ _ ih => exact ih (areSpellable_cons.mp htokens).2
  | join _ _ _ ihLeft ihRight =>
    simp only [areSpellable_cons, areSpellable_append] at htokens
    exact List.forall_mem_singleton.mpr
      ⟨ihLeft htokens.1 _ (List.mem_singleton.mpr rfl),
        ihRight htokens.2.2 _ (List.mem_singleton.mpr rfl)⟩
  | widen _ _ ih => exact ih htokens
  | noArgs => exact List.forall_mem_nil _
  | lastArg _ ih => exact ih htokens
  | moreArgs _ _ _ ihArg ihRest =>
    simp only [areSpellable_cons, areSpellable_append] at htokens
    exact List.forall_mem_cons.mpr
      ⟨ihArg htokens.1 _ (List.mem_singleton.mpr rfl), ihRest htokens.2.2⟩

theorem Derives.isSpellable_expr {classes : List String} {layer : Layer} {e : Expr}
    {tokens : List Token} (h : Derives classes (.expr layer e) tokens)
    (htokens : AreSpellable tokens) : e.IsSpellable :=
  h.isSpellable htokens e (List.mem_singleton.mpr rfl)

theorem SimpleForm.isSpellable {classes : List String} {s : Stmt} {tokens : List Token}
    (h : SimpleForm classes s tokens) (htokens : AreSpellable tokens) : s.IsSpellable := by
  cases h with
  | assign _ _ place source =>
    simp only [areSpellable_cons, areSpellable_append] at htokens
    exact ⟨place.isSpellable_expr htokens.1, source.isSpellable_expr htokens.2.2⟩
  | augmented _ _ place source =>
    simp only [areSpellable_cons, areSpellable_append] at htokens
    have htarget := place.isSpellable_expr htokens.1
    exact ⟨htarget, htarget, source.isSpellable_expr htokens.2.2⟩
  | eval value => exact value.isSpellable_expr htokens
  | leaveWith _ value => exact value.isSpellable_expr (areSpellable_cons.mp htokens).2
  | leave | pass | breakLoop | continueLoop => trivial

theorem ParamForm.isSpellable {params : List Param} {tokens : List Token}
    (h : ParamForm params tokens) (htokens : AreSpellable tokens) :
    ∀ param ∈ params, isName param.name = true := by
  induction h with
  | none => exact List.forall_mem_nil _
  | last wordKind =>
    rw [areSpellable_cons, wordKind] at htokens
    exact List.forall_mem_singleton.mpr htokens.1
  | more wordKind _ _ ih =>
    rw [areSpellable_cons, areSpellable_cons, wordKind] at htokens
    exact List.forall_mem_cons.mpr ⟨htokens.1, ih htokens.2.2⟩

/-- Whether a text can spell a part of a program. -/
def Clause.IsSpellable : Clause → Prop
  | stmt value => value.IsSpellable
  | branch _ value => value.IsSpellable
  | otherwise elseBody => Stmt.IsSpellableElse elseBody
  | body stmts => Stmt.IsSpellableBody stmts
  | block stmts => stmts ≠ [] ∧ Stmt.IsSpellableBody stmts
  | function definition => Stmt.IsSpellableFunction definition
  | methods definitions => Stmt.IsSpellableFunctions definitions

theorem ClauseForm.isSpellable {classes : List String} {clause : Clause} {tokens : List Token}
    (h : ClauseForm classes clause tokens) (htokens : AreSpellable tokens) :
    clause.IsSpellable := by
  induction h with
  | simple _ form => exact form.isSpellable (areSpellable_append.mp htokens).1
  | conditional _ ih => exact ih htokens
  | loop _ condition _ ih =>
    simp only [areSpellable_cons, areSpellable_append] at htokens
    exact ⟨condition.isSpellable_expr htokens.2.1, (ih htokens.2.2).2⟩
  | branch _ condition _ _ ihFirst ihSecond =>
    simp only [areSpellable_cons, areSpellable_append] at htokens
    exact ⟨condition.isSpellable_expr htokens.2.1, (ihFirst htokens.2.2.1).2,
      ihSecond htokens.2.2.2⟩
  | noElse | noStmts | noMethods => trivial
  | elseBlock _ _ ih => exact ih (areSpellable_cons.mp htokens).2
  | elif _ ih => exact ⟨List.cons_ne_nil _ _, ih htokens, trivial⟩
  | stmts _ _ ihFirst ihRest =>
    obtain ⟨hfirst, hrest⟩ := areSpellable_append.mp htokens
    exact ⟨ihFirst hfirst, ihRest hrest⟩
  | block _ _ _ _ nonempty _ ih =>
    simp only [areSpellable_cons, areSpellable_append] at htokens
    exact ⟨nonempty, ih htokens.2.2.2.1⟩
  | function _ idKind _ _ _ formal _ ih =>
    simp only [areSpellable_cons, areSpellable_append, idKind] at htokens
    obtain ⟨-, hname, -, hparams, -, hbody⟩ := htokens
    exact ⟨hname, formal.isSpellable hparams, (ih hbody).2⟩
  | methods _ _ ihFirst ihRest =>
    obtain ⟨hfirst, hrest⟩ := areSpellable_append.mp htokens
    exact ⟨ihFirst hfirst, ihRest hrest⟩

theorem TopForm.isSpellable {classes known : List String} {s : Stmt} {tokens : List Token}
    (h : TopForm classes s tokens known) (htokens : AreSpellable tokens) : s.IsSpellable := by
  cases h with
  | stmt form => exact form.isSpellable htokens
  | function form => exact form.isSpellable htokens
  | classDef _ idKind _ _ _ _ _ inside =>
    simp only [areSpellable_cons, areSpellable_append, idKind] at htokens
    obtain ⟨-, hname, -, -, -, hmethods, -⟩ := htokens
    exact ⟨hname, inside.isSpellable hmethods⟩

theorem ProgramForm.isSpellable {classes : List String} {stmts : List Stmt} {tokens : List Token}
    (h : ProgramForm classes stmts tokens) (htokens : AreSpellable tokens) :
    ∀ stmt ∈ stmts, stmt.IsSpellable := by
  induction h with
  | nil => exact List.forall_mem_nil _
  | cons first _ ih =>
    obtain ⟨hfirst, hrest⟩ := areSpellable_append.mp htokens
    exact List.forall_mem_cons.mpr ⟨first.isSpellable hfirst, ih hrest⟩
  | unended form => exact List.forall_mem_singleton.mpr (form.isSpellable htokens)

/-- What is read from a text can be spelled. -/
theorem Module.isSpellable_of_ofTokens {text : String} {tabWidth : Nat} {tokens : List Token}
    {predeclare : Bool} {program : Module} (hlex : tokenize text tabWidth = .ok tokens)
    (hparse : ofTokens tokens predeclare = .ok program) : program.IsSpellable :=
  (programForm_of_ofTokens hparse).isSpellable fun token htoken =>
    isSpellable_of_tokenize hlex token (List.takeWhile_subset _ htoken)

end Offside
