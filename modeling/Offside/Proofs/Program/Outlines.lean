/-
What the outline of a program says.  The forms of its nodes tell statements and expressions apart,
and their roles say where the children of one part end and those of the next begin.  So a program is
known from its outline, up to its spans and whatever the numbers of the nodes are.
-/
import Offside.Outline
import Offside.Proofs.Grammar.Spellable
import Offside.Proofs.Program.Bare
import Offside.Proofs.Text.Pieces
import Offside.Proofs.Token.LiteralText

namespace Offside

theorem BinaryOp.text_injective {op other : BinaryOp} (h : op.text = other.text) : op = other := by
  cases op <;> cases other <;> first | rfl | exact absurd h (by decide)

namespace Outline

def form : Outline → String
  | node _ form _ _ _ => form

def role? : Outline → Option Role
  | node _ _ _ role _ => role

mutual

/-- The outline without the numbers of its nodes. -/
def unnumbered : Outline → Outline
  | node _ form value role children => node 0 form value role (unnumberedAll children)

def unnumberedAll : List Outline → List Outline
  | [] => []
  | child :: others => unnumbered child :: unnumberedAll others

end

@[simp] theorem unnumberedAll_eq_map (outlines : List Outline) :
    unnumberedAll outlines = outlines.map unnumbered := by
  induction outlines with
  | nil => rfl
  | cons child others ih => rw [unnumberedAll, ih, List.map_cons]

@[simp] theorem form_unnumbered (outline : Outline) : outline.unnumbered.form = outline.form := by
  cases outline
  rfl

@[simp] theorem role?_unnumbered (outline : Outline) :
    outline.unnumbered.role? = outline.role? := by
  cases outline
  rfl

/-! ### Expressions -/

section

variable {role role' : Option Role} {id id' : Nat}

theorem form_ofExpr (e : Expr) (role : Option Role) (id : Nat) :
    (ofExpr e role id).1.form = e.form := by
  cases e <;> rfl

theorem Expr.form_eq_of_unnumbered {e other : Expr}
    (h : (ofExpr e role id).1.unnumbered = (ofExpr other role' id').1.unnumbered) :
    e.form = other.form := by
  simpa only [form_unnumbered, form_ofExpr] using congrArg form h

/-- An expression that is known from its outline. -/
def Shows [IdentifierTables] (e : Expr) : Prop :=
  ∀ {other : Expr} {role role' : Option Role} {id id' : Nat}, other.IsSpellable →
    (ofExpr e role id).1.unnumbered = (ofExpr other role' id').1.unnumbered → e.bare = other.bare

theorem ofArgs_inj [IdentifierTables] {args others : List Expr} (h : ∀ arg ∈ args, Shows arg)
    (hothers : ∀ other ∈ others, other.IsSpellable)
    (heq : (ofArgs args id).1.map unnumbered = (ofArgs others id').1.map unnumbered) :
    args.map Expr.bare = others.map Expr.bare := by
  induction args generalizing others id id' with
  | nil =>
    cases others with
    | nil => rfl
    | cons other others => cases heq
  | cons arg args ih =>
    cases others with
    | nil => cases heq
    | cons other others =>
      rw [List.forall_mem_cons] at h hothers
      obtain ⟨hfirst, hrest⟩ := List.cons.inj heq
      rw [List.map_cons, List.map_cons, h.1 hothers.1 hfirst, ih h.2 hothers.2 hrest]

theorem shows_of_isSpellable [IdentifierTables] (e : Expr) (h : e.IsSpellable) : Shows e := by
  induction e using Expr.induction with
  | constant value span =>
    intro other _ _ _ _ hother heq
    have hform := Expr.form_eq_of_unnumbered heq
    cases other with
    | constant value' span' =>
      simp only [ofExpr, unnumbered, node.injEq, Option.some.injEq] at heq
      rw [Expr.bare, Expr.bare, (Literal.text_inj h hother).mp heq.2.2.1]
    | _ => simp [Expr.form] at hform
  | name name span =>
    intro other _ _ _ _ _ heq
    have hform := Expr.form_eq_of_unnumbered heq
    cases other with
    | name name' span' =>
      simp only [ofExpr, unnumbered, node.injEq, Option.some.injEq] at heq
      rw [Expr.bare, Expr.bare, heq.2.2.1]
    | _ => simp [Expr.form] at hform
  | binary op left right span ihLeft ihRight =>
    intro other _ _ _ _ hother heq
    have hform := Expr.form_eq_of_unnumbered heq
    cases other with
    | binary op' left' right' span' =>
      simp only [ofExpr, unnumbered, unnumberedAll, node.injEq, Option.some.injEq,
        List.cons.injEq] at heq
      obtain ⟨-, -, hop, -, hleft, hright, -⟩ := heq
      rw [Expr.bare, Expr.bare, BinaryOp.text_injective hop, ihLeft h.1 hother.1 hleft,
        ihRight h.2 hother.2 hright]
    | _ => simp [Expr.form] at hform
  | unary op operand span ih =>
    intro other _ _ _ _ hother heq
    have hform := Expr.form_eq_of_unnumbered heq
    cases other with
    | unary op' operand' span' =>
      simp only [ofExpr, unnumbered, unnumberedAll, node.injEq, Option.some.injEq,
        List.cons.injEq] at heq
      obtain ⟨-, -, hop, -, hoperand, -⟩ := heq
      obtain rfl : op = op' := by cases op <;> cases op' <;> first | rfl | simp at hop
      rw [Expr.bare, Expr.bare, ih h (show operand'.IsSpellable from hother) hoperand]
    | _ => simp [Expr.form] at hform
  | call callee args span ihCallee ihArgs =>
    intro other _ _ _ _ hother heq
    have hform := Expr.form_eq_of_unnumbered heq
    cases other with
    | call callee' args' span' =>
      simp only [ofExpr, unnumbered, unnumberedAll_eq_map, List.map_cons, node.injEq,
        List.cons.injEq] at heq
      obtain ⟨-, -, -, -, hcallee, hargs⟩ := heq
      simp only [Expr.IsSpellable, Expr.isSpellableAll_iff] at h hother
      simp only [Expr.bare, Expr.bareAll_eq_map]
      rw [ihCallee h.1 hother.1 hcallee,
        ofArgs_inj (fun arg harg => ihArgs arg harg (h.2 arg harg)) hother.2 hargs]
    | _ => simp [Expr.form] at hform
  | methodCall receiver method args span ihReceiver ihArgs =>
    intro other _ _ _ _ hother heq
    have hform := Expr.form_eq_of_unnumbered heq
    cases other with
    | methodCall receiver' method' args' span' =>
      simp only [ofExpr, unnumbered, unnumberedAll_eq_map, List.map_cons, node.injEq,
        Option.some.injEq, List.cons.injEq] at heq
      obtain ⟨-, -, hmethod, -, hreceiver, hargs⟩ := heq
      simp only [Expr.IsSpellable, Expr.isSpellableAll_iff] at h hother
      simp only [Expr.bare, Expr.bareAll_eq_map]
      rw [hmethod, ihReceiver h.1 hother.1 hreceiver,
        ofArgs_inj (fun arg harg => ihArgs arg harg (h.2.2 arg harg)) hother.2.2 hargs]
    | _ => simp [Expr.form] at hform
  | construct className args span ihArgs =>
    intro other _ _ _ _ hother heq
    have hform := Expr.form_eq_of_unnumbered heq
    cases other with
    | construct className' args' span' =>
      simp only [ofExpr, unnumbered, unnumberedAll_eq_map, node.injEq, Option.some.injEq] at heq
      obtain ⟨-, -, hname, -, hargs⟩ := heq
      simp only [Expr.IsSpellable, Expr.isSpellableAll_iff] at h hother
      simp only [Expr.bare, Expr.bareAll_eq_map]
      rw [hname, ofArgs_inj (fun arg harg => ihArgs arg harg (h.2 arg harg)) hother.2 hargs]
    | _ => simp [Expr.form] at hform
  | member receiver attr span ih =>
    intro other _ _ _ _ hother heq
    have hform := Expr.form_eq_of_unnumbered heq
    cases other with
    | member receiver' attr' span' =>
      simp only [ofExpr, unnumbered, unnumberedAll, node.injEq, Option.some.injEq,
        List.cons.injEq] at heq
      obtain ⟨-, -, hattr, -, hreceiver, -⟩ := heq
      rw [Expr.bare, Expr.bare, hattr, ih h.1 hother.1 hreceiver]
    | _ => simp [Expr.form] at hform

/-! ### Statements -/

theorem form_ofStmt (s : Stmt) (role : Option Role) (id : Nat) :
    (ofStmt s role id).1.form = s.form := by
  cases s with
  | function definition span => cases definition; rfl
  | leave value span => cases value <;> rfl
  | _ => rfl

theorem role?_ofStmt (s : Stmt) (role : Option Role) (id : Nat) :
    (ofStmt s role id).1.role? = role := by
  cases s with
  | function definition span => cases definition; rfl
  | leave value span => cases value <;> rfl
  | _ => rfl

theorem Stmt.form_eq_of_unnumbered {s other : Stmt}
    (h : (ofStmt s role id).1.unnumbered = (ofStmt other role' id').1.unnumbered) :
    s.form = other.form := by
  simpa only [form_unnumbered, form_ofStmt] using congrArg form h

theorem role?_ofBody {body : List Stmt} : ∀ child ∈ (ofBody body role id).1, child.role? = role := by
  induction body generalizing id with
  | nil => exact List.forall_mem_nil _
  | cons s others ih => exact List.forall_mem_cons.mpr ⟨role?_ofStmt s role id, ih⟩

theorem role?_ofParams {params : List Param} :
    ∀ child ∈ (ofParams params id).1, child.role? = some .param := by
  induction params generalizing id with
  | nil => exact List.forall_mem_nil _
  | cons param others ih => exact List.forall_mem_cons.mpr ⟨rfl, ih⟩

theorem role?_ofElse {elseBody : Option (List Stmt)} :
    ∀ child ∈ (ofElse elseBody id).1, child.role? ≠ some .thenBody := by
  cases elseBody with
  | none => exact List.forall_mem_nil _
  | some body => exact fun child hchild => by simp [role?_ofBody child hchild]

/-- A statement that is known from its outline. -/
def ShowsStmt [IdentifierTables] (s : Stmt) : Prop :=
  ∀ {other : Stmt} {role role' : Option Role} {id id' : Nat}, other.IsSpellable →
    (ofStmt s role id).1.unnumbered = (ofStmt other role' id').1.unnumbered → s.bare = other.bare

theorem ofParams_inj {params others : List Param}
    (heq : (ofParams params id).1.map unnumbered = (ofParams others id').1.map unnumbered) :
    params.map Param.bare = others.map Param.bare := by
  induction params generalizing others id id' with
  | nil =>
    cases others with
    | nil => rfl
    | cons other others => cases heq
  | cons param params ih =>
    cases others with
    | nil => cases heq
    | cons other others =>
      obtain ⟨hfirst, hrest⟩ := List.cons.inj heq
      simp only [unnumbered, node.injEq, Option.some.injEq] at hfirst
      rw [List.map_cons, List.map_cons, ih hrest, Param.bare, Param.bare, hfirst.2.2.1]

theorem ofBody_inj [IdentifierTables] {body others : List Stmt} (h : ∀ s ∈ body, ShowsStmt s)
    (hothers : ∀ other ∈ others, other.IsSpellable)
    (heq : (ofBody body role id).1.map unnumbered = (ofBody others role' id').1.map unnumbered) :
    body.map Stmt.bare = others.map Stmt.bare := by
  induction body generalizing others id id' with
  | nil =>
    cases others with
    | nil => rfl
    | cons other others => cases heq
  | cons s body ih =>
    cases others with
    | nil => cases heq
    | cons other others =>
      rw [List.forall_mem_cons] at h hothers
      obtain ⟨hfirst, hrest⟩ := List.cons.inj heq
      rw [List.map_cons, List.map_cons, h.1 hothers.1 hfirst, ih h.2 hothers.2 hrest]

/-- Nodes of one role are told from the nodes of other roles behind them. -/
theorem split_at_role {before before' after after' : List Outline} (role : Option Role)
    (hbefore : ∀ child ∈ before, child.role? = role)
    (hbefore' : ∀ child ∈ before', child.role? = role)
    (hafter : ∀ child ∈ after, child.role? ≠ role) (hafter' : ∀ child ∈ after', child.role? ≠ role)
    (heq : (before ++ after).map unnumbered = (before' ++ after').map unnumbered) :
    before.map unnumbered = before'.map unnumbered ∧
      after.map unnumbered = after'.map unnumbered := by
  rw [List.map_append, List.map_append] at heq
  exact append_inj_of_forall (p := (·.role? == role)) (by simpa using hbefore)
    (by simpa using hbefore') (by simpa using hafter) (by simpa using hafter') heq

variable [IdentifierTables]

theorem ofFunction_inj {definition other : FunctionDef Stmt} (h : ∀ s ∈ definition.body, ShowsStmt s)
    (hother : Stmt.IsSpellableFunction other)
    (heq : (ofFunction definition role id).1.unnumbered =
      (ofFunction other role' id').1.unnumbered) :
    Stmt.bareFunction definition = Stmt.bareFunction other := by
  obtain ⟨name, params, body, span⟩ := definition
  obtain ⟨name', params', body', span'⟩ := other
  simp only [ofFunction, unnumbered, unnumberedAll_eq_map, node.injEq, Option.some.injEq] at heq
  obtain ⟨-, -, hname, -, hchildren⟩ := heq
  have hafter {body : List Stmt} {id : Nat} :
      ∀ child ∈ (ofBody body (some .body) id).1, child.role? ≠ some .param :=
    fun child hchild => by simp [role?_ofBody child hchild]
  obtain ⟨hparams, hbody⟩ :=
    split_at_role _ role?_ofParams role?_ofParams hafter hafter hchildren
  simp only [Stmt.IsSpellableFunction, Stmt.isSpellableBody_iff] at hother
  simp only [Stmt.bareFunction, Stmt.bareAll_eq_map]
  rw [hname, ofParams_inj hparams, ofBody_inj h hother.2.2 hbody]

theorem ofMethods_inj {methods others : List (FunctionDef Stmt)}
    (h : ∀ method ∈ methods, ∀ s ∈ method.body, ShowsStmt s)
    (hothers : ∀ other ∈ others, Stmt.IsSpellableFunction other)
    (heq : (ofMethods methods id).1.map unnumbered = (ofMethods others id').1.map unnumbered) :
    methods.map Stmt.bareFunction = others.map Stmt.bareFunction := by
  induction methods generalizing others id id' with
  | nil =>
    cases others with
    | nil => rfl
    | cons other others => cases heq
  | cons method methods ih =>
    cases others with
    | nil => cases heq
    | cons other others =>
      rw [List.forall_mem_cons] at h hothers
      obtain ⟨hfirst, hrest⟩ := List.cons.inj heq
      rw [List.map_cons, List.map_cons, ofFunction_inj h.1 hothers.1 hfirst, ih h.2 hothers.2 hrest]

/-- Since no alternative has an empty body, its nodes say whether there is one. -/
theorem ofElse_inj {elseBody other : Option (List Stmt)} (h : Stmt.IsSpellableElse elseBody)
    (hshows : ∀ body ∈ elseBody, ∀ s ∈ body, ShowsStmt s) (hother : Stmt.IsSpellableElse other)
    (heq : (ofElse elseBody id).1.map unnumbered = (ofElse other id').1.map unnumbered) :
    elseBody.map (List.map Stmt.bare) = other.map (List.map Stmt.bare) := by
  cases elseBody with
  | none =>
    cases other with
    | none => rfl
    | some body =>
      obtain ⟨s, others, rfl⟩ := List.exists_cons_of_ne_nil hother.1
      cases heq
  | some body =>
    cases other with
    | none =>
      obtain ⟨s, others, rfl⟩ := List.exists_cons_of_ne_nil h.1
      cases heq
    | some body' =>
      rw [Option.map_some, Option.map_some,
        ofBody_inj (hshows body rfl) (Stmt.isSpellableBody_iff.mp hother.2) heq]

theorem showsStmt_of_isSpellable (s : Stmt) (h : s.IsSpellable) : ShowsStmt s := by
  have hbody {body : List Stmt} (ih : ∀ s ∈ body, s.IsSpellable → ShowsStmt s)
      (h : Stmt.IsSpellableBody body) : ∀ s ∈ body, ShowsStmt s :=
    fun s hs => ih s hs (Stmt.isSpellableBody_iff.mp h s hs)
  have hfunction {definition : FunctionDef Stmt}
      (ih : ∀ s ∈ definition.body, s.IsSpellable → ShowsStmt s)
      (h : Stmt.IsSpellableFunction definition) : ∀ s ∈ definition.body, ShowsStmt s :=
    fun s hs => ih s hs ((Stmt.isSpellableFunction_iff.mp h).2.2 s hs)
  induction s using Stmt.induction with
  | function definition span ih =>
    intro other _ _ _ _ hother heq
    have hform := Stmt.form_eq_of_unnumbered heq
    cases other with
    | function definition' span' =>
      rw [Stmt.bare, Stmt.bare, ofFunction_inj (hfunction ih h) hother heq]
    | _ => simp [Stmt.form] at hform
  | classDef name methods span ih =>
    intro other _ _ _ _ hother heq
    have hform := Stmt.form_eq_of_unnumbered heq
    cases other with
    | classDef name' methods' span' =>
      simp only [ofStmt, unnumbered, unnumberedAll_eq_map, node.injEq, Option.some.injEq] at heq
      obtain ⟨-, -, hname, -, hmethods⟩ := heq
      simp only [Stmt.IsSpellable, Stmt.isSpellableFunctions_iff] at h hother
      simp only [Stmt.bare, Stmt.bareFunctions_eq_map]
      rw [hname, ofMethods_inj (fun method hmethod => hfunction (ih method hmethod)
        (h.2 method hmethod)) hother.2 hmethods]
    | _ => simp [Stmt.form] at hform
  | assign target value span =>
    intro other _ _ _ _ hother heq
    have hform := Stmt.form_eq_of_unnumbered heq
    cases other with
    | assign target' value' span' =>
      simp only [ofStmt, unnumbered, unnumberedAll, node.injEq, List.cons.injEq] at heq
      obtain ⟨-, -, -, -, htarget, hvalue, -⟩ := heq
      rw [Stmt.bare, Stmt.bare, shows_of_isSpellable target h.1 hother.1 htarget,
        shows_of_isSpellable value h.2 hother.2 hvalue]
    | _ => simp [Stmt.form] at hform
  | branch test thenBody elseBody span ihThen ihElse =>
    intro other _ _ _ _ hother heq
    have hform := Stmt.form_eq_of_unnumbered heq
    cases other with
    | branch test' thenBody' elseBody' span' =>
      simp only [ofStmt, unnumbered, unnumberedAll_eq_map, List.map_cons, node.injEq,
        List.cons.injEq] at heq
      obtain ⟨-, -, -, -, htest, hbodies⟩ := heq
      obtain ⟨hthen, helse⟩ := split_at_role _ role?_ofBody role?_ofBody role?_ofElse role?_ofElse
        hbodies
      simp only [Stmt.bare, Stmt.bareAll_eq_map, Stmt.bareElse_eq_map]
      rw [shows_of_isSpellable test h.1 hother.1 htest,
        ofBody_inj (hbody ihThen h.2.1) (Stmt.isSpellableBody_iff.mp hother.2.1) hthen,
        ofElse_inj h.2.2 _ hother.2.2 helse]
      rintro body rfl
      exact hbody (ihElse body rfl) h.2.2.2
    | _ => simp [Stmt.form] at hform
  | loop test body span ih =>
    intro other _ _ _ _ hother heq
    have hform := Stmt.form_eq_of_unnumbered heq
    cases other with
    | loop test' body' span' =>
      simp only [ofStmt, unnumbered, unnumberedAll_eq_map, List.map_cons, node.injEq,
        List.cons.injEq] at heq
      obtain ⟨-, -, -, -, htest, hbodies⟩ := heq
      simp only [Stmt.bare, Stmt.bareAll_eq_map]
      rw [shows_of_isSpellable test h.1 hother.1 htest,
        ofBody_inj (hbody ih h.2) (Stmt.isSpellableBody_iff.mp hother.2) hbodies]
    | _ => simp [Stmt.form] at hform
  | leave value span =>
    intro other _ _ _ _ hother heq
    have hform := Stmt.form_eq_of_unnumbered heq
    cases other with
    | leave value' span' =>
      cases value with
      | none =>
        cases value' with
        | none => rfl
        | some value' => simp [ofStmt, unnumbered, unnumberedAll] at heq
      | some value =>
        cases value' with
        | none => simp [ofStmt, unnumbered, unnumberedAll] at heq
        | some value' =>
          simp only [ofStmt, unnumbered, unnumberedAll, node.injEq, List.cons.injEq] at heq
          obtain ⟨-, -, -, -, hvalue, -⟩ := heq
          rw [Stmt.bare, Stmt.bare, Option.map_some, Option.map_some,
            shows_of_isSpellable value h hother hvalue]
    | _ => simp [Stmt.form] at hform
  | pass | breakLoop | continueLoop =>
    intro other _ _ _ _ _ heq
    have hform := Stmt.form_eq_of_unnumbered heq
    cases other <;> first | rfl | simp [Stmt.form] at hform
  | eval expr span =>
    intro other _ _ _ _ hother heq
    have hform := Stmt.form_eq_of_unnumbered heq
    cases other with
    | eval expr' span' =>
      simp only [ofStmt, unnumbered, unnumberedAll, node.injEq, List.cons.injEq] at heq
      obtain ⟨-, -, -, -, hexpr, -⟩ := heq
      rw [Stmt.bare, Stmt.bare, shows_of_isSpellable expr h hother hexpr]
    | _ => simp [Stmt.form] at hform

end

/-- A program is known from its outline, up to its spans. -/
theorem bare_eq_of_unnumbered [IdentifierTables] {program other : Module} (h : program.IsSpellable)
    (hother : other.IsSpellable)
    (heq : (ofModule program).unnumbered = (ofModule other).unnumbered) :
    program.bare = other.bare := by
  simp only [ofModule, unnumbered, unnumberedAll_eq_map, node.injEq] at heq
  rw [Module.bare, Module.bare, ofBody_inj (fun s hs => showsStmt_of_isSpellable s (h s hs)) hother
    heq.2.2.2.2]

end Outline

end Offside
