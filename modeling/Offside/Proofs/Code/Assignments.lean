/-
Assignments as they are written and as they are lowered.  The place of a target is found once for
reading and writing exactly where the assignment is written with an augmented sign: an operation
that is spelled out never has the spans of the target as its left operand.
-/
import Offside.Proofs.Code.JumpTargets
import Offside.Proofs.Code.Reconstruction
import Offside.Proofs.Compilation.Lines
import Offside.Proofs.Grammar.Signs
import Offside.Proofs.Grammar.Spans
import Offside.Text.IdentifierRanges

namespace Offside

/-! ### Assignments and their signs -/

namespace Assignment

/-- How an assignment is written with a sign: the sign stands behind the target, and behind the sign
stands the value, or what the operation of the sign takes as its right operand. -/
inductive WrittenWith (sign : Token) : Assignment → Prop
  | plain {target value : Expr} (kind : sign.kind = .symbol .assign)
    (behind : target.span.stop.offset ≤ sign.span.start.offset)
    (before : sign.span.stop.offset ≤ value.span.start.offset) : WrittenWith sign ⟨target, value⟩
  | augmented {op : BinaryOp} {target right : Expr} (kind : sign.kind.augmentation? = some op)
    (behind : target.span.stop.offset ≤ sign.span.start.offset)
    (before : sign.span.stop.offset ≤ right.span.start.offset) :
    WrittenWith sign ⟨target, .binary op target right (target.span.through right.span)⟩

/-- The operator of the value, where the value is taken to operate on the target itself. -/
def augmentation? (a : Assignment) : Option BinaryOp := (a.target.augmented? a.value).map Prod.fst

/-- An assignment is taken for what its sign says. -/
def AgreesWith (a : Assignment) (sign : Token) : Prop :=
  a.WrittenWith sign ∧ a.augmentation? = sign.kind.augmentation?

end Assignment

/-- Where what stands behind the sign starts behind the target, it does not operate on the target
itself. -/
theorem Expr.augmented?_eq_none {target value : Expr}
    (h : ∀ part : Expr, part.Part value → target.span.start.offset < part.span.start.offset) :
    target.augmented? value = none := by
  cases value with
  | binary op left right span =>
    have hlt := h left (.operand List.mem_cons_self .self)
    rw [augmented?, if_neg]
    intro hsame
    rw [span_eq_of_same hsame] at hlt
    exact absurd hlt (Nat.lt_irrefl _)
  | _ => rfl

section

variable {classes : List String} {sign : Token} {target value : Expr}
  {targetTokens valueTokens : List Token}

theorem Assignment.agreesWith_plain (hkind : sign.kind = .symbol .assign)
    (htarget : Derives classes (.expr .or target) targetTokens)
    (hvalue : Derives classes (.expr .or value) valueTokens)
    (htokens : Ascending (targetTokens ++ sign :: valueTokens)) :
    Assignment.AgreesWith ⟨target, value⟩ sign := by
  have htargetOver := htarget.over .self
  have hstart := htargetOver.start_lt htokens htarget.isLayout
  have hwide : sign.span.start.offset < sign.span.stop.offset :=
    htokens.right.wide sign List.mem_cons_self (by rw [hkind]; rfl)
  refine ⟨.plain hkind (htargetOver.stop_le htokens) ((hvalue.over .self).le_start htokens), ?_⟩
  rw [augmentation?, hkind, Expr.augmented?_eq_none]
  · rfl
  · intro part hpart
    have hle := (hvalue.over hpart).le_start htokens
    change target.span.start.offset < _
    omega

theorem Assignment.agreesWith_augmented {op : BinaryOp} (hkind : sign.kind.augmentation? = some op)
    (htarget : Derives classes (.expr .or target) targetTokens)
    (hvalue : Derives classes (.expr .or value) valueTokens)
    (htokens : Ascending (targetTokens ++ sign :: valueTokens))
    (hreflexive : ∀ token ∈ targetTokens, token.IsReflexive) :
    Assignment.AgreesWith
      ⟨target, .binary op target value (target.span.through value.span)⟩ sign := by
  have hsame := htarget.same_self hreflexive target (List.mem_singleton.mpr rfl)
  refine ⟨.augmented hkind ((htarget.over .self).stop_le htokens)
    ((hvalue.over .self).le_start htokens), ?_⟩
  rw [augmentation?, hkind, Expr.augmented?, if_pos hsame]
  rfl

end

/-- Assignments that agree, one by one, with the signs among these tokens. -/
def AgreeWithSigns (assignments : List Assignment) (tokens : List Token) : Prop :=
  List.Forall₂ Assignment.AgreesWith assignments (assignmentSigns tokens)

theorem AgreeWithSigns.exists_sign {assignments : List Assignment} {tokens : List Token}
    {a : Assignment} (h : AgreeWithSigns assignments tokens) (ha : a ∈ assignments) :
    ∃ sign ∈ assignmentSigns tokens, a.AgreesWith sign := by
  rw [AgreeWithSigns] at h
  generalize assignmentSigns tokens = signs at h
  induction h with
  | nil => cases ha
  | cons hfirst _ ih =>
    rcases List.mem_cons.mp ha with rfl | ha
    · exact ⟨_, List.mem_cons_self, hfirst⟩
    · obtain ⟨sign, hsign, hagrees⟩ := ih ha
      exact ⟨sign, List.mem_cons_of_mem _ hsign, hagrees⟩

theorem AgreeWithSigns.map_augmentation? {assignments : List Assignment} {tokens : List Token}
    (h : AgreeWithSigns assignments tokens) :
    assignments.map Assignment.augmentation? =
      (assignmentSigns tokens).map (·.kind.augmentation?) := by
  rw [AgreeWithSigns] at h
  generalize assignmentSigns tokens = signs at h
  induction h with
  | nil => rfl
  | cons hfirst _ ih => rw [List.map_cons, List.map_cons, hfirst.2, ih]

/-- What the tokens of a text have to be like for signs to be recognized. -/
structure Legible (tokens : List Token) : Prop where
  ascending : Ascending tokens
  reflexive : ∀ token ∈ tokens, token.IsReflexive

theorem Legible.piece {tokens inner : List Token} (h : Legible tokens)
    (hinner : inner <:+: tokens) : Legible inner :=
  ⟨h.ascending.sublist hinner.sublist, fun token htoken => h.reflexive token (hinner.subset htoken)⟩

theorem legible_of_tokenize [IdentifierTables] {text : String} {tabWidth : Nat}
    {tokens : List Token} (h : tokenize text tabWidth = .ok tokens) : Legible tokens :=
  ⟨ascending_of_tokenize h, isReflexive_of_tokenize h⟩

/-- An assignment that is spelled in a text is taken for what its sign says. -/
theorem Assignment.SpelledIn.agreesWith {tokens : List Token} {a : Assignment} {sign : Token}
    (h : a.SpelledIn tokens sign) (htokens : Legible tokens) : a.AgreesWith sign := by
  cases h with
  | plain signKind place source piece =>
    exact agreesWith_plain signKind place source (htokens.piece piece).ascending
  | augmented signKind place source piece =>
    have hpiece := htokens.piece piece
    exact agreesWith_augmented signKind place source hpiece.ascending
      fun token htoken => hpiece.reflexive token (List.mem_append_left _ htoken)

/-- The assignments of a program agree with the signs in the text that it is read from. -/
theorem Module.agreeWithSigns_of_ofTokens [IdentifierTables] {text : String} {tabWidth : Nat}
    {tokens : List Token} {predeclare : Bool} {program : Module}
    (hlex : tokenize text tabWidth = .ok tokens)
    (hparse : ofTokens tokens predeclare = .ok program) :
    AgreeWithSigns program.assignments tokens := by
  obtain ⟨last, hsplit, hlast⟩ := exists_last_of_inLines (inLines_of_tokenize hlex)
  have hkind : last.kind.isAssignment = false := by rw [hlast]; rfl
  have htext : Legible (textTokens tokens) :=
    (legible_of_tokenize hlex).piece (List.takeWhile_prefix _).isInfix
  have hagree : AlongSigns Assignment.AgreesWith program.assignments (textTokens tokens) :=
    (alongSigns_of_ofTokens hparse).imp fun a sign h => h.agreesWith htext
  have hall := hagree.concat hkind
  rwa [← hsplit] at hall

/-! ### The code of assignments -/

/-- The code of an assignment that is written with a sign of this kind. -/
inductive AssignCode (target value : Expr) (next : Nat) (kind : TokenKind) : List Instruction → Prop
  /-- The value comes first and then the place of the target. -/
  | plain {place : Lowered Place} (sign : kind = .symbol .assign)
    (found : target.lowerTarget (value.lower next).next = .ok place) :
    AssignCode target value next kind
      ((value.lower next).code ++ place.code ++ [.store (value.lower next).value place.value])
  /-- The place of the target comes first, and is then read and written. -/
  | augmented {op : BinaryOp} {right : Expr} {span : Span} {place : Lowered Place}
    (sign : kind.augmentation? = some op) (operation : value = .binary op target right span)
    (found : target.lowerTarget next = .ok place) :
    AssignCode target value next kind
      (place.code ++ (right.lower place.next).code ++
        [.binary ⟨(right.lower place.next).next⟩ op place.value.operand
          (right.lower place.next).value,
         .store (.temp ⟨(right.lower place.next).next⟩) place.value])

/-- The operations that an assignment carries out before it stores: those of its value, and behind
them those of the target once more where the assignment is written with a plain sign. -/
def assignOperations (kind : TokenKind) (target value : Expr) : List Expr :=
  value.operations ++ if kind = .symbol .assign then target.operations else []

theorem Expr.performs_lowerTarget {target : Expr} {next : Nat} {place : Lowered Place}
    (h : target.lowerTarget next = .ok place) : place.Performs target.operations next := by
  cases target with
  | name id span => cases h; exact ⟨.nil, rfl⟩
  | member receiver attr span =>
    cases h
    have hreceiver := performs_lower receiver next
    exact ⟨hreceiver.code, hreceiver.next⟩
  | _ => cases h

theorem TokenKind.ne_assign_of_augmentation? {kind : TokenKind} {op : BinaryOp}
    (h : kind.augmentation? = some op) : kind ≠ .symbol .assign := by
  rintro rfl
  cases h

/-- In front of the store there is one instruction for each operation. -/
theorem AssignCode.emitsAll {target value : Expr} {next : Nat} {kind : TokenKind}
    {code : List Instruction} (h : AssignCode target value next kind code) :
    ∃ work source place, code = work ++ [.store source place] ∧
      EmitsAll next (assignOperations kind target value) work := by
  cases h with
  | @plain place sign found =>
    have hvalue := Expr.performs_lower value next
    have hplace := Expr.performs_lowerTarget found
    refine ⟨_, _, _, rfl, ?_⟩
    rw [assignOperations, if_pos sign]
    exact hvalue.code.append (hvalue.next ▸ hplace.code)
  | @augmented op right span place sign operation found =>
    have hplace := Expr.performs_lowerTarget found
    have hright := Expr.performs_lower right place.next
    refine ⟨place.code ++ (right.lower place.next).code ++
      [.binary ⟨(right.lower place.next).next⟩ op place.value.operand
        (right.lower place.next).value],
      .temp ⟨(right.lower place.next).next⟩, place.value, by simp, ?_⟩
    rw [assignOperations, if_neg (TokenKind.ne_assign_of_augmentation? sign), List.append_nil,
      operation, Expr.operations]
    have hoperands : EmitsAll next (target.operations ++ right.operations)
        (place.code ++ (right.lower place.next).code) :=
      hplace.code.append (hplace.next ▸ hright.code)
    have hnumber : next + (target.operations ++ right.operations).length =
        (right.lower place.next).next := by
      rw [List.length_append, ← Nat.add_assoc, ← hplace.next, ← hright.next]
    refine hoperands.append ?_
    rw [hnumber]
    exact .cons (.binary op target right span _ _) .nil

theorem Expr.operationsAll_bare {exprs : List Expr}
    (h : ∀ expr ∈ exprs, expr.bare.operations = expr.operations.map bare) :
    operationsAll (exprs.map bare) = (operationsAll exprs).map bare := by
  induction exprs with
  | nil => rfl
  | cons expr others ih =>
    rw [List.forall_mem_cons] at h
    rw [List.map_cons, operationsAll, operationsAll, h.1, ih h.2, List.map_append]

/-- Expressions that say the same carry out the same operations. -/
theorem Expr.operations_bare (expr : Expr) : expr.bare.operations = expr.operations.map bare := by
  induction expr using Expr.induction with
  | constant | name => rfl
  | binary op left right span ihLeft ihRight => simp [bare, operations, ihLeft, ihRight]
  | unary op operand span ih => simp [bare, operations, ih]
  | call callee args span ihCallee ihArgs =>
    simp [bare, operations, ihCallee, operationsAll_bare ihArgs]
  | methodCall receiver method args span ihReceiver ihArgs =>
    simp [bare, operations, ihReceiver, operationsAll_bare ihArgs]
  | construct className args span ihArgs => simp [bare, operations, operationsAll_bare ihArgs]
  | member receiver attr span ih => rw [bare, operations, operations, ih]

/-- What becomes of an assignment that is written with a sign. -/
structure Assignment.LoweredAs (a : Assignment) (sign : Token) (next : Nat)
    (code : List Instruction) : Prop where
  written : a.WrittenWith sign
  shape : AssignCode a.target a.value next sign.kind code
  operations : ∃ work source place, code = work ++ [.store source place] ∧
    EmitsAll next (assignOperations sign.kind a.target a.value) work
  /-- An operation on the target that is spelled out finds the place of the target twice, first to
  read and then to write. -/
  spelledOut : sign.kind = .symbol .assign → ∀ op left right span,
    a.value = .binary op left right span → left.bare = a.target.bare →
      (assignOperations sign.kind a.target a.value).map Expr.bare =
        a.target.bare.operations ++ right.bare.operations ++ [a.value.bare] ++
          a.target.bare.operations

theorem Assignment.loweredAs_of_agreesWith {target value : Expr} {sign : Token}
    {next last : Nat} {code : List Instruction}
    (hsign : Assignment.AgreesWith ⟨target, value⟩ sign)
    (h : Stmt.lowerAssign target value next = .ok (code, last)) :
    Assignment.LoweredAs ⟨target, value⟩ sign next code := by
  obtain ⟨hwritten, hagree⟩ := hsign
  have hcode : AssignCode target value next sign.kind code := by
    rw [augmentation?] at hagree
    cases hwritten with
    | plain kind _ _ =>
      rw [kind] at hagree
      rcases Stmt.lowerAssign_ok h with
        ⟨op, right, place, haugmented, -, -, -⟩ | ⟨place, -, hplace, rfl, -⟩
      · rw [haugmented] at hagree
        cases hagree
      · exact .plain kind hplace
    | @augmented op _ operand kind _ _ =>
      rw [kind] at hagree
      rcases Stmt.lowerAssign_ok h with
        ⟨found, right, place, haugmented, hplace, rfl, -⟩ | ⟨place, hnone, -, -, -⟩
      · obtain ⟨rfl, rfl⟩ : op = found ∧ operand = right := by
          rw [Expr.augmented?] at haugmented
          split at haugmented
          · cases haugmented
            exact ⟨rfl, rfl⟩
          · cases haugmented
        exact .augmented kind rfl hplace
      · rw [hnone] at hagree
        cases hagree
  refine ⟨hwritten, hcode, hcode.emitsAll, ?_⟩
  rintro hkind op left right span rfl hleft
  dsimp only at hleft ⊢
  rw [assignOperations, if_pos hkind, Expr.operations, List.map_append, List.map_append,
    List.map_append, ← Expr.operations_bare, ← Expr.operations_bare, ← Expr.operations_bare, hleft]
  rfl

theorem Module.mem_assignments_of_scope {program : Module} {scope : Scope} {a : Assignment}
    (hscope : scope ∈ program.scopes) (h : a ∈ scope.body.flatMap Stmt.assignments) :
    a ∈ program.assignments := by
  rcases List.mem_cons.mp hscope with rfl | hmem
  · obtain ⟨stmt, hstmt, ha⟩ := List.mem_flatMap.mp h
    exact List.mem_flatMap.mpr ⟨stmt, List.mem_of_mem_filter hstmt, ha⟩
  · obtain ⟨stmt, hstmt, hmem⟩ := List.mem_flatMap.mp hmem
    refine List.mem_flatMap.mpr ⟨stmt, hstmt, ?_⟩
    cases stmt with
    | function definition span =>
      rw [List.mem_singleton.mp hmem] at h
      rwa [Stmt.assignments, Stmt.functionAssignments_eq]
    | classDef name methods span =>
      obtain ⟨method, hmethod, rfl⟩ := List.mem_map.mp hmem
      rw [Stmt.assignments, Stmt.methodAssignments_eq]
      exact List.mem_flatMap.mpr ⟨method, hmethod, h⟩
    | _ => cases hmem

/-- The code of a scope has the code of each of its assignments in one piece. -/
theorem Scope.LowersTo.exists_lowerAssign {scope : Scope} {code : List Instruction}
    (h : scope.LowersTo code) {gap : Gap} {target value : Expr} {span : Span}
    (hfill : scope.body = gap.fill (.assign target value span)) :
    ∃ before inner after next last, code = before ++ inner ++ after ∧
      Stmt.lowerAssign target value next = .ok (inner, last) := by
  obtain ⟨body, final, hbody, hcode⟩ := h
  rw [hfill] at hbody
  obtain ⟨o, -, ⟨inner, hinner⟩, hreplace⟩ := gap.encloses hbody
  have hwhole := hreplace _ _ hinner
  obtain rfl : body = _ := congrArg Prod.fst (Except.ok.inj (hbody.symm.trans hwhole))
  obtain ⟨⟨found, next⟩, hfound, hrest⟩ := exists_of_bind_eq_ok hinner
  obtain rfl : found = inner := congrArg Prod.fst (Except.ok.inj hrest)
  rcases hcode with rfl | rfl
  · exact ⟨o.before, found, o.after, o.start.temp, next, rfl, hfound⟩
  · exact ⟨o.before, found, o.after ++ [.leave none], o.start.temp, next, by simp, hfound⟩

theorem ok_of_mapError {ε ε' α : Type} {f : ε → ε'} {x : Except ε α} {a : α}
    (h : x.mapError f = .ok a) : x = .ok a := by
  cases x with
  | error => cases h
  | ok => cases h; rfl

/-- The assignments of a program that compiles correspond, in order and one to one, to the signs of
assignments in its text, and each is taken to operate on its own target exactly where its sign is
an augmented one.  So is the code of every assignment in every scope. -/
theorem CompileOptions.assignments_of_compile [IdentifierTables] {options : CompileOptions}
    {source : String} {analysis : Analysis} (h : options.compile source = .ok analysis) :
    ∃ tokens, options.lex source = .ok tokens ∧
      List.Forall₂ Assignment.AgreesWith analysis.program.assignments (assignmentSigns tokens) ∧
      (∀ code ∈ analysis.code.scopes, ∃ scope ∈ analysis.program.scopes, scope.LowersTo code) ∧
      ∀ scope ∈ analysis.program.scopes, (∃ code, scope.LowersTo code) ∧
        ∀ code, scope.LowersTo code → ∀ (gap : Gap) (target value : Expr) (span : Span),
          scope.body = gap.fill (.assign target value span) →
          ∃ sign ∈ assignmentSigns tokens, ∃ before inner after next,
            code = before ++ inner ++ after ∧
              Assignment.LoweredAs ⟨target, value⟩ sign next inner := by
  obtain ⟨tokens, hlex, h⟩ := exists_of_bind_eq_ok h
  obtain ⟨program, hparse, h⟩ := exists_of_bind_eq_ok h
  obtain ⟨listing, hlower, h⟩ := exists_of_bind_eq_ok h
  cases h
  have hparse := ok_of_mapError (ok_of_mapError hparse)
  have hlower := ok_of_mapError (ok_of_mapError hlower)
  have hagree := Module.agreeWithSigns_of_ofTokens (ok_of_mapError hlex) hparse
  obtain ⟨hscopes, hlowers⟩ := Module.lowersTo_of_lower hlower
  refine ⟨tokens, hlex, hagree, hscopes, fun scope hscope => ⟨hlowers scope hscope, ?_⟩⟩
  intro code hcode gap target value span hfill
  have hmem : (⟨target, value⟩ : Assignment) ∈ program.assignments := by
    refine Module.mem_assignments_of_scope hscope ?_
    rw [hfill]
    exact Gap.mem_assignments (by rw [Stmt.assignments]; exact List.mem_singleton.mpr rfl)
  obtain ⟨before, inner, after, next, last, hsplit, hinner⟩ := hcode.exists_lowerAssign hfill
  obtain ⟨sign, hsign, hagrees⟩ := hagree.exists_sign hmem
  exact ⟨sign, hsign, before, inner, after, next, hsplit,
    Assignment.loweredAs_of_agreesWith hagrees hinner⟩

namespace AssignmentsWitness

/-- The same update with an augmented sign and spelled out. -/
def source : String := "f().x += 1\nf().x = f().x + 1"

/-- The first line calls `f` once, the second one twice. -/
def code : List Instruction :=
  let attr (number : Nat) : Operand := .attr (.temp ⟨number⟩) "x"
  let place (number : Nat) : Place := .attr (.temp ⟨number⟩) "x"
  [.call ⟨1⟩ (.var "f") [], .binary ⟨2⟩ .add (attr 1) (.const (.int 1)),
    .store (.temp ⟨2⟩) (place 1),
    .call ⟨3⟩ (.var "f") [], .binary ⟨4⟩ .add (attr 3) (.const (.int 1)),
    .call ⟨5⟩ (.var "f") [], .store (.temp ⟨4⟩) (place 5)]

/-- The kinds of the signs in a source. -/
def signs (source : String) : Option (List TokenKind) :=
  (CompileOptions.default.lex source).toOption.map fun tokens =>
    (assignmentSigns tokens).map Token.kind

theorem assignments_of_source :
    ∃ analysis, CompileOptions.default.compile source = .ok analysis ∧
      analysis.code = ⟨[], code⟩ ∧
      signs source = some [.symbol .plusAssign, .symbol .assign] ∧
      analysis.program.assignments.map Assignment.augmentation? = [some .add, none] := by
  have hcode : (CompileOptions.default.compile source).toOption.map Analysis.code =
      some ⟨[], code⟩ := by
    decide +kernel
  have hsigns : signs source = some [.symbol .plusAssign, .symbol .assign] := by
    decide +kernel
  cases hcompile : CompileOptions.default.compile source with
  | error error => rw [hcompile] at hcode; cases hcode
  | ok analysis =>
    rw [hcompile] at hcode
    obtain ⟨tokens, hlex, hagree, -⟩ := CompileOptions.assignments_of_compile hcompile
    have hkinds : (assignmentSigns tokens).map Token.kind =
        [.symbol .plusAssign, .symbol .assign] := by
      rw [signs, hlex] at hsigns
      exact Option.some.inj hsigns
    refine ⟨analysis, rfl, Option.some.inj hcode, hsigns, ?_⟩
    have hoperators : ((assignmentSigns tokens).map Token.kind).map TokenKind.augmentation? =
        [some .add, none] := by
      rw [hkinds]
      rfl
    rw [List.map_map] at hoperators
    exact (AgreeWithSigns.map_augmentation? hagree).trans hoperators

end AssignmentsWitness

end Offside
