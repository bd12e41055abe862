/-
Which calls are constructions.  A call of a bare name is one where the header of a class of that
name stands in front of it; with the classes declared beforehand, where it stands anywhere.  Nothing
else about reading a program depends on the classes that are known.
-/
import Offside.Proofs.Compilation.Lines
import Offside.Proofs.Grammar.Mirroring
import Offside.Proofs.Grammar.Programs
import Offside.Proofs.Grammar.Spans
import Offside.Text.IdentifierRanges

namespace Offside

/-! ### Headers of classes -/

/-- The word of a class definition with the name of the class directly behind it. -/
def ClassHeader (tokens : List Token) (name : String) (word : Token) : Prop :=
  ∃ before id after, tokens = before ++ word :: id :: after ∧
    word.kind = .keyword .classDefinition ∧ id.kind = .identifier name

/-- Tokens none of which is the word of a class definition. -/
def Plain (tokens : List Token) : Prop :=
  ∀ token ∈ tokens, token.kind ≠ .keyword .classDefinition

section

variable {front back tokens : List Token} {token word id : Token} {name new : String}

theorem ClassHeader.mem (h : ClassHeader tokens name word) : word ∈ tokens := by
  obtain ⟨before, id, after, rfl, -, -⟩ := h
  simp

theorem ClassHeader.kind (h : ClassHeader tokens name word) :
    word.kind = .keyword .classDefinition := by
  obtain ⟨before, id, after, -, hword, -⟩ := h
  exact hword

theorem classHeader_cons_of_ne (h : token.kind ≠ .keyword .classDefinition) :
    ClassHeader (token :: tokens) name word ↔ ClassHeader tokens name word := by
  constructor
  · rintro ⟨before, id, after, hsplit, hword, hid⟩
    cases before with
    | nil =>
      cases hsplit
      exact absurd hword h
    | cons first before =>
      cases hsplit
      exact ⟨before, id, after, rfl, hword, hid⟩
  · rintro ⟨before, id, after, rfl, hword, hid⟩
    exact ⟨token :: before, id, after, rfl, hword, hid⟩

theorem classHeader_cons_cons (hword : word.kind = .keyword .classDefinition)
    (hid : id.kind = .identifier new) {other : Token} :
    ClassHeader (word :: id :: tokens) name other ↔
      name = new ∧ other = word ∨ ClassHeader tokens name other := by
  have hplain : id.kind ≠ .keyword .classDefinition := by rw [hid]; exact nofun
  refine Iff.trans ?_ (or_congr_right (classHeader_cons_of_ne hplain))
  constructor
  · rintro ⟨before, found, after, hsplit, hother, hfound⟩
    cases before with
    | nil =>
      cases hsplit
      rw [hid] at hfound
      cases hfound
      exact .inl ⟨rfl, rfl⟩
    | cons first before =>
      rw [List.cons_append, List.cons.injEq] at hsplit
      exact .inr ⟨before, found, after, hsplit.2, hother, hfound⟩
  · rintro (⟨rfl, rfl⟩ | ⟨before, found, after, hsplit, hother, hfound⟩)
    · exact ⟨[], id, tokens, rfl, hword, hid⟩
    · exact ⟨word :: before, found, after, by rw [hsplit]; rfl, hother, hfound⟩

namespace Plain

theorem nil : Plain [] := List.forall_mem_nil _

theorem cons {kind : TokenKind} (htoken : token.kind = kind)
    (hkind : (kind == .keyword .classDefinition) = false) (h : Plain tokens) :
    Plain (token :: tokens) := by
  refine List.forall_mem_cons.mpr ⟨?_, h⟩
  rw [htoken]
  exact beq_eq_false_iff_ne.mp hkind

theorem append (hfront : Plain front) (hback : Plain back) : Plain (front ++ back) :=
  List.forall_mem_append.mpr ⟨hfront, hback⟩

end Plain

theorem Plain.classHeader_append (h : Plain front) :
    ClassHeader (front ++ back) name word ↔ ClassHeader back name word := by
  induction front with
  | nil => rfl
  | cons token front ih =>
    obtain ⟨htoken, hfront⟩ := List.forall_mem_cons.mp h
    rw [List.cons_append, classHeader_cons_of_ne htoken, ih hfront]

theorem Plain.not_classHeader (h : Plain tokens) : ¬ ClassHeader tokens name word :=
  fun hheader => h word hheader.mem hheader.kind

theorem not_classHeader_nil : ¬ ClassHeader [] name word :=
  Plain.nil.not_classHeader

theorem Plain.classNames_append (h : Plain front) :
    Cursor.classNames (front ++ back) = Cursor.classNames back := by
  induction front with
  | nil => rfl
  | cons token front ih =>
    obtain ⟨htoken, hfront⟩ := List.forall_mem_cons.mp h
    rw [List.cons_append, ← ih hfront]
    cases hrest : front ++ back with
    | nil => rfl
    | cons second others =>
      rw [Cursor.classNames]
      split
      · next hkind _ => exact absurd hkind htoken
      · rfl

theorem classNames_cons_cons (hword : word.kind = .keyword .classDefinition)
    (hid : id.kind = .identifier name) (tokens : List Token) :
    Cursor.classNames (word :: id :: tokens) = name :: Cursor.classNames tokens := by
  have hplain : Plain [id] := .cons hid rfl .nil
  rw [Cursor.classNames, hword, hid]
  exact congrArg (name :: ·) hplain.classNames_append

/-- Tokens over whose end no header reaches. -/
def Sealed (front : List Token) : Prop :=
  ∀ back name word, ClassHeader (front ++ back) name word ↔
    ClassHeader front name word ∨ ClassHeader back name word

theorem Plain.isSealed (h : Plain front) : Sealed front := by
  intro back name word
  rw [h.classHeader_append]
  exact (or_iff_right h.not_classHeader).symm

theorem Sealed.append (hfront : Sealed front) (hback : Sealed back) : Sealed (front ++ back) := by
  intro rest name word
  rw [List.append_assoc, hfront, hback, hfront, or_assoc]

theorem isSealed_header (hword : word.kind = .keyword .classDefinition)
    (hid : id.kind = .identifier name) : Sealed [word, id] := by
  intro back other found
  change ClassHeader (word :: id :: back) other found ↔ _
  rw [classHeader_cons_cons hword hid, classHeader_cons_cons hword hid,
    or_iff_left not_classHeader_nil]

end

/-! ### Headers in the grammar -/

theorem plain_of_standsInLine {tokens : List Token}
    (h : ∀ token ∈ tokens, token.kind.standsInLine = true) : Plain tokens := by
  intro token htoken hkind
  have hstands := h token htoken
  rw [hkind] at hstands
  cases hstands

theorem plain_of_standsInExpr {tokens : List Token}
    (h : ∀ token ∈ tokens, token.kind.standsInExpr = true) : Plain tokens :=
  plain_of_standsInLine fun token htoken => TokenKind.standsInLine_of_standsInExpr (h token htoken)

/-- Whether a part of a program does not start with the word of a class definition. -/
def Clause.isPlain : Clause → Prop
  | .branch word _ => word ≠ .classDefinition
  | _ => True

/-- No class is defined inside of another statement. -/
theorem ClauseForm.plain {classes : List String} {clause : Clause} {tokens : List Token}
    (h : ClauseForm classes clause tokens) (hclause : clause.isPlain) : Plain tokens := by
  induction h with
  | simple newlineKind form =>
    exact (plain_of_standsInLine form.standsInLine).append (.cons newlineKind rfl .nil)
  | conditional _ ih | elif _ ih => exact ih (by simp [Clause.isPlain])
  | loop wordKind condition _ ih =>
    exact .cons wordKind rfl ((plain_of_standsInExpr condition.standsInExpr).append (ih trivial))
  | branch wordKind condition _ _ ihFirst ihSecond =>
    refine .cons wordKind ?_ ((plain_of_standsInExpr condition.standsInExpr).append
      ((ihFirst trivial).append (ihSecond trivial)))
    exact beq_eq_false_iff_ne.mpr fun heq => hclause (TokenKind.keyword.inj heq)
  | noElse | noStmts | noMethods => exact .nil
  | elseBlock wordKind _ ih => exact .cons wordKind rfl (ih trivial)
  | stmts _ _ ihFirst ihRest | methods _ _ ihFirst ihRest =>
    exact (ihFirst trivial).append (ihRest trivial)
  | block colonKind newlineKind indentKind dedentKind _ _ ih =>
    exact .cons colonKind rfl (.cons newlineKind rfl (.cons indentKind rfl
      ((ih trivial).append (.cons dedentKind rfl .nil))))
  | function wordKind idKind startKind stopKind _ formal _ ih =>
    exact .cons wordKind rfl (.cons idKind rfl (.cons startKind rfl
      ((plain_of_standsInExpr formal.standsInExpr).append (.cons stopKind rfl (ih trivial)))))

/-! ### Calls of bare names -/

namespace Expr

/-- The bare name that an expression calls, whether that is known for the name of a class or not.
Parentheses around it leave no trace. -/
def calledName? : Expr → Option String
  | call (name id _) _ _ => some id
  | construct className _ _ => some className
  | _ => none

def isConstruction : Expr → Bool
  | construct _ _ _ => true
  | _ => false

theorem isConstruction_called {classes : List String} {callee : Expr} {args : List Expr}
    {place : Span} {name : String}
    (h : (callee.called classes args place).calledName? = some name) :
    (callee.called classes args place).isConstruction = true ↔ name ∈ classes := by
  by_cases hcallee : ∃ id span, callee = .name id span
  · obtain ⟨id, span, rfl⟩ := hcallee
    rw [called] at h ⊢
    split at h
    · next hclass =>
      cases h
      exact iff_of_true (by rw [if_pos hclass]; rfl) (List.contains_iff_mem.mp hclass)
    · next hclass =>
      cases h
      refine iff_of_false (by rw [if_neg hclass]; exact Bool.false_ne_true) fun hmem => hclass ?_
      exact List.contains_iff_mem.mpr hmem
  · have hcall : (callee.called classes args place) = .call callee args place :=
      called_of_ne_name fun id span heq => hcallee ⟨id, span, heq⟩
    rw [hcall] at h
    cases callee with
    | name id span => exact absurd ⟨id, span, rfl⟩ hcallee
    | _ => cases h

/-- An expression in which a bare name that is called is settled by these classes, and which starts
with one of these tokens. -/
structure SettledIn (classes : List String) (tokens : List Token) (e : Expr) : Prop where
  settled : ∀ name, e.calledName? = some name → (e.isConstruction = true ↔ name ∈ classes)
  start : ∃ token ∈ tokens, token.kind.isLayout = false ∧ e.span.start = token.span.start

theorem SettledIn.mono {classes : List String} {tokens other : List Token} {e : Expr}
    (h : e.SettledIn classes tokens) (hsub : tokens ⊆ other) : e.SettledIn classes other where
  settled := h.settled
  start := by
    obtain ⟨token, htoken, hstart⟩ := h.start
    exact ⟨token, hsub htoken, hstart⟩

end Expr

theorem Derives.isConstruction_iff {classes : List String} {phrase : Phrase} {tokens : List Token}
    (h : Derives classes phrase tokens) :
    ∀ e ∈ phrase.exprs, ∀ name, e.calledName? = some name →
      (e.isConstruction = true ↔ name ∈ classes) := by
  induction h with
  | call =>
    refine List.forall_mem_singleton.mpr fun name hname => ?_
    exact Expr.isConstruction_called hname
  | literal | name | methodCall | member | neg | not | join =>
    exact List.forall_mem_singleton.mpr nofun
  | group _ _ _ ih | plus _ _ ih | widen _ _ ih | lastArg _ ih => exact ih
  | noArgs => exact List.forall_mem_nil _
  | moreArgs _ _ _ ihArg ihRest =>
    exact List.forall_mem_cons.mpr ⟨ihArg _ (List.mem_singleton.mpr rfl), ihRest⟩

/-- Every part of an expression is settled by the classes that its derivation knows. -/
theorem Derives.settledIn {classes : List String} {layer : Layer} {e part : Expr}
    {tokens : List Token} (h : Derives classes (.expr layer e) tokens) (hpart : part.Part e) :
    part.SettledIn classes tokens := by
  obtain ⟨inner, segment, hsegment, hspelled⟩ :=
    h.exists_part e (List.mem_singleton.mpr rfl) _ hpart
  refine ⟨hspelled.isConstruction_iff part (List.mem_singleton.mpr rfl), ?_⟩
  obtain ⟨token, htoken, hstart⟩ := (h.over hpart).start
  exact ⟨token, htoken, h.isLayout token htoken, hstart⟩

theorem SimpleForm.settledIn {classes : List String} {s : Stmt} {tokens : List Token}
    (h : SimpleForm classes s tokens) {whole e : Expr} (hwhole : s.Holds whole)
    (he : e.Part whole) : e.SettledIn classes tokens := by
  cases h with
  | assign _ _ place source =>
    cases hwhole with
    | target => exact (place.settledIn he).mono (List.subset_append_left _ _)
    | value => exact (source.settledIn he).mono fun token htoken => by simp [htoken]
  | @augmented sign op target value targetTokens valueTokens _ _ place source =>
    have htarget {part : Expr} (hpart : part.Part target) :
        part.SettledIn classes (targetTokens ++ sign :: valueTokens) :=
      (place.settledIn hpart).mono (List.subset_append_left _ _)
    cases hwhole with
    | target => exact htarget he
    | value =>
      rcases he.of_isOperation rfl with rfl | ⟨operand, hmem, hinner⟩
      -- the operation itself is spelled by no tokens, but it starts where the target does
      · exact ⟨nofun, (htarget .self).start⟩
      · rcases List.mem_cons.mp hmem with rfl | hmem
        · exact htarget hinner
        · obtain rfl := List.mem_singleton.mp hmem
          exact (source.settledIn hinner).mono fun token htoken => by simp [htoken]
  | eval value =>
    cases hwhole
    exact value.settledIn he
  | leaveWith _ value =>
    cases hwhole
    exact (value.settledIn he).mono (List.subset_cons_self _ _)
  | leave | pass | breakLoop | continueLoop => cases hwhole

/-- The expressions of a part of a program, each as a whole. -/
def Clause.Holds (e : Expr) : Clause → Prop
  | .stmt s | .branch _ s => s.Holds e
  | .otherwise elseBody => ∃ body ∈ elseBody, ∃ s ∈ body, s.Holds e
  | .body stmts | .block stmts => ∃ s ∈ stmts, s.Holds e
  | .function definition => ∃ s ∈ definition.body, s.Holds e
  | .methods definitions => ∃ definition ∈ definitions, ∃ s ∈ definition.body, s.Holds e

theorem ClauseForm.settledIn {classes : List String} {clause : Clause} {tokens : List Token}
    (h : ClauseForm classes clause tokens) {whole e : Expr} (he : e.Part whole) :
    clause.Holds whole → e.SettledIn classes tokens := by
  induction h with
  | simple _ form =>
    exact fun hwhole => (form.settledIn hwhole he).mono (List.subset_append_left _ _)
  | conditional _ ih => exact ih
  | loop _ condition _ ih =>
    intro hwhole
    cases hwhole with
    | loopTest => exact (condition.settledIn he).mono fun token htoken => by simp [htoken]
    | loopBody mem inner => exact (ih ⟨_, mem, inner⟩).mono fun token htoken => by simp [htoken]
  | branch _ condition _ _ ihFirst ihSecond =>
    intro hwhole
    cases hwhole with
    | branchTest => exact (condition.settledIn he).mono fun token htoken => by simp [htoken]
    | thenBody mem inner =>
      exact (ihFirst ⟨_, mem, inner⟩).mono fun token htoken => by simp [htoken]
    | elseBody mem inner =>
      exact (ihSecond ⟨_, rfl, _, mem, inner⟩).mono fun token htoken => by simp [htoken]
  | noElse => exact nofun
  | elseBlock _ _ ih =>
    rintro ⟨body, hmem, hbody⟩
    cases hmem
    exact (ih hbody).mono (List.subset_cons_self _ _)
  | elif _ ih =>
    rintro ⟨body, hmem, s, hs, hwhole⟩
    cases hmem
    obtain rfl := List.mem_singleton.mp hs
    exact ih hwhole
  | noStmts | noMethods =>
    rintro ⟨_, hmem, -⟩
    cases hmem
  | stmts _ _ ihFirst ihRest | methods _ _ ihFirst ihRest =>
    rintro ⟨first, hmem, hwhole⟩
    rcases List.mem_cons.mp hmem with rfl | hmem
    · exact (ihFirst hwhole).mono (List.subset_append_left _ _)
    · exact (ihRest ⟨first, hmem, hwhole⟩).mono (List.subset_append_right _ _)
  | block _ _ _ _ _ _ ih | function _ _ _ _ _ _ _ ih =>
    exact fun hwhole => (ih hwhole).mono fun token htoken => by simp [htoken]

/-! ### Names of classes -/

/-- The name of the class that a statement defines. -/
def Stmt.className? : Stmt → Option String
  | classDef name _ _ => some name
  | _ => none

/-- The names of the classes that a program defines. -/
def Module.classNames (program : Module) : List String := program.body.filterMap Stmt.className?

/-- A statement outside of all blocks, spelled by at most the header of a class and by tokens
without any header behind it, with the classes that are known before and inside of the statement. -/
structure Headed (classes known : List String) (s : Stmt) (header rest : List Token) : Prop where
  isSealed : Sealed header
  plain : Plain rest
  mem_known : ∀ name, name ∈ known ↔ name ∈ classes ∨ ∃ word, ClassHeader header name word
  classNames : ∀ back,
    Cursor.classNames (header ++ back) = s.className?.toList ++ Cursor.classNames back
  settled : ∀ whole, s.Holds whole → ∀ e : Expr, e.Part whole → e.SettledIn known rest

theorem ClauseForm.className? {classes : List String} {s : Stmt} {tokens : List Token}
    (h : ClauseForm classes (.stmt s) tokens) : s.className? = none := by
  cases h with
  | simple _ form => cases form <;> rfl
  | conditional form => cases form; rfl
  | loop => rfl

/-- Only a class definition has a header. -/
theorem Headed.of_plain {classes : List String} {s : Stmt} {tokens : List Token}
    (hname : s.className? = none) (hplain : Plain tokens)
    (hsettled : ∀ whole, s.Holds whole → ∀ e : Expr, e.Part whole → e.SettledIn classes tokens) :
    Headed classes classes s [] tokens where
  isSealed := Plain.nil.isSealed
  plain := hplain
  mem_known name := by simp [not_classHeader_nil]
  classNames back := by rw [hname]; rfl
  settled := hsettled

theorem SimpleForm.headed {classes : List String} {s : Stmt} {tokens : List Token}
    (h : SimpleForm classes s tokens) : Headed classes classes s [] tokens :=
  .of_plain (by cases h <;> rfl) (plain_of_standsInLine h.standsInLine)
    fun _ hwhole _ he => h.settledIn hwhole he

theorem TopForm.headed {classes known : List String} {s : Stmt} {tokens : List Token}
    (h : TopForm classes s tokens known) :
    ∃ header rest, tokens = header ++ rest ∧ Headed classes known s header rest := by
  cases h with
  | stmt form =>
    exact ⟨[], tokens, rfl, .of_plain form.className? (form.plain trivial)
      fun _ hwhole _ he => form.settledIn he hwhole⟩
  | function form =>
    refine ⟨[], tokens, rfl, .of_plain rfl (form.plain trivial) fun _ hwhole _ he => ?_⟩
    cases hwhole with
    | function mem inner => exact form.settledIn he ⟨_, mem, inner⟩
  | @classDef word id colon newline indent dedent _ name methods inner wordKind idKind colonKind
      newlineKind indentKind dedentKind _ inside =>
    refine ⟨[word, id], _, rfl, isSealed_header wordKind idKind, ?_, fun other => ?_,
      fun back => ?_, fun whole hwhole e he => ?_⟩
    · exact .cons colonKind rfl (.cons newlineKind rfl (.cons indentKind rfl
        ((inside.plain trivial).append (.cons dedentKind rfl .nil))))
    · simp only [mem_declaredIn, classHeader_cons_cons wordKind idKind, not_classHeader_nil,
        or_false, exists_and_left, exists_eq, and_true]
      exact or_comm
    · exact classNames_cons_cons wordKind idKind back
    · cases hwhole with
      | method memMethod mem held =>
        exact (inside.settledIn he ⟨_, memMethod, _, mem, held⟩).mono
          fun token htoken => by simp [htoken]

theorem Headed.classNames_append {classes known : List String} {s : Stmt}
    {header rest : List Token} (h : Headed classes known s header rest) (back : List Token) :
    Cursor.classNames (header ++ rest ++ back) =
      s.className?.toList ++ Cursor.classNames back := by
  rw [List.append_assoc, h.classNames, h.plain.classNames_append]

/-- The names behind the words of class definitions are those of the classes that are defined. -/
theorem ProgramForm.classNames_append {classes : List String} {stmts : List Stmt}
    {tokens : List Token} (h : ProgramForm classes stmts tokens) (back : List Token) :
    Cursor.classNames (tokens ++ back) =
      stmts.filterMap Stmt.className? ++ Cursor.classNames back := by
  induction h with
  | nil => rfl
  | @cons _ _ s others _ otherTokens first _ ih =>
    obtain ⟨header, rest, rfl, hs⟩ := first.headed
    rw [List.append_assoc, hs.classNames_append, ih, ← List.append_assoc, List.filterMap_cons]
    cases s.className? <;> rfl
  | @unended classes s tokens form =>
    refine (form.headed.classNames_append back).trans ?_
    rw [List.filterMap_cons]
    cases s.className? <;> rfl

/-! ### Which headers stand in front -/

/-- A header stands in front of a token behind `front` when `front` has it, if none stands among
the tokens around that one. -/
theorem exists_header_le_iff {front mid back : List Token} {token : Token} {name : String}
    (hfront : Sealed front) (hmid : Plain mid) (htokens : Ascending (front ++ (mid ++ back)))
    (htoken : token ∈ mid) (hkind : token.kind.isLayout = false) :
    (∃ word, ClassHeader (front ++ (mid ++ back)) name word ∧
        word.span.stop.offset ≤ token.span.start.offset) ↔
      ∃ word, ClassHeader front name word := by
  refine exists_congr fun word => ⟨fun ⟨hword, hle⟩ => ?_, fun hword => ⟨?_, ?_⟩⟩
  · rcases (hfront _ name word).mp hword with hword | hword
    · exact hword
    · -- a header behind the token would end behind it
      have hback : ClassHeader back name word := hmid.classHeader_append.mp hword
      have hafter := htokens.right.le_of_append htoken hback.mem
      have hwide := htokens.right.left.wide token htoken hkind
      have hwideWord := htokens.right.right.wide word hback.mem (by rw [hback.kind]; rfl)
      omega
  · exact (hfront _ name word).mpr (.inl hword)
  · exact htokens.le_of_append hword.mem (List.mem_append_left _ htoken)

/-- In a statement a call of a bare name is a construction where a header of the name stands in
front of it, if the classes known before the statement are those with headers in front of it. -/
theorem Headed.isConstruction_iff {classes known : List String} {s : Stmt}
    {front header rest back : List Token} (h : Headed classes known s header rest)
    (hfront : Sealed front)
    (hclasses : ∀ name, name ∈ classes ↔ ∃ word, ClassHeader front name word)
    (htokens : Ascending (front ++ (header ++ rest ++ back))) :
    ∀ whole, s.Holds whole → ∀ e : Expr, e.Part whole → ∀ name, e.calledName? = some name →
      (e.isConstruction = true ↔
        ∃ word, ClassHeader (front ++ (header ++ rest ++ back)) name word ∧
          word.span.stop.offset ≤ e.span.start.offset) := by
  intro whole hwhole e he name hname
  obtain ⟨hsettled, token, htoken, hkind, hstart⟩ := h.settled whole hwhole e he
  have hsplit : front ++ (header ++ rest ++ back) = front ++ header ++ (rest ++ back) := by simp
  rw [hsplit] at htokens ⊢
  rw [hsettled name hname, h.mem_known, hclasses, hstart,
    exists_header_le_iff (hfront.append h.isSealed) h.plain htokens htoken hkind, ← exists_or]
  exact exists_congr fun word => (hfront header name word).symm

/-- A call of a bare name is a construction where a header of the name stands in front of it, if
the known classes are those with headers in front of the statements. -/
theorem ProgramForm.isConstruction_iff {classes : List String} {stmts : List Stmt}
    {tokens : List Token} (h : ProgramForm classes stmts tokens) {front back : List Token}
    (hfront : Sealed front)
    (hclasses : ∀ name, name ∈ classes ↔ ∃ word, ClassHeader front name word)
    (htokens : Ascending (front ++ (tokens ++ back))) :
    ∀ s ∈ stmts, ∀ whole, s.Holds whole → ∀ e : Expr, e.Part whole →
      ∀ name, e.calledName? = some name → (e.isConstruction = true ↔
        ∃ word, ClassHeader (front ++ (tokens ++ back)) name word ∧
          word.span.stop.offset ≤ e.span.start.offset) := by
  induction h generalizing front with
  | nil => exact List.forall_mem_nil _
  | @cons classes known s others tokens otherTokens first _ ih =>
    obtain ⟨header, rest, rfl, hs⟩ := first.headed
    refine List.forall_mem_cons.mpr ⟨?_, ?_⟩
    · rw [List.append_assoc] at htokens ⊢
      exact hs.isConstruction_iff hfront hclasses htokens
    · have hsplit : front ++ (header ++ rest ++ otherTokens ++ back) =
          front ++ (header ++ rest) ++ (otherTokens ++ back) := by simp
      rw [hsplit] at htokens ⊢
      refine ih (hfront.append (hs.isSealed.append hs.plain.isSealed)) (fun name => ?_) htokens
      rw [hs.mem_known, hclasses, ← exists_or]
      refine exists_congr fun word => ?_
      rw [hfront, hs.isSealed, or_iff_left hs.plain.not_classHeader]
  | unended form =>
    exact List.forall_mem_singleton.mpr (form.headed.isConstruction_iff hfront hclasses htokens)

namespace Module

/-- The names behind the words of class definitions in a text that is read are those of its
classes. -/
theorem classNames_eq_of_ofTokens {tokens : List Token} {predeclare : Bool} {program : Module}
    (hlines : InLines tokens) (h : ofTokens tokens predeclare = .ok program) :
    Cursor.classNames tokens = program.classNames := by
  obtain ⟨last, hsplit, hlast⟩ := exists_last_of_inLines hlines
  rw [hsplit, (programForm_of_ofTokens h).classNames_append, Module.classNames]
  exact List.append_nil _

/-- Declaring the classes of a text beforehand changes neither whether the text is read nor with
which error it is not; it makes a construction of every call of a bare name of one of its classes
and changes nothing else.  Without that, a call of a bare name is a construction exactly where the
header of a class of that name stands in front of it. -/
theorem ofTokens_predeclare [IdentifierTables] {text : String} {tabWidth : Nat}
    {tokens : List Token} (h : tokenize text tabWidth = .ok tokens) :
    ofTokens tokens true =
        (ofTokens tokens false).map (fun program => program.recast (.resolve program.classNames)) ∧
      ∀ program, ofTokens tokens false = .ok program →
        ∀ e, program.Holds e → ∀ name, e.calledName? = some name →
          (e.isConstruction = true ↔ ∃ word, ClassHeader tokens name word ∧
            word.span.stop.offset ≤ e.span.start.offset) := by
  have hlines := inLines_of_tokenize h
  constructor
  · have hself : List.Forall₂ (Token.Mirrors (.resolve (Cursor.classNames tokens))) tokens tokens :=
      List.forall₂_same.mpr fun token _ => ⟨rfl, rfl⟩
    have hknown (name : String) : name ∈ knownAtStart tokens true ↔
        name ∈ Cursor.classNames tokens ∨ name ∈ knownAtStart tokens false := by
      simp [knownAtStart]
    rw [ofTokens_mirrors hself hknown]
    cases hfirst : ofTokens tokens false with
    | error error => exact congrArg Except.error (GrammarError.recast_resolve _ error)
    | ok program =>
      rw [classNames_eq_of_ofTokens hlines hfirst]
      rfl
  · rintro program hprogram e ⟨s, hs, whole, hwhole, he⟩ name hname
    obtain ⟨last, hsplit, -⟩ := exists_last_of_inLines hlines
    have hform := programForm_of_ofTokens hprogram
    have htokens := ascending_of_tokenize h
    rw [hsplit] at htokens ⊢
    have hclasses (name : String) : name ∈ (startCursor tokens false).classes ↔
        ∃ word, ClassHeader [] name word := by
      simp [not_classHeader_nil, startCursor, Cursor.ofTokens]
    rw [hsplit] at hclasses
    exact hform.isConstruction_iff Plain.nil.isSealed hclasses htokens s hs whole hwhole e he name
      hname

end Module

namespace ClassesWitness

/-- A class with a call of its name in front of it and one behind it. -/
def source : String := "A()\nclass A:\n  def m():\n    pass\nA()"

/-- The names that are called on lines of their own, and whether the calls are constructions. -/
def calls (program : Module) : List (Option String × Bool) :=
  program.body.filterMap fun s =>
    match s with
    | .eval e _ => some (e.calledName?, e.isConstruction)
    | _ => none

theorem exists_of_mem_calls {program : Module} {name : String} {construct : Bool}
    (h : (some name, construct) ∈ calls program) :
    ∃ e, program.Holds e ∧ e.calledName? = some name ∧ e.isConstruction = construct := by
  obtain ⟨s, hs, hcall⟩ := List.mem_filterMap.mp h
  split at hcall
  · next e _ =>
    obtain ⟨hname, hconstruct⟩ := Prod.mk.inj (Option.some.inj hcall)
    exact ⟨e, ⟨_, hs, e, .eval, .self⟩, hname, hconstruct⟩
  · cases hcall

/-- What is read from the source, with the classes declared beforehand or not. -/
def reading (predeclare : Bool) : Option (List String × List (Option String × Bool)) :=
  (tokenize source 4).toOption.bind fun tokens =>
    (Module.ofTokens tokens predeclare).toOption.map fun program =>
      (program.classNames, calls program)

theorem predeclare_source :
    ∃ tokens program, tokenize source 4 = .ok tokens ∧
      Module.ofTokens tokens false = .ok program ∧
      calls program = [(some "A", false), (some "A", true)] ∧
      Module.ofTokens tokens true = .ok (program.recast (.resolve ["A"])) ∧
      calls (program.recast (.resolve ["A"])) = [(some "A", true), (some "A", true)] ∧
      ∃ e word, program.Holds e ∧ ClassHeader tokens "A" word ∧
        word.span.stop.offset ≤ e.span.start.offset := by
  have hplain : reading false = some (["A"], [(some "A", false), (some "A", true)]) := by
    decide +kernel
  have hbefore : reading true = some (["A"], [(some "A", true), (some "A", true)]) := by
    decide +kernel
  cases hlex : tokenize source 4 with
  | error error => rw [reading, hlex] at hplain; cases hplain
  | ok tokens =>
    obtain ⟨hboth, hcalls⟩ := Module.ofTokens_predeclare hlex
    cases hread : Module.ofTokens tokens false with
    | error error =>
      rw [reading, hlex] at hplain
      rw [Except.toOption, Option.bind_some, hread] at hplain
      cases hplain
    | ok program =>
      have hfirst : (program.classNames, calls program) =
          (["A"], [(some "A", false), (some "A", true)]) := by
        rw [reading, hlex, Except.toOption, Option.bind_some, hread] at hplain
        exact Option.some.inj hplain
      obtain ⟨hnames, hlines⟩ := Prod.mk.inj hfirst
      rw [hread, Except.map, hnames] at hboth
      have hsecond : calls (program.recast (.resolve ["A"])) =
          [(some "A", true), (some "A", true)] := by
        rw [reading, hlex, Except.toOption, Option.bind_some, hboth] at hbefore
        exact congrArg Prod.snd (Option.some.inj hbefore)
      obtain ⟨e, he, hname, hconstruct⟩ : ∃ e, program.Holds e ∧ e.calledName? = some "A" ∧
          e.isConstruction = true := by
        refine exists_of_mem_calls ?_
        rw [hlines]
        exact List.mem_cons_of_mem _ List.mem_cons_self
      obtain ⟨word, hword, hle⟩ := (hcalls program hread e he "A" hname).mp hconstruct
      exact ⟨tokens, program, rfl, hread, hlines, hboth, hsecond, e, word, he, hword, hle⟩

end ClassesWitness

end Offside
