/-
Accepted programs.  Every program that is read from tokens is spelled by the tokens before the end
of the input, and the layout among these opens and closes its blocks and nothing else.
-/
import Offside.Proofs.Grammar.Acceptance

namespace Offside

/-! ### Kinds of tokens in the grammar -/

namespace TokenKind

/-- Whether tokens of this kind stand in expressions or between parameters. -/
def standsInExpr (kind : TokenKind) : Bool :=
  match kind with
  | .literal _ | .identifier _ | .keyword .not | .symbol .openParen | .symbol .closeParen
  | .symbol .comma | .symbol .dot => true
  | kind => (Production.ofKind? kind).isSome

/-- Whether tokens of this kind stand in statements without blocks. -/
def standsInLine (kind : TokenKind) : Bool :=
  match kind with
  | .keyword .returnValue | .keyword .passBy | .keyword .breakLoop | .keyword .continueLoop
  | .symbol .assign => true
  | kind => kind.standsInExpr || kind.augmentation?.isSome

variable {kind : TokenKind}

theorem standsInExpr_of_ofKind? {rule : Production} (h : Production.ofKind? kind = some rule) :
    kind.standsInExpr = true := by
  cases kind with
  | keyword word => cases word <;> first | rfl | cases h
  | symbol sign => cases sign <;> first | rfl | cases h
  | literal | identifier => rfl
  | reserved | layout => cases h

theorem standsInLine_of_standsInExpr (h : kind.standsInExpr = true) : kind.standsInLine = true := by
  cases kind with
  | keyword word => cases word <;> first | rfl | cases h
  | symbol sign => cases sign <;> first | rfl | cases h
  | literal | identifier => rfl
  | reserved | layout => cases h

theorem standsInLine_of_augmentation? {op : BinaryOp} (h : kind.augmentation? = some op) :
    kind.standsInLine = true := by
  cases kind with
  | symbol sign => cases sign <;> first | rfl | cases h
  | _ => cases h

theorem isLayout_of_standsInLine (h : kind.standsInLine = true) : kind.isLayout = false := by
  cases kind with
  | layout => cases h
  | _ => rfl

end TokenKind

theorem Derives.standsInExpr {classes : List String} {phrase : Phrase} {tokens : List Token}
    (h : Derives classes phrase tokens) : ∀ token ∈ tokens, token.kind.standsInExpr = true := by
  induction h with
  | join signKind _ _ ihFirst ihSecond =>
    simp only [List.forall_mem_append, List.forall_mem_cons]
    exact ⟨ihFirst, TokenKind.standsInExpr_of_ofKind? signKind, ihSecond⟩
  | widen _ _ ih => exact ih
  | lastArg _ ih => exact ih
  | _ => simp_all [TokenKind.standsInExpr, Production.ofKind?, or_imp]

theorem ParamForm.standsInExpr {params : List Param} {tokens : List Token}
    (h : ParamForm params tokens) : ∀ token ∈ tokens, token.kind.standsInExpr = true := by
  induction h with
  | none => exact List.forall_mem_nil _
  | last wordKind => exact List.forall_mem_singleton.mpr (by rw [wordKind]; rfl)
  | more wordKind commaKind _ ih =>
    simp only [List.forall_mem_cons]
    exact ⟨by rw [wordKind]; rfl, by rw [commaKind]; rfl, ih⟩

theorem SimpleForm.standsInLine {classes : List String} {s : Stmt} {tokens : List Token}
    (h : SimpleForm classes s tokens) : ∀ token ∈ tokens, token.kind.standsInLine = true := by
  have hexpr {layer : Layer} {e : Expr} {tokens : List Token}
      (h : Derives classes (.expr layer e) tokens) :
      ∀ token ∈ tokens, token.kind.standsInLine = true :=
    fun token htoken => TokenKind.standsInLine_of_standsInExpr (h.standsInExpr token htoken)
  cases h with
  | assign signKind _ place source =>
    simp only [List.forall_mem_append, List.forall_mem_cons]
    exact ⟨hexpr place, by rw [signKind]; rfl, hexpr source⟩
  | augmented signKind _ place source =>
    simp only [List.forall_mem_append, List.forall_mem_cons]
    exact ⟨hexpr place, TokenKind.standsInLine_of_augmentation? signKind, hexpr source⟩
  | eval value => exact hexpr value
  | leaveWith wordKind value =>
    exact List.forall_mem_cons.mpr ⟨by rw [wordKind]; rfl, hexpr value⟩
  | leave wordKind | pass wordKind | breakLoop wordKind | continueLoop wordKind =>
    exact List.forall_mem_singleton.mpr (by rw [wordKind]; rfl)

/-! ### Layout in the grammar -/

theorem isLayout_of_standsInExpr {tokens : List Token}
    (h : ∀ token ∈ tokens, token.kind.standsInExpr = true) :
    ∀ token ∈ tokens, token.kind.isLayout = false := fun token htoken =>
  TokenKind.isLayout_of_standsInLine (TokenKind.standsInLine_of_standsInExpr (h token htoken))

/-- Expressions are spelled on one line. -/
theorem Derives.isLayout {classes : List String} {phrase : Phrase} {tokens : List Token}
    (h : Derives classes phrase tokens) : ∀ token ∈ tokens, token.kind.isLayout = false :=
  isLayout_of_standsInExpr h.standsInExpr

theorem SimpleForm.isLayout {classes : List String} {s : Stmt} {tokens : List Token}
    (h : SimpleForm classes s tokens) : ∀ token ∈ tokens, token.kind.isLayout = false :=
  fun token htoken => TokenKind.isLayout_of_standsInLine (h.standsInLine token htoken)

theorem ParamForm.isLayout {params : List Param} {tokens : List Token}
    (h : ParamForm params tokens) : ∀ token ∈ tokens, token.kind.isLayout = false :=
  isLayout_of_standsInExpr h.standsInExpr

/-- Tokens that close all levels they open and no others, before the end of the input. -/
structure Balanced (tokens : List Token) : Prop where
  levels : ∀ depth, levelsAfter? depth tokens = some depth
  inside : ∀ token ∈ tokens, token.kind ≠ .layout .endOfInput

namespace Balanced

variable {first second tokens : List Token} {token : Token}

theorem nil : Balanced [] := ⟨fun _ => rfl, List.forall_mem_nil _⟩

theorem append (hfirst : Balanced first) (hsecond : Balanced second) :
    Balanced (first ++ second) where
  levels depth := by rw [levelsAfter?_append, hfirst.levels, Option.bind_some, hsecond.levels]
  inside := List.forall_mem_append.mpr ⟨hfirst.inside, hsecond.inside⟩

theorem cons (htoken : token.kind.isLayout = false) (h : Balanced tokens) :
    Balanced (token :: tokens) where
  levels depth := by rw [levelsAfter?_cons_of_isLayout htoken, h.levels]
  inside := by
    refine List.forall_mem_cons.mpr ⟨fun hend => ?_, h.inside⟩
    rw [hend] at htoken
    cases htoken

theorem of_isLayout (h : ∀ token ∈ tokens, token.kind.isLayout = false) : Balanced tokens := by
  induction tokens with
  | nil => exact nil
  | cons token tokens ih =>
    rw [List.forall_mem_cons] at h
    exact (ih h.2).cons h.1

theorem newline (htoken : token.kind = .layout .newline) (h : Balanced tokens) :
    Balanced (token :: tokens) where
  levels depth := by
    have hstep : token.levelsAfter? depth = some depth := by rw [Token.levelsAfter?, htoken]
    rw [levelsAfter?_cons, hstep, Option.bind_some, h.levels]
  inside := List.forall_mem_cons.mpr ⟨by rw [htoken]; decide, h.inside⟩

/-- What stands inside of a level. -/
theorem enclosed {indent dedent : Token} (hindent : indent.kind = .layout .indent)
    (hdedent : dedent.kind = .layout .dedent) (h : Balanced tokens) :
    Balanced (indent :: (tokens ++ [dedent])) where
  levels depth := by
    have hopen : indent.levelsAfter? depth = some (depth + 1) := by
      rw [Token.levelsAfter?, hindent]
    have hclose : levelsAfter? (depth + 1) [dedent] = some depth := by
      rw [levelsAfter?_cons, Token.levelsAfter?, hdedent]
      rfl
    rw [levelsAfter?_cons, hopen, Option.bind_some, levelsAfter?_append, h.levels,
      Option.bind_some, hclose]
  inside := by
    simp only [List.forall_mem_cons, List.forall_mem_append]
    exact ⟨by rw [hindent]; decide, h.inside, by rw [hdedent]; decide, List.forall_mem_nil _⟩

end Balanced

theorem ClauseForm.balanced {classes : List String} {clause : Clause} {tokens : List Token}
    (h : ClauseForm classes clause tokens) : Balanced tokens := by
  induction h with
  | simple newlineKind form =>
    exact (Balanced.of_isLayout form.isLayout).append (.newline newlineKind .nil)
  | conditional _ ih => exact ih
  | loop wordKind condition _ ih =>
    exact ((Balanced.of_isLayout condition.isLayout).append ih).cons (by rw [wordKind]; rfl)
  | branch wordKind condition _ _ ihFirst ihSecond =>
    exact ((Balanced.of_isLayout condition.isLayout).append (ihFirst.append ihSecond)).cons
      (by rw [wordKind]; rfl)
  | noElse => exact .nil
  | elseBlock wordKind _ ih => exact ih.cons (by rw [wordKind]; rfl)
  | elif _ ih => exact ih
  | noStmts => exact .nil
  | stmts _ _ ihFirst ihRest => exact ihFirst.append ihRest
  | block colonKind newlineKind indentKind dedentKind _ _ ih =>
    exact ((ih.enclosed indentKind dedentKind).newline newlineKind).cons (by rw [colonKind]; rfl)
  | function wordKind idKind startKind stopKind _ formal _ ih =>
    exact .cons (by rw [wordKind]; rfl) (.cons (by rw [idKind]; rfl)
      (.cons (by rw [startKind]; rfl)
        ((Balanced.of_isLayout formal.isLayout).append (ih.cons (by rw [stopKind]; rfl)))))
  | noMethods => exact .nil
  | methods _ _ ihFirst ihRest => exact ihFirst.append ihRest

theorem TopForm.balanced {classes known : List String} {s : Stmt} {tokens : List Token}
    (h : TopForm classes s tokens known) : Balanced tokens := by
  cases h with
  | stmt form => exact form.balanced
  | function form => exact form.balanced
  | classDef wordKind idKind colonKind newlineKind indentKind dedentKind _ inside =>
    exact .cons (by rw [wordKind]; rfl) (.cons (by rw [idKind]; rfl) (.cons (by rw [colonKind]; rfl)
      ((inside.balanced.enclosed indentKind dedentKind).newline newlineKind)))

theorem ProgramForm.balanced {classes : List String} {stmts : List Stmt} {tokens : List Token}
    (h : ProgramForm classes stmts tokens) : Balanced tokens := by
  induction h with
  | nil => exact .nil
  | cons first _ ih => exact first.balanced.append ih
  | unended form => exact .of_isLayout form.isLayout

/-! ### Programs from tokens -/

namespace Cursor

theorem rest_declare (c : Cursor) (name : String) : (c.declare name).rest = c.rest := by
  rw [declare_eq]

theorem rest_predeclare (c : Cursor) : c.predeclare.rest = c.rest := by
  have hall (names : List String) : ∀ c : Cursor, (names.foldl declare c).rest = c.rest := by
    induction names with
    | nil => exact fun _ => rfl
    | cons name names ih => exact fun c => (ih _).trans (c.rest_declare name)
  exact hall _ c

/-- Where the input ends, no token is left or the next one says so. -/
theorem rest_of_atEnd {c : Cursor} (h : c.atEnd = true) {token : Token} {rest : List Token}
    (hrest : c.rest = token :: rest) : token.kind = .layout .endOfInput := by
  rw [← kind_of_rest hrest]
  exact beq_iff_eq.mp h

end Cursor

namespace Module

theorem rest_startCursor (tokens : List Token) (predeclare : Bool) :
    (startCursor tokens predeclare).rest = tokens := by
  cases predeclare with
  | true => exact Cursor.rest_predeclare _
  | false => rfl

/-- The tokens before the end of the input. -/
def textTokens (tokens : List Token) : List Token :=
  tokens.takeWhile (·.kind ≠ .layout .endOfInput)

/-- Only the last token of a stream that comes in lines ends the input. -/
theorem exists_last_of_inLines {tokens : List Token} (h : InLines tokens) :
    ∃ last, tokens = textTokens tokens ++ [last] ∧ last.kind = .layout .endOfInput := by
  obtain ⟨lines, dedents, last, rfl, hdedents, hlast⟩ := h
  have hinside : ∀ token ∈ lines.flatMap LogicalLine.tokens ++ dedents,
      decide (token.kind ≠ .layout .endOfInput) = true := by
    have hof {token : Token} {layout : Layout} (htoken : token.kind = .layout layout)
        (hne : layout ≠ .endOfInput) : decide (token.kind ≠ .layout .endOfInput) = true := by
      rw [htoken]
      exact decide_eq_true fun heq => hne (TokenKind.layout.inj heq)
    refine List.forall_mem_append.mpr ⟨fun token htoken => ?_,
      fun dedent hdedent => hof (hdedents dedent hdedent) (by decide)⟩
    obtain ⟨line, -, htoken⟩ := List.mem_flatMap.mp htoken
    rw [LogicalLine.tokens, List.append_assoc, List.mem_append, List.mem_append,
      List.mem_singleton] at htoken
    rcases htoken with hmark | hbody | rfl
    · rcases line.areMarks with hnil | ⟨mark, hmarks, hkind⟩ | ⟨-, hkinds⟩
      · rw [hnil] at hmark
        cases hmark
      · rw [hmarks, List.mem_singleton] at hmark
        exact hof (hmark ▸ hkind) (by decide)
      · exact hof (hkinds token hmark) (by decide)
    · refine decide_eq_true fun heq => ?_
      have hplain := line.kind_body token hbody
      rw [heq] at hplain
      cases hplain
    · exact hof line.kind_lineEnd (by decide)
  refine ⟨last, ?_, hlast⟩
  rw [textTokens, List.takeWhile_append_of_pos hinside,
    List.takeWhile_cons_of_neg (by simp [hlast]), List.append_nil]

theorem eq_nil_of_endOfInput {before after : List Token} {stop : Token}
    (h : InLines (before ++ stop :: after)) (hstop : stop.kind = .layout .endOfInput) :
    after = [] := by
  obtain ⟨last, hlast, -⟩ := exists_last_of_inLines h
  generalize htext : textTokens (before ++ stop :: after) = text at hlast
  rcases List.eq_nil_or_concat after with rfl | ⟨init, final, rfl⟩
  · rfl
  · rw [List.concat_eq_append, ← List.cons_append, ← List.append_assoc] at hlast
    have hinit : before ++ stop :: init = text := (List.append_inj' hlast rfl).1
    have hmem : stop ∈ textTokens (before ++ stop :: init.concat final) := by
      rw [htext, ← hinit]
      simp
    have hinside := List.mem_takeWhile_imp hmem
    simp [hstop] at hinside

/-- A program that is read is spelled by the tokens before the end of the input. -/
theorem programForm_of_ofTokens {tokens : List Token} {predeclare : Bool} {program : Module}
    (h : ofTokens tokens predeclare = .ok program) :
    ProgramForm (startCursor tokens predeclare).classes program.body (textTokens tokens) := by
  rw [ofTokens, Parser.answer] at h
  split at h
  case h_2 => cases h
  case h_1 found last hrun =>
    cases h
    obtain ⟨hend, read, hrest, hform⟩ := Parser.program_reads hrun
    rw [rest_startCursor] at hrest
    have htext : textTokens tokens = read := by
      have hread : ∀ token ∈ read, decide (token.kind ≠ .layout .endOfInput) = true :=
        fun token htoken => decide_eq_true (hform.balanced.inside token htoken)
      rw [textTokens, hrest, List.takeWhile_append_of_pos hread]
      cases hlast : last.rest with
      | nil => simp
      | cons token rest =>
        have hkind := Cursor.rest_of_atEnd hend hlast
        rw [List.takeWhile_cons_of_neg (by simp [hkind]), List.append_nil]
    rwa [htext]

/-- Only programs of the grammar are accepted: the tokens before the end of the input, all of them
and in order, spell the program that is read, where the known classes are those that are declared
beforehand.  Every level that a token opens is closed by one of them. -/
theorem form_of_ofTokens {tokens : List Token} {predeclare : Bool} {program : Module}
    (h : ofTokens tokens predeclare = .ok program) :
    ProgramForm (startCursor tokens predeclare).classes program.body (textTokens tokens) ∧
      levelsAfter? 0 (textTokens tokens) = some 0 :=
  ⟨programForm_of_ofTokens h, (programForm_of_ofTokens h).balanced.levels 0⟩

/-- The span of a program that is read reaches from its first statement to its last one. -/
theorem span_of_ofTokens {tokens : List Token} {predeclare : Bool} {program : Module}
    (h : ofTokens tokens predeclare = .ok program) :
    (∃ first last, program.body.head? = some first ∧ program.body.getLast? = some last ∧
      program.span = first.span.through last.span) ∨
    program.body = [] ∧ program.span = .absent := by
  rw [ofTokens, Parser.answer] at h
  split at h
  case h_2 => cases h
  case h_1 found last hrun =>
    cases h
    obtain ⟨body, mid, -, hend⟩ := Parser.exists_of_bind_ok hrun
    cases hend
    cases body with
    | nil => exact .inr ⟨rfl, rfl⟩
    | cons first others =>
      obtain ⟨stmt, hstmt⟩ := Option.ne_none_iff_exists'.mp
        (mt List.getLast?_eq_none_iff.mp (List.cons_ne_nil first others))
      refine .inl ⟨first, stmt, rfl, hstmt, ?_⟩
      simp only [hstmt, List.head?_cons]
      rfl

end Module

namespace ProgramsWitness

def token (kind : TokenKind) : Token := ⟨kind, "", .absent⟩

/-- A class with a method that takes `self,` and ends in an `elif`, and `a += A()` without the end
of its line. -/
def kinds : List TokenKind :=
  [.keyword .classDefinition, .identifier "A", .symbol .colon, .layout .newline, .layout .indent,
   .keyword .definition, .identifier "m", .symbol .openParen, .identifier "self", .symbol .comma,
   .symbol .closeParen, .symbol .colon, .layout .newline, .layout .indent,
   .keyword .ifTest, .identifier "x", .symbol .colon, .layout .newline, .layout .indent,
   .keyword .returnValue, .layout .newline, .layout .dedent,
   .keyword .elifTest, .identifier "y", .symbol .colon, .layout .newline, .layout .indent,
   .keyword .passBy, .layout .newline, .layout .dedent, .layout .dedent, .layout .dedent,
   .identifier "a", .symbol .plusAssign, .identifier "A", .symbol .openParen, .symbol .closeParen]

def tokens : List Token := kinds.map token ++ [token (.layout .endOfInput)]

/-- The names of the statements' forms, where a program is read. -/
def forms (answer : Except GrammarError Module) : Option (List String) :=
  answer.toOption.map fun program => program.body.map Stmt.form

theorem form_of_tokens :
    ∃ program, Module.ofTokens tokens false = .ok program ∧
      program.body.map Stmt.form = ["ClassDef", "Assign"] ∧
      ProgramForm [] program.body (kinds.map token) ∧
      levelsAfter? 0 (kinds.map token) = some 0 := by
  have hforms : forms (Module.ofTokens tokens false) = some ["ClassDef", "Assign"] := by
    decide +kernel
  cases hread : Module.ofTokens tokens false with
  | error error => rw [hread] at hforms; cases hforms
  | ok program =>
    rw [hread] at hforms
    exact ⟨program, rfl, Option.some.inj hforms, Module.form_of_ofTokens hread⟩

end ProgramsWitness

end Offside
