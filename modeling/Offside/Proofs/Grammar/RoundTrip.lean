/-
Programs from their own text.  Definitions are read back like other statements, and a whole program
with them: its text is cut into tokens, and these are read as the program, but for its places, or
found to be nested too deep.
-/
import Offside.Proofs.Grammar.Rereading
import Offside.Text.IdentifierRanges

namespace Offside

namespace Parser

variable {classes : List String} {tokens : List Token} {levels : Nat} {chosen : Stmt → Bool}

/-! ### Parameters -/

theorem param_of_rest {before : List Param} {c : Cursor} {word : Token} {rest : List Token}
    {name : String} (hrest : c.rest = word :: rest) (hword : word.kind = .identifier name)
    (hfresh : name ∉ before.map Param.name) :
    param before c = .ok ⟨name, word.span⟩ c.next := by
  have hany : ¬ before.any (·.name == name) = true := by
    intro hany
    obtain ⟨earlier, hearlier, hsame⟩ := List.any_eq_true.mp hany
    exact hfresh (List.mem_map.mpr ⟨earlier, hearlier, beq_iff_eq.mp hsame⟩)
  rw [param, bind_ok (expectIdentifier_of_rest hrest hword _)]
  dsimp only
  rw [if_neg hany]
  rfl

/-- Names with commas between them are read as parameters, as long as they differ. -/
theorem exists_params {params : List Param} (before : List Param)
    (hnames : (before.map Param.name ++ params.map Param.name).Nodup)
    (htokens : tokens.map Token.kind =
      separated (params.map fun param => [.identifier param.name])) :
    ∃ found : List Param, found.map Param.bare = params.map Param.bare ∧
      ∀ ⦃c after : Cursor⦄ ⦃count : Nat⦄, c.Reads tokens after → after.depth = c.depth →
        after.kind = .symbol .closeParen → tokens.length < count →
        itemsAfter param count before c = .ok (before.reverse ++ found) after := by
  induction params generalizing tokens before with
  | nil =>
    obtain rfl := List.map_eq_nil_iff.mp htokens
    refine ⟨[], rfl, fun c after count hreads hdepth hclose _ => ?_⟩
    have hsame : c = after := hreads.eq_of_depth hdepth
    subst hsame
    rw [itemsAfter_of_close hclose, List.append_nil]
  | cons first others ih =>
    have hfresh : first.name ∉ before.map Param.name := by
      intro hmem
      exact List.disjoint_of_nodup_append hnames hmem List.mem_cons_self
    have hstep {c : Cursor} {word : Token} {rest : List Token} {count : Nat}
        (hword : word.kind = .identifier first.name) (hrest : c.rest = word :: rest) :
        itemsAfter param (count + 1) before c = (do
          if ← skip (.symbol .comma) then
            itemsAfter param count (⟨first.name, word.span⟩ :: before)
          else pure (⟨first.name, word.span⟩ :: before).reverse : Parser (List Param)) c.next := by
      have hopen : c.kind ≠ .symbol .closeParen := by
        rw [Cursor.kind_of_rest hrest, hword]
        simp
      rw [itemsAfter_of_not_close hopen, bind_ok (param_of_rest hrest hword hfresh)]
    cases others with
    | nil =>
      obtain ⟨word, rest, rfl, hword, hrest⟩ := List.map_eq_cons_iff.mp htokens
      obtain rfl := List.map_eq_nil_iff.mp hrest
      refine ⟨[⟨first.name, word.span⟩], rfl, fun c after count hreads hdepth hclose hcount => ?_⟩
      obtain ⟨count, rfl⟩ : ∃ fewer, count = fewer + 1 := Nat.exists_eq_add_one.mpr (by omega)
      have hcomma : after.isAt (.symbol .comma) = false := by
        rw [Cursor.isAt, hclose]
        rfl
      rw [hstep hword hreads.rest, hreads.next_eq_of_depth hdepth,
        bind_ok (skip_of_not_isAt hcomma), List.reverse_cons]
      rfl
    | cons next others =>
      obtain ⟨word, rest, rfl, hword, hrest⟩ := List.map_eq_cons_iff.mp htokens
      obtain ⟨comma, behind, rfl, hcomma, hbehind⟩ := List.map_eq_cons_iff.mp hrest
      have hmoved : (first.name :: before.map Param.name ++
          (next :: others).map Param.name).Nodup :=
        (List.perm_middle.nodup_iff).mp hnames
      obtain ⟨more, hmore, hitems⟩ :=
        ih (⟨first.name, word.span⟩ :: before) hmoved hbehind
      refine ⟨⟨first.name, word.span⟩ :: more, by rw [List.map_cons, List.map_cons, hmore]; rfl,
        fun c after count hreads hdepth hclose hcount => ?_⟩
      obtain ⟨count, rfl⟩ : ∃ fewer, count = fewer + 1 := Nat.exists_eq_add_one.mpr (by omega)
      have hat : c.next.isAt (.symbol .comma) = true :=
        (TokenKind.isA_symbol _ _).mpr (hreads.tail.kind.trans hcomma)
      have hshort : behind.length < count := by
        rw [List.length_cons, List.length_cons] at hcount
        omega
      have hlater := hitems hreads.tail.tail
        (by rw [hdepth, Cursor.depth_next, Cursor.depth_next]) hclose hshort
      rw [hstep hword hreads.rest, bind_ok (skip_of_isAt hat), if_pos rfl, hlater,
        List.reverse_cons, List.append_assoc]
      rfl

/-- Parameters with the parenthesis that closes them. -/
theorem exists_items {params : List Param} {stop : Token}
    (hnames : (params.map Param.name).Nodup) (hstop : stop.kind = .symbol .closeParen)
    (htokens : tokens.map Token.kind =
      separated (params.map fun param => [.identifier param.name])) :
    ∃ found : List Param, found.map Param.bare = params.map Param.bare ∧
      ∀ ⦃c after : Cursor⦄, c.Reads (tokens ++ [stop]) after → after.depth = c.depth →
        items param c = .ok found after := by
  obtain ⟨found, hbare, hparams⟩ := exists_params [] hnames htokens
  refine ⟨found, hbare, fun c after hreads hdepth => ?_⟩
  obtain ⟨closing, hclosing, hinside, hclose⟩ := hreads.split
  have hcount : tokens.length < c.rest.length + 1 := by
    rw [hinside.rest, List.length_append]
    omega
  rw [items, get_bind, bind_ok (hparams hinside hclosing (hclose.kind.trans hstop) hcount),
    bind_ok (expect_of_rest hclose.rest ((TokenKind.isA_symbol _ _).mpr hstop) _),
    hclose.next_eq_of_depth (hdepth.trans hclosing.symm)]
  rfl

/-! ### Functions and classes -/

theorem exists_takes_function [IdentifierTables] {definition : FunctionDef Stmt}
    (h : definition.isWritable classes = true)
    (htokens : tokens.map Token.kind = definition.head ++ Stmt.kindsOfFunction chosen definition) :
    ∃ found : FunctionDef Stmt, Stmt.bareFunction found = Stmt.bareFunction definition ∧
      Takes (fun c => functionDef (deeperStatement c.budget) c) classes tokens
        (Stmt.levelsOfFunction definition) found fun _ => True := by
  obtain ⟨name, params, body, span⟩ := definition
  simp only [FunctionDef.isWritable, Bool.and_eq_true, List.all_eq_true, decide_eq_true_eq] at h
  obtain ⟨⟨⟨-, hnames⟩, hne⟩, hbody⟩ := h
  have hhead : FunctionDef.head ⟨name, params, body, span⟩ =
      (.keyword .definition :: .identifier name ::
        grouped (separated (params.map fun param => [.identifier param.name]))) ++
        [.symbol .colon] := rfl
  rw [hhead] at htokens
  obtain ⟨first, colon, behind, newBody, rfl, hfirst, -, hbareBody, htakesBody⟩ :=
    exists_takes_block hne (fun s hs => (rereadable_of_isWritable (hbody s hs)).whole) htokens
  obtain ⟨word, rest, rfl, hword, hrest⟩ := List.map_eq_cons_iff.mp hfirst
  obtain ⟨id, formal, rfl, hid, hformal⟩ := List.map_eq_cons_iff.mp hrest
  obtain ⟨start, inner, stop, rfl, hstart, hstop, hinner⟩ := exists_of_map_grouped hformal
  obtain ⟨newParams, hbareParams, hitems⟩ := exists_items hnames hstop hinner
  refine ⟨_, ?_, takes_functionDef hword hid hstart hitems htakesBody _⟩
  simp only [Stmt.bareFunction, Stmt.bareAll_eq_map, hbareParams, hbareBody]

theorem exists_takesParts_methods [IdentifierTables] {methods : List (FunctionDef Stmt)}
    (h : ∀ definition ∈ methods, definition.isWritable classes = true)
    (htokens : tokens.map Token.kind = Stmt.kindsOfFunctions chosen methods) :
    ∃ found : List (FunctionDef Stmt),
      found.map Stmt.bareFunction = methods.map Stmt.bareFunction ∧
      TakesParts (fun budget => method (deeperStatement budget)) classes tokens
        (Stmt.levelsOfFunctions methods) found := by
  induction methods generalizing tokens with
  | nil =>
    obtain rfl := List.map_eq_nil_iff.mp htokens
    exact ⟨[], rfl, takesParts_nil⟩
  | cons definition others ih =>
    obtain ⟨hdefinition, hothers⟩ := List.forall_mem_cons.mp h
    obtain ⟨first, rest, rfl, hfirst, hrest⟩ := List.map_eq_append_iff.mp htokens
    obtain ⟨found, hbare, htakes⟩ := exists_takes_function hdefinition hfirst
    obtain ⟨more, hmore, hparts⟩ := ih hothers hrest
    obtain ⟨word, line, rfl, hword, -⟩ := List.map_eq_cons_iff.mp hfirst
    have hmethod : Takes (fun c => method (deeperStatement c.budget) c) classes (word :: line)
        (Stmt.levelsOfFunction definition) found fun _ => True := by
      refine htakes.of_first fun c hkind => ?_
      have hat : c.isAt (.keyword .definition) = true :=
        (TokenKind.isA_keyword _ _).mpr (hkind.trans hword)
      rw [method, get_bind, if_pos hat]
    exact ⟨found :: more, by rw [List.map_cons, List.map_cons, hbare, hmore],
      takesParts_cons hmethod hparts (by rw [hword]; rfl) trivial fun _ _ => trivial⟩

/-- Outside of all blocks these tokens are read as the statement; behind a class it is known. -/
def TakesOutside (classes : List String) (tokens : List Token) (s found : Stmt) : Prop :=
  ∀ ⦃c after : Cursor⦄, c.classes = classes → c.inBlock = false →
    ({ c with classes := s.classesAfter classes } : Cursor).Reads tokens after →
    after.depth = c.depth → after.kind.continuesBranch = false →
    Yields c.maxDepth (s.levels ≤ c.budget) found after (statement c)

theorem exists_takesOutside_class [IdentifierTables] {name : String}
    {methods : List (FunctionDef Stmt)} {span : Span}
    (h : (Stmt.classDef name methods span).isWritableOutside classes = true)
    (htokens : tokens.map Token.kind = (Stmt.classDef name methods span).kinds chosen .ifTest) :
    ∃ found : Stmt, found.bare = (Stmt.classDef name methods span).bare ∧
      TakesOutside classes tokens (.classDef name methods span) found := by
  simp only [Stmt.isWritableOutside, Bool.and_eq_true, List.all_eq_true] at h
  obtain ⟨⟨-, hne⟩, hmethods⟩ := h
  obtain ⟨first, colon, newline, indent, inner, dedent, rfl, hfirst, hinner, hcolon, hnewline,
    hindent, hdedent⟩ := exists_of_map_block
      (show _ = ([TokenKind.keyword .classDefinition, .identifier name] ++ [.symbol .colon]) ++ _
        from htokens)
  obtain ⟨word, rest, rfl, hword, hrest⟩ := List.map_eq_cons_iff.mp hfirst
  obtain ⟨id, others, rfl, hid, hothers⟩ := List.map_eq_cons_iff.mp hrest
  obtain rfl := List.map_eq_nil_iff.mp hothers
  obtain ⟨found, hbare, hparts⟩ := exists_takesParts_methods hmethods hinner
  have hmethod : ∃ token rest, inner = token :: rest ∧ token.kind.isLayout = false := by
    obtain ⟨definition, others, rfl⟩ := List.exists_cons_of_ne_nil (by simpa using hne)
    obtain ⟨token, rest, rfl, htoken, -⟩ := List.map_eq_cons_iff.mp hinner
    exact ⟨token, rest, rfl, by rw [htoken]; rfl⟩
  refine ⟨.classDef name found
    (spanOf ([word, id] ++ ([colon, newline, indent] ++ (inner ++ [dedent])))), ?_, ?_⟩
  · simp only [Stmt.bare, Stmt.bareFunctions_eq_map, hbare]
  · intro c after hclasses houtside hreads hdepth _
    subst hclasses
    have hkind : c.kind = .keyword .classDefinition := hreads.kind.trans hword
    simp only [statement_eq, statementOf, get_bind, hkind]
    rw [if_neg (by rw [houtside]; decide)]
    exact yields_classStatement hid hcolon hnewline hindent hdedent hmethod hparts hreads hdepth

/-! ### Programs -/

theorem TakesOutside.of_takes {s found : Stmt} (hsame : s.classesAfter classes = classes)
    (h : Takes statement classes tokens s.levels found fun kind => kind.continuesBranch = false) :
    TakesOutside classes tokens s found := by
  intro c after hclasses _ hreads hdepth hends
  rw [hsame, ← hclasses] at hreads
  exact h hclasses hreads hdepth hends

theorem exists_takesOutside [IdentifierTables] {s : Stmt} (h : s.isWritableOutside classes = true)
    (htokens : tokens.map Token.kind = s.kinds chosen .ifTest) :
    ∃ found : Stmt, found.bare = s.bare ∧ TakesOutside classes tokens s found := by
  have hinner (hwritable : s.isWritable classes = true) (hsame : s.classesAfter classes = classes) :
      ∃ found : Stmt, found.bare = s.bare ∧ TakesOutside classes tokens s found := by
    obtain ⟨found, hbare, htakes⟩ := (rereadable_of_isWritable hwritable).whole htokens
    exact ⟨found, hbare, .of_takes hsame htakes⟩
  cases s with
  | classDef name methods span => exact exists_takesOutside_class h htokens
  | function definition span =>
    obtain ⟨found, hbare, htakes⟩ := exists_takes_function h htokens
    obtain ⟨word, line, rfl, hword, -⟩ := List.map_eq_cons_iff.mp htokens
    refine ⟨.function found found.span, by rw [Stmt.bare, Stmt.bare, hbare], ?_⟩
    intro c after hclasses houtside hreads hdepth hends
    subst hclasses
    have hreads : c.Reads (word :: line) after := hreads
    have hkind : c.kind = .keyword .definition := hreads.kind.trans hword
    simp only [statement_eq, statementOf, get_bind, hkind]
    rw [if_neg (by rw [houtside]; decide)]
    exact (htakes rfl hreads hdepth trivial).map rfl
  | _ => exact hinner h rfl

theorem exists_statements [IdentifierTables] {body : List Stmt}
    (h : Module.isWritableFrom classes body = true)
    (htokens : tokens.map Token.kind = Stmt.kindsOfBody chosen .ifTest body) :
    ∃ found : List Stmt, found.map Stmt.bare = body.map Stmt.bare ∧
      ∀ ⦃c : Cursor⦄ ⦃stop : Token⦄ ⦃count : Nat⦄, c.classes = classes → c.inBlock = false →
        c.rest = tokens ++ [stop] → stop.kind = .layout .endOfInput → tokens.length < count →
        ∃ after, Yields c.maxDepth (Stmt.levelsOfBody body ≤ c.budget) found after
          (repeatUntil Cursor.atEnd statement count c) := by
  induction body generalizing classes tokens with
  | nil =>
    obtain rfl := List.map_eq_nil_iff.mp htokens
    refine ⟨[], rfl, fun c stop count _ _ hrest hstop _ => ⟨c, ?_⟩⟩
    have hend : c.atEnd = true := by
      rw [Cursor.atEnd, Cursor.kind_of_rest hrest, hstop]
      rfl
    exact (Yields.of_eq (repeatUntil_of_stop hend count)).congr (by simp [Stmt.levelsOfBody])
  | cons s others ih =>
    obtain ⟨hs, hothers⟩ := Bool.and_eq_true_iff.mp h
    obtain ⟨first, rest, rfl, hfirst, hrest⟩ := List.map_eq_append_iff.mp htokens
    obtain ⟨found, hbare, htakes⟩ := exists_takesOutside hs hfirst
    obtain ⟨more, hmore, hparts⟩ := ih hothers hrest
    refine ⟨found :: more, by rw [List.map_cons, List.map_cons, hbare, hmore], ?_⟩
    intro c stop count hclasses houtside hall hstop hcount
    obtain ⟨count, rfl⟩ : ∃ fewer, count = fewer + 1 := Nat.exists_eq_add_one.mpr (by omega)
    -- behind the statement the others are read, and what it declares is known
    obtain ⟨mid, hmid, hreads⟩ : ∃ mid : Cursor, mid.depth = c.depth ∧
        mid.rest = rest ++ [stop] ∧
        ({ c with classes := s.classesAfter classes } : Cursor).Reads first mid :=
      ⟨{ c with
          classes := s.classesAfter classes
          past := first.reverse ++ c.past
          rest := rest ++ [stop] }, rfl, rfl, ⟨by simp [hall], rfl, rfl, rfl, rfl⟩⟩
    obtain ⟨hrestMid, hreads⟩ := hreads
    obtain ⟨kind, kinds, hcons, hkind, -⟩ := Stmt.exists_first_kind chosen s
    obtain ⟨token, line, rfl, rfl, -⟩ := List.map_eq_cons_iff.mp (hfirst.trans hcons)
    have hstart : c.atEnd = false :=
      Cursor.atEnd_of_isLayout (by rw [Cursor.kind_of_rest hall, hkind])
    have hends : mid.kind.continuesBranch = false := by
      cases rest with
      | nil => rw [Cursor.kind_of_rest hrestMid, hstop]; rfl
      | cons next behind =>
        rw [Cursor.kind_of_rest hrestMid]
        apply Stmt.head?_kindsOfBody chosen others
        rw [← hrest]
        rfl
    have hinside : mid.inBlock = false := by rwa [Cursor.inBlock, hreads.blockDepth]
    have hshort : rest.length < count := by
      rw [List.length_append, List.length_cons] at hcount
      omega
    obtain ⟨after, hyields⟩ := hparts hreads.classes hinside hrestMid hstop hshort
    have hlimit : mid.maxDepth = c.maxDepth := hreads.maxDepth
    have hbudget : mid.budget = c.budget := hreads.budget_eq hmid
    rw [hlimit, hbudget] at hyields
    rw [repeatUntil_succ hstart]
    refine ⟨after, ((htakes hclasses houtside hreads hmid hends).bind fun _ => ?_).congr
      Nat.max_le.symm⟩
    exact hyields.map rfl

end Parser

namespace Module

/-- Tokens of the kinds that are written for a program are read as the program, but for its places,
or the nesting is found too deep, by how much nesting the program takes. -/
theorem ofTokens_of_kinds [IdentifierTables] {program : Module} (h : program.isWritable = true)
    {chosen : Stmt → Bool} {tokens : List Token}
    (htokens : tokens.map Token.kind =
      Stmt.kindsOfBody chosen .ifTest program.body ++ [.layout .endOfInput]) :
    if program.levels ≤ Cursor.defaultMaxDepth then
      ∃ again, ofTokens tokens false = .ok again ∧ again.bare = program.bare
    else ∃ span, ofTokens tokens false = .error (.nestingTooDeep Cursor.defaultMaxDepth span) := by
  obtain ⟨read, last, rfl, hread, hlast⟩ := List.map_eq_append_iff.mp htokens
  obtain ⟨stop, others, rfl, hstop, hothers⟩ := List.map_eq_cons_iff.mp hlast
  obtain rfl := List.map_eq_nil_iff.mp hothers
  obtain ⟨found, hbare, hread⟩ := Parser.exists_statements h hread
  have hcount : read.length < (read ++ [stop]).length + 1 := by
    rw [List.length_append]
    omega
  obtain ⟨after, hyields⟩ := hread (c := startCursor (read ++ [stop]) false) rfl rfl rfl hstop hcount
  have hprogram : ∃ span, Parser.Yields Cursor.defaultMaxDepth
      (program.levels ≤ Cursor.defaultMaxDepth) ⟨found, span⟩ after
      (Parser.program (startCursor (read ++ [stop]) false)) :=
    ⟨_, hyields.map rfl⟩
  obtain ⟨span, ⟨hfits, hok⟩ | ⟨hfits, place, last, herror⟩⟩ := hprogram
  · rw [if_pos hfits]
    exact ⟨⟨found, span⟩, by rw [ofTokens, Parser.answer, hok], by rw [bare, bare, hbare]⟩
  · rw [if_neg hfits]
    exact ⟨place, by rw [ofTokens, Parser.answer, herror]⟩

/-- A program is read back from its own text, but for its places, or only its nesting is found too
deep.  Which of the two it is does not depend on the conditionals that are chosen to be further
alternatives.  The text is one that fits into memory: its length is a machine word, so that no width
of a line wraps around. -/
theorem reads_back_from_text [IdentifierTables] (program : Module) (h : program.isWritable = true)
    (chosen : Stmt → Bool) (tabWidth : Nat)
    (hlength : (program.text chosen).length < Lexer.widthBound) :
    ∃ tokens, tokenize (program.text chosen) tabWidth = .ok tokens ∧
      if program.levels ≤ Cursor.defaultMaxDepth then
        ∃ again, ofTokens tokens false = .ok again ∧ again.bare = program.bare
      else
        ∃ span, ofTokens tokens false = .error (.nestingTooDeep Cursor.defaultMaxDepth span) := by
  obtain ⟨tokens, htokens, hok⟩ := exists_tokens_of_text h chosen hlength tabWidth
  exact ⟨tokens, hok, ofTokens_of_kinds h htokens⟩

end Module

namespace RoundTripWitness

/-- A class whose method constructs it, and a callee that needs its parentheses. -/
def program : Module where
  body := [
    .classDef "P" [{
      name := "m"
      params := [⟨"a", .absent⟩, ⟨"b", .absent⟩]
      body := [
        .branch (.name "a" .absent) [.leave none .absent] (some [
          .branch (.unary .not (.name "b" .absent) .absent)
            [.leave (some (.construct "P" [
              .binary .mul (.member (.name "a" .absent) "x" .absent)
                (.binary .add (.name "b" .absent) (.constant (.int 1) .absent) .absent)
                .absent] .absent)) .absent]
            none .absent]) .absent]
      span := .absent }] .absent,
    .eval (.call (.member (.name "p" .absent) "q" .absent)
      [.constant (.str "\"\n") .absent] .absent) .absent]
  span := .absent

def source : String :=
  String.join [
    "class P :\n",
    "    def m ( a , b ) :\n",
    "        if a :\n",
    "            return\n",
    "        elif not b :\n",
    "            return P ( a . x * ( b + 1 ) )\n",
    "( p . q ) ( \"\\\"\\n\" )\n"]

theorem text_program : program.text (fun _ => true) = source := by
  decide +kernel

theorem point_reads_back :
    program.isWritable = true ∧ (program.text fun _ => true).length < Lexer.widthBound ∧
      program.text (fun _ => true) = source ∧
      ∃ tokens, tokenize source 4 = .ok tokens ∧
        ∃ again, Module.ofTokens tokens false = .ok again ∧ again.bare = program.bare := by
  have hwritable : program.isWritable = true := by decide
  have hlength : (program.text fun _ => true).length < Lexer.widthBound := by
    rw [text_program]
    decide +kernel
  obtain ⟨tokens, hok, hread⟩ :=
    Module.reads_back_from_text program hwritable (fun _ => true) 4 hlength
  have hfits : program.levels ≤ Cursor.defaultMaxDepth := by decide
  rw [text_program] at hok
  rw [if_pos hfits] at hread
  exact ⟨hwritable, hlength, text_program, tokens, hok, hread⟩

end RoundTripWitness

end Offside
