/-
What the text under the span of an expression says on its own.  Parentheses around an expression and
a plus sign in front of it are not under its span.  So the text may close brackets that it does not
open, or break a line that brackets around it have joined; otherwise it says the same expression.
-/
import Offside.Proofs.Grammar.Enclosing
import Offside.Proofs.Grammar.Mirroring
import Offside.Proofs.Grammar.Readings
import Offside.Proofs.Grammar.SpanTree
import Offside.Text.IdentifierRanges

namespace Offside

/-! ### Expressions without their places and classes -/

namespace Expr

mutual

/-- The expression with every span absent and every construction as a call of the class's name. -/
def plain : Expr → Expr
  | constant value _ => .constant value .absent
  | name id _ => .name id .absent
  | binary op left right _ => .binary op (plain left) (plain right) .absent
  | unary op operand _ => .unary op (plain operand) .absent
  | call callee args _ => .call (plain callee) (plainAll args) .absent
  | methodCall receiver method args _ =>
    .methodCall (plain receiver) method (plainAll args) .absent
  | construct className args _ => .call (.name className .absent) (plainAll args) .absent
  | member receiver attr _ => .member (plain receiver) attr .absent

def plainAll : List Expr → List Expr
  | [] => []
  | expr :: others => plain expr :: plainAll others

end

@[simp] theorem plainAll_eq_map (exprs : List Expr) : plainAll exprs = exprs.map plain := by
  induction exprs with
  | nil => rfl
  | cons expr others ih => rw [plainAll, ih, List.map_cons]

theorem plain_called (classes : List String) (callee : Expr) (args : List Expr) (place : Span) :
    (callee.called classes args place).plain = .call callee.plain (args.map plain) .absent := by
  rcases called_cases classes callee args place with h | ⟨className, span, rfl, -, h⟩ <;>
    rw [h] <;> simp [plain]

/-- An expression is plainly the same in every light. -/
theorem plain_recast (r : Recast) (expr : Expr) : (expr.recast r).plain = expr.plain := by
  induction expr using Expr.induction with
  | constant | name => rfl
  | binary op left right span ihLeft ihRight => rw [recast, plain, plain, ihLeft, ihRight]
  | unary op operand span ih | member operand attr span ih => rw [recast, plain, plain, ih]
  | call callee args span ihCallee ihArgs =>
    have hargs : args.map (plain ∘ recast r) = args.map plain := List.map_congr_left ihArgs
    rw [recast, plain_called, plain, ihCallee, recastAll_eq_map, plainAll_eq_map, List.map_map,
      hargs]
  | methodCall receiver method args span ihReceiver ihArgs =>
    have hargs : args.map (plain ∘ recast r) = args.map plain := List.map_congr_left ihArgs
    rw [recast, plain, plain, ihReceiver, recastAll_eq_map, plainAll_eq_map, plainAll_eq_map,
      List.map_map, hargs]
  | construct className args span ihArgs =>
    have hargs : args.map (plain ∘ recast r) = args.map plain := List.map_congr_left ihArgs
    rw [recast, plain, plain, recastAll_eq_map, plainAll_eq_map, plainAll_eq_map, List.map_map,
      hargs]

end Expr

/-! ### Expressions that are all of a text -/

namespace Parser

variable {r : Recast} {classes : List String} {e : Expr} {tokens : List Token} {levels spine : Nat}

theorem mirrors_onlyExpr : MirrorsExpr r onlyExpr onlyExpr :=
  (mirrors_expr _).bind fun _ _ hfound => .seq .expectLineEnd fun _ _ => .bind .get
    fun _ _ hcd => .ite (by rw [hcd.atEnd]) (.pure hfound) (.throw (hcd.expected _))

/-- An expression is read where nothing is behind it but the ends of the line and of the text. -/
theorem onlyExpr_of_readsBack (h : ReadsBack classes .or e tokens levels spine) {c : Cursor}
    (hclasses : c.classes = classes) {newline stop : Token}
    (hnewline : newline.kind = .layout .newline) (hstop : stop.kind = .layout .endOfInput)
    (hrest : c.rest = tokens ++ [newline, stop]) :
    ∃ after, Yields c.maxDepth (levels + 1 ≤ c.budget) e after (onlyExpr c) := by
  let mid : Cursor := { c with past := tokens.reverse ++ c.past, rest := [newline, stop] }
  have hreads : c.Reads tokens mid := ⟨hrest, rfl, rfl, rfl, rfl⟩
  have hline : mid.isAt (.layout .newline) = true := (TokenKind.isA_layout _ _).mpr hnewline
  have hend : mid.next.atEnd = true := beq_iff_eq.mpr hstop
  have hyields := expr_of_readsBack h hclasses hreads rfl
    (show newline.kind.continuesExpr = false by rw [hnewline]; rfl)
  refine ⟨mid.next, hyields.map ?_⟩
  rw [bind_ok (show expectLineEnd mid = .ok () mid.next by rw [expectLineEnd, if_pos hline]),
    get_bind, if_pos hend]
  rfl

end Parser

namespace Expr

variable {classes : List String} {e : Expr} {tokens others : List Token} {levels spine : Nat}

/-- Tokens of the kinds of an expression are read as the expression, or they are refused when that
takes more levels of nesting than there are; constructions are calls where no class is known. -/
theorem ofTokens_of_readsBack (h : Parser.ReadsBack classes .or e tokens levels spine)
    (hkinds : others.map Token.kind = tokens.map Token.kind ++ endKinds) :
    (levels + 1 ≤ Cursor.defaultMaxDepth ∧ ∃ found, ofTokens others = .ok found ∧
        found.plain = e.plain) ∨
      (¬ levels + 1 ≤ Cursor.defaultMaxDepth ∧ ∃ span, ofTokens others =
        .error (.nestingTooDeep Cursor.defaultMaxDepth span)) := by
  -- both streams of tokens are the same without their places, and with the same known classes
  let ends : List Token := [Token.mark .newline .first, Token.mark .endOfInput .first]
  let known : Cursor :=
    { Cursor.ofTokens (tokens ++ ends) Cursor.defaultMaxDepth with classes := classes }
  let bare : Cursor := { known with rest := others.map Token.bare }
  let r : Recast := ⟨fun _ => .absent, classes, fun _ _ => rfl, rfl⟩
  have hkinds' : (tokens ++ ends).map Token.bare = others.map Token.bare :=
    Token.map_bare_of_kinds (by rw [hkinds, List.map_append]; rfl)
  have hrest : List.Forall₂ (Token.Mirrors .bare) (tokens ++ ends) (others.map Token.bare) := by
    rw [← hkinds']
    exact Token.forall₂_mirrors_bare (fun _ => rfl) _
  have hknown : known.Mirrors .bare bare :=
    ⟨.nil, hrest, fun _ => by simp [bare, Recast.bare], rfl, rfl, rfl⟩
  have hother : (Cursor.ofTokens others Cursor.defaultMaxDepth).Mirrors r bare :=
    ⟨.nil, Token.forall₂_mirrors_bare (fun _ => rfl) _,
      fun _ => by simp [bare, known, r, Cursor.ofTokens], rfl, rfl, rfl⟩
  obtain ⟨after, hyields⟩ := Parser.onlyExpr_of_readsBack h (c := known) rfl rfl rfl rfl
  have hsame := (Parser.mirrors_onlyExpr.answer_eq hknown).symm.trans
    (Parser.mirrors_onlyExpr.answer_eq hother)
  rw [← ofTokens] at hsame
  rcases hyields with ⟨hfits, hok⟩ | ⟨hdeep, span, last, herror⟩
  · refine .inl ⟨hfits, ?_⟩
    rw [Parser.answer, hok] at hsame
    cases hfound : ofTokens others with
    | error => rw [hfound] at hsame; cases hsame
    | ok found =>
      rw [hfound] at hsame
      have hlight : e.recast .bare = found.recast r := Except.ok.inj hsame
      exact ⟨found, rfl, by rw [← plain_recast r, ← hlight, plain_recast]⟩
  · refine .inr ⟨hdeep, ?_⟩
    rw [Parser.answer, herror] at hsame
    cases hfound : ofTokens others with
    | ok => rw [hfound] at hsame; cases hsame
    | error other =>
      rw [hfound] at hsame
      cases other <;> cases hsame
      exact ⟨_, rfl⟩

/-- What is read as an expression has its tokens in front, and behind them the line or the text
ends. -/
theorem exists_derives_of_ofTokens {found : Expr} (h : ofTokens tokens = .ok found) :
    ∃ piece stops, tokens = piece ++ stops ∧ Derives [] (.expr .or found) piece ∧
      ∃ line rest, stops = line ++ rest ∧ (∀ token ∈ line, token.kind.isLayout = true) ∧
        ∀ token ∈ rest.head?, token.kind = .layout .endOfInput := by
  rw [ofTokens, Parser.answer] at h
  split at h
  case h_2 => cases h
  case h_1 value last hrun =>
    cases h
    obtain ⟨value, mid, hexpr, hrun⟩ := Parser.exists_of_bind_ok hrun
    obtain ⟨_, ended, hline, hrun⟩ := Parser.exists_of_bind_ok hrun
    rw [Parser.get_bind] at hrun
    split at hrun
    case isFalse => cases hrun
    case isTrue hend =>
      cases hrun
      obtain ⟨piece, hreads, -, hderives, -⟩ := Parser.expr_derives hexpr
      have hstop : ∀ token ∈ last.rest.head?, token.kind = .layout .endOfInput := by
        intro token htoken
        obtain ⟨others, hrest⟩ := List.head?_eq_some_iff.mp htoken
        exact Cursor.rest_of_atEnd hend hrest
      refine ⟨piece, mid.rest, hreads.rest, hderives, ?_⟩
      rcases Parser.expectLineEnd_ok hline with ⟨newline, hkind, hnext, -⟩ | ⟨rfl, -⟩
      · exact ⟨[newline], last.rest, hnext.rest,
          List.forall_mem_singleton.mpr (by rw [hkind]; rfl), hstop⟩
      · exact ⟨[], last.rest, rfl, List.forall_mem_nil _, hstop⟩

end Expr

/-! ### Excerpts of a program -/

/-- A text that is one expression and nothing else. -/
def IsExprText [IdentifierTables] (tabWidth : Nat) (text : String) (found : Expr) : Prop :=
  ∃ tokens, tokenize text tabWidth = .ok tokens ∧ Expr.ofTokens tokens = .ok found

/-- A text whose tokens are refused because they are nested too deep. -/
def NestsTooDeep [IdentifierTables] (tabWidth : Nat) (text : String) : Prop :=
  ∃ tokens span, tokenize text tabWidth = .ok tokens ∧
    Expr.ofTokens tokens = .error (.nestingTooDeep Cursor.defaultMaxDepth span)

/-- A text that closes just the brackets that it opens, and breaks lines only inside of them. -/
def StandsAlone (text : String) : Prop := Enclosure.outside.encloses text.toList = true

instance (text : String) : Decidable (StandsAlone text) := inferInstanceAs (Decidable (_ = true))

/-- Directly behind a plus sign that has no operand in front of it. -/
def Span.BehindPlus (span : Span) (tokens : List Token) : Prop :=
  ∃ before sign first after, tokens = before ++ sign :: first :: after ∧
    sign.kind = .symbol .plus ∧ StartsOperand before ∧ span.start = first.span.start

/-- The operation that an augmented assignment makes of its target and the other operand. -/
def Module.Augments (program : Module) (e : Expr) : Prop :=
  ∃ target op right place, e = .binary op target right place ∧ ⟨target, e⟩ ∈ program.assignments

section

variable {before run tail : List Char} {tokens others : List Token} {tabWidth : Nat}
  {classes : List String} {e : Expr} {levels spine : Nat}

/-- A row that stands alone is read as the expression that its tokens spell, as long as its nesting
is not too deep. -/
theorem Row.isExprText [IdentifierTables] (h : Row before run tokens tail)
    (hback : Parser.ReadsBack classes .or e tokens levels spine)
    (henc : Enclosure.outside.encloses run = true) (tabWidth : Nat) :
    (levels + 1 ≤ Cursor.defaultMaxDepth ∧
        ∃ found, IsExprText tabWidth (String.ofList run) found ∧ found.plain = e.plain) ∨
      (¬ levels + 1 ≤ Cursor.defaultMaxDepth ∧ NestsTooDeep tabWidth (String.ofList run)) := by
  obtain ⟨others, hothers, hkinds⟩ := h.exists_tokens henc tabWidth
  rcases Expr.ofTokens_of_readsBack hback hkinds with
    ⟨hfits, found, hfound, hplain⟩ | ⟨hdeep, span, herror⟩
  · exact .inl ⟨hfits, found, ⟨others, hothers, hfound⟩, hplain⟩
  · exact .inr ⟨hdeep, others, span, hothers, herror⟩

/-- Layout of which the end of the input is the last token. -/
theorem isLayout_of_endOfInput {line rest : List Token}
    (h : InLines (tokens ++ (line ++ rest))) (hline : ∀ token ∈ line, token.kind.isLayout = true)
    (hrest : ∀ token ∈ rest.head?, token.kind = .layout .endOfInput) :
    ∀ token ∈ line ++ rest, token.kind.isLayout = true := by
  refine List.forall_mem_append.mpr ⟨hline, ?_⟩
  cases rest with
  | nil => exact List.forall_mem_nil _
  | cons stop rest =>
    have hstop : stop.kind = .layout .endOfInput := hrest stop rfl
    rw [← List.append_assoc] at h
    obtain rfl := Module.eq_nil_of_endOfInput h hstop
    exact List.forall_mem_singleton.mpr (by rw [hstop]; rfl)

/-- A row that is read as an expression on its own stands alone. -/
theorem Row.encloses_of_isExprText [IdentifierTables] (h : Row before run tokens tail)
    (hexpr : ∀ token ∈ tokens, token.kind.standsInExpr = true) {found : Expr}
    (hfound : IsExprText tabWidth (String.ofList run) found) :
    Enclosure.outside.encloses run = true := by
  obtain ⟨others, hothers, hread⟩ := hfound
  by_contra henc
  rw [Bool.not_eq_true] at henc
  obtain ⟨piece, stops, rfl, hderives, line, rest, rfl, hline, hrest⟩ :=
    Expr.exists_derives_of_ofTokens hread
  exact h.unclosed_of_tokenize hexpr henc hothers piece _ rfl hderives.isLayout
    (isLayout_of_endOfInput ((cut_of_tokenize hothers).lines_of_stage rfl) hline hrest)
    hderives.closesParens

end

namespace Module

variable {text : String} {tabWidth : Nat} {tokens : List Token} {predeclare : Bool}
  {program : Module} {e : Expr}

/-- Every expression but the operation of an augmented assignment is part of one that has been
read. -/
theorem exists_readIn_of_holds (h : ofTokens tokens predeclare = .ok program)
    (he : program.Holds e) (hown : ¬ program.Augments e) :
    ∃ whole : Expr, whole.ReadIn (startCursor tokens predeclare) ∧ e.Part whole := by
  rw [ofTokens, Parser.answer] at h
  split at h
  case h_2 => cases h
  case h_1 found last hrun =>
    cases h
    obtain ⟨s, hs, whole, hwhole, hpart⟩ := he
    cases Parser.program_readIn hrun s hs whole hwhole with
    | read hread => exact ⟨whole, hread, hpart⟩
    | augmented mem htarget hright =>
      rcases hpart.of_isOperation rfl with rfl | ⟨operand, hmem, hinner⟩
      · exact absurd ⟨_, _, _, _, rfl, List.mem_flatMap.mpr ⟨s, hs, mem⟩⟩ hown
      · rcases List.mem_cons.mp hmem with rfl | hmem
        · exact ⟨operand, htarget, hinner⟩
        · obtain rfl := List.mem_singleton.mp hmem
          exact ⟨operand, hright, hinner⟩

/-- Where an expression of a program stands among the tokens. -/
theorem exists_located_of_holds (h : ofTokens tokens predeclare = .ok program)
    (he : program.Holds e) (hown : ¬ program.Augments e) :
    ∃ classes levels front slice back, tokens = front ++ (slice ++ back) ∧
      levels + 1 ≤ Cursor.defaultMaxDepth ∧ (∀ token ∈ slice, token.kind.standsInExpr = true) ∧
      Parser.Locates classes levels e front slice := by
  obtain ⟨whole, ⟨c, c', hfollows, hexpr⟩, hpart⟩ := exists_readIn_of_holds h he hown
  obtain ⟨known, hstart⟩ := exists_startCursor_eq tokens predeclare
  rw [hstart] at hfollows
  obtain ⟨read, hreads, hdepth, hderives, hends⟩ := Parser.expr_derives hexpr
  obtain ⟨levels, spine, hback, hparts⟩ := hderives.readsParts
  obtain ⟨front, slice, back, rfl, hlocated⟩ := hparts e hpart
  have hbudget : levels + 1 ≤ Cursor.defaultMaxDepth := by
    rcases Parser.expr_of_readsBack hback rfl hreads hdepth hends with
      ⟨hfits, -⟩ | ⟨-, span, last, hrefused⟩
    · have hle : c.budget ≤ c.maxDepth := Nat.sub_le _ _
      rw [hfollows.shares.maxDepth] at hle
      exact Nat.le_trans hfits hle
    · rw [hexpr] at hrefused
      cases hrefused
  have hinside : c.atEnd = false := by
    obtain ⟨first, rest, hfirst, -⟩ := hderives.exists_first rfl
    have hlayout := hderives.isLayout first (by simp [hfirst])
    rw [hfirst] at hreads
    rw [Cursor.atEnd, hreads.kind, beq_eq_false_iff_ne]
    intro heq
    rw [heq] at hlayout
    cases hlayout
  refine ⟨c.classes, levels, c.past.reverse ++ front, slice, back ++ c'.rest, ?_, hbudget,
    fun token htoken => hderives.standsInExpr token (by simp [htoken]),
    hlocated.within (Nat.le_refl _) (hfollows.starts hinside .nil)⟩
  have hstream : c.past.reverse ++ c.rest = tokens := hfollows.shares.stream
  rw [← hstream, hreads.rest]
  simp

/-- The text under the span of an expression, taken on its own, is an expression exactly if it
closes just the brackets that it opens and breaks lines only inside of them, and then it is that
expression, with constructions as calls; only behind a plus sign without an operand in front of it
its nesting may be too deep. -/
theorem isExprText_excerpt [IdentifierTables] (htokens : tokenize text tabWidth = .ok tokens)
    (h : ofTokens tokens predeclare = .ok program) (he : program.Holds e)
    (hown : ¬ program.Augments e) :
    ∃ excerpt, e.span.Quotes text excerpt ∧ ∀ width,
      ((∃ found, IsExprText width excerpt found) → StandsAlone excerpt) ∧
      (StandsAlone excerpt → (∃ found, IsExprText width excerpt found ∧ found.plain = e.plain) ∨
        (e.span.BehindPlus tokens ∧ NestsTooDeep width excerpt)) := by
  obtain ⟨classes, levels, front, slice, back, hsplit, hfits, hexpr, hlocated⟩ :=
    exists_located_of_holds h he hown
  obtain ⟨passed, run, tail, htext, hrow, -⟩ := (cut_of_tokenize htokens).exists_row rfl hsplit
    hlocated.nonempty (isLayout_of_standsInExpr hexpr)
  rw [List.nil_append] at hrow
  refine ⟨String.ofList run, ?_, fun width => ⟨?_, fun halone => ?_⟩⟩
  · rw [Span.Quotes, hlocated.span, hrow.span_eq, Position.offset_after_first,
      Position.offset_after_first, htext, ← List.append_assoc, SourceText.between?_append,
      String.toList_ofList]
  · rintro ⟨found, hfound⟩
    rw [StandsAlone, String.toList_ofList]
    exact hrow.encloses_of_isExprText hexpr hfound
  · rw [StandsAlone, String.toList_ofList] at halone
    obtain ⟨others, spine, hback, hle⟩ := hlocated.reads (hrow.parensAfter?_eq hexpr halone)
    rcases hrow.isExprText hback halone width with ⟨-, hfound⟩ | ⟨hdeep, htooDeep⟩
    · exact .inl hfound
    · obtain ⟨before, sign, rfl, hsign, hbefore⟩ := hle.resolve_left (by omega)
      obtain ⟨first, rest, rfl⟩ := List.exists_cons_of_ne_nil hlocated.nonempty
      refine .inr ⟨⟨before, sign, first, rest ++ back, by simp [hsplit], hsign, hbefore, ?_⟩,
        htooDeep⟩
      rw [hlocated.span, start_spanOf_cons]

end Module

namespace DelimitingWitness

/-- Whether a text is one expression and nothing else. -/
def isExpr (text : String) : Bool :=
  ((tokenize text 4).toOption.bind fun tokens => (Expr.ofTokens tokens).toOption).isSome

theorem isExprText_of_isExpr {text : String} (h : isExpr text = true) :
    ∃ found, IsExprText 4 text found := by
  cases hlex : tokenize text 4 with
  | error error => rw [isExpr, hlex] at h; cases h
  | ok tokens =>
    cases hread : Expr.ofTokens tokens with
    | error error =>
      rw [isExpr, hlex, Except.toOption, Option.bind_some, hread] at h
      cases h
    | ok found => exact ⟨found, tokens, hlex, hread⟩

theorem isExpr_of_isExprText {text : String} {found : Expr} (h : IsExprText 4 text found) :
    isExpr text = true := by
  obtain ⟨tokens, hlex, hread⟩ := h
  rw [isExpr, hlex, Except.toOption, Option.bind_some, hread]
  rfl

/-- The form of the first expression of a program, with the offsets where its span starts and
ends, if the program is a statement of just this expression. -/
def reading (source : String) : Option (String × Nat × Nat) :=
  (tokenize source 4).toOption.bind fun tokens =>
    (Module.ofTokens tokens false).toOption.bind fun program =>
      match program.body with
      | [.eval e _] => some (e.form, e.span.start.offset, e.span.stop.offset)
      | _ => none

theorem exists_of_reading {source form : String} {start stop : Nat}
    (h : reading source = some (form, start, stop)) :
    ∃ tokens program e, tokenize source 4 = .ok tokens ∧
      Module.ofTokens tokens false = .ok program ∧ program.Holds e ∧ ¬ program.Augments e ∧
        e.form = form ∧ e.span.start.offset = start ∧ e.span.stop.offset = stop := by
  cases hlex : tokenize source 4 with
  | error error => rw [reading, hlex] at h; cases h
  | ok tokens =>
    rw [reading, hlex, Except.toOption, Option.bind_some] at h
    cases hread : Module.ofTokens tokens false with
    | error error => rw [hread] at h; cases h
    | ok program =>
      obtain ⟨body, span⟩ := program
      rw [hread, Except.toOption, Option.bind_some] at h
      split at h
      · next e place hbody =>
        cases h
        obtain rfl : body = [.eval e place] := hbody
        refine ⟨tokens, _, e, rfl, hread,
          ⟨_, List.mem_singleton.mpr rfl, e, .eval, .self⟩, ?_, rfl, rfl, rfl⟩
        rintro ⟨target, op, right, place, -, hmem⟩
        cases hmem
      · cases h

/-- A call over two lines. -/
def spread : String := "f(a,\n b) + 1"

theorem reads_spread :
    ∃ tokens program e, tokenize spread 4 = .ok tokens ∧
      Module.ofTokens tokens false = .ok program ∧ program.Holds e ∧ ¬ program.Augments e ∧
        e.form = "BinOp" ∧ ∃ found, IsExprText 4 spread found ∧ found.plain = e.plain := by
  have hreading : reading spread = some ("BinOp", 0, 12) := by decide +kernel
  obtain ⟨tokens, program, e, hlex, hread, he, hown, hform, hstart, hstop⟩ :=
    exists_of_reading hreading
  refine ⟨tokens, program, e, hlex, hread, he, hown, hform, ?_⟩
  obtain ⟨excerpt, hquotes, hreads⟩ := Module.isExprText_excerpt hlex hread he hown
  have hall : SourceText.between? 0 12 spread.toList = some spread.toList := by decide +kernel
  rw [Span.Quotes, hstart, hstop, hall] at hquotes
  obtain rfl : spread = excerpt := String.toList_inj.mp (Option.some.inj hquotes)
  have halone : StandsAlone spread := by decide +kernel
  rcases (hreads 4).2 halone with hfound | ⟨-, others, span, hothers, herror⟩
  · exact hfound
  · -- it is not refused, as it is read
    obtain ⟨found, others', hothers', hfound⟩ :=
      isExprText_of_isExpr (show isExpr spread = true by decide +kernel)
    rw [hothers] at hothers'
    cases hothers'
    rw [herror] at hfound
    cases hfound

/-- All operations, calls and attributes of a source are what the text under their spans says on
its own. -/
def Delimited (source : String) : Prop :=
  ∀ tokens program e, tokenize source 4 = .ok tokens → Module.ofTokens tokens false = .ok program →
    program.Holds e → ¬ program.Augments e →
    e.form ∈ ["BinOp", "UnaryOp", "Call", "MethodCall", "New", "AttributeRef"] →
    ∃ excerpt found, e.span.Quotes source excerpt ∧ IsExprText 4 excerpt found ∧
      found.plain = e.plain

theorem not_delimited_of_excerpt {source : String} (start stop : Nat) (excerpt : String)
    (hreading : reading source = some ("BinOp", start, stop))
    (hexcerpt : SourceText.between? start stop source.toList = some excerpt.toList)
    (hrefused : isExpr excerpt = false) : ¬ Delimited source := by
  intro h
  obtain ⟨tokens, program, e, hlex, hread, he, hown, hform, rfl, rfl⟩ :=
    exists_of_reading hreading
  obtain ⟨quoted, found, hquotes, hfound, -⟩ :=
    h tokens program e hlex hread he hown (by rw [hform]; decide)
  rw [Span.Quotes, hexcerpt] at hquotes
  obtain rfl : excerpt = quoted := String.toList_inj.mp (Option.some.inj hquotes)
  rw [isExpr_of_isExprText hfound] at hrefused
  cases hrefused

/-- The parentheses around the first operand are not under the span of the sum. -/
def grouped : String := "(a) + b"

/-- The parentheses that join the lines are not under the span of the sum. -/
def joined : String := "(a +\n b)"

theorem not_delimited : ¬ Delimited grouped ∧ ¬ Delimited joined :=
  ⟨not_delimited_of_excerpt 1 7 "a) + b" (by decide +kernel)
      (by decide +kernel) (by decide +kernel),
    not_delimited_of_excerpt 1 7 "a +\n b" (by decide +kernel)
      (by decide +kernel) (by decide +kernel)⟩

/-- `a.x.x + c` with many more attributes. -/
def tower : List TokenKind :=
  .identifier "a" :: (List.replicate 98 [.symbol .dot, .identifier "x"]).flatten ++
    [.symbol .plus, .identifier "c"]

def isReadFrom (kinds : List TokenKind) : Bool :=
  (Expr.ofTokens ((kinds ++ endKinds).map fun kind => ⟨kind, "", .absent⟩)).toOption.isSome

-- behind a sign the attributes have a level of their own, which is left before the sum is made
example : isReadFrom (.symbol .plus :: tower) = true ∧ isReadFrom tower = false := by
  decide +kernel

end DelimitingWitness

end Offside
