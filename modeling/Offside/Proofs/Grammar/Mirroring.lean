/-
Parsers see of a token its kind and where it stands.  On tokens of the same kinds they go the same
way, whatever the spans and whichever names count as classes, and what they answer on one side is
what they answer on the other in another light.
-/
import Mathlib.Data.List.Forall2
import Offside.Proofs.Grammar.Acceptance
import Offside.Proofs.Program.Recast

namespace Offside

/-! ### Cursors -/

theorem mem_declaredIn {classes : List String} {new name : String} :
    name ∈ declaredIn classes new ↔ name = new ∨ name ∈ classes := by
  rw [declaredIn]
  split
  · next hknown =>
    have hmem : new ∈ classes := by simpa using hknown
    constructor
    · exact .inr
    · rintro (rfl | hname)
      · exact hmem
      · exact hname
  · rw [List.mem_append, List.mem_singleton, or_comm]

/-- Declaring classes beforehand changes nothing else. -/
theorem Cursor.predeclare_eq (c : Cursor) : c.predeclare = { c with
    classes := (classNames (c.past.reverse ++ c.rest)).foldl declaredIn c.classes } := by
  have hall (names : List String) : ∀ c : Cursor,
      names.foldl declare c = { c with classes := names.foldl declaredIn c.classes } := by
    induction names with
    | nil => exact fun _ => rfl
    | cons name names ih =>
      intro c
      rw [List.foldl_cons, ih, declare_eq, List.foldl_cons]
  exact hall _ c

theorem mem_foldl_declaredIn {names classes : List String} {name : String} :
    name ∈ names.foldl declaredIn classes ↔ name ∈ names ∨ name ∈ classes := by
  induction names generalizing classes with
  | nil => simp
  | cons first names ih =>
    rw [List.foldl_cons, ih, mem_declaredIn, List.mem_cons]
    tauto

/-- A token and the same token in another light; the lexeme does not matter. -/
structure Token.Mirrors (r : Recast) (token other : Token) : Prop where
  kind : other.kind = token.kind
  span : other.span = r.span token.span

/-- What a parser sees of a token, without its place. -/
def Token.bare (token : Token) : Token := ⟨token.kind, "", .absent⟩

namespace Token

theorem map_bare_of_kinds {tokens others : List Token}
    (h : others.map Token.kind = tokens.map Token.kind) : others.map bare = tokens.map bare := by
  have hall := congrArg (List.map fun kind => (⟨kind, "", .absent⟩ : Token)) h
  rwa [List.map_map, List.map_map] at hall

/-- Where spans are forgotten, tokens are the same in the other light without their places. -/
theorem forall₂_mirrors_bare {r : Recast} (hspan : ∀ span, r.span span = .absent)
    (tokens : List Token) : List.Forall₂ (Mirrors r) tokens (tokens.map bare) := by
  rw [List.forall₂_map_right_iff]
  exact List.forall₂_same.mpr fun token _ => ⟨rfl, (hspan token.span).symm⟩

end Token

/-- Cursors at the same place of two token streams. -/
structure Cursor.Mirrors (r : Recast) (c d : Cursor) : Prop where
  past : List.Forall₂ (Token.Mirrors r) c.past d.past
  rest : List.Forall₂ (Token.Mirrors r) c.rest d.rest
  /-- Only names that are taken for constructions may be known on one side alone. -/
  classes : ∀ name, name ∈ d.classes ↔ name ∈ r.classes ∨ name ∈ c.classes
  depth : d.depth = c.depth
  maxDepth : d.maxDepth = c.maxDepth
  blockDepth : d.blockDepth = c.blockDepth

namespace Cursor.Mirrors

variable {r : Recast} {c d : Cursor}

theorem kind (h : c.Mirrors r d) : d.kind = c.kind := by
  have hrest := h.rest
  unfold Cursor.kind
  cases hc : c.rest <;> cases hd : d.rest <;> rw [hc, hd] at hrest <;> cases hrest
  next hhead _ => exact hhead.kind

theorem isAt (h : c.Mirrors r d) (wanted : TokenKind) : d.isAt wanted = c.isAt wanted := by
  rw [Cursor.isAt, Cursor.isAt, h.kind]

theorem atEnd (h : c.Mirrors r d) : d.atEnd = c.atEnd := by
  rw [Cursor.atEnd, Cursor.atEnd, h.kind]

theorem span (h : c.Mirrors r d) : d.span = r.span c.span := by
  have hrest := h.rest
  have hpast := h.past
  unfold Cursor.span
  cases hc : c.rest <;> cases hd : d.rest <;> rw [hc, hd] at hrest <;> cases hrest
  · cases hc : c.past <;> cases hd : d.past <;> rw [hc, hd] at hpast <;> cases hpast
    · exact r.span_absent.symm
    · next hhead _ => exact hhead.span
  · next hhead _ => exact hhead.span

theorem lastSpan (h : c.Mirrors r d) : d.lastSpan = r.span c.lastSpan := by
  have hpast := h.past
  unfold Cursor.lastSpan
  cases hc : c.past <;> cases hd : d.past <;> rw [hc, hd] at hpast <;> cases hpast
  · exact h.span
  · next hhead _ => exact hhead.span

theorem next (h : c.Mirrors r d) : c.next.Mirrors r d.next := by
  obtain ⟨hpast, hrest, hclasses, hdepth, hmaxDepth, hblockDepth⟩ := h
  cases c
  cases d
  dsimp only at hpast hrest
  cases hrest with
  | nil => exact ⟨hpast, .nil, hclasses, hdepth, hmaxDepth, hblockDepth⟩
  | cons hhead htail => exact ⟨.cons hhead hpast, htail, hclasses, hdepth, hmaxDepth, hblockDepth⟩

theorem declare (h : c.Mirrors r d) (new : String) : (c.declare new).Mirrors r (d.declare new) := by
  rw [Cursor.declare_eq, Cursor.declare_eq]
  refine ⟨h.past, h.rest, fun name => ?_, h.depth, h.maxDepth, h.blockDepth⟩
  dsimp only
  rw [mem_declaredIn, mem_declaredIn, h.classes]
  exact or_left_comm

theorem setDepth (h : c.Mirrors r d) (depth : Nat) :
    ({ c with depth := depth } : Cursor).Mirrors r { d with depth := depth } :=
  ⟨h.past, h.rest, h.classes, rfl, h.maxDepth, h.blockDepth⟩

theorem setBlockDepth (h : c.Mirrors r d) (depth : Nat) :
    ({ c with blockDepth := depth } : Cursor).Mirrors r { d with blockDepth := depth } :=
  ⟨h.past, h.rest, h.classes, h.depth, h.maxDepth, rfl⟩

theorem outOfBlock (h : c.Mirrors r d) :
    ({ c with blockDepth := c.blockDepth - 1 } : Cursor).Mirrors r
      { d with blockDepth := d.blockDepth - 1 } := by
  rw [h.blockDepth]
  exact h.setBlockDepth _

theorem budget (h : c.Mirrors r d) : d.budget = c.budget := by
  rw [Cursor.budget, Cursor.budget, h.maxDepth, h.depth]

theorem expected (h : c.Mirrors r d) (what : String) :
    d.expected what = (c.expected what).recast r := by
  rw [Cursor.expected, Cursor.expected, h.kind, h.span]
  rfl

theorem unexpected (h : c.Mirrors r d) : d.unexpected = c.unexpected.recast r := by
  rw [Cursor.unexpected, Cursor.unexpected, h.kind, h.span]
  cases c.kind <;> rfl

/-- What a call denotes is in another light what it denotes there. -/
theorem called (h : c.Mirrors r d) (callee : Expr) (args : List Expr) (span : Span) :
    (callee.recast r).called d.classes (args.map (Expr.recast r)) (r.span span) =
      (callee.called c.classes args span).recast r := by
  by_cases hname : ∃ className place, callee = .name className place
  · obtain ⟨className, place, rfl⟩ := hname
    have hclass := h.classes className
    by_cases hknown : className ∈ c.classes
    · simp [Expr.recast, Expr.called, hknown, hclass]
    · by_cases htaken : className ∈ r.classes <;>
        simp [Expr.recast, Expr.called, hknown, hclass, htaken]
  · have hcallee : ∀ className place, callee ≠ .name className place :=
      fun className place heq => hname ⟨className, place, heq⟩
    have hrecast := Expr.recast_ne_name r hcallee
    rw [Expr.called_of_ne_name hcallee, Expr.recast, Expr.called_of_ne_name hrecast,
      Expr.called_of_ne_name hrecast, Expr.recastAll_eq_map]

end Cursor.Mirrors

/-! ### Rules -/

namespace Parser

variable {r : Recast} {α β : Type}

/-- On cursors at the same place the parsers answer with values that are related and leave cursors
at the same place, or they fail with the same error in another light. -/
def Mirrors (r : Recast) (p q : Parser α) (post : α → α → Prop) : Prop :=
  ∀ ⦃c d : Cursor⦄, c.Mirrors r d →
    match p c, q d with
    | .ok a c', .ok b d' => post a b ∧ c'.Mirrors r d'
    | .error error _, .error other _ => other = error.recast r
    | _, _ => False

namespace Mirrors

variable {p q : Parser α} {post : α → α → Prop}

theorem pure {a b : α} (h : post a b) : Mirrors r (pure a) (pure b) post :=
  fun _ _ hcd => ⟨h, hcd⟩

theorem throw {error other : GrammarError} (h : other = error.recast r) :
    Mirrors r (throw error : Parser α) (throw other) post :=
  fun _ _ _ => h

theorem bind {f g : α → Parser β} {result : β → β → Prop} (hp : Mirrors r p q post)
    (hf : ∀ a b, post a b → Mirrors r (f a) (g b) result) :
    Mirrors r (p >>= f) (q >>= g) result := by
  intro c d hcd
  have hfirst := hp hcd
  cases hc : p c <;> cases hd : q d <;> rw [hc, hd] at hfirst
  · rw [bind_ok hc, bind_ok hd]
    exact hf _ _ hfirst.1 hfirst.2
  · exact hfirst.elim
  · exact hfirst.elim
  · rw [bind_error hc, bind_error hd]
    exact hfirst

/-- A first step whose values are not used. -/
theorem seq {f g : α → Parser β} {result : β → β → Prop} (hp : Mirrors r p q post)
    (hf : ∀ a b, Mirrors r (f a) (g b) result) : Mirrors r (p >>= f) (q >>= g) result :=
  hp.bind fun a b _ => hf a b

theorem ite {condition other : Prop} [Decidable condition] [Decidable other] {p' q' : Parser α}
    (h : condition ↔ other) (hp : Mirrors r p q post) (hq : Mirrors r p' q' post) :
    Mirrors r (if condition then p else p') (if other then q else q') post := by
  by_cases hcondition : condition
  · rw [if_pos hcondition, if_pos (h.mp hcondition)]
    exact hp
  · rw [if_neg hcondition, if_neg (fun hother => hcondition (h.mpr hother))]
    exact hq

theorem get : Mirrors r (get : Parser Cursor) get fun c d => c.Mirrors r d :=
  fun _ _ hcd => ⟨hcd, hcd⟩

theorem bump : Mirrors r bump bump fun _ _ => True :=
  fun _ _ hcd => ⟨trivial, hcd.next⟩

theorem skip (wanted : TokenKind) : Mirrors r (skip wanted) (skip wanted) Eq := by
  intro c d hcd
  rw [Parser.skip, Parser.skip, hcd.isAt]
  by_cases h : c.isAt wanted = true
  · rw [if_pos h, if_pos h]
    exact ⟨rfl, hcd.next⟩
  · rw [if_neg h, if_neg h]
    exact ⟨rfl, hcd⟩

theorem expect (wanted : TokenKind) (what : String) :
    Mirrors r (expect wanted what) (expect wanted what) fun _ _ => True := by
  intro c d hcd
  have hrest := hcd.rest
  have hexpected := hcd.expected what
  unfold Parser.expect
  cases hc : c.rest <;> cases hd : d.rest <;> rw [hc, hd] at hrest <;> cases hrest
  · exact hexpected
  · next token _ other _ hhead _ =>
    dsimp only
    rw [hhead.kind]
    by_cases h : token.kind.isA wanted = true
    · rw [if_pos h, if_pos h]
      exact ⟨trivial, hcd.next⟩
    · rw [if_neg h, if_neg h]
      exact hexpected

theorem expectIdentifier (what : String) :
    Mirrors r (expectIdentifier what) (expectIdentifier what) fun found other =>
      other = (found.1, r.span found.2) := by
  intro c d hcd
  unfold Parser.expectIdentifier
  rw [hcd.kind]
  cases c.kind with
  | identifier name => exact ⟨by rw [hcd.span], hcd.next⟩
  | literal | keyword | reserved | symbol | layout => exact hcd.expected what

theorem expectLineEnd : Mirrors r expectLineEnd expectLineEnd fun _ _ => True := by
  intro c d hcd
  rw [Parser.expectLineEnd, Parser.expectLineEnd, hcd.isAt, hcd.atEnd]
  by_cases hline : c.isAt (.layout .newline) = true
  · rw [if_pos hline, if_pos hline]
    exact ⟨trivial, hcd.next⟩
  · rw [if_neg hline, if_neg hline]
    by_cases hend : c.atEnd = true
    · rw [if_pos hend, if_pos hend]
      exact ⟨trivial, hcd⟩
    · rw [if_neg hend, if_neg hend]
      exact hcd.expected _

theorem declare (name : String) :
    Mirrors r (modify (·.declare name) : Parser Unit) (modify (·.declare name)) fun _ _ => True :=
  fun _ _ hcd => ⟨trivial, hcd.declare name⟩

theorem tooDeep : Mirrors r (tooDeep : Parser α) tooDeep post := by
  intro c d hcd
  change GrammarError.nestingTooDeep d.maxDepth d.span = _
  rw [hcd.maxDepth, hcd.span]
  rfl

theorem enterNesting : Mirrors r enterNesting enterNesting fun _ _ => True := by
  intro c d hcd
  have hlt : d.depth < d.maxDepth ↔ c.depth < c.maxDepth := by rw [hcd.maxDepth, hcd.depth]
  rw [Parser.enterNesting, Parser.enterNesting]
  by_cases h : c.depth < c.maxDepth
  · rw [if_pos h, if_pos (hlt.mpr h), hcd.depth]
    exact ⟨trivial, hcd.setDepth _⟩
  · rw [if_neg h, if_neg (fun hother => h (hlt.mp hother))]
    have hdeep : Mirrors r (Parser.tooDeep : Parser Unit) Parser.tooDeep fun _ _ => True := tooDeep
    exact hdeep hcd

theorem nested (h : Mirrors r p q post) : Mirrors r (nested p) (nested q) post := by
  intro c d hcd
  have hinner : Mirrors r (do Parser.enterNesting; p) (do Parser.enterNesting; q) post :=
    enterNesting.seq fun _ _ => h
  have hresult := hinner hcd
  rw [Parser.nested, Parser.nested, hcd.depth]
  cases hc : (do Parser.enterNesting; p : Parser α) c <;>
    cases hd : (do Parser.enterNesting; q : Parser α) d <;> rw [hc, hd] at hresult
  · exact ⟨hresult.1, hresult.2.setDepth _⟩
  · exact hresult.elim
  · exact hresult.elim
  · exact hresult

theorem inBlockBody (h : Mirrors r p q post) :
    Mirrors r (inBlockBody p) (inBlockBody q) post := by
  intro c d hcd
  have hresult := h.nested (hcd.setBlockDepth (c.blockDepth + 1))
  rw [Parser.inBlockBody, Parser.inBlockBody, hcd.blockDepth]
  cases hc : Parser.nested p { c with blockDepth := c.blockDepth + 1 } <;>
    cases hd : Parser.nested q { d with blockDepth := c.blockDepth + 1 } <;>
      rw [hc, hd] at hresult
  · exact ⟨hresult.1, hresult.2.outOfBlock⟩
  · exact hresult.elim
  · exact hresult.elim
  · exact hresult

variable {see : α → α}

theorem itemsAfter {item : List α → Parser α}
    (h : ∀ before, Mirrors r (item before) (item (before.map see)) fun a b => b = see a)
    (count : Nat) (before : List α) :
    Mirrors r (itemsAfter item count before) (itemsAfter item count (before.map see))
      fun values others => others = values.map see := by
  induction count generalizing before with
  | zero => exact .pure List.map_reverse.symm
  | succ count ih =>
    refine get.bind fun c d hcd => .ite (by rw [hcd.isAt]) (.pure List.map_reverse.symm) ?_
    refine (h before).bind fun a b hab => (skip _).bind fun comma other hcomma => ?_
    subst hab hcomma
    exact .ite Iff.rfl (ih (a :: before)) (.pure (by simp))

theorem items {item : List α → Parser α}
    (h : ∀ before, Mirrors r (item before) (item (before.map see)) fun a b => b = see a) :
    Mirrors r (items item) (items item) fun values others => others = values.map see := by
  refine get.bind fun c d hcd => ?_
  rw [← hcd.rest.length_eq]
  exact (itemsAfter h _ []).bind fun _ _ hvalues => (expect _ _).seq fun _ _ => .pure hvalues

theorem repeatUntil {stop : Cursor → Bool} (hstop : ∀ c d : Cursor, c.Mirrors r d → stop d = stop c)
    (h : Mirrors r p q fun a b => b = see a) (count : Nat) :
    Mirrors r (repeatUntil stop p count) (repeatUntil stop q count)
      fun values others => others = values.map see := by
  induction count with
  | zero => exact .pure rfl
  | succ count ih =>
    refine get.bind fun c d hcd => .ite (by rw [hstop c d hcd]) (.pure rfl) ?_
    exact h.bind fun _ _ hfirst => ih.bind fun _ _ hothers => .pure (by rw [hfirst, hothers]; rfl)

theorem manyUntil {stop : Cursor → Bool} (hstop : ∀ c d : Cursor, c.Mirrors r d → stop d = stop c)
    (h : Mirrors r p q fun a b => b = see a) :
    Mirrors r (manyUntil stop p) (manyUntil stop q)
      fun values others => others = values.map see := by
  refine get.bind fun c d hcd => ?_
  rw [← hcd.rest.length_eq]
  exact repeatUntil hstop h _

end Mirrors

/-! ### Expressions -/

/-- Expressions that are each other in another light. -/
abbrev MirrorsExpr (r : Recast) (p q : Parser Expr) : Prop :=
  Mirrors r p q fun e e' => e' = e.recast r

theorem mirrors_operand {deeper : Nat → Parser Expr}
    (h : ∀ level, MirrorsExpr r (deeper level) (deeper level)) (level : Nat) :
    MirrorsExpr r (operand deeper level) (operand deeper level) := by
  refine Mirrors.get.bind fun c d hcd => ?_
  have hspan := hcd.span
  dsimp only
  rw [hcd.kind, hspan, hcd.unexpected, hcd.expected]
  split
  case h_1 => exact Mirrors.bump.seq fun _ _ => .pure rfl
  case h_2 => exact Mirrors.bump.seq fun _ _ => .pure rfl
  case h_3 =>
    exact Mirrors.bump.seq fun _ _ => (h _).bind fun _ _ hinner =>
      (Mirrors.expect _ _).seq fun _ _ => .pure hinner
  case h_4 =>
    refine Mirrors.bump.seq fun _ _ => (h _).bind fun inner other hinner => .pure ?_
    rw [hinner, Expr.recast, Expr.span_recast, r.span_through]
  case h_5 => exact Mirrors.bump.seq fun _ _ => h _
  case h_6 =>
    refine .ite Iff.rfl (Mirrors.bump.seq fun _ _ => (h _).bind fun inner other hinner => .pure ?_)
      (.throw rfl)
    rw [hinner, Expr.recast, Expr.span_recast, r.span_through]
  case h_7 => exact .throw rfl
  case h_8 => exact .throw rfl

theorem mirrors_arguments {deeper : Nat → Parser Expr}
    (h : ∀ level, MirrorsExpr r (deeper level) (deeper level)) :
    Mirrors r (arguments deeper) (arguments deeper)
      fun args others => others = args.map (Expr.recast r) :=
  .items fun _ => h _

theorem mirrors_extend {deeper : Nat → Parser Expr}
    (h : ∀ level, MirrorsExpr r (deeper level) (deeper level)) (left : Expr)
    (extension : Extension) :
    MirrorsExpr r (extend deeper left extension) (extend deeper (left.recast r) extension) := by
  cases extension with
  | call =>
    intro c d hcd
    have hcall : MirrorsExpr r
        (do let args ← arguments deeper
            let after ← get
            pure (left.called after.classes args (left.span.through after.lastSpan)))
        (do let args ← arguments deeper
            let after ← get
            pure ((left.recast r).called after.classes args
              ((left.recast r).span.through after.lastSpan))) := by
      refine (mirrors_arguments h).bind fun args others hargs => Mirrors.get.bind fun c d hcd =>
        .pure ?_
      rw [hargs, ← hcd.called, Expr.span_recast, hcd.lastSpan, r.span_through]
    rw [extend, extend, callOf_eq, callOf_eq]
    exact hcall hcd.next
  | member =>
    refine Mirrors.bump.seq fun _ _ => (Mirrors.expectIdentifier _).bind fun found other hfound =>
      (Mirrors.skip _).bind fun opened _ hopened => ?_
    subst hfound hopened
    refine .ite Iff.rfl ?_ (.pure ?_)
    · refine (mirrors_arguments h).bind fun args others hargs => Mirrors.get.bind fun c d hcd =>
        .pure ?_
      rw [hargs, hcd.lastSpan, Expr.recast, Expr.span_recast, r.span_through, Expr.recastAll_eq_map]
    · rw [Expr.recast, Expr.span_recast, r.span_through]
  | join joining =>
    refine Mirrors.bump.seq fun _ _ => (h _).bind fun right other hright => .pure ?_
    rw [hright, Expr.recast, Expr.span_recast, Expr.span_recast, r.span_through]

theorem mirrors_exprAt (budget : Nat) :
    (∀ level, MirrorsExpr r (exprAt budget level) (exprAt budget level)) ∧
      ∀ level left, MirrorsExpr r (extendAt budget level left)
        (extendAt budget level (left.recast r)) := by
  induction budget with
  | zero =>
    refine ⟨fun level => .nested .tooDeep, fun level left => Mirrors.get.bind fun c d hcd => ?_⟩
    rw [hcd.kind]
    split
    · exact .pure rfl
    · exact .tooDeep
  | succ budget ih =>
    refine ⟨fun level => ?_, fun level left c d hcd => ?_⟩
    · refine .nested ((mirrors_operand ih.1 level).bind fun left other hleft => ?_)
      rw [hleft]
      exact ih.2 level left
    · have hmore (extension : Extension) : MirrorsExpr r
          (do enterNesting; let wrapped ← extend (exprAt budget) left extension
              extendAt budget level wrapped)
          (do enterNesting; let wrapped ← extend (exprAt budget) (left.recast r) extension
              extendAt budget level wrapped) := by
        refine Mirrors.enterNesting.seq fun _ _ =>
          (mirrors_extend ih.1 left extension).bind fun wrapped other hwrapped => ?_
        rw [hwrapped]
        exact ih.2 level wrapped
      simp only [extendAt, hcd.kind]
      cases extension? level c.kind with
      | none => exact ⟨rfl, hcd⟩
      | some extension => exact hmore extension hcd

theorem mirrors_expr (level : Nat) : MirrorsExpr r (expr level) (expr level) := by
  intro c d hcd
  rw [expr, expr, hcd.budget]
  exact (mirrors_exprAt c.budget).1 level hcd

/-! ### Statements -/

theorem isAssignable_recast (r : Recast) (e : Expr) :
    (e.recast r).isAssignable = e.isAssignable := by
  cases e with
  | call callee args span =>
    rcases Expr.called_cases r.classes (callee.recast r) (Expr.recastAll r args) (r.span span) with
      h | ⟨_, _, -, -, h⟩ <;> rw [Expr.recast, h] <;> rfl
  | _ => rfl

theorem targetName_recast (r : Recast) (e : Expr) : targetName (e.recast r) = targetName e := by
  cases e with
  | call callee args span =>
    rcases Expr.called_cases r.classes (callee.recast r) (Expr.recastAll r args) (r.span span) with
      h | ⟨_, _, -, -, h⟩ <;> rw [Expr.recast, h] <;> rfl
  | _ => rfl

/-- Statements that are each other in another light. -/
abbrev MirrorsStmt (r : Recast) (p q : Parser Stmt) : Prop :=
  Mirrors r p q fun s s' => s' = s.recast r

theorem mirrors_checkTarget (target : Expr) :
    Mirrors r (checkTarget target) (checkTarget (target.recast r)) fun _ _ => True := by
  rw [checkTarget, checkTarget, isAssignable_recast]
  refine .ite Iff.rfl (.pure trivial) (.throw ?_)
  rw [targetName_recast, Expr.span_recast]
  rfl

theorem mirrors_simpleStatement : MirrorsStmt r simpleStatement simpleStatement := by
  have hend {build other : Span → Stmt} (h : ∀ span, other (r.span span) = (build span).recast r)
      (start : Span) : MirrorsStmt r
      (do let built ← pure build
          let c ← get
          expectLineEnd
          pure (built (start.through c.lastSpan)))
      (do let built ← pure other
          let c ← get
          expectLineEnd
          pure (built ((r.span start).through c.lastSpan))) := by
    have hbuild : Mirrors r (pure build) (pure other) fun built built' =>
        ∀ span, built' (r.span span) = (built span).recast r := .pure h
    refine hbuild.bind fun built built' hbuilt => Mirrors.get.bind fun c d hcd =>
      Mirrors.expectLineEnd.seq fun _ _ => .pure ?_
    rw [hcd.lastSpan, ← r.span_through, hbuilt]
  refine Mirrors.get.bind fun c d hcd => (mirrors_expr _).bind fun target other htarget =>
    Mirrors.get.bind fun c' d' hcd' => ?_
  rw [hcd.span, htarget, hcd'.kind]
  refine .ite Iff.rfl ?_ ?_
  · refine (mirrors_checkTarget target).seq fun _ _ => Mirrors.bump.seq fun _ _ =>
      (mirrors_expr _).bind fun value other hvalue => hend (fun span => ?_) _
    rw [hvalue, Stmt.recast]
  · cases c'.kind.augmentation? with
    | some op =>
      refine (mirrors_checkTarget target).seq fun _ _ => Mirrors.bump.seq fun _ _ =>
        (mirrors_expr _).bind fun value other hvalue => hend (fun span => ?_) _
      rw [hvalue, Stmt.recast, Expr.recast, Expr.span_recast, Expr.span_recast, r.span_through]
    | none => exact hend (fun span => by rw [Stmt.recast]) _

theorem mirrors_returnStatement : MirrorsStmt r returnStatement returnStatement := by
  have hend (value : Option Expr) (start : Span) : MirrorsStmt r
      (do let read ← pure value
          let c ← get
          expectLineEnd
          pure (.leave read (start.through c.lastSpan)))
      (do let read ← pure (value.map (Expr.recast r))
          let c ← get
          expectLineEnd
          pure (.leave read ((r.span start).through c.lastSpan))) := by
    have hvalue : Mirrors r (pure value) (pure (value.map (Expr.recast r))) fun read other =>
        other = read.map (Expr.recast r) := .pure rfl
    refine hvalue.bind fun read other hread => Mirrors.get.bind fun c d hcd =>
      Mirrors.expectLineEnd.seq fun _ _ => .pure ?_
    rw [hread, hcd.lastSpan, Stmt.recast, r.span_through]
  refine Mirrors.get.bind fun c d hcd => Mirrors.bump.seq fun _ _ =>
    Mirrors.get.bind fun c' d' hcd' => ?_
  rw [hcd.span]
  refine .ite (by rw [hcd'.isAt, hcd'.atEnd]) (hend none _) ?_
  refine (mirrors_expr _).bind fun value other hvalue => ?_
  rw [hvalue]
  exact hend (some value) _

theorem mirrors_wordStatement {build : Span → Stmt}
    (h : ∀ span, build (r.span span) = (build span).recast r) :
    MirrorsStmt r (wordStatement build) (wordStatement build) := by
  refine Mirrors.get.bind fun c d hcd => Mirrors.bump.seq fun _ _ =>
    Mirrors.expectLineEnd.seq fun _ _ => .pure ?_
  rw [hcd.span, h]

theorem mirrors_openBlock : Mirrors r openBlock openBlock fun _ _ => True := by
  refine (Mirrors.expect _ _).seq fun _ _ => (Mirrors.expect _ _).seq fun _ _ =>
    (Mirrors.expect _ _).seq fun _ _ => Mirrors.get.bind fun c d hcd => ?_
  rw [hcd.isAt, hcd.span]
  exact .ite Iff.rfl (.throw rfl) (.pure trivial)

theorem mirrors_closeBlock : Mirrors r closeBlock closeBlock fun _ _ => True :=
  (Mirrors.expect _ _).seq fun _ _ => .pure trivial

theorem atBlockEnd_mirrors {c d : Cursor} (h : c.Mirrors r d) : atBlockEnd d = atBlockEnd c := by
  rw [atBlockEnd, atBlockEnd, h.isAt, h.atEnd]

section

variable {statement statement' alternative alternative' : Parser Stmt}

theorem mirrors_blockOf (h : MirrorsStmt r statement statement') :
    Mirrors r (blockOf statement) (blockOf statement')
      fun body other => other = body.map (Stmt.recast r) :=
  mirrors_openBlock.seq fun _ _ =>
    (Mirrors.inBlockBody (.manyUntil (fun _ _ => atBlockEnd_mirrors) h)).bind fun _ _ hbody =>
      mirrors_closeBlock.seq fun _ _ => .pure hbody

theorem mirrors_param (before : List Param) :
    Mirrors r (param before) (param (before.map (Param.recast r)))
      fun p q => q = p.recast r := by
  refine (Mirrors.expectIdentifier _).bind fun found other hfound => ?_
  subst hfound
  have hnames : (before.map (Param.recast r)).any (·.name == found.1) =
      before.any (·.name == found.1) := by
    rw [List.any_map]
    rfl
  dsimp only
  rw [hnames]
  exact .ite Iff.rfl (.throw rfl) (.pure rfl)

theorem mirrors_functionDef (h : MirrorsStmt r statement statement') :
    Mirrors r (functionDef statement) (functionDef statement')
      fun f g => g = Stmt.recastFunction r f := by
  refine Mirrors.get.bind fun c d hcd => (Mirrors.expect _ _).seq fun _ _ =>
    (Mirrors.expectIdentifier _).bind fun found other hfound => (Mirrors.expect _ _).seq fun _ _ =>
      (Mirrors.items mirrors_param).bind fun params _ hparams =>
        (mirrors_blockOf h).bind fun body _ hbody => Mirrors.get.bind fun c' d' hcd' => .pure ?_
  rw [hfound, hparams, hbody, hcd.span, hcd'.lastSpan, Stmt.recastFunction, r.span_through,
    Stmt.recastAll_eq_map]

theorem mirrors_method (h : MirrorsStmt r statement statement') :
    Mirrors r (method statement) (method statement')
      fun f g => g = Stmt.recastFunction r f := by
  refine Mirrors.get.bind fun c d hcd => ?_
  rw [hcd.isAt]
  exact .ite Iff.rfl (mirrors_functionDef h) (.throw (hcd.expected _))

theorem mirrors_classStatement (h : MirrorsStmt r statement statement') :
    MirrorsStmt r (classStatement statement) (classStatement statement') := by
  refine Mirrors.get.bind fun c d hcd => Mirrors.bump.seq fun _ _ =>
    (Mirrors.expectIdentifier _).bind fun found other hfound => ?_
  subst hfound
  refine (Mirrors.declare _).seq fun _ _ => mirrors_openBlock.seq fun _ _ =>
    (Mirrors.manyUntil (fun _ _ => atBlockEnd_mirrors) (mirrors_method h)).bind
      fun methods _ hmethods => mirrors_closeBlock.seq fun _ _ => Mirrors.get.bind fun c' d' hcd' =>
        .pure ?_
  rw [hmethods, hcd.span, hcd'.lastSpan, Stmt.recast, r.span_through, Stmt.recastFunctions_eq_map]

theorem mirrors_branchOf (h : MirrorsStmt r statement statement')
    (halternative : MirrorsStmt r alternative alternative') :
    MirrorsStmt r (branchOf statement alternative) (branchOf statement' alternative') := by
  have hend (test : Expr) (thenBody : List Stmt) (elseBody : Option (List Stmt)) (start : Span) :
      MirrorsStmt r
        (do let read ← pure elseBody
            let c ← get
            pure (.branch test thenBody read (start.through c.lastSpan)))
        (do let read ← pure (Stmt.recastElse r elseBody)
            let c ← get
            pure (.branch (test.recast r) (thenBody.map (Stmt.recast r)) read
              ((r.span start).through c.lastSpan))) := by
    have helse : Mirrors r (pure elseBody) (pure (Stmt.recastElse r elseBody)) fun read other =>
        other = Stmt.recastElse r read := .pure rfl
    refine helse.bind fun read other hread => Mirrors.get.bind fun c d hcd => .pure ?_
    rw [hread, hcd.lastSpan, Stmt.recast, r.span_through, Stmt.recastAll_eq_map]
  refine Mirrors.get.bind fun c d hcd => Mirrors.bump.seq fun _ _ =>
    (mirrors_expr _).bind fun test _ htest => (mirrors_blockOf h).bind fun thenBody _ hthen =>
      Mirrors.get.bind fun c' d' hcd' => (Mirrors.skip _).bind fun found _ hfound => ?_
  subst htest hthen hfound
  rw [hcd.span, hcd'.isAt]
  refine .ite Iff.rfl ?_ (.ite Iff.rfl ?_ (hend test thenBody none _))
  · refine (Mirrors.nested halternative).bind fun branch _ hbranch => ?_
    rw [hbranch]
    exact hend test thenBody (some [branch]) _
  · refine (mirrors_blockOf h).bind fun body _ hbody => ?_
    rw [hbody, ← Stmt.recastAll_eq_map]
    exact hend test thenBody (some body) _

theorem mirrors_loopOf (h : MirrorsStmt r statement statement') :
    MirrorsStmt r (loopOf statement) (loopOf statement') := by
  refine Mirrors.get.bind fun c d hcd => Mirrors.bump.seq fun _ _ =>
    (mirrors_expr _).bind fun test _ htest => (mirrors_blockOf h).bind fun body _ hbody =>
      Mirrors.get.bind fun c' d' hcd' => .pure ?_
  rw [htest, hbody, hcd.span, hcd'.lastSpan, Stmt.recast, r.span_through, Stmt.recastAll_eq_map]

theorem mirrors_statementOf (h : MirrorsStmt r statement statement')
    (halternative : MirrorsStmt r alternative alternative') :
    MirrorsStmt r (statementOf statement alternative) (statementOf statement' alternative') := by
  refine Mirrors.get.bind fun c d hcd => ?_
  have hblock : d.inBlock = c.inBlock := by rw [Cursor.inBlock, Cursor.inBlock, hcd.blockDepth]
  rw [hcd.kind, hblock, hcd.span, hcd.unexpected]
  split
  case h_1 =>
    refine .ite Iff.rfl (.throw rfl)
      ((mirrors_functionDef h).bind fun definition _ hdef => .pure ?_)
    rw [hdef, Stmt.recast, Stmt.span_recastFunction]
  case h_2 => exact .ite Iff.rfl (.throw rfl) (mirrors_classStatement h)
  case h_3 => exact mirrors_branchOf h halternative
  case h_4 => exact mirrors_loopOf h
  case h_5 => exact mirrors_returnStatement
  case h_6 => exact mirrors_wordStatement fun span => by rw [Stmt.recast]
  case h_7 => exact mirrors_wordStatement fun span => by rw [Stmt.recast]
  case h_8 => exact mirrors_wordStatement fun span => by rw [Stmt.recast]
  case h_9 => exact .throw rfl
  case h_10 => exact .throw rfl
  case h_11 => exact mirrors_simpleStatement

end

theorem mirrors_statementAt (budget : Nat) :
    MirrorsStmt r (statementAt budget) (statementAt budget) ∧
      MirrorsStmt r (alternativeAt budget) (alternativeAt budget) := by
  induction budget with
  | zero => exact ⟨mirrors_statementOf .tooDeep .tooDeep, mirrors_branchOf .tooDeep .tooDeep⟩
  | succ budget ih => exact ⟨mirrors_statementOf ih.1 ih.2, mirrors_branchOf ih.1 ih.2⟩

theorem mirrors_statement : MirrorsStmt r statement statement := by
  intro c d hcd
  rw [statement, statement, hcd.budget]
  exact (mirrors_statementAt c.budget).1 hcd

theorem mirrors_program :
    Mirrors r program program fun m m' => m' = m.recast r := by
  refine (Mirrors.manyUntil (fun _ _ h => h.atEnd) mirrors_statement).bind
    fun body other hbody => .pure ?_
  subst hbody
  rw [List.head?_map, List.getLast?_map, Module.recast]
  cases body.head? with
  | none => exact congrArg (Module.mk _) r.span_absent.symm
  | some first =>
    cases body.getLast? with
    | none => exact congrArg (Module.mk _) r.span_absent.symm
    | some last =>
      refine congrArg (Module.mk _) ?_
      change (Stmt.span (first.recast r)).through (Stmt.span (last.recast r)) =
        r.span (first.span.through last.span)
      rw [Stmt.span_recast, Stmt.span_recast, r.span_through]

/-- At the same place parsers answer with what is each other in another light. -/
theorem Mirrors.answer_eq {α : Type} {p q : Parser α} {see : α → α}
    (h : Mirrors r p q fun a b => b = see a) {c d : Cursor} (hcd : c.Mirrors r d) :
    q.answer d = match p.answer c with
      | .ok a => .ok (see a)
      | .error error => .error (error.recast r) := by
  have hresult := h hcd
  rw [answer, answer]
  cases hc : p c <;> cases hd : q d <;> rw [hc, hd] at hresult
  · exact congrArg Except.ok hresult.1
  · exact hresult.elim
  · exact hresult.elim
  · exact congrArg Except.error hresult

end Parser

/-! ### Programs -/

namespace Module

/-- The classes that are known before the first token. -/
def knownAtStart (tokens : List Token) (predeclare : Bool) : List String :=
  if predeclare then Cursor.classNames tokens else []

theorem mem_classes_startCursor {tokens : List Token} {predeclare : Bool} {name : String} :
    name ∈ (startCursor tokens predeclare).classes ↔ name ∈ knownAtStart tokens predeclare := by
  cases predeclare with
  | false => rfl
  | true =>
    rw [startCursor, if_pos rfl, Cursor.predeclare_eq, mem_foldl_declaredIn, knownAtStart,
      if_pos rfl]
    simp [Cursor.ofTokens]

/-- Whatever is declared beforehand, reading starts in front of all tokens. -/
theorem exists_startCursor_eq (tokens : List Token) (predeclare : Bool) :
    ∃ classes, startCursor tokens predeclare =
      { Cursor.ofTokens tokens Cursor.defaultMaxDepth with classes := classes } := by
  cases predeclare with
  | false => exact ⟨_, rfl⟩
  | true => exact ⟨_, Cursor.predeclare_eq _⟩

theorem startCursor_mirrors {r : Recast} {tokens others : List Token} {first second : Bool}
    (h : List.Forall₂ (Token.Mirrors r) tokens others)
    (hclasses : ∀ name, name ∈ knownAtStart others second ↔
      name ∈ r.classes ∨ name ∈ knownAtStart tokens first) :
    (startCursor tokens first).Mirrors r (startCursor others second) := by
  have hknown (name : String) : name ∈ (startCursor others second).classes ↔
      name ∈ r.classes ∨ name ∈ (startCursor tokens first).classes := by
    rw [mem_classes_startCursor, mem_classes_startCursor, hclasses]
  obtain ⟨known, hc⟩ := exists_startCursor_eq tokens first
  obtain ⟨other, hd⟩ := exists_startCursor_eq others second
  rw [hc, hd] at hknown ⊢
  exact ⟨.nil, h, hknown, rfl, rfl, rfl⟩

/-- Tokens that are each other in another light are read as programs that are, or fail with errors
that are. -/
theorem ofTokens_mirrors {r : Recast} {tokens others : List Token} {first second : Bool}
    (h : List.Forall₂ (Token.Mirrors r) tokens others)
    (hclasses : ∀ name, name ∈ knownAtStart others second ↔
      name ∈ r.classes ∨ name ∈ knownAtStart tokens first) :
    ofTokens others second = match ofTokens tokens first with
      | .ok program => .ok (program.recast r)
      | .error error => .error (error.recast r) := by
  rw [ofTokens, ofTokens, Parser.mirrors_program.answer_eq (startCursor_mirrors h hclasses)]
  cases Parser.program.answer (startCursor tokens first) <;> rfl

end Module

end Offside
