/-
What the program parser accepts is in the grammar: the tokens it has read spell the program it
answers with, and the layout tokens among them open and close its blocks.
-/
import Mathlib.Data.List.Nodup
import Offside.Grammar.Statement
import Offside.Proofs.Grammar.Recognition
import Offside.Proofs.Grammar.Sentences
import Offside.Proofs.Token.Shape

namespace Offside

theorem spanOf_append_singleton (first last : Token) (tokens : List Token) :
    spanOf (first :: (tokens ++ [last])) = first.span.through last.span := by
  rw [spanOf, ← List.cons_append, List.getLast?_concat]
  rfl

theorem SimpleForm.ne_nil {classes : List String} {s : Stmt} {tokens : List Token}
    (h : SimpleForm classes s tokens) : tokens ≠ [] := by
  cases h with
  | eval value => exact List.ne_nil_of_length_pos value.length_pos
  | assign | augmented | leave | leaveWith | pass | breakLoop | continueLoop => simp

theorem ClauseForm.ne_nil_of_branch {classes : List String} {key : Keyword} {s : Stmt}
    {tokens : List Token} (h : ClauseForm classes (.branch key s) tokens) : tokens ≠ [] := by
  cases h
  exact List.cons_ne_nil _ _

namespace Cursor

variable {c c' : Cursor} {read : List Token}

theorem spanOf_of_reads (h : c.Reads read c') (hne : read ≠ []) :
    c.span.through c'.lastSpan = spanOf read := by
  obtain ⟨init, last, hlast⟩ := (List.eq_nil_or_concat read).resolve_left hne
  rw [List.concat_eq_append] at hlast
  subst hlast
  rw [lastSpan_of_reads h]
  cases init with
  | nil => rw [h.span]; rfl
  | cons first init => rw [h.span, List.cons_append, spanOf_append_singleton]

theorem Reads.length_lt (h : c.Reads read c') (hne : read ≠ []) :
    c'.rest.length < c.rest.length := by
  rw [h.rest, List.length_append]
  have hpos := List.length_pos_iff.mpr hne
  omega

theorem Reads.outOfBlock {depth : Nat}
    (h : ({ c with blockDepth := c.blockDepth + 1, depth := depth } : Cursor).Reads read c')
    (last : Nat) : c.Reads read { c' with depth := last, blockDepth := c'.blockDepth - 1 } :=
  ⟨h.rest, h.past, h.classes, h.maxDepth, congrArg (· - 1) h.blockDepth⟩

theorem classes_declare (c : Cursor) (name : String) :
    (c.declare name).classes = declaredIn c.classes name := by
  rw [declare, declaredIn, isClass]
  split <;> rfl

theorem declare_eq (c : Cursor) (name : String) :
    c.declare name = { c with classes := declaredIn c.classes name } := by
  rw [declare, declaredIn, isClass]
  split <;> rfl

@[simp] theorem depth_declare (c : Cursor) (name : String) : (c.declare name).depth = c.depth := by
  rw [declare_eq]

/-- A way over tokens with the declaration of a class on it. -/
theorem Reads.declare {mid : Cursor} {name : String} {first second : List Token}
    (hfirst : c.Reads first mid) (hsecond : (mid.declare name).Reads second c') :
    ({ c with classes := declaredIn c.classes name } : Cursor).Reads (first ++ second) c' := by
  rw [declare_eq, hfirst.classes] at hsecond
  have hbefore : ({ c with classes := declaredIn c.classes name } : Cursor).Reads first
      { mid with classes := declaredIn c.classes name } :=
    ⟨hfirst.rest, hfirst.past, rfl, hfirst.maxDepth, hfirst.blockDepth⟩
  exact hbefore.trans hsecond

end Cursor

namespace Parser

variable {c c' : Cursor} {statement alternative : Parser Stmt}

/-! ### Lines -/

theorem expectLineEnd_ok {a : Unit} (h : expectLineEnd c = .ok a c') :
    (∃ newline, newline.kind = .layout .newline ∧ c.Reads [newline] c' ∧ c'.depth = c.depth) ∨
      (c' = c ∧ c.atEnd = true) := by
  rw [expectLineEnd] at h
  split at h
  case isTrue hline =>
    cases h
    obtain ⟨newline, rest, hrest, hkind⟩ :=
      Cursor.exists_token ((TokenKind.isA_layout _ _).mp hline) (by simp)
    exact .inl ⟨newline, hkind, Cursor.reads_next hrest, Cursor.depth_next c⟩
  case isFalse =>
    split at h
    case isTrue hend => cases h; exact .inr ⟨rfl, hend⟩
    case isFalse => cases h

/-- A simple statement has been read with the end of its line, or up to the end of the input. -/
def ReadsSimple (c : Cursor) (s : Stmt) (c' : Cursor) : Prop :=
  c'.depth = c.depth ∧ ∃ read, SimpleForm c.classes s read ∧
    ((∃ newline, newline.kind = .layout .newline ∧ c.Reads (read ++ [newline]) c') ∨
      (c.Reads read c' ∧ c'.atEnd = true))

theorem readsSimple_of_expectLineEnd {s : Stmt} {mid : Cursor} {read : List Token} {a : Unit}
    (hread : c.Reads read mid) (hdepth : mid.depth = c.depth)
    (hform : SimpleForm c.classes s read) (h : expectLineEnd mid = .ok a c') :
    ReadsSimple c s c' := by
  rcases expectLineEnd_ok h with ⟨newline, hkind, hnewline, hdepth'⟩ | ⟨rfl, hend⟩
  · exact ⟨hdepth'.trans hdepth, read, hform, .inl ⟨newline, hkind, hread.trans hnewline⟩⟩
  · exact ⟨hdepth, read, hform, .inr ⟨hread, hend⟩⟩

theorem readsSimple_of_lineEnd {build : Span → Stmt} {s : Stmt} {mid : Cursor}
    {read : List Token} (hread : c.Reads read mid) (hdepth : mid.depth = c.depth)
    (hne : read ≠ []) (hform : SimpleForm c.classes (build (spanOf read)) read)
    (h : (do
      let span := c.span.through (← get).lastSpan
      expectLineEnd
      pure (build span) : Parser Stmt) mid = .ok s c') : ReadsSimple c s c' := by
  rw [get_bind] at h
  obtain ⟨_, after, hend, h⟩ := exists_of_bind_ok h
  cases h
  rw [Cursor.spanOf_of_reads hread hne]
  exact readsSimple_of_expectLineEnd hread hdepth hform hend

theorem of_checkTarget_bind {α : Type} {target : Expr} {f : Unit → Parser α} {a : α}
    (h : (checkTarget target >>= f) c = .ok a c') :
    target.isAssignable = true ∧ f () c = .ok a c' := by
  rw [checkTarget] at h
  split at h
  case isTrue htarget => exact ⟨htarget, h⟩
  case isFalse => cases h

theorem simpleStatement_reads {s : Stmt} (h : simpleStatement c = .ok s c') : ReadsSimple c s c' := by
  rw [simpleStatement, get_bind] at h
  obtain ⟨target, mid, htarget, hrest⟩ := exists_of_bind_ok h
  rw [get_bind] at hrest
  obtain ⟨targetTokens, hreads, hdepth, hplace, -⟩ := expr_derives htarget
  have hsign {sign : TokenKind} (hkind : mid.kind = sign) (hne : sign ≠ .layout .endOfInput)
      {value : Expr} {last : Cursor} (hvalue : expr Binding.lowest mid.next = .ok value last) :
      ∃ token valueTokens, token.kind = sign ∧ c.Reads (targetTokens ++ token :: valueTokens) last ∧
        last.depth = c.depth ∧ Derives c.classes (.expr .or value) valueTokens := by
    obtain ⟨token, rest, hrest, htoken⟩ := Cursor.exists_token hkind hne
    have hnext := Cursor.reads_next hrest
    obtain ⟨valueTokens, hread, hdepth', hsource, -⟩ := expr_derives hvalue
    rw [hnext.classes, hreads.classes] at hsource
    rw [Cursor.depth_next, hdepth] at hdepth'
    exact ⟨token, valueTokens, htoken, hreads.trans (hnext.trans hread), hdepth', hsource⟩
  split at hrest
  case isTrue hkind =>
    obtain ⟨hassignable, hrest⟩ := of_checkTarget_bind hrest
    rw [bump_bind] at hrest
    obtain ⟨value, last, hvalue, hend⟩ := exists_of_bind_ok hrest
    obtain ⟨token, valueTokens, htoken, hread, hdepth', hsource⟩ := hsign hkind (by simp) hvalue
    exact readsSimple_of_lineEnd hread hdepth' (by simp)
      (.assign htoken hassignable hplace hsource) hend
  case isFalse =>
    cases hop : mid.kind.augmentation? with
    | none =>
      simp only [hop] at hrest
      exact readsSimple_of_lineEnd hreads hdepth (List.ne_nil_of_length_pos hplace.length_pos)
        (.eval hplace) hrest
    | some op =>
      simp only [hop] at hrest
      obtain ⟨hassignable, hrest⟩ := of_checkTarget_bind hrest
      rw [bump_bind] at hrest
      obtain ⟨value, last, hvalue, hend⟩ := exists_of_bind_ok hrest
      obtain ⟨token, valueTokens, htoken, hread, hdepth', hsource⟩ := hsign rfl
        (by rintro heq; rw [heq] at hop; cases hop) hvalue
      rw [← htoken] at hop
      exact readsSimple_of_lineEnd hread hdepth' (by simp)
        (.augmented hop hassignable hplace hsource) hend

/-- A return with its value, if it has one. -/
theorem returnStatement_reads {s : Stmt} (hkind : c.kind = .keyword .returnValue)
    (h : returnStatement c = .ok s c') : ReadsSimple c s c' := by
  obtain ⟨word, rest, hrest, hword⟩ := Cursor.exists_token hkind (by simp)
  have hnext := Cursor.reads_next hrest
  rw [returnStatement, get_bind, bump_bind, get_bind] at h
  split at h
  case isTrue => exact readsSimple_of_lineEnd hnext (by simp) (by simp) (.leave hword) h
  case isFalse =>
    obtain ⟨value, mid, hvalue, hend⟩ := exists_of_bind_ok h
    obtain ⟨tokens, hreads, hdepth, hderives, -⟩ := expr_derives hvalue
    rw [hnext.classes] at hderives
    have hform : SimpleForm c.classes (.leave (some value) (spanOf (word :: tokens)))
        (word :: tokens) := .leaveWith hword hderives
    exact readsSimple_of_lineEnd (hnext.trans hreads) (by rw [hdepth, Cursor.depth_next]) (by simp)
      hform hend

theorem wordStatement_reads {build : Span → Stmt} {key : Keyword} {s : Stmt}
    (hkind : c.kind = .keyword key)
    (hform : ∀ word : Token, word.kind = .keyword key →
      SimpleForm c.classes (build (spanOf [word])) [word])
    (h : wordStatement build c = .ok s c') : ReadsSimple c s c' := by
  obtain ⟨word, rest, hrest, hword⟩ := Cursor.exists_token hkind (by simp)
  have hspan : c.span = spanOf [word] := Cursor.span_of_rest hrest
  rw [wordStatement, get_bind, bump_bind, hspan] at h
  obtain ⟨_, after, hend, hs⟩ := exists_of_bind_ok h
  cases hs
  exact readsSimple_of_expectLineEnd (Cursor.reads_next hrest) (by simp) (hform word hword) hend

/-! ### Blocks -/

theorem openBlock_ok {a : Unit} (h : openBlock c = .ok a c') :
    ∃ colon newline indent, colon.kind = .symbol .colon ∧ newline.kind = .layout .newline ∧
      indent.kind = .layout .indent ∧ c.Reads [colon, newline, indent] c' ∧ c'.depth = c.depth ∧
      c'.isAt (.layout .dedent) = false := by
  obtain ⟨colon, first, hcolon, h⟩ := exists_of_bind_ok h
  obtain ⟨newline, second, hnewline, h⟩ := exists_of_bind_ok h
  obtain ⟨indent, third, hindent, h⟩ := exists_of_bind_ok h
  rw [get_bind] at h
  split at h
  case isTrue => cases h
  case isFalse hdedent =>
    cases h
    obtain ⟨_, hrest, hkind, rfl⟩ := expect_ok hcolon
    obtain ⟨_, hrest', hkind', rfl⟩ := expect_ok hnewline
    obtain ⟨_, hrest'', hkind'', rfl⟩ := expect_ok hindent
    rw [TokenKind.isA_symbol] at hkind
    rw [TokenKind.isA_layout] at hkind' hkind''
    exact ⟨colon, newline, indent, hkind, hkind', hkind'',
      (Cursor.reads_next hrest).trans ((Cursor.reads_next hrest').trans (Cursor.reads_next hrest'')),
      by simp, Bool.eq_false_iff.mpr hdedent⟩

theorem closeBlock_ok {a : Unit} (h : closeBlock c = .ok a c') :
    ∃ dedent, dedent.kind = .layout .dedent ∧ c.Reads [dedent] c' ∧ c'.depth = c.depth := by
  obtain ⟨dedent, mid, hdedent, h⟩ := exists_of_bind_ok h
  cases h
  obtain ⟨_, hrest, hkind, rfl⟩ := expect_ok hdedent
  exact ⟨dedent, (TokenKind.isA_layout _ _).mp hkind, Cursor.reads_next hrest, by simp⟩

theorem inBlockBody_ok {α : Type} {p : Parser α} {a : α} (h : inBlockBody p c = .ok a c') :
    ∃ mid, p { c with blockDepth := c.blockDepth + 1, depth := c.depth + 1 } = .ok a mid ∧
      c' = { mid with depth := c.depth, blockDepth := mid.blockDepth - 1 } := by
  rw [inBlockBody] at h
  cases hbody : nested p { c with blockDepth := c.blockDepth + 1 } with
  | error error mid => rw [hbody] at h; cases h
  | ok value mid =>
    rw [hbody] at h
    cases h
    obtain ⟨-, last, hlast, rfl⟩ := nested_ok hbody
    exact ⟨last, hlast, rfl⟩

theorem atEnd_eq_false_of_reads {token : Token} {read : List Token}
    (h : c.Reads (token :: read) c') (hkind : token.kind = .layout .dedent) : c.atEnd = false := by
  rw [Cursor.atEnd, h.kind, hkind]
  rfl

/-- What is repeated in a block that is opened and closed as it should be is not empty. -/
theorem repeatUntil_ne_nil {α : Type} {item : Parser α} {count : Nat} {found : List α}
    (h : repeatUntil atBlockEnd item (count + 1) c = .ok found c')
    (hopened : c.isAt (.layout .dedent) = false) (hclosed : c'.atEnd = false) : found ≠ [] := by
  cases hstop : atBlockEnd c with
  | true =>
    rw [repeatUntil_of_stop hstop] at h
    cases h
    rw [atBlockEnd, hopened, hclosed] at hstop
    cases hstop
  | false =>
    rw [repeatUntil_succ hstop] at h
    obtain ⟨first, mid, -, h⟩ := exists_of_bind_ok h
    obtain ⟨others, last, -, h⟩ := exists_of_bind_ok h
    cases h
    exact List.cons_ne_nil first others

/-- Inside a block the parser reads statements; one without the end of its line is the last thing
before the end of the input. -/
def ReadsStmts (statement : Parser Stmt) : Prop :=
  ∀ ⦃c : Cursor⦄ ⦃s : Stmt⦄ ⦃c' : Cursor⦄, c.inBlock = true → statement c = .ok s c' →
    c'.depth = c.depth ∧ ∃ read, read ≠ [] ∧ c.Reads read c' ∧
      (ClauseForm c.classes (.stmt s) read ∨ c'.atEnd = true)

/-- The parser reads conditionals that start with the word for a further alternative. -/
def ReadsAlternatives (alternative : Parser Stmt) : Prop :=
  ∀ ⦃c : Cursor⦄ ⦃s : Stmt⦄ ⦃c' : Cursor⦄, c.kind = .keyword .elifTest →
    alternative c = .ok s c' →
    c'.depth = c.depth ∧ ∃ read, c.Reads read c' ∧ ClauseForm c.classes (.branch .elifTest s) read

theorem readsStmts_tooDeep : ReadsStmts tooDeep := by
  intro c s c' _ h
  cases h

theorem readsAlternatives_tooDeep : ReadsAlternatives tooDeep := by
  intro c s c' _ h
  cases h

theorem repeatUntil_reads (hstatement : ReadsStmts statement) {count : Nat} {stmts : List Stmt}
    (hcount : c.rest.length < count) (hin : c.inBlock = true)
    (h : repeatUntil atBlockEnd statement count c = .ok stmts c') :
    c'.depth = c.depth ∧ ∃ read, c.Reads read c' ∧
      (c'.atEnd = true ∨ ClauseForm c.classes (.body stmts) read) := by
  induction count generalizing c stmts with
  | zero => exact absurd hcount (Nat.not_lt_zero _)
  | succ count ih =>
    cases hstop : atBlockEnd c with
    | true =>
      rw [repeatUntil_of_stop hstop] at h
      cases h
      exact ⟨rfl, [], .refl _, .inr .noStmts⟩
    | false =>
      rw [repeatUntil_succ hstop] at h
      obtain ⟨first, mid, hfirst, h⟩ := exists_of_bind_ok h
      obtain ⟨others, last, hothers, h⟩ := exists_of_bind_ok h
      cases h
      obtain ⟨hdepth, read, hne, hread, hform⟩ := hstatement hin hfirst
      have hmid : mid.inBlock = true := by rwa [Cursor.inBlock, hread.blockDepth]
      have hlength := hread.length_lt hne
      obtain ⟨hdepth', rest, hrest, hends⟩ := ih (by omega) hmid hothers
      refine ⟨hdepth'.trans hdepth, read ++ rest, hread.trans hrest, ?_⟩
      rcases hform with hform | hend
      · rw [hread.classes] at hends
        exact hends.imp_right (.stmts hform)
      · -- behind a statement without the end of its line nothing more is read
        rw [repeatUntil_of_stop (by rw [atBlockEnd, hend, Bool.or_true])] at hothers
        cases hothers
        exact .inl hend

theorem blockOf_reads (hstatement : ReadsStmts statement) {body : List Stmt}
    (h : blockOf statement c = .ok body c') :
    c'.depth = c.depth ∧ ∃ read, c.Reads read c' ∧ ClauseForm c.classes (.block body) read := by
  obtain ⟨_, opened, hopen, h⟩ := exists_of_bind_ok h
  obtain ⟨stmts, inside, hbody, h⟩ := exists_of_bind_ok h
  obtain ⟨_, closed, hclose, h⟩ := exists_of_bind_ok h
  cases h
  obtain ⟨colon, newline, indent, hcolon, hnewline, hindent, hopened, hdepth, hdedent⟩ :=
    openBlock_ok hopen
  obtain ⟨dedent, hclosing, hclosed, hdepth'⟩ := closeBlock_ok hclose
  have hend := atEnd_eq_false_of_reads hclosed hclosing
  obtain ⟨mid, hmid, rfl⟩ := inBlockBody_ok hbody
  rw [manyUntil, get_bind] at hmid
  have hnonempty : body ≠ [] := repeatUntil_ne_nil hmid hdedent hend
  obtain ⟨-, read, hread, hends⟩ :=
    repeatUntil_reads hstatement (Nat.lt_succ_self _) (by simp [Cursor.inBlock]) hmid
  have hform : ClauseForm opened.classes (.body body) read :=
    hends.resolve_left (Bool.eq_false_iff.mp hend)
  rw [hopened.classes] at hform
  exact ⟨hdepth'.trans hdepth, _, hopened.trans ((hread.outOfBlock opened.depth).trans hclosed),
    .block hcolon hnewline hindent hclosing hnonempty hform⟩

/-! ### Compound statements -/

theorem branchOf_reads (hstatement : ReadsStmts statement)
    (halternative : ReadsAlternatives alternative) {key : Keyword} {s : Stmt}
    (hkind : c.kind = .keyword key) (h : branchOf statement alternative c = .ok s c') :
    c'.depth = c.depth ∧ ∃ read, c.Reads read c' ∧ ClauseForm c.classes (.branch key s) read := by
  obtain ⟨word, _, hrest, hword⟩ := Cursor.exists_token hkind (by simp)
  have hnext := Cursor.reads_next hrest
  rw [branchOf, get_bind, bump_bind] at h
  obtain ⟨test, tested, htest, h⟩ := exists_of_bind_ok h
  obtain ⟨thenBody, mid, hthen, h⟩ := exists_of_bind_ok h
  obtain ⟨testTokens, htested, hdepthTest, hderives, -⟩ := expr_derives htest
  obtain ⟨hdepthThen, thenTokens, hfirst, hblock⟩ := blockOf_reads hstatement hthen
  have hmid := hnext.trans (htested.trans hfirst)
  rw [htested.classes, hnext.classes] at hblock
  rw [hnext.classes] at hderives
  rw [Cursor.depth_next] at hdepthTest
  have hdepth := hdepthThen.trans hdepthTest
  -- whatever follows the first body, the conditional ends with it
  have hends {elseBody : Option (List Stmt)} {last : Cursor} {elseTokens : List Token}
      (hsecond : mid.Reads elseTokens last) (hlast : last.depth = mid.depth)
      (hform : ClauseForm c.classes (.otherwise elseBody) elseTokens)
      (hs : (do
        pure (.branch test thenBody elseBody (c.span.through (← get).lastSpan)) : Parser Stmt)
          last = .ok s c') :
      c'.depth = c.depth ∧
        ∃ read, c.Reads read c' ∧ ClauseForm c.classes (.branch key s) read := by
    have hall : c.Reads (word :: (testTokens ++ (thenTokens ++ elseTokens))) last :=
      hnext.trans (htested.trans (hfirst.trans hsecond))
    rw [get_bind, Cursor.spanOf_of_reads hall (by simp)] at hs
    cases hs
    exact ⟨hlast.trans hdepth, _, hall, .branch hword hderives hblock hform⟩
  rw [get_bind] at h
  cases helse : mid.isAt (.keyword .elseBranch) with
  | true =>
    rw [bind_ok (skip_of_isAt helse)] at h
    have hkindElse := (TokenKind.isA_keyword _ _).mp helse
    obtain ⟨elseWord, _, hrestElse, helseWord⟩ := Cursor.exists_token hkindElse (by simp)
    have hskipped := Cursor.reads_next hrestElse
    have helif : ¬ mid.isAt (.keyword .elifTest) = true := by
      rw [Cursor.isAt, TokenKind.isA_keyword, hkindElse]
      decide
    rw [if_neg helif, if_pos rfl] at h
    obtain ⟨elseBody, last, hbody, h⟩ := exists_of_bind_ok h
    obtain ⟨hdepthElse, elseTokens, hsecond, hform⟩ := blockOf_reads hstatement hbody
    rw [hskipped.classes, hmid.classes] at hform
    exact hends (hskipped.trans hsecond) (by rw [hdepthElse, Cursor.depth_next])
      (.elseBlock helseWord hform) h
  | false =>
    rw [bind_ok (skip_of_not_isAt helse)] at h
    split at h
    case isTrue helif =>
      obtain ⟨branch, last, hnested, h⟩ := exists_of_bind_ok h
      obtain ⟨-, inner, hbranch, rfl⟩ := nested_ok hnested
      obtain ⟨-, elseTokens, hsecond, hform⟩ := halternative
        (c := { mid with depth := mid.depth + 1 }) ((TokenKind.isA_keyword _ _).mp helif) hbranch
      rw [show ({ mid with depth := mid.depth + 1 } : Cursor).classes = c.classes from
        hmid.classes] at hform
      exact hends (hsecond.fromDepth.atDepth mid.depth) rfl (.elif hform) h
    case isFalse => exact hends (.refl mid) rfl .noElse h

theorem loopOf_reads (hstatement : ReadsStmts statement) {s : Stmt}
    (hkind : c.kind = .keyword .whileLoop) (h : loopOf statement c = .ok s c') :
    c'.depth = c.depth ∧
      ∃ read, read ≠ [] ∧ c.Reads read c' ∧ ClauseForm c.classes (.stmt s) read := by
  obtain ⟨word, _, hrest, hword⟩ := Cursor.exists_token hkind (by simp)
  have hnext := Cursor.reads_next hrest
  rw [loopOf, get_bind, bump_bind] at h
  obtain ⟨test, tested, htest, h⟩ := exists_of_bind_ok h
  obtain ⟨body, mid, hbody, h⟩ := exists_of_bind_ok h
  obtain ⟨testTokens, htested, hdepthTest, hderives, -⟩ := expr_derives htest
  obtain ⟨hdepth, bodyTokens, hfirst, hblock⟩ := blockOf_reads hstatement hbody
  have hall : c.Reads (word :: (testTokens ++ bodyTokens)) mid :=
    hnext.trans (htested.trans hfirst)
  rw [htested.classes, hnext.classes] at hblock
  rw [hnext.classes] at hderives
  rw [get_bind, Cursor.spanOf_of_reads hall (by simp)] at h
  cases h
  exact ⟨by rw [hdepth, hdepthTest, Cursor.depth_next], _, by simp, hall,
    .loop hword hderives hblock⟩

/-! ### Definitions -/

theorem param_ok {before : List Param} {found : Param} (h : param before c = .ok found c') :
    ∃ word name, word.kind = .identifier name ∧ found = ⟨name, word.span⟩ ∧
      name ∉ before.map Param.name ∧ c.Reads [word] c' ∧ c'.depth = c.depth := by
  obtain ⟨⟨name, span⟩, mid, hname, h⟩ := exists_of_bind_ok h
  obtain ⟨word, rest, hrest, hword, rfl, rfl⟩ := expectIdentifier_ok hname
  dsimp only at h
  split at h
  case isTrue => cases h
  case isFalse hfresh =>
    cases h
    refine ⟨word, name, hword, rfl, fun hmem => hfresh ?_, Cursor.reads_next hrest, by simp⟩
    obtain ⟨earlier, hearlier, hsame⟩ := List.mem_map.mp hmem
    exact List.any_eq_true.mpr ⟨earlier, hearlier, beq_iff_eq.mpr hsame⟩

theorem itemsAfter_param_reads {count : Nat} {before found : List Param}
    (hbefore : (before.map Param.name).Nodup)
    (h : itemsAfter param count before c = .ok found c') :
    ∃ params read, found = before.reverse ++ params ∧ (found.map Param.name).Nodup ∧
      c.Reads read c' ∧ c'.depth = c.depth ∧ ParamForm params read := by
  have hreverse {params : List Param} (hparams : (params.map Param.name).Nodup) :
      (params.reverse.map Param.name).Nodup := by
    rwa [List.map_reverse, List.nodup_reverse]
  induction count generalizing before c with
  | zero =>
    cases h
    exact ⟨[], [], by simp, hreverse hbefore, .refl _, rfl, .none⟩
  | succ count ih =>
    rw [itemsAfter, get_bind] at h
    split at h
    case isTrue =>
      cases h
      exact ⟨[], [], by simp, hreverse hbefore, .refl _, rfl, .none⟩
    case isFalse =>
      obtain ⟨first, mid, hfirst, h⟩ := exists_of_bind_ok h
      obtain ⟨word, name, hword, rfl, hfresh, hread, hdepth⟩ := param_ok hfirst
      have hnodup : ((⟨name, word.span⟩ :: before).map Param.name).Nodup :=
        List.nodup_cons.mpr ⟨hfresh, hbefore⟩
      cases hcomma : mid.isAt (.symbol .comma) with
      | false =>
        rw [bind_ok (skip_of_not_isAt hcomma)] at h
        cases h
        exact ⟨[⟨name, word.span⟩], [word], by simp, hreverse hnodup, hread, hdepth, .last hword⟩
      | true =>
        rw [bind_ok (skip_of_isAt hcomma)] at h
        obtain ⟨params, others, rfl, hnames, hothers, hdepth', hparams⟩ := ih hnodup h
        obtain ⟨comma, _, hrest, hkind⟩ := Cursor.exists_token
          ((TokenKind.isA_symbol _ _).mp hcomma) (by simp)
        refine ⟨⟨name, word.span⟩ :: params, word :: comma :: others, by simp, hnames,
          hread.trans ((Cursor.reads_next hrest).trans hothers), ?_, .more hword hkind hparams⟩
        rw [hdepth', Cursor.depth_next, hdepth]

theorem params_reads {params : List Param} (h : items param c = .ok params c') :
    c'.depth = c.depth ∧ (params.map Param.name).Nodup ∧
      ∃ read stop, stop.kind = .symbol .closeParen ∧ c.Reads (read ++ [stop]) c' ∧
        ParamForm params read := by
  rw [items, get_bind] at h
  obtain ⟨found, mid, hfound, hend⟩ := exists_of_bind_ok h
  obtain ⟨stop, closed, hstop, hfinal⟩ := exists_of_bind_ok hend
  cases hfinal
  obtain ⟨_, hrest, hkind, rfl⟩ := expect_ok hstop
  obtain ⟨_, read, rfl, hdistinct, hread, hdepth, hform⟩ :=
    itemsAfter_param_reads (by simp) hfound
  exact ⟨by rw [Cursor.depth_next, hdepth], hdistinct, read, stop,
    (TokenKind.isA_symbol _ _).mp hkind, hread.trans (Cursor.reads_next hrest), hform⟩

theorem functionDef_reads (hstatement : ReadsStmts statement) {definition : FunctionDef Stmt}
    (h : functionDef statement c = .ok definition c') :
    c'.depth = c.depth ∧
      ∃ read, read ≠ [] ∧ c.Reads read c' ∧ ClauseForm c.classes (.function definition) read := by
  rw [functionDef, get_bind] at h
  obtain ⟨word, first, hword, h⟩ := exists_of_bind_ok h
  obtain ⟨⟨name, span⟩, second, hname, h⟩ := exists_of_bind_ok h
  obtain ⟨start, third, hstart, h⟩ := exists_of_bind_ok h
  obtain ⟨params, fourth, hparams, h⟩ := exists_of_bind_ok h
  obtain ⟨body, last, hbody, hend⟩ := exists_of_bind_ok h
  obtain ⟨_, hrestWord, hwordKind, rfl⟩ := expect_ok hword
  obtain ⟨id, _, hrestId, hid, rfl, rfl⟩ := expectIdentifier_ok hname
  obtain ⟨_, hrestStart, hstartKind, rfl⟩ := expect_ok hstart
  obtain ⟨hdepth, hdistinct, paramTokens, stop, hstopKind, hread, hformal⟩ := params_reads hparams
  obtain ⟨hdepth', bodyTokens, hinside, hblock⟩ := blockOf_reads hstatement hbody
  have hhead := (Cursor.reads_next hrestWord).trans
    ((Cursor.reads_next hrestId).trans (Cursor.reads_next hrestStart))
  have hall : c.Reads (word :: id :: start :: (paramTokens ++ stop :: bodyTokens)) last := by
    simpa using (hhead.trans hread).trans hinside
  rw [(hhead.trans hread).classes] at hblock
  rw [get_bind, Cursor.spanOf_of_reads hall (by simp)] at hend
  cases hend
  refine ⟨?_, _, by simp, hall, .function ((TokenKind.isA_keyword _ _).mp hwordKind) hid
    ((TokenKind.isA_symbol _ _).mp hstartKind) hstopKind hdistinct hformal hblock⟩
  rw [hdepth', hdepth, Cursor.depth_next, Cursor.depth_next, Cursor.depth_next]

theorem repeatUntil_method_reads (hstatement : ReadsStmts statement) {count : Nat}
    {methods : List (FunctionDef Stmt)} (hcount : c.rest.length < count)
    (h : repeatUntil atBlockEnd (method statement) count c = .ok methods c') :
    c'.depth = c.depth ∧ ∃ read, c.Reads read c' ∧ ClauseForm c.classes (.methods methods) read := by
  induction count generalizing c methods with
  | zero => exact absurd hcount (Nat.not_lt_zero _)
  | succ count ih =>
    cases hstop : atBlockEnd c with
    | true =>
      rw [repeatUntil_of_stop hstop] at h
      cases h
      exact ⟨rfl, [], .refl _, .noMethods⟩
    | false =>
      rw [repeatUntil_succ hstop] at h
      obtain ⟨first, mid, hfirst, h⟩ := exists_of_bind_ok h
      obtain ⟨others, last, hothers, h⟩ := exists_of_bind_ok h
      cases h
      rw [method, get_bind] at hfirst
      split at hfirst
      case isFalse => cases hfirst
      case isTrue =>
        obtain ⟨hdepth, read, hne, hread, hform⟩ := functionDef_reads hstatement hfirst
        have hlength := hread.length_lt hne
        obtain ⟨hdepth', rest, hrest, hforms⟩ := ih (by omega) hothers
        rw [hread.classes] at hforms
        exact ⟨hdepth'.trans hdepth, read ++ rest, hread.trans hrest, .methods hform hforms⟩

theorem classStatement_reads (hstatement : ReadsStmts statement) {s : Stmt}
    (hkind : c.kind = .keyword .classDefinition) (h : classStatement statement c = .ok s c') :
    c'.depth = c.depth ∧ ∃ read known, read ≠ [] ∧
      ({ c with classes := known } : Cursor).Reads read c' ∧ TopForm c.classes s read known := by
  obtain ⟨word, _, hrestWord, hword⟩ := Cursor.exists_token hkind (by simp)
  rw [classStatement, get_bind, bump_bind] at h
  obtain ⟨⟨name, span⟩, named, hname, h⟩ := exists_of_bind_ok h
  obtain ⟨_, declared, hdeclared, h⟩ := exists_of_bind_ok h
  obtain ⟨_, opened, hopen, h⟩ := exists_of_bind_ok h
  obtain ⟨methods, mid, hmethods, h⟩ := exists_of_bind_ok h
  obtain ⟨_, closed, hclose, hend⟩ := exists_of_bind_ok h
  obtain ⟨id, _, hrestId, hid, rfl, rfl⟩ := expectIdentifier_ok hname
  cases hdeclared
  obtain ⟨colon, newline, indent, hcolon, hnewline, hindent, hopened, hdepthOpen, hdedent⟩ :=
    openBlock_ok hopen
  obtain ⟨dedent, hclosing, hclosed, hdepthClose⟩ := closeBlock_ok hclose
  have hnonempty := repeatUntil_ne_nil hmethods hdedent (atEnd_eq_false_of_reads hclosed hclosing)
  obtain ⟨hdepth, read, hread, hforms⟩ :=
    repeatUntil_method_reads hstatement (Nat.lt_succ_self _) hmethods
  have hhead := (Cursor.reads_next hrestWord).trans (Cursor.reads_next hrestId)
  have hall := hhead.declare (hopened.trans (hread.trans hclosed))
  rw [hopened.classes, Cursor.classes_declare, hhead.classes] at hforms
  have hspan := Cursor.spanOf_of_reads hall (by simp)
  rw [get_bind, show c.span.through closed.lastSpan = _ from hspan] at hend
  cases hend
  refine ⟨?_, _, declaredIn c.classes name, by simp, hall, .classDef hword hid hcolon hnewline
    hindent hclosing hnonempty hforms⟩
  rw [hdepthClose, hdepth, hdepthOpen, Cursor.depth_declare, Cursor.depth_next, Cursor.depth_next]

/-! ### Statements -/

/-- How a statement is read: a line, a compound statement, or a definition outside of all blocks. -/
inductive StatementRead (c : Cursor) (s : Stmt) (c' : Cursor) : Prop
  | line (line : ReadsSimple c s c')
  | compound (depth : c'.depth = c.depth) {read : List Token} (nonempty : read ≠ [])
    (reads : c.Reads read c') (form : ClauseForm c.classes (.stmt s) read)
  | definition (outside : c.inBlock = false) (depth : c'.depth = c.depth) {read : List Token}
    {known : List String} (nonempty : read ≠ [])
    (reads : ({ c with classes := known } : Cursor).Reads read c')
    (form : TopForm c.classes s read known)

/-- Whatever the parser answers with at this cursor is a statement. -/
def ReadsStatement (p : Parser Stmt) (c : Cursor) : Prop :=
  ∀ ⦃s : Stmt⦄ ⦃c' : Cursor⦄, p c = .ok s c' → StatementRead c s c'

theorem ReadsStatement.get_bind {f : Cursor → Parser Stmt} (h : ReadsStatement (f c) c) :
    ReadsStatement (get >>= f) c :=
  h

theorem statementOf_reads (hstatement : ReadsStmts statement)
    (halternative : ReadsAlternatives alternative) :
    ReadsStatement (statementOf statement alternative) c := by
  apply ReadsStatement.get_bind
  split <;> intro s c' h
  case h_1 =>
    split at h
    case isTrue => cases h
    case isFalse hblock =>
      obtain ⟨definition, mid, hdefinition, hend⟩ := exists_of_bind_ok h
      cases hend
      obtain ⟨hdepth, read, hne, hread, hform⟩ := functionDef_reads hstatement hdefinition
      exact .definition (Bool.eq_false_iff.mpr hblock) hdepth hne hread (.function hform)
  case h_2 hkind =>
    split at h
    case isTrue => cases h
    case isFalse hblock =>
      obtain ⟨hdepth, read, known, hne, hread, hform⟩ := classStatement_reads hstatement hkind h
      exact .definition (Bool.eq_false_iff.mpr hblock) hdepth hne hread hform
  case h_3 hkind =>
    obtain ⟨hdepth, read, hread, hform⟩ := branchOf_reads hstatement halternative hkind h
    exact .compound hdepth hform.ne_nil_of_branch hread (.conditional hform)
  case h_4 hkind =>
    obtain ⟨hdepth, read, hne, hread, hform⟩ := loopOf_reads hstatement hkind h
    exact .compound hdepth hne hread hform
  case h_5 hkind => exact .line (returnStatement_reads hkind h)
  case h_6 hkind => exact .line (wordStatement_reads hkind (fun word => .pass) h)
  case h_7 hkind => exact .line (wordStatement_reads hkind (fun word => .breakLoop) h)
  case h_8 hkind => exact .line (wordStatement_reads hkind (fun word => .continueLoop) h)
  case h_9 => cases h
  case h_10 => cases h
  case h_11 => exact .line (simpleStatement_reads h)

theorem readsStmts_statementOf (hstatement : ReadsStmts statement)
    (halternative : ReadsAlternatives alternative) :
    ReadsStmts (statementOf statement alternative) := by
  intro c s c' hin h
  cases statementOf_reads hstatement halternative h with
  | line line =>
    obtain ⟨hdepth, read, hform, ⟨newline, hkind, hreads⟩ | ⟨hreads, hend⟩⟩ := line
    · exact ⟨hdepth, _, by simp, hreads, .inl (.simple hkind hform)⟩
    · exact ⟨hdepth, read, hform.ne_nil, hreads, .inr hend⟩
  | compound hdepth hne hreads hform => exact ⟨hdepth, _, hne, hreads, .inl hform⟩
  | definition outside => rw [outside] at hin; cases hin

theorem readsStmts_statementAt (budget : Nat) :
    ReadsStmts (statementAt budget) ∧ ReadsAlternatives (alternativeAt budget) := by
  induction budget with
  | zero =>
    exact ⟨readsStmts_statementOf readsStmts_tooDeep readsAlternatives_tooDeep,
      fun c s c' hkind h => branchOf_reads readsStmts_tooDeep readsAlternatives_tooDeep hkind h⟩
  | succ budget ih =>
    exact ⟨readsStmts_statementOf ih.1 ih.2,
      fun c s c' hkind h => branchOf_reads ih.1 ih.2 hkind h⟩

theorem statement_reads {s : Stmt} (h : Parser.statement c = .ok s c') : StatementRead c s c' := by
  rw [Parser.statement] at h
  cases hbudget : c.budget with
  | zero =>
    rw [hbudget] at h
    exact statementOf_reads readsStmts_tooDeep readsAlternatives_tooDeep h
  | succ budget =>
    rw [hbudget] at h
    exact statementOf_reads (readsStmts_statementAt budget).1 (readsStmts_statementAt budget).2 h

/-! ### Programs -/

theorem repeatUntil_statement_reads {count : Nat} {stmts : List Stmt}
    (hcount : c.rest.length < count)
    (h : repeatUntil Cursor.atEnd Parser.statement count c = .ok stmts c') :
    c'.atEnd = true ∧ ∃ read, c.rest = read ++ c'.rest ∧ ProgramForm c.classes stmts read := by
  induction count generalizing c stmts with
  | zero => exact absurd hcount (Nat.not_lt_zero _)
  | succ count ih =>
    cases hstop : c.atEnd with
    | true =>
      rw [repeatUntil_of_stop hstop] at h
      cases h
      exact ⟨hstop, [], rfl, .nil⟩
    | false =>
      rw [repeatUntil_succ hstop] at h
      obtain ⟨first, mid, hfirst, h⟩ := exists_of_bind_ok h
      obtain ⟨others, last, hothers, h⟩ := exists_of_bind_ok h
      cases h
      -- a statement with its end leaves the others to the rest of the run
      have hgoes {read : List Token} {known : List String} (hne : read ≠ [])
          (hreads : ({ c with classes := known } : Cursor).Reads read mid)
          (hform : TopForm c.classes first read known) :
          c'.atEnd = true ∧
            ∃ read, c.rest = read ++ c'.rest ∧ ProgramForm c.classes (first :: others) read := by
        have hlength : mid.rest.length < c.rest.length := hreads.length_lt hne
        obtain ⟨hend, rest, hrest, hforms⟩ := ih (by omega) hothers
        rw [hreads.classes] at hforms
        refine ⟨hend, read ++ rest, ?_, .cons hform hforms⟩
        rw [List.append_assoc, ← hrest]
        exact hreads.rest
      cases statement_reads hfirst with
      | line line =>
        obtain ⟨-, read, hform, ⟨newline, hkind, hreads⟩ | ⟨hreads, hend⟩⟩ := line
        · exact hgoes (by simp) hreads (.stmt (.simple hkind hform))
        · rw [repeatUntil_of_stop hend] at hothers
          cases hothers
          exact ⟨hend, read, hreads.rest, .unended hform⟩
      | compound _ hne hreads hform => exact hgoes hne hreads (.stmt hform)
      | definition _ _ hne hreads hform => exact hgoes hne hreads hform

/-- The parser of programs reads up to the end of the input. -/
theorem program_reads {found : Module} (h : program c = .ok found c') :
    c'.atEnd = true ∧
      ∃ read, c.rest = read ++ c'.rest ∧ ProgramForm c.classes found.body read := by
  obtain ⟨body, mid, hbody, hend⟩ := exists_of_bind_ok h
  cases hend
  rw [manyUntil, get_bind] at hbody
  exact repeatUntil_statement_reads (Nat.lt_succ_self _) hbody

end Parser
end Offside
