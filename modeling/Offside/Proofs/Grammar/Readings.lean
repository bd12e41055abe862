/-
Where the expressions of a program are read.  Every expression of a statement has been read as a
whole at some place of the token stream, behind a token that ends no operand; only the operation of
an augmented assignment is made of two expressions that have been read.
-/
import Offside.Proofs.Grammar.Excerpts
import Offside.Proofs.Program.Assignments

namespace Offside

namespace Cursor

/-- A cursor in the same token stream, under the same limit of nesting. -/
structure Shares (origin c : Cursor) : Prop where
  stream : c.past.reverse ++ c.rest = origin.past.reverse ++ origin.rest
  maxDepth : c.maxDepth = origin.maxDepth

/-- A cursor at which an operand may start, if one may at the origin. -/
structure Follows (origin c : Cursor) : Prop where
  shares : origin.Shares c
  starts : c.atEnd = false → StartsOperand origin.past.reverse → StartsOperand c.past.reverse

variable {origin c c' : Cursor} {read : List Token} {token : Token}

theorem Follows.refl (origin : Cursor) : origin.Follows origin := ⟨⟨rfl, rfl⟩, fun _ => id⟩

theorem Shares.reads (h : origin.Shares c) (hreads : c.Reads read c') : origin.Shares c' where
  stream := by
    rw [← h.stream, hreads.past, hreads.rest, List.reverse_append, List.reverse_reverse,
      List.append_assoc]
  maxDepth := hreads.maxDepth.trans h.maxDepth

theorem Shares.declare (h : origin.Shares c) (name : String) : origin.Shares (c.declare name) := by
  rw [declare_eq]
  exact ⟨h.stream, h.maxDepth⟩

/-- Behind a token that ends no operand. -/
theorem Shares.follows (h : origin.Shares c) (read : List Token)
    (hreads : c.Reads (read ++ [token]) c')
    (htoken : token.kind.endsOperand = false) : origin.Follows c' where
  shares := h.reads hreads
  starts _ _ := by
    rw [hreads.past, List.reverse_append, List.reverse_reverse, ← List.append_assoc]
    exact .concat htoken _

theorem Follows.inside (h : origin.Follows c) (depth blockDepth : Nat) :
    origin.Follows { c with depth := depth, blockDepth := blockDepth } :=
  ⟨⟨h.shares.stream, h.shares.maxDepth⟩, h.starts⟩

end Cursor

/-- An expression that has been read as a whole. -/
def Expr.ReadIn (origin : Cursor) (e : Expr) : Prop :=
  ∃ c c', origin.Follows c ∧ Parser.expr Binding.lowest c = .ok e c'

/-- An expression that has been read, or the operation that an augmented assignment among these
makes of two that have been read. -/
inductive Expr.Made (origin : Cursor) (assignments : List Assignment) : Expr → Prop
  | read {e : Expr} (h : e.ReadIn origin) : Made origin assignments e
  | augmented {op : BinaryOp} {target right : Expr} {place : Span}
    (mem : ⟨target, .binary op target right place⟩ ∈ assignments) (htarget : target.ReadIn origin)
    (hright : right.ReadIn origin) : Made origin assignments (.binary op target right place)

theorem Expr.Made.mono {origin : Cursor} {assignments others : List Assignment} {e : Expr}
    (h : e.Made origin assignments) (hsub : assignments ⊆ others) : e.Made origin others := by
  cases h with
  | read h => exact .read h
  | augmented mem htarget hright => exact .augmented (hsub mem) htarget hright

namespace Stmt

/-- A statement all of whose expressions have been read. -/
def ReadIn (origin : Cursor) (s : Stmt) : Prop := ∀ e, s.Holds e → e.Made origin s.assignments

variable {origin : Cursor} {target value right test : Expr} {op : BinaryOp} {place span : Span}
  {body thenBody : List Stmt} {elseBody : Option (List Stmt)}

theorem readIn_assign (htarget : target.ReadIn origin) (hvalue : value.ReadIn origin) :
    (Stmt.assign target value span).ReadIn origin := by
  intro e he
  cases he with
  | target => exact .read htarget
  | value => exact .read hvalue

theorem readIn_augmented (htarget : target.ReadIn origin) (hright : right.ReadIn origin) :
    (Stmt.assign target (.binary op target right place) span).ReadIn origin := by
  intro e he
  cases he with
  | target => exact .read htarget
  | value => exact .augmented (List.mem_singleton.mpr rfl) htarget hright

theorem readIn_eval (h : value.ReadIn origin) : (Stmt.eval value span).ReadIn origin := by
  intro e he
  cases he with
  | eval => exact .read h

theorem readIn_leave {value : Option Expr} (h : ∀ e ∈ value, e.ReadIn origin) :
    (Stmt.leave value span).ReadIn origin := by
  intro e he
  cases he with
  | leave => exact .read (h e rfl)

theorem readIn_branch (htest : test.ReadIn origin) (hthen : ∀ s ∈ thenBody, s.ReadIn origin)
    (helse : ∀ body ∈ elseBody, ∀ s ∈ body, s.ReadIn origin) :
    (Stmt.branch test thenBody elseBody span).ReadIn origin := by
  intro e he
  cases he with
  | branchTest => exact .read htest
  | thenBody mem inner =>
    refine (hthen _ mem e inner).mono fun a ha => ?_
    rw [assignments, allAssignments_eq_flatMap]
    exact List.mem_append_left _ (List.mem_flatMap.mpr ⟨_, mem, ha⟩)
  | elseBody mem inner =>
    refine (helse _ rfl _ mem e inner).mono fun a ha => ?_
    rw [assignments, elseAssignments, allAssignments_eq_flatMap]
    exact List.mem_append_right _ (by simpa using ⟨_, mem, ha⟩)

theorem readIn_loop (htest : test.ReadIn origin) (hbody : ∀ s ∈ body, s.ReadIn origin) :
    (Stmt.loop test body span).ReadIn origin := by
  intro e he
  cases he with
  | loopTest => exact .read htest
  | loopBody mem inner =>
    refine (hbody _ mem e inner).mono fun a ha => ?_
    rw [assignments, allAssignments_eq_flatMap]
    exact List.mem_flatMap.mpr ⟨_, mem, ha⟩

theorem readIn_function {definition : FunctionDef Stmt}
    (h : ∀ s ∈ definition.body, s.ReadIn origin) :
    (Stmt.function definition span).ReadIn origin := by
  intro e he
  cases he with
  | function mem inner =>
    refine (h _ mem e inner).mono fun a ha => ?_
    rw [assignments, functionAssignments_eq]
    exact List.mem_flatMap.mpr ⟨_, mem, ha⟩

theorem readIn_classDef {name : String} {methods : List (FunctionDef Stmt)}
    (h : ∀ method ∈ methods, ∀ s ∈ method.body, s.ReadIn origin) :
    (Stmt.classDef name methods span).ReadIn origin := by
  intro e he
  cases he with
  | method memMethod mem inner =>
    refine (h _ memMethod _ mem e inner).mono fun a ha => ?_
    rw [assignments, methodAssignments_eq]
    exact List.mem_flatMap.mpr ⟨_, memMethod, List.mem_flatMap.mpr ⟨_, mem, ha⟩⟩

/-- A statement without expressions. -/
theorem readIn_of_not_holds {s : Stmt} (h : ∀ e, ¬ s.Holds e) : s.ReadIn origin :=
  fun e he => absurd he (h e)

end Stmt

namespace Parser

variable {origin c c' : Cursor} {statement alternative : Parser Stmt} {s : Stmt}

/-! ### Lines -/

theorem shares_of_expr {e : Expr} (hc : origin.Shares c)
    (h : expr Binding.lowest c = .ok e c') : origin.Shares c' := by
  obtain ⟨tokens, hreads, -⟩ := expr_derives h
  exact hc.reads hreads

theorem readIn_of_expr {e : Expr} (hc : origin.Follows c)
    (h : expr Binding.lowest c = .ok e c') : e.ReadIn origin ∧ origin.Shares c' :=
  ⟨⟨c, c', hc, h⟩, shares_of_expr hc.shares h⟩

theorem follows_of_expectLineEnd {a : Unit} (hc : origin.Shares c)
    (h : expectLineEnd c = .ok a c') : origin.Follows c' := by
  rcases expectLineEnd_ok h with ⟨newline, hkind, hreads, -⟩ | ⟨rfl, hend⟩
  · exact hc.follows [] hreads (by rw [hkind]; rfl)
  · exact ⟨hc, fun hnot => by rw [hend] at hnot; cases hnot⟩

/-- The end of a statement on one line. -/
theorem readIn_of_lineEnd {build : Span → Stmt} {start : Span}
    (hbuild : ∀ span, (build span).ReadIn origin) (hc : origin.Shares c)
    (h : (do
      let span := start.through (← get).lastSpan
      expectLineEnd
      pure (build span) : Parser Stmt) c = .ok s c') : s.ReadIn origin ∧ origin.Follows c' := by
  rw [get_bind] at h
  obtain ⟨_, last, hend, h⟩ := exists_of_bind_ok h
  cases h
  exact ⟨hbuild _, follows_of_expectLineEnd hc hend⟩

/-- Behind a word of the language an operand may start. -/
theorem follows_next {kind : TokenKind} (hc : origin.Shares c) (hkind : c.kind = kind)
    (hends : kind.endsOperand = false) (hne : kind ≠ .layout .endOfInput) :
    origin.Follows c.next := by
  obtain ⟨token, rest, hrest, htoken⟩ := Cursor.exists_token hkind hne
  exact hc.follows [] (Cursor.reads_next hrest) (htoken ▸ hends)

theorem simpleStatement_readIn (hc : origin.Follows c) (h : simpleStatement c = .ok s c') :
    s.ReadIn origin ∧ origin.Follows c' := by
  rw [simpleStatement, get_bind] at h
  obtain ⟨target, mid, htarget, h⟩ := exists_of_bind_ok h
  obtain ⟨hread, hmid⟩ := readIn_of_expr hc htarget
  rw [get_bind] at h
  split at h
  case isTrue hkind =>
    obtain ⟨-, h⟩ := of_checkTarget_bind h
    rw [bump_bind] at h
    obtain ⟨value, last, hvalue, h⟩ := exists_of_bind_ok h
    obtain ⟨hother, hlast⟩ := readIn_of_expr (follows_next hmid hkind rfl (by simp)) hvalue
    exact readIn_of_lineEnd (fun span => Stmt.readIn_assign hread hother) hlast h
  case isFalse =>
    cases hop : mid.kind.augmentation? with
    | none =>
      simp only [hop] at h
      exact readIn_of_lineEnd (fun span => Stmt.readIn_eval hread) hmid h
    | some op =>
      simp only [hop] at h
      obtain ⟨-, h⟩ := of_checkTarget_bind h
      rw [bump_bind] at h
      obtain ⟨value, last, hvalue, h⟩ := exists_of_bind_ok h
      have hnext : origin.Follows mid.next := by
        cases hkind : mid.kind with
        | symbol sign =>
          rw [hkind] at hop
          cases sign <;>
            first | cases hop; done | exact follows_next hmid hkind rfl (by simp)
        | _ => rw [hkind] at hop; cases hop
      obtain ⟨hother, hlast⟩ := readIn_of_expr hnext hvalue
      exact readIn_of_lineEnd (fun span => Stmt.readIn_augmented hread hother) hlast h

theorem returnStatement_readIn (hc : origin.Shares c) (hkind : c.kind = .keyword .returnValue)
    (h : returnStatement c = .ok s c') : s.ReadIn origin ∧ origin.Follows c' := by
  have hnext := follows_next hc hkind rfl (by simp)
  rw [returnStatement, get_bind, bump_bind, get_bind] at h
  split at h
  case isTrue =>
    exact readIn_of_lineEnd (fun span => Stmt.readIn_leave (by simp)) hnext.shares h
  case isFalse =>
    obtain ⟨value, mid, hvalue, h⟩ := exists_of_bind_ok h
    obtain ⟨hread, hmid⟩ := readIn_of_expr hnext hvalue
    exact readIn_of_lineEnd (fun span => Stmt.readIn_leave (by simpa using hread)) hmid h

theorem wordStatement_readIn {build : Span → Stmt} {key : Keyword}
    (hbuild : ∀ span, (build span).ReadIn origin) (hc : origin.Shares c)
    (hkind : c.kind = .keyword key) (h : wordStatement build c = .ok s c') :
    s.ReadIn origin ∧ origin.Follows c' := by
  have hnext := follows_next hc hkind rfl (by simp)
  rw [wordStatement, get_bind, bump_bind] at h
  obtain ⟨_, last, hend, h⟩ := exists_of_bind_ok h
  cases h
  exact ⟨hbuild _, follows_of_expectLineEnd hnext.shares hend⟩

/-! ### Blocks -/

/-- A statement that the parser finds at this cursor has been read, and behind it an operand may
start. -/
def ReadsInAt (origin c : Cursor) (statement : Parser Stmt) : Prop :=
  ∀ ⦃s : Stmt⦄ ⦃c' : Cursor⦄, statement c = .ok s c' → s.ReadIn origin ∧ origin.Follows c'

theorem ReadsInAt.get_bind {f : Cursor → Parser Stmt} (h : ReadsInAt origin c (f c)) :
    ReadsInAt origin c (get >>= f) :=
  h

/-- Statements of this parser have been read wherever an operand may start. -/
def ReadsIn (origin : Cursor) (statement : Parser Stmt) : Prop :=
  ∀ ⦃c : Cursor⦄, origin.Follows c → ReadsInAt origin c statement

/-- The same for conditionals that start with the word for a further alternative. -/
def ReadsAlternativesIn (origin : Cursor) (alternative : Parser Stmt) : Prop :=
  ∀ ⦃c : Cursor⦄, origin.Shares c → c.kind = .keyword .elifTest → ReadsInAt origin c alternative

theorem readsIn_tooDeep : ReadsIn origin tooDeep := by
  intro c _ s c' h
  cases h

theorem readsAlternativesIn_tooDeep : ReadsAlternativesIn origin tooDeep := by
  intro c _ _ s c' h
  cases h

theorem forall_of_repeatUntil {α : Type} {item : Parser α} {post : α → Prop}
    (hitem : ∀ ⦃c a c'⦄, origin.Follows c → item c = .ok a c' → post a ∧ origin.Follows c')
    {stop : Cursor → Bool} {count : Nat} {found : List α} (hc : origin.Follows c)
    (h : repeatUntil stop item count c = .ok found c') :
    (∀ a ∈ found, post a) ∧ origin.Follows c' := by
  induction count generalizing c found with
  | zero =>
    cases h
    exact ⟨List.forall_mem_nil _, hc⟩
  | succ count ih =>
    cases hstop : stop c with
    | true =>
      rw [repeatUntil_of_stop hstop] at h
      cases h
      exact ⟨List.forall_mem_nil _, hc⟩
    | false =>
      rw [repeatUntil_succ hstop] at h
      obtain ⟨first, mid, hfirst, h⟩ := exists_of_bind_ok h
      obtain ⟨others, last, hothers, h⟩ := exists_of_bind_ok h
      cases h
      obtain ⟨hpost, hmid⟩ := hitem hc hfirst
      obtain ⟨hrest, hlast⟩ := ih hmid hothers
      exact ⟨List.forall_mem_cons.mpr ⟨hpost, hrest⟩, hlast⟩

theorem follows_of_openBlock {a : Unit} (hc : origin.Shares c) (h : openBlock c = .ok a c') :
    origin.Follows c' := by
  obtain ⟨colon, newline, indent, -, -, hindent, hreads, -⟩ := openBlock_ok h
  exact hc.follows [colon, newline] hreads (by rw [hindent]; rfl)

theorem follows_of_closeBlock {a : Unit} (hc : origin.Shares c) (h : closeBlock c = .ok a c') :
    origin.Follows c' := by
  obtain ⟨dedent, hdedent, hreads, -⟩ := closeBlock_ok h
  exact hc.follows [] hreads (by rw [hdedent]; rfl)

theorem blockOf_readIn (hstatement : ReadsIn origin statement) {body : List Stmt}
    (hc : origin.Shares c) (h : blockOf statement c = .ok body c') :
    (∀ s ∈ body, s.ReadIn origin) ∧ origin.Follows c' := by
  obtain ⟨_, opened, hopen, h⟩ := exists_of_bind_ok h
  obtain ⟨stmts, inside, hbody, h⟩ := exists_of_bind_ok h
  obtain ⟨_, closed, hclose, h⟩ := exists_of_bind_ok h
  cases h
  obtain ⟨mid, hmid, rfl⟩ := inBlockBody_ok hbody
  rw [manyUntil, get_bind] at hmid
  obtain ⟨hstmts, hlast⟩ := forall_of_repeatUntil (fun _ _ _ hfollows h => hstatement hfollows h)
    ((follows_of_openBlock hc hopen).inside (opened.depth + 1) (opened.blockDepth + 1)) hmid
  exact ⟨hstmts, follows_of_closeBlock (hlast.inside _ _).shares hclose⟩

/-! ### Compound statements -/

theorem branchOf_readIn (hstatement : ReadsIn origin statement)
    (halternative : ReadsAlternativesIn origin alternative) {key : Keyword}
    (hc : origin.Shares c) (hkind : c.kind = .keyword key)
    (h : branchOf statement alternative c = .ok s c') : s.ReadIn origin ∧ origin.Follows c' := by
  have hnext := follows_next hc hkind rfl (by simp)
  rw [branchOf, get_bind, bump_bind] at h
  obtain ⟨test, tested, htest, h⟩ := exists_of_bind_ok h
  obtain ⟨thenBody, mid, hthen, h⟩ := exists_of_bind_ok h
  obtain ⟨hread, htested⟩ := readIn_of_expr hnext htest
  obtain ⟨hfirst, hmid⟩ := blockOf_readIn hstatement htested hthen
  -- whatever follows the first body, the conditional ends with it
  have hends {elseBody : Option (List Stmt)} {last : Cursor} (hlast : origin.Follows last)
      (helse : ∀ body ∈ elseBody, ∀ s ∈ body, s.ReadIn origin)
      (hs : (do
        pure (.branch test thenBody elseBody (c.span.through (← get).lastSpan)) : Parser Stmt)
          last = .ok s c') : s.ReadIn origin ∧ origin.Follows c' := by
    rw [get_bind] at hs
    cases hs
    exact ⟨Stmt.readIn_branch hread hfirst helse, hlast⟩
  rw [get_bind] at h
  cases helse : mid.isAt (.keyword .elseBranch) with
  | true =>
    rw [bind_ok (skip_of_isAt helse)] at h
    have hkindElse := (TokenKind.isA_keyword _ _).mp helse
    have helif : ¬ mid.isAt (.keyword .elifTest) = true := by
      rw [Cursor.isAt, TokenKind.isA_keyword, hkindElse]
      decide
    rw [if_neg helif, if_pos rfl] at h
    obtain ⟨elseBody, last, hbody, h⟩ := exists_of_bind_ok h
    obtain ⟨hsecond, hlast⟩ := blockOf_readIn hstatement
      (follows_next hmid.shares hkindElse rfl (by simp)).shares hbody
    exact hends hlast (by simpa using hsecond) h
  | false =>
    rw [bind_ok (skip_of_not_isAt helse)] at h
    split at h
    case isTrue helif =>
      obtain ⟨branch, last, hnested, h⟩ := exists_of_bind_ok h
      obtain ⟨-, inner, hbranch, rfl⟩ := nested_ok hnested
      obtain ⟨hsecond, hinner⟩ := halternative
        (hmid.inside (mid.depth + 1) mid.blockDepth).shares
        ((TokenKind.isA_keyword _ _).mp helif) hbranch
      exact hends (hinner.inside mid.depth inner.blockDepth) (by simpa using hsecond) h
    case isFalse => exact hends hmid (by simp) h

theorem loopOf_readIn (hstatement : ReadsIn origin statement) {key : Keyword}
    (hc : origin.Shares c) (hkind : c.kind = .keyword key)
    (h : loopOf statement c = .ok s c') : s.ReadIn origin ∧ origin.Follows c' := by
  have hnext := follows_next hc hkind rfl (by simp)
  rw [loopOf, get_bind, bump_bind] at h
  obtain ⟨test, tested, htest, h⟩ := exists_of_bind_ok h
  obtain ⟨body, last, hbody, h⟩ := exists_of_bind_ok h
  obtain ⟨hread, htested⟩ := readIn_of_expr hnext htest
  obtain ⟨hstmts, hlast⟩ := blockOf_readIn hstatement htested hbody
  rw [get_bind] at h
  cases h
  exact ⟨Stmt.readIn_loop hread hstmts, hlast⟩

/-! ### Definitions -/

theorem functionDef_readIn (hstatement : ReadsIn origin statement)
    {definition : FunctionDef Stmt} (hc : origin.Shares c)
    (h : functionDef statement c = .ok definition c') :
    (∀ s ∈ definition.body, s.ReadIn origin) ∧ origin.Follows c' := by
  rw [functionDef, get_bind] at h
  obtain ⟨word, first, hword, h⟩ := exists_of_bind_ok h
  obtain ⟨⟨name, span⟩, second, hname, h⟩ := exists_of_bind_ok h
  obtain ⟨start, third, hstart, h⟩ := exists_of_bind_ok h
  obtain ⟨params, fourth, hparams, h⟩ := exists_of_bind_ok h
  obtain ⟨body, last, hbody, hend⟩ := exists_of_bind_ok h
  obtain ⟨_, hrestWord, -, rfl⟩ := expect_ok hword
  obtain ⟨id, _, hrestId, -, rfl, rfl⟩ := expectIdentifier_ok hname
  obtain ⟨_, hrestStart, -, rfl⟩ := expect_ok hstart
  obtain ⟨-, -, paramTokens, stop, -, hreads, -⟩ := params_reads hparams
  have hhead := ((hc.reads (Cursor.reads_next hrestWord)).reads (Cursor.reads_next hrestId)).reads
    (Cursor.reads_next hrestStart)
  obtain ⟨hstmts, hlast⟩ := blockOf_readIn hstatement (hhead.reads hreads) hbody
  rw [get_bind] at hend
  cases hend
  exact ⟨hstmts, hlast⟩

theorem method_readIn (hstatement : ReadsIn origin statement) {definition : FunctionDef Stmt}
    (hc : origin.Shares c) (h : method statement c = .ok definition c') :
    (∀ s ∈ definition.body, s.ReadIn origin) ∧ origin.Follows c' := by
  rw [method, get_bind] at h
  split at h
  case isTrue => exact functionDef_readIn hstatement hc h
  case isFalse => cases h

theorem classStatement_readIn (hstatement : ReadsIn origin statement) {key : Keyword}
    (hc : origin.Shares c) (hkind : c.kind = .keyword key)
    (h : classStatement statement c = .ok s c') : s.ReadIn origin ∧ origin.Follows c' := by
  have hnext := follows_next hc hkind rfl (by simp)
  rw [classStatement, get_bind, bump_bind] at h
  obtain ⟨⟨name, span⟩, named, hname, h⟩ := exists_of_bind_ok h
  obtain ⟨_, declared, hdeclared, h⟩ := exists_of_bind_ok h
  obtain ⟨_, opened, hopen, h⟩ := exists_of_bind_ok h
  obtain ⟨methods, mid, hmethods, h⟩ := exists_of_bind_ok h
  obtain ⟨_, closed, hclose, hend⟩ := exists_of_bind_ok h
  obtain ⟨id, _, hrestId, -, rfl, rfl⟩ := expectIdentifier_ok hname
  cases hdeclared
  have hnamed := (hnext.shares.reads (Cursor.reads_next hrestId)).declare name
  rw [manyUntil, get_bind] at hmethods
  obtain ⟨hbodies, hmid⟩ := forall_of_repeatUntil
    (fun _ _ _ hfollows hmethod => method_readIn hstatement hfollows.shares hmethod)
    (follows_of_openBlock hnamed hopen) hmethods
  rw [get_bind] at hend
  cases hend
  exact ⟨Stmt.readIn_classDef hbodies, follows_of_closeBlock hmid.shares hclose⟩

/-! ### Statements and programs -/

theorem readsIn_statementOf (hstatement : ReadsIn origin statement)
    (halternative : ReadsAlternativesIn origin alternative) :
    ReadsIn origin (statementOf statement alternative) := by
  intro c hc
  apply ReadsInAt.get_bind
  split <;> intro s c' h
  case h_1 =>
    split at h
    case isTrue => cases h
    case isFalse =>
      obtain ⟨definition, mid, hdefinition, h⟩ := exists_of_bind_ok h
      cases h
      obtain ⟨hbody, hlast⟩ := functionDef_readIn hstatement hc.shares hdefinition
      exact ⟨Stmt.readIn_function hbody, hlast⟩
  case h_2 hkind =>
    split at h
    case isTrue => cases h
    case isFalse => exact classStatement_readIn hstatement hc.shares hkind h
  case h_3 hkind => exact branchOf_readIn hstatement halternative hc.shares hkind h
  case h_4 hkind => exact loopOf_readIn hstatement hc.shares hkind h
  case h_5 hkind => exact returnStatement_readIn hc.shares hkind h
  case h_6 hkind | h_7 hkind | h_8 hkind =>
    exact wordStatement_readIn (fun _ => Stmt.readIn_of_not_holds (by rintro _ ⟨⟩)) hc.shares
      hkind h
  case h_9 => cases h
  case h_10 => cases h
  case h_11 => exact simpleStatement_readIn hc h

theorem readsIn_statementAt (budget : Nat) :
    ReadsIn origin (statementAt budget) ∧ ReadsAlternativesIn origin (alternativeAt budget) := by
  induction budget with
  | zero =>
    exact ⟨readsIn_statementOf readsIn_tooDeep readsAlternativesIn_tooDeep,
      fun c hc hkind s c' h =>
        branchOf_readIn readsIn_tooDeep readsAlternativesIn_tooDeep hc hkind h⟩
  | succ budget ih =>
    exact ⟨readsIn_statementOf ih.1 ih.2,
      fun c hc hkind s c' h => branchOf_readIn ih.1 ih.2 hc hkind h⟩

/-- All expressions of a program have been read where it has been. -/
theorem program_readIn {found : Module} (h : program c = .ok found c') :
    ∀ s ∈ found.body, s.ReadIn c := by
  obtain ⟨body, mid, hbody, h⟩ := exists_of_bind_ok h
  cases h
  rw [manyUntil, get_bind] at hbody
  exact (forall_of_repeatUntil
    (fun mid _ _ hmid hstatement => (readsIn_statementAt mid.budget).1 hmid hstatement)
    (Cursor.Follows.refl c) hbody).1

end Parser

end Offside
