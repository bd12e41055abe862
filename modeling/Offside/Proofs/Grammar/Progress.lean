/-
Parsers that get on.  Whenever an expression or a statement is read, at least one token is, whatever
the tokens are and wherever input ends among them.  So every loop of the parser comes to its end
without a bound on its rounds: each round leaves fewer tokens than the one before.
-/
import Offside.Proofs.Grammar.Takes

namespace Offside

namespace Parser

variable {α : Type} {c c' : Cursor} {budget : Nat}

/-- Whenever the parser answers, it has read a token. -/
def Progresses (p : Parser α) : Prop :=
  ∀ ⦃c : Cursor⦄ ⦃a : α⦄ ⦃c' : Cursor⦄, p c = .ok a c' → c'.rest.length < c.rest.length

theorem progresses_tooDeep : Progresses (tooDeep : Parser α) := by
  intro c a c' h
  cases h

theorem progresses_exprAt (budget level : Nat) : Progresses (exprAt budget level) := by
  intro c e c' h
  have hlevel : Layer.or.level ≤ min Binding.unary (max level 1) :=
    Nat.le_min.mpr ⟨by decide, Nat.le_max_right _ _⟩
  obtain ⟨read, hread, -, hderives, -⟩ := exprAt_reads budget .or hlevel h
  exact hread.length_lt (List.ne_nil_of_length_pos hderives.length_pos)

theorem progresses_expr (level : Nat) : Progresses (expr level) :=
  fun c _ _ h => progresses_exprAt c.budget level h

theorem StatementRead.length_lt {s : Stmt} (h : StatementRead c s c') :
    c'.rest.length < c.rest.length := by
  cases h with
  | line line =>
    obtain ⟨-, read, hform, ⟨newline, -, hreads⟩ | ⟨hreads, -⟩⟩ := line
    · exact hreads.length_lt (by simp)
    · exact hreads.length_lt hform.ne_nil
  | compound _ hne hreads => exact hreads.length_lt hne
  | definition _ _ hne hreads => exact hreads.length_lt hne

theorem progresses_statement : Progresses statement := fun _ _ _ h => (statement_reads h).length_lt

theorem readsStmts_deeperStatement (budget : Nat) : ReadsStmts (deeperStatement budget) := by
  cases budget with
  | zero => exact readsStmts_tooDeep
  | succ budget => exact (readsStmts_statementAt budget).1

theorem readsAlternatives_deeperAlternative (budget : Nat) :
    ReadsAlternatives (deeperAlternative budget) := by
  cases budget with
  | zero => exact readsAlternatives_tooDeep
  | succ budget => exact (readsStmts_statementAt budget).2

theorem progresses_deeperStatement (budget : Nat) : Progresses (deeperStatement budget) := by
  cases budget with
  | zero => exact progresses_tooDeep
  | succ budget =>
    intro c s c' h
    rw [deeperStatement, statementAt_eq] at h
    exact (statementOf_reads (readsStmts_deeperStatement budget)
      (readsAlternatives_deeperAlternative budget) h).length_lt

theorem progresses_method (budget : Nat) : Progresses (method (deeperStatement budget)) := by
  intro c definition c' h
  rw [method, get_bind] at h
  split at h
  case isFalse => cases h
  case isTrue =>
    obtain ⟨-, read, hne, hread, -⟩ := functionDef_reads (readsStmts_deeperStatement budget) h
    exact hread.length_lt hne

theorem progresses_param (before : List Param) : Progresses (param before) := by
  intro c found c' h
  obtain ⟨word, -, -, -, -, hread, -⟩ := param_ok h
  exact hread.length_lt (List.cons_ne_nil _ _)

/-! ### Loops -/

/-- The rounds of a loop, each of which starts from what the one before has made of a state.  They
go on as long as each of them leaves fewer tokens. -/
def rounds {σ α : Type} (round : σ → Parser (σ ⊕ α)) (state : σ) (c : Cursor) :
    EStateM.Result GrammarError Cursor α :=
  match round state c with
  | .ok (.inl next) c' =>
    if c'.rest.length < c.rest.length then rounds round next c' else .error c'.unexpected c'
  | .ok (.inr a) c' => .ok a c'
  | .error error c' => .error error c'
termination_by c.rest.length

section

variable {σ α : Type} {round : σ → Parser (σ ⊕ α)} {state next : σ} {c c' : Cursor}

theorem rounds_again (h : round state c = .ok (.inl next) c')
    (hless : c'.rest.length < c.rest.length) :
    rounds round state c = rounds round next c' := by
  rw [rounds, h]
  exact if_pos hless

theorem rounds_stuck (h : round state c = .ok (.inl next) c')
    (hless : ¬ c'.rest.length < c.rest.length) :
    rounds round state c = .error c'.unexpected c' := by
  rw [rounds, h]
  exact if_neg hless

theorem rounds_done {a : α} (h : round state c = .ok (.inr a) c') :
    rounds round state c = .ok a c' := by
  rw [rounds, h]

theorem rounds_error {error : GrammarError} (h : round state c = .error error c') :
    rounds round state c = .error error c' := by
  rw [rounds, h]

end

/-- A run of a loop that comes to its end, with fewer tokens left at every further round. -/
inductive Loops {σ : Type} (round : σ → Parser (σ ⊕ α)) :
    σ → Cursor → EStateM.Result GrammarError Cursor α → Prop where
  | again {state next : σ} {c c' : Cursor} {result : EStateM.Result GrammarError Cursor α}
    (hround : round state c = .ok (.inl next) c') (hless : c'.rest.length < c.rest.length)
    (h : Loops round next c' result) : Loops round state c result
  | done {state : σ} {c c' : Cursor} {a : α} (hround : round state c = .ok (.inr a) c') :
    Loops round state c (.ok a c')
  | error {state : σ} {c c' : Cursor} {error : GrammarError}
    (hround : round state c = .error error c') : Loops round state c (.error error c')

theorem loops_rounds {σ : Type} {round : σ → Parser (σ ⊕ α)}
    (h : ∀ state c next c', round state c = .ok (.inl next) c' → c'.rest.length < c.rest.length)
    (state : σ) (c : Cursor) : Loops round state c (rounds round state c) := by
  fun_induction rounds round state c with
  | case1 state c next c' hround hless ih => exact .again hround hless ih
  | case2 state c next c' hround hless => exact absurd (h state c next c' hround) hless
  | case3 state c a c' hround => exact .done hround
  | case4 state c error c' hround => exact .error hround

/-- A round of collecting items until the cursor is where that should stop. -/
def untilRound (stop : Cursor → Bool) (item : Parser α) (found : List α) :
    Parser (List α ⊕ List α) := do
  if stop (← get) then pure (.inr found.reverse)
  else
    let next ← item
    pure (.inl (next :: found))

/-- A round of collecting items with commas between them. -/
def itemRound (item : List α → Parser α) (before : List α) : Parser (List α ⊕ List α) := do
  if (← get).isAt (.symbol .closeParen) then pure (.inr before.reverse)
  else
    let first ← item before
    if ← skip (.symbol .comma) then pure (.inl (first :: before))
    else pure (.inr (first :: before).reverse)

section

variable {stop : Cursor → Bool} {item : Parser α} {found : List α}

theorem untilRound_of_stop (h : stop c = true) :
    untilRound stop item found c = .ok (.inr found.reverse) c := by
  rw [untilRound, get_bind, if_pos h]
  rfl

theorem untilRound_of_not_stop (h : stop c = false) :
    untilRound stop item found c = (do
      let next ← item
      pure (.inl (next :: found)) : Parser (List α ⊕ List α)) c := by
  rw [untilRound, get_bind, if_neg (by rw [h]; exact Bool.false_ne_true)]

/-- The bound on the repetitions is never reached. -/
theorem rounds_untilRound (hitem : Progresses item) (count : Nat) (found : List α) (c : Cursor)
    (hcount : c.rest.length < count) :
    rounds (untilRound stop item) found c =
      (do
        let others ← repeatUntil stop item count
        pure (found.reverse ++ others) : Parser (List α)) c := by
  induction count generalizing found c with
  | zero => exact absurd hcount (Nat.not_lt_zero _)
  | succ count ih =>
    cases h : stop c with
    | true =>
      rw [rounds_done (untilRound_of_stop h), bind_ok (repeatUntil_of_stop h _), List.append_nil]
      rfl
    | false =>
      have hround : untilRound stop item found c = _ := untilRound_of_not_stop h
      cases hfirst : item c with
      | error error c' =>
        rw [rounds_error (hround.trans (bind_error hfirst)),
          bind_error ((repeatUntil_succ h count).trans (bind_error hfirst))]
      | ok next c' =>
        have hless := hitem hfirst
        rw [rounds_again (hround.trans (bind_ok hfirst)) hless, ih _ c' (by omega)]
        have hlater {result} (hrest : (repeatUntil stop item count >>= fun others =>
            pure (next :: others) : Parser (List α)) c' = result) :
            repeatUntil stop item (count + 1) c = result :=
          (repeatUntil_succ h count).trans ((bind_ok hfirst).trans hrest)
        cases hrest : repeatUntil stop item count c' with
        | error error c'' => rw [bind_error hrest, bind_error (hlater (bind_error hrest))]
        | ok others c'' =>
          rw [bind_ok hrest, bind_ok (hlater (bind_ok hrest)), List.reverse_cons, List.append_assoc,
            List.singleton_append]

theorem rounds_untilRound_nil (hitem : Progresses item) (c : Cursor) :
    rounds (untilRound stop item) [] c = manyUntil stop item c := by
  rw [manyUntil, get_bind, rounds_untilRound hitem _ [] c (Nat.lt_succ_self _)]
  simp only [List.reverse_nil, List.nil_append, bind_pure]

/-- Where every item reads a token, collecting items comes to its end. -/
theorem loops_manyUntil (hitem : Progresses item) (c : Cursor) :
    Loops (untilRound stop item) [] c (manyUntil stop item c) := by
  rw [← rounds_untilRound_nil hitem]
  refine loops_rounds (fun found c next c' h => ?_) [] c
  cases hstop : stop c with
  | true =>
    rw [untilRound_of_stop hstop] at h
    cases h
  | false =>
    rw [untilRound_of_not_stop hstop] at h
    obtain ⟨a, mid, hfirst, hnext⟩ := exists_of_bind_ok h
    cases hnext
    exact hitem hfirst

end

section

variable {item : List α → Parser α}

/-- A round with an item, which goes on where a comma follows. -/
theorem itemRound_of_ok {before : List α} {first : α} (h : ¬ c.isAt (.symbol .closeParen))
    (hfirst : item before c = .ok first c') :
    itemRound item before c =
      if c'.isAt (.symbol .comma) then .ok (.inl (first :: before)) c'.next
      else .ok (.inr (first :: before).reverse) c' := by
  rw [itemRound, get_bind, if_neg h, bind_ok hfirst]
  cases hcomma : c'.isAt (.symbol .comma) with
  | true =>
    rw [bind_ok (skip_of_isAt hcomma)]
    rfl
  | false =>
    rw [bind_ok (skip_of_not_isAt hcomma)]
    rfl

/-- The comma makes a round that is not the last read a token. -/
theorem length_lt_of_itemRound
    (hitem : ∀ before c first c', item before c = .ok first c' → c'.rest.length ≤ c.rest.length)
    {before next : List α} (h : itemRound item before c = .ok (.inl next) c') :
    c'.rest.length < c.rest.length := by
  by_cases hclose : c.isAt (.symbol .closeParen)
  · rw [itemRound, get_bind, if_pos hclose] at h
    cases h
  · cases hfirst : item before c with
    | error error mid =>
      rw [itemRound, get_bind, if_neg hclose, bind_error hfirst] at h
      cases h
    | ok first mid =>
      rw [itemRound_of_ok hclose hfirst] at h
      split at h
      case isFalse => cases h
      case isTrue hcomma =>
        cases h
        obtain ⟨token, rest, hrest, -⟩ :=
          Cursor.exists_token ((TokenKind.isA_symbol _ _).mp hcomma) (by simp)
        have hread := hitem before c first mid hfirst
        rw [Cursor.rest_next hrest]
        rwa [hrest] at hread

theorem itemsAfter_succ (count : Nat) (before : List α) (c : Cursor) :
    itemsAfter item (count + 1) before c =
      match itemRound item before c with
      | .ok (.inl next) c' => itemsAfter item count next c'
      | .ok (.inr found) c' => .ok found c'
      | .error error c' => .error error c' := by
  rw [itemsAfter, get_bind]
  by_cases hclose : c.isAt (.symbol .closeParen)
  · rw [itemRound, get_bind, if_pos hclose, if_pos hclose]
    rfl
  · cases hfirst : item before c with
    | error error c' =>
      rw [itemRound, get_bind, if_neg hclose, if_neg hclose, bind_error hfirst, bind_error hfirst]
    | ok first c' =>
      rw [itemRound_of_ok hclose hfirst, if_neg hclose, bind_ok hfirst]
      cases hcomma : c'.isAt (.symbol .comma) with
      | true =>
        rw [bind_ok (skip_of_isAt hcomma)]
        rfl
      | false =>
        rw [bind_ok (skip_of_not_isAt hcomma)]
        rfl

variable
  (hitem : ∀ before c first c', item before c = .ok first c' → c'.rest.length ≤ c.rest.length)

include hitem

theorem rounds_itemRound (count : Nat) (before : List α) (c : Cursor)
    (hcount : c.rest.length < count) :
    rounds (itemRound item) before c = itemsAfter item count before c := by
  induction count generalizing before c with
  | zero => exact absurd hcount (Nat.not_lt_zero _)
  | succ count ih =>
    rw [itemsAfter_succ]
    split
    case h_1 next c' hround =>
      have hless := length_lt_of_itemRound hitem hround
      rw [rounds_again hround hless, ih _ _ (by omega)]
    case h_2 found c' hround => exact rounds_done hround
    case h_3 error c' hround => exact rounds_error hround

/-- Collecting items with commas between them comes to its end. -/
theorem loops_itemsAfter (c : Cursor) :
    Loops (itemRound item) [] c (itemsAfter item (c.rest.length + 1) [] c) := by
  rw [← rounds_itemRound hitem _ [] c (Nat.lt_succ_self _)]
  exact loops_rounds (fun _ _ _ _ h => length_lt_of_itemRound hitem h) [] c

end

end Parser

end Offside
