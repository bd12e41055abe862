/-
Parsers as plans.  A plan names the single moves of a parser and their order, so that what happens
while the parser runs can be spoken of, and not only what it answers.  A plan decides by the token
in front of it and the one behind it; it steps over any token but the end of the input; and all
levels of nesting that it enters it gives back, except where it is marked as one that raises.
-/
import Offside.Proofs.Grammar.Progress

namespace Offside

namespace Cursor

/-- The part of a cursor that decides what a parser does next: of the tokens, the current one and
the one read last. -/
def sight (c : Cursor) : Cursor := { c with past := c.past.take 1, rest := c.rest.take 1 }

section

variable (c : Cursor)

@[simp] theorem kind_sight : c.sight.kind = c.kind := by
  simp only [kind, sight]
  cases c.rest <;> rfl

@[simp] theorem span_sight : c.sight.span = c.span := by
  simp only [span, sight]
  cases c.rest <;> cases c.past <;> rfl

@[simp] theorem lastSpan_sight : c.sight.lastSpan = c.lastSpan := by
  simp only [lastSpan, span_sight]
  simp only [sight]
  cases c.past <;> rfl

@[simp] theorem isAt_sight (wanted : TokenKind) : c.sight.isAt wanted = c.isAt wanted := by
  rw [isAt, isAt, kind_sight]

@[simp] theorem atEnd_sight : c.sight.atEnd = c.atEnd := by
  rw [atEnd, atEnd, kind_sight]

@[simp] theorem expected_sight (what : String) : c.sight.expected what = c.expected what := by
  rw [expected, expected, kind_sight, span_sight]

@[simp] theorem unexpected_sight : c.sight.unexpected = c.unexpected := by
  rw [unexpected, unexpected, kind_sight, span_sight]

@[simp] theorem isClass_sight (name : String) : c.sight.isClass name = c.isClass name := rfl

@[simp] theorem inBlock_sight : c.sight.inBlock = c.inBlock := rfl

@[simp] theorem budget_sight : c.sight.budget = c.budget := rfl

end

/-- One level of nesting deeper. -/
def deeper (c : Cursor) : Cursor := { c with depth := c.depth + 1 }

/-- The cursor inside of one more block. -/
def inner (c : Cursor) : Cursor := { c with blockDepth := c.blockDepth + 1 }

end Cursor

namespace Parser

/-- The cursor that a parser has reached, with an answer or with an error. -/
def reached {α : Type} : EStateM.Result GrammarError Cursor α → Cursor
  | .ok _ c => c
  | .error _ c => c

end Parser

/-- The moves of a parser in their order.  A plan that raises may leave the nesting deeper than it
was. -/
inductive Plan : Bool → Type → Type 1 where
  | protected pure {raises : Bool} {α : Type} (a : α) : Plan raises α
  | throw {raises : Bool} {α : Type} (error : GrammarError) : Plan raises α
  | protected bind {raises : Bool} {α β : Type} (first : Plan raises α) (next : α → Plan raises β) :
    Plan raises β
  /-- What is in sight. -/
  | look {raises : Bool} : Plan raises Cursor
  /-- Step over the current token, unless input ends there. -/
  | take {raises : Bool} : Plan raises Unit
  | declare {raises : Bool} (name : String) : Plan raises Unit
  | enter : Plan true Unit
  | tooDeep {α : Type} : Plan true α
  /-- A plan that could raise, but does not. -/
  | steady {α : Type} (plan : Plan false α) : Plan true α
  | inside {α : Type} (plan : Plan true α) : Plan false α
  | insideBlock {α : Type} (plan : Plan true α) : Plan false α
  | loop {raises : Bool} {σ α : Type} (round : σ → Plan raises (σ ⊕ α)) (state : σ) : Plan raises α

namespace Plan

instance {raises : Bool} : Monad (Plan raises) where
  pure := .pure
  bind := .bind

/-- The parser that makes the moves. -/
def run : {raises : Bool} → {α : Type} → Plan raises α → Parser α
  | _, _, .pure a => Pure.pure a
  | _, _, .throw error => MonadExcept.throw error
  | _, _, .bind first next => first.run >>= fun a => (next a).run
  | _, _, .look => fun c => .ok c.sight c
  | _, _, .take => fun c => .ok () (if c.atEnd then c else c.next)
  | _, _, .declare name => modify (·.declare name)
  | _, _, .enter => Parser.enterNesting
  | _, _, .tooDeep => Parser.tooDeep
  | _, _, .steady plan => plan.run
  | _, _, .inside plan => Parser.nested plan.run
  | _, _, .insideBlock plan => Parser.inBlockBody plan.run
  | _, _, .loop round state => Parser.rounds (fun state => (round state).run) state

end Plan

/-! ### What a run leaves -/

namespace Cursor

/-- A later cursor of the same tokens, with no end of input between the two. -/
def Spares (c c' : Cursor) : Prop :=
  ∃ read, c.rest = read ++ c'.rest ∧ c'.past = read.reverse ++ c.past ∧
    ∀ token ∈ read, token.kind ≠ .layout .endOfInput

/-- A cursor that a run can reach from another one.  It may be nested deeper. -/
structure Advances (c c' : Cursor) : Prop where
  tokens : c.Spares c'
  classes : c.classes <+: c'.classes
  maxDepth : c'.maxDepth = c.maxDepth
  blockDepth : c'.blockDepth = c.blockDepth
  depth : c.depth ≤ c'.depth

variable {c c' c'' : Cursor}

theorem Spares.refl (c : Cursor) : c.Spares c := ⟨[], rfl, rfl, List.forall_mem_nil _⟩

theorem Spares.trans (hfirst : c.Spares c') (hsecond : c'.Spares c'') : c.Spares c'' := by
  obtain ⟨read, hrest, hpast, hread⟩ := hfirst
  obtain ⟨others, hrest', hpast', hothers⟩ := hsecond
  exact ⟨read ++ others, by rw [hrest, hrest', List.append_assoc],
    by rw [hpast', hpast, List.reverse_append, List.append_assoc],
    List.forall_mem_append.mpr ⟨hread, hothers⟩⟩

theorem Spares.length_le (h : c.Spares c') : c'.rest.length ≤ c.rest.length := by
  obtain ⟨read, hrest, -⟩ := h
  rw [hrest, List.length_append]
  exact Nat.le_add_left _ _

theorem spares_next (h : c.atEnd = false) : c.Spares c.next := by
  cases hrest : c.rest with
  | nil => rw [atEnd, kind, hrest] at h; cases h
  | cons token rest =>
    refine ⟨[token], by simp [next, hrest], by simp [next, hrest], ?_⟩
    rw [atEnd, kind_of_rest hrest, beq_eq_false_iff_ne] at h
    simpa using h

theorem length_next_lt (h : c.atEnd = false) : c.next.rest.length < c.rest.length := by
  cases hrest : c.rest with
  | nil => rw [atEnd, kind, hrest] at h; cases h
  | cons token rest =>
    rw [rest_next hrest]
    exact Nat.lt_succ_self _

theorem Advances.refl (c : Cursor) : c.Advances c :=
  ⟨.refl c, List.prefix_rfl, rfl, rfl, Nat.le_refl _⟩

theorem Advances.trans (hfirst : c.Advances c') (hsecond : c'.Advances c'') : c.Advances c'' :=
  ⟨hfirst.tokens.trans hsecond.tokens, hfirst.classes.trans hsecond.classes,
    hsecond.maxDepth.trans hfirst.maxDepth, hsecond.blockDepth.trans hfirst.blockDepth,
    Nat.le_trans hfirst.depth hsecond.depth⟩

theorem advances_next (h : c.atEnd = false) : c.Advances c.next :=
  ⟨spares_next h, by simp only [classes_next, List.prefix_refl], maxDepth_next c,
    by unfold next; split <;> rfl, Nat.le_of_eq (depth_next c).symm⟩

theorem advances_declare (c : Cursor) (name : String) : c.Advances (c.declare name) := by
  unfold declare
  split
  · exact .refl c
  · exact ⟨.refl c, List.prefix_append _ _, rfl, rfl, Nat.le_refl _⟩

theorem advances_deeper (c : Cursor) : c.Advances c.deeper :=
  ⟨.refl c, List.prefix_rfl, rfl, rfl, Nat.le_succ _⟩

/-- The way back out of a level of nesting. -/
theorem Advances.out (h : c.deeper.Advances c') : c.Advances { c' with depth := c.depth } :=
  ⟨h.tokens, h.classes, h.maxDepth, h.blockDepth, Nat.le_refl _⟩

/-- The way back out of a block.  As many blocks are open then as before. -/
theorem Advances.outOfBlock (h : c.inner.Advances c') :
    c.Advances { c' with blockDepth := c'.blockDepth - 1 } :=
  ⟨h.tokens, h.classes, h.maxDepth, congrArg (· - 1) h.blockDepth, h.depth⟩

end Cursor

namespace Parser

variable {α : Type} {c : Cursor} {p : Parser α}

/-- The end of the input is not stepped over, whether the parser answers or fails. -/
def SparesEnd (p : Parser α) : Prop := ∀ c : Cursor, c.Spares (reached (p c))

theorem reached_atDepth (depth : Nat) (result : EStateM.Result GrammarError Cursor α) :
    reached (atDepth depth result) = { reached result with depth := depth } := by
  cases result <;> rfl

theorem reached_leaveBlock (result : EStateM.Result GrammarError Cursor α) :
    reached (leaveBlock result) =
      { reached result with blockDepth := (reached result).blockDepth - 1 } := by
  cases result <;> rfl

theorem tooDeep_eq (c : Cursor) :
    (tooDeep : Parser α) c = .error (.nestingTooDeep c.maxDepth c.span) c.deeper := rfl

theorem enterNesting_eq (c : Cursor) :
    enterNesting c = if c.depth < c.maxDepth then .ok () c.deeper else tooDeep c := rfl

theorem nested_eq_of_lt (h : c.depth < c.maxDepth) :
    nested p c = atDepth c.depth (p c.deeper) := nested_of_lt h

theorem inBlockBody_eq (p : Parser α) (c : Cursor) :
    inBlockBody p c = leaveBlock (nested p c.inner) := rfl

theorem enterNesting_of_not_lt (h : ¬ c.depth < c.maxDepth) :
    enterNesting c = .error (.nestingTooDeep c.maxDepth c.span) c.deeper := by
  rw [enterNesting_eq, if_neg h, tooDeep_eq]

theorem nested_of_not_lt (h : ¬ c.depth < c.maxDepth) :
    nested p c = .error (.nestingTooDeep c.maxDepth c.span) c := by
  rw [nested, bind_error (enterNesting_of_not_lt h)]
  rfl

/-- What a run leaves: just the levels of nesting from before if it does not raise, and otherwise
no more of them than there may be, but for the one that it was refused. -/
structure Leaves (raises : Bool) (c : Cursor) (result : EStateM.Result GrammarError Cursor α) :
    Prop where
  advances : c.Advances (reached result)
  steady : raises = false → (reached result).depth = c.depth
  depth_le : (reached result).depth ≤ max c.depth c.maxDepth + 1
  depth_le_of_ok : ∀ a c', result = .ok a c' → c'.depth ≤ max c.depth c.maxDepth

namespace Leaves

variable {raises : Bool} {result : EStateM.Result GrammarError Cursor α}

/-- A move that keeps the depth of nesting. -/
theorem of_advances (h : c.Advances (reached result)) (hdepth : (reached result).depth = c.depth) :
    Leaves raises c result := by
  refine ⟨h, fun _ => hdepth, by omega, ?_⟩
  rintro a c' rfl
  exact Nat.le_trans (Nat.le_of_eq hdepth) (Nat.le_max_left _ _)

/-- A run that goes on from where one has come to. -/
theorem trans {β : Type} {a : α} {c' : Cursor} {result : EStateM.Result GrammarError Cursor β}
    (hfirst : Leaves raises c (.ok a c')) (hsecond : Leaves raises c' result) :
    Leaves raises c result := by
  have hbefore := hfirst.depth_le_of_ok a c' rfl
  have hmax : c'.maxDepth = c.maxDepth := hfirst.advances.maxDepth
  refine ⟨hfirst.advances.trans hsecond.advances,
    fun hsteady => (hsecond.steady hsteady).trans (hfirst.steady hsteady), ?_,
    fun b last hlast => ?_⟩
  · have hafter := hsecond.depth_le
    omega
  · have hafter := hsecond.depth_le_of_ok b last hlast
    omega

/-- A run that fails where one has failed before. -/
theorem error {β : Type} {error : GrammarError} {c' : Cursor}
    (h : Leaves raises c (.error error c' : EStateM.Result GrammarError Cursor α)) :
    Leaves raises c (.error error c' : EStateM.Result GrammarError Cursor β) :=
  ⟨h.advances, h.steady, h.depth_le, nofun⟩

theorem bind {β : Type} {f : α → Parser β} (hp : Leaves raises c (p c))
    (hf : ∀ a c', Leaves raises c' (f a c')) : Leaves raises c ((p >>= f) c) := by
  cases h : p c with
  | error error c' =>
    rw [h] at hp
    rw [bind_error h]
    exact hp.error
  | ok a c' =>
    rw [h] at hp
    rw [bind_ok h]
    exact hp.trans (hf a c')

theorem tooDeep : Leaves true c ((tooDeep : Parser α) c) :=
  ⟨c.advances_deeper, nofun, Nat.succ_le_succ (Nat.le_max_left _ _), nofun⟩

theorem enterNesting : Leaves true c (enterNesting c) := by
  rw [enterNesting_eq]
  split
  case isTrue h =>
    refine ⟨c.advances_deeper, nofun, Nat.succ_le_succ (Nat.le_max_left _ _), ?_⟩
    rintro _ _ ⟨⟩
    exact Nat.le_trans h (Nat.le_max_right _ _)
  case isFalse => exact tooDeep

theorem nested (h : c.depth < c.maxDepth → Leaves true c.deeper (p c.deeper)) :
    Leaves raises c (nested p c) := by
  by_cases hlt : c.depth < c.maxDepth
  · rw [nested_eq_of_lt hlt]
    refine .of_advances ?_ (by rw [reached_atDepth])
    rw [reached_atDepth]
    exact (h hlt).advances.out
  · rw [nested_of_not_lt hlt]
    exact .of_advances (.refl c) rfl

theorem inBlockBody (h : ∀ c, Leaves true c (p c)) : Leaves raises c (inBlockBody p c) := by
  have hinside : Leaves false c.inner (Parser.nested p c.inner) := .nested fun _ => h _
  rw [inBlockBody_eq]
  refine .of_advances ?_ ?_
  · rw [reached_leaveBlock]
    exact hinside.advances.outOfBlock
  · rw [reached_leaveBlock]
    exact hinside.steady rfl

theorem rounds {σ : Type} {round : σ → Parser (σ ⊕ α)}
    (h : ∀ state c, Leaves raises c (round state c)) (state : σ) (c : Cursor) :
    Leaves raises c (rounds round state c) := by
  fun_induction Parser.rounds round state c with
  | case1 state c next c' hround _ ih =>
    have hfirst := h state c
    rw [hround] at hfirst
    exact hfirst.trans ih
  | case2 state c next c' hround _ =>
    have hfirst := h state c
    rw [hround] at hfirst
    exact hfirst.trans (.of_advances (.refl c') rfl)
  | case3 state c a c' hround =>
    have hfirst := h state c
    rw [hround] at hfirst
    exact hfirst.trans (.of_advances (.refl c') rfl)
  | case4 state c error c' hround =>
    have hfirst := h state c
    rw [hround] at hfirst
    exact hfirst.error

end Leaves

end Parser

namespace Plan

open Offside.Parser

theorem leaves_run {raises : Bool} {α : Type} (plan : Plan raises α) (c : Cursor) :
    Leaves raises c (plan.run c) := by
  induction plan generalizing c with
  | pure | throw | look => exact .of_advances (.refl c) rfl
  | bind first next hfirst hnext => exact (hfirst c).bind fun a => hnext a
  | take =>
    cases h : c.atEnd with
    | true =>
      dsimp only [run]
      rw [h]
      exact .of_advances (.refl c) rfl
    | false =>
      dsimp only [run]
      rw [h]
      exact .of_advances (Cursor.advances_next h) (Cursor.depth_next c)
  | declare name =>
    exact .of_advances (c.advances_declare name) (Cursor.depth_declare c name)
  | enter => exact .enterNesting
  | tooDeep => exact .tooDeep
  | steady plan ih => exact ⟨(ih c).advances, nofun, (ih c).depth_le, (ih c).depth_le_of_ok⟩
  | inside plan ih => exact .nested fun _ => ih _
  | insideBlock plan ih => exact .inBlockBody ih
  | loop round state hround => exact .rounds hround state c

theorem sparesEnd_run {raises : Bool} {α : Type} (plan : Plan raises α) : SparesEnd plan.run :=
  fun c => (plan.leaves_run c).advances.tokens

theorem leaves_of_ok {raises : Bool} {α : Type} {plan : Plan raises α} {a : α} {c c' : Cursor}
    (h : plan.run c = .ok a c') :
    Leaves raises c (.ok a c' : EStateM.Result GrammarError Cursor α) :=
  h ▸ leaves_run plan c

/-! ### What a run passes -/

/-- The moments of a run.  At each of them so many parts of the plan are being carried out that
will give their level of nesting back, and the run has come to some cursor. -/
inductive Passes : {raises : Bool} → {α : Type} → Plan raises α → Cursor → Nat → Cursor → Prop where
  | start {raises : Bool} {α : Type} {plan : Plan raises α} {c : Cursor} : Passes plan c 0 c
  | stop {raises : Bool} {α : Type} {plan : Plan raises α} {c : Cursor} :
    Passes plan c 0 (reached (plan.run c))
  | first {raises : Bool} {α β : Type} {plan : Plan raises α} {next : α → Plan raises β}
    {c moment : Cursor} {frames : Nat} (h : Passes plan c frames moment) :
    Passes (.bind plan next) c frames moment
  | next {raises : Bool} {α β : Type} {plan : Plan raises α} {next : α → Plan raises β} {a : α}
    {c c' moment : Cursor} {frames : Nat} (hfirst : plan.run c = .ok a c')
    (h : Passes (next a) c' frames moment) : Passes (.bind plan next) c frames moment
  | steady {α : Type} {plan : Plan false α} {c moment : Cursor} {frames : Nat}
    (h : Passes plan c frames moment) : Passes (.steady plan) c frames moment
  | entering {α : Type} {plan : Plan true α} {c : Cursor} : Passes (.inside plan) c 1 c.deeper
  | inside {α : Type} {plan : Plan true α} {c moment : Cursor} {frames : Nat}
    (hlimit : c.depth < c.maxDepth) (h : Passes plan c.deeper frames moment) :
    Passes (.inside plan) c (frames + 1) moment
  | enteringBlock {α : Type} {plan : Plan true α} {c : Cursor} :
    Passes (.insideBlock plan) c 1 c.inner.deeper
  | insideBlock {α : Type} {plan : Plan true α} {c moment : Cursor} {frames : Nat}
    (hlimit : c.depth < c.maxDepth) (h : Passes plan c.inner.deeper frames moment) :
    Passes (.insideBlock plan) c (frames + 1) moment
  | round {raises : Bool} {σ α : Type} {round : σ → Plan raises (σ ⊕ α)} {state : σ}
    {c moment : Cursor} {frames : Nat} (h : Passes (round state) c frames moment) :
    Passes (.loop round state) c frames moment
  | again {raises : Bool} {σ α : Type} {round : σ → Plan raises (σ ⊕ α)} {state next : σ}
    {c c' moment : Cursor} {frames : Nat} (hround : (round state).run c = .ok (.inl next) c')
    (hless : c'.rest.length < c.rest.length) (h : Passes (.loop round next) c' frames moment) :
    Passes (.loop round state) c frames moment

namespace Passes

variable {raises : Bool} {α : Type} {plan : Plan raises α} {c moment : Cursor} {frames : Nat}

theorem depth_le (h : Passes plan c frames moment) :
    moment.depth ≤ max c.depth c.maxDepth + 1 := by
  induction h with
  | start => omega
  | stop => exact (leaves_run _ _).depth_le
  | first _ ih => exact ih
  | next hfirst _ ih =>
    have hdepth := (leaves_of_ok hfirst).depth_le_of_ok _ _ rfl
    have hmax := (leaves_of_ok hfirst).advances.maxDepth
    dsimp only [reached] at hmax
    omega
  | steady _ ih => exact ih
  | entering => exact Nat.succ_le_succ (Nat.le_max_left _ _)
  | inside hlimit _ ih =>
    dsimp only [Cursor.deeper] at ih
    omega
  | enteringBlock => exact Nat.succ_le_succ (Nat.le_max_left _ _)
  | insideBlock hlimit _ ih =>
    dsimp only [Cursor.deeper, Cursor.inner] at ih
    omega
  | round _ ih => exact ih
  | again hround _ _ ih =>
    have hdepth := (leaves_of_ok hround).depth_le_of_ok _ _ rfl
    have hmax := (leaves_of_ok hround).advances.maxDepth
    dsimp only [reached] at hmax
    omega

/-- Each part of the plan that will give its level back has taken one. -/
theorem frames_add_le (h : Passes plan c frames moment) :
    frames + c.depth ≤ moment.depth := by
  induction h with
  | start => omega
  | stop => exact (Nat.zero_add _).trans_le (leaves_run _ _).advances.depth
  | first _ ih => exact ih
  | next hfirst _ ih =>
    have hdepth := (leaves_of_ok hfirst).advances.depth
    dsimp only [reached] at hdepth
    omega
  | steady _ ih => exact ih
  | entering => exact Nat.le_of_eq (Nat.add_comm _ _)
  | inside hlimit _ ih =>
    dsimp only [Cursor.deeper] at ih
    omega
  | enteringBlock => exact Nat.le_of_eq (Nat.add_comm _ _)
  | insideBlock hlimit _ ih =>
    dsimp only [Cursor.deeper, Cursor.inner] at ih
    omega
  | round _ ih => exact ih
  | again hround _ _ ih =>
    have hdepth := (leaves_of_ok hround).advances.depth
    dsimp only [reached] at hdepth
    omega

/-- So no more of them are being carried out at a time than levels are allowed, and one more. -/
theorem frames_le (h : Passes plan c frames moment) : frames ≤ c.maxDepth + 1 := by
  have hdepth := h.depth_le
  have hframes := h.frames_add_le
  omega

end Passes

end Plan

end Offside
