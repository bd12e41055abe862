/-
How far a run looks ahead.  Of the tokens that it has not stepped over it sees the first one only.
So two token streams that agree up to the token in front of which a run ends, that token included,
have the same run: the same answer or the same error, in front of the same token.
-/
import Offside.Proofs.Grammar.PlannedParsers

namespace Offside

namespace Cursor

/-- Cursors at the same place of two token streams, which part behind the current token or later. -/
def Alike (tail other : List Token) (c d : Cursor) : Prop :=
  ∃ token front, c.rest = token :: front ++ tail ∧ d = { c with rest := token :: front ++ other }

variable {tail other : List Token} {c d : Cursor}

theorem alike_ofTokens {front : List Token} (hfront : front ≠ []) (limit : Nat) :
    Alike tail other (ofTokens (front ++ tail) limit) (ofTokens (front ++ other) limit) := by
  obtain ⟨token, front, rfl⟩ := List.exists_cons_of_ne_nil hfront
  exact ⟨token, front, rfl, rfl⟩

namespace Alike

theorem kind (h : Alike tail other c d) : d.kind = c.kind := by
  obtain ⟨token, front, hrest, rfl⟩ := h
  simp only [Cursor.kind, hrest, List.cons_append]

theorem span (h : Alike tail other c d) : d.span = c.span := by
  obtain ⟨token, front, hrest, rfl⟩ := h
  simp only [Cursor.span, hrest, List.cons_append]

theorem sight (h : Alike tail other c d) : d.sight = c.sight := by
  obtain ⟨token, front, hrest, rfl⟩ := h
  simp only [Cursor.sight, hrest, List.cons_append, List.take_succ_cons, List.take_zero]

theorem unexpected (h : Alike tail other c d) : d.unexpected = c.unexpected := by
  rw [← unexpected_sight, h.sight, unexpected_sight]

theorem atEnd (h : Alike tail other c d) : d.atEnd = c.atEnd := by
  rw [Cursor.atEnd, h.kind, Cursor.atEnd]

theorem depth (h : Alike tail other c d) : d.depth = c.depth := by
  obtain ⟨token, front, -, rfl⟩ := h
  rfl

theorem maxDepth (h : Alike tail other c d) : d.maxDepth = c.maxDepth := by
  obtain ⟨token, front, -, rfl⟩ := h
  rfl

theorem blockDepth (h : Alike tail other c d) : d.blockDepth = c.blockDepth := by
  obtain ⟨token, front, -, rfl⟩ := h
  rfl

theorem past (h : Alike tail other c d) : d.past = c.past := by
  obtain ⟨token, front, -, rfl⟩ := h
  rfl

/-- What is left of the one stream tells what is left of the other. -/
theorem length_eq (h : Alike tail other c d) :
    c.rest.length + other.length = d.rest.length + tail.length := by
  obtain ⟨token, front, hrest, rfl⟩ := h
  simp only [hrest, List.length_append]
  omega

/-- So both have got further, or neither has. -/
theorem fewer_iff {c' d' : Cursor} (h : Alike tail other c d) (h' : Alike tail other c' d') :
    d'.rest.length < d.rest.length ↔ c'.rest.length < c.rest.length := by
  have hlength := h.length_eq
  have hlength' := h'.length_eq
  omega

theorem next (h : Alike tail other c d) (hmore : tail.length < c.next.rest.length) :
    Alike tail other c.next d.next := by
  obtain ⟨token, front, hrest, rfl⟩ := h
  cases front with
  | nil =>
    rw [rest_next hrest] at hmore
    exact absurd hmore (Nat.lt_irrefl _)
  | cons second front =>
    exact ⟨second, front, rest_next hrest, by simp only [Cursor.next, hrest, List.cons_append]⟩

theorem declare (h : Alike tail other c d) (name : String) :
    Alike tail other (c.declare name) (d.declare name) := by
  obtain ⟨token, front, hrest, rfl⟩ := h
  unfold Cursor.declare
  split
  case isTrue hclass => exact ⟨token, front, hrest, if_pos hclass⟩
  case isFalse hclass => exact ⟨token, front, hrest, if_neg hclass⟩

theorem atDepth (h : Alike tail other c d) (depth : Nat) :
    Alike tail other { c with depth := depth } { d with depth := depth } := by
  obtain ⟨token, front, hrest, rfl⟩ := h
  exact ⟨token, front, hrest, rfl⟩

theorem atBlockDepth (h : Alike tail other c d) (depth : Nat) :
    Alike tail other { c with blockDepth := depth } { d with blockDepth := depth } := by
  obtain ⟨token, front, hrest, rfl⟩ := h
  exact ⟨token, front, hrest, rfl⟩

theorem deeper (h : Alike tail other c d) : Alike tail other c.deeper d.deeper := by
  rw [Cursor.deeper, Cursor.deeper, h.depth]
  exact h.atDepth _

theorem inner (h : Alike tail other c d) : Alike tail other c.inner d.inner := by
  rw [Cursor.inner, Cursor.inner, h.blockDepth]
  exact h.atBlockDepth _

theorem outOfBlock (h : Alike tail other c d) :
    Alike tail other { c with blockDepth := c.blockDepth - 1 }
      { d with blockDepth := d.blockDepth - 1 } := by
  rw [h.blockDepth]
  exact h.atBlockDepth _

end Alike

end Cursor

namespace Parser

variable {α β : Type} {tail other : List Token}

/-- The same answer or the same error at the same place of two token streams. -/
inductive SameOutcome (tail other : List Token) :
    EStateM.Result GrammarError Cursor α → EStateM.Result GrammarError Cursor α → Prop where
  | ok (a : α) {c d : Cursor} (h : Cursor.Alike tail other c d) :
    SameOutcome tail other (.ok a c) (.ok a d)
  | error (error : GrammarError) {c d : Cursor} (h : Cursor.Alike tail other c d) :
    SameOutcome tail other (.error error c) (.error error d)

/-- The run of a parser that sees no more than the current token: if it ends before two streams
part, it ends in the same way in both of them. -/
def LooksNoFurther (p : Parser α) : Prop :=
  ∀ ⦃tail other : List Token⦄ ⦃c d : Cursor⦄, Cursor.Alike tail other c d →
    tail.length < (reached (p c)).rest.length → SameOutcome tail other (p c) (p d)

namespace SameOutcome

variable {c d : Cursor} {p : Parser α} {result result' : EStateM.Result GrammarError Cursor α}

theorem exists_of_ok {a : α} (h : SameOutcome tail other (.ok a c) result) :
    ∃ d, result = .ok a d ∧ Cursor.Alike tail other c d := by
  cases h with
  | ok _ h => exact ⟨_, rfl, h⟩

theorem exists_of_error {error : GrammarError}
    (h : SameOutcome tail other (.error error c) result) :
    ∃ d, result = .error error d ∧ Cursor.Alike tail other c d := by
  cases h with
  | error _ h => exact ⟨_, rfl, h⟩

theorem bind {f : α → Parser β} (hp : SameOutcome tail other (p c) (p d))
    (hf : ∀ a c' d', p c = .ok a c' → Cursor.Alike tail other c' d' →
      SameOutcome tail other (f a c') (f a d')) :
    SameOutcome tail other ((p >>= f) c) ((p >>= f) d) := by
  cases hc : p c with
  | error error c' =>
    rw [hc] at hp
    obtain ⟨d', hd, halike⟩ := hp.exists_of_error
    rw [bind_error hc, bind_error hd]
    exact .error error halike
  | ok a c' =>
    obtain ⟨d', hd, halike⟩ := (hc ▸ hp).exists_of_ok
    rw [bind_ok hc, bind_ok hd]
    exact hf a c' d' hc halike

theorem atDepth (h : SameOutcome tail other result result') (depth : Nat) :
    SameOutcome tail other (atDepth depth result) (atDepth depth result') := by
  cases h with
  | ok a h => exact .ok a (h.atDepth depth)
  | error error h => exact .error error (h.atDepth depth)

theorem leaveBlock (h : SameOutcome tail other result result') :
    SameOutcome tail other (leaveBlock result) (leaveBlock result') := by
  cases h with
  | ok a h => exact .ok a h.outOfBlock
  | error error h => exact .error error h.outOfBlock

end SameOutcome

theorem looksNoFurther_tooDeep : LooksNoFurther (tooDeep : Parser α) := by
  intro tail other c d halike _
  rw [tooDeep_eq, tooDeep_eq, halike.maxDepth, halike.span]
  exact .error _ halike.deeper

theorem looksNoFurther_enterNesting : LooksNoFurther enterNesting := by
  intro tail other c d halike hmore
  by_cases hlt : c.depth < c.maxDepth
  · rw [enterNesting_eq, enterNesting_eq, halike.depth, halike.maxDepth, if_pos hlt, if_pos hlt]
    exact .ok () halike.deeper
  · rw [enterNesting_eq, if_neg hlt] at hmore
    rw [enterNesting_eq, enterNesting_eq, halike.depth, halike.maxDepth, if_neg hlt, if_neg hlt]
    exact looksNoFurther_tooDeep halike hmore

theorem LooksNoFurther.nested {p : Parser α} (h : LooksNoFurther p) :
    LooksNoFurther (nested p) := by
  intro tail other c d halike hmore
  by_cases hlt : c.depth < c.maxDepth
  · have hlt' : d.depth < d.maxDepth := by rwa [halike.depth, halike.maxDepth]
    rw [nested_eq_of_lt hlt, reached_atDepth] at hmore
    rw [nested_eq_of_lt hlt, nested_eq_of_lt hlt', halike.depth]
    exact (h halike.deeper hmore).atDepth c.depth
  · have hlt' : ¬ d.depth < d.maxDepth := by rwa [halike.depth, halike.maxDepth]
    rw [nested_of_not_lt hlt, nested_of_not_lt hlt', halike.maxDepth, halike.span]
    exact .error _ halike

theorem LooksNoFurther.inBlockBody {p : Parser α} (h : LooksNoFurther p) :
    LooksNoFurther (inBlockBody p) := by
  intro tail other c d halike hmore
  rw [inBlockBody_eq, reached_leaveBlock] at hmore
  rw [inBlockBody_eq, inBlockBody_eq]
  exact (h.nested halike.inner hmore).leaveBlock

theorem LooksNoFurther.rounds {σ : Type} {round : σ → Parser (σ ⊕ α)}
    (h : ∀ state, LooksNoFurther (round state))
    (hfewer : ∀ state c, (reached (rounds round state c)).rest.length ≤ c.rest.length) (state : σ) :
    LooksNoFurther (rounds round state) := by
  intro tail other c d halike hmore
  fun_induction Parser.rounds round state c generalizing d with
  | case1 state c next c' hround hless ih =>
    have hsame := h state halike
    rw [hround] at hsame
    obtain ⟨d', hd, halike'⟩ := (hsame (hmore.trans_le (hfewer next c'))).exists_of_ok
    rw [rounds_again hd ((halike.fewer_iff halike').mpr hless)]
    exact ih halike' hmore
  | case2 state c next c' hround hless =>
    have hsame := h state halike
    rw [hround] at hsame
    obtain ⟨d', hd, halike'⟩ := (hsame hmore).exists_of_ok
    rw [rounds_stuck hd (mt (halike.fewer_iff halike').mp hless), halike'.unexpected]
    exact .error _ halike'
  | case3 state c a c' hround =>
    have hsame := h state halike
    rw [hround] at hsame
    obtain ⟨d', hd, halike'⟩ := (hsame hmore).exists_of_ok
    rw [rounds_done hd]
    exact .ok a halike'
  | case4 state c error c' hround =>
    have hsame := h state halike
    rw [hround] at hsame
    obtain ⟨d', hd, halike'⟩ := (hsame hmore).exists_of_error
    rw [rounds_error hd]
    exact .error error halike'

end Parser

namespace Plan

open Offside.Parser

theorem looksNoFurther {raises : Bool} {α : Type} (plan : Plan raises α) :
    LooksNoFurther plan.run := by
  induction plan with
  | pure a => exact fun _ _ _ _ halike _ => .ok a halike
  | throw error => exact fun _ _ _ _ halike _ => .error error halike
  | look =>
    intro tail other c d halike _
    dsimp only [run]
    rw [halike.sight]
    exact .ok _ halike
  | bind first next hfirst hnext =>
    intro tail other c d halike hmore
    change tail.length < (reached ((first.run >>= fun a => (next a).run) c)).rest.length at hmore
    -- the second part goes forward only, so the first one has ended before the streams part too
    have hfewer : (reached ((first.run >>= fun a => (next a).run) c)).rest.length ≤
        (reached (first.run c)).rest.length := by
      cases h : first.run c with
      | error error c' =>
        rw [bind_error h]
        exact Nat.le_refl _
      | ok a c' =>
        rw [bind_ok h]
        exact (leaves_run (next a) c').advances.tokens.length_le
    refine (hfirst halike (hmore.trans_le hfewer)).bind fun a c' d' h halike' => ?_
    rw [bind_ok h] at hmore
    exact hnext a halike' hmore
  | take =>
    intro tail other c d halike hmore
    dsimp only [run] at hmore ⊢
    rw [halike.atEnd]
    split
    case isTrue => exact .ok () halike
    case isFalse hend =>
      rw [if_neg hend] at hmore
      exact .ok () (halike.next hmore)
  | declare name => exact fun _ _ _ _ halike _ => .ok () (halike.declare name)
  | enter => exact looksNoFurther_enterNesting
  | tooDeep => exact looksNoFurther_tooDeep
  | steady plan ih => exact ih
  | inside plan ih => exact ih.nested
  | insideBlock plan ih => exact ih.inBlockBody
  | loop round state hround =>
    exact .rounds hround
      (fun state c => (leaves_run (loop round state) c).advances.tokens.length_le) state

end Plan

namespace Parser

theorem looksNoFurther_program : LooksNoFurther program :=
  Plan.run_program ▸ Plan.program.looksNoFurther

theorem sparesEnd_program : SparesEnd program := Plan.run_program ▸ Plan.program.sparesEnd_run

end Parser

namespace Module

open Offside.Parser

/-- The first error, and how many tokens have been read when it comes, depend only on the tokens up
to the one in front of which it comes. -/
theorem error_of_take_eq {tokens others : List Token} {error : GrammarError} {stopped : Cursor}
    (hfails : program (startCursor tokens false) = .error error stopped)
    (hwithin : stopped.past.length < tokens.length)
    (hagree : others.take (stopped.past.length + 1) = tokens.take (stopped.past.length + 1)) :
    ofTokens others false = .error error ∧
      ∃ stopped', program (startCursor others false) = .error error stopped' ∧
        stopped'.past = stopped.past := by
  have hspares := sparesEnd_program (startCursor tokens false)
  rw [hfails] at hspares
  obtain ⟨read, hrest, hpast, -⟩ := hspares
  have htokens : tokens = read ++ stopped.rest := hrest
  have hlength : stopped.past.length = read.length := by
    have hread : stopped.past = read.reverse ++ [] := hpast
    rw [hread, List.append_nil, List.length_reverse]
  obtain ⟨token, tail, hstopped⟩ : ∃ token tail, stopped.rest = token :: tail := by
    refine List.exists_cons_of_ne_nil fun hnil => ?_
    rw [htokens, hnil, List.append_nil, hlength] at hwithin
    exact Nat.lt_irrefl _ hwithin
  -- both streams begin with the tokens that have been read and the one after them
  have hsplit : tokens = (read ++ [token]) ++ tail := by
    rw [htokens, hstopped, List.append_assoc, List.singleton_append]
  have htake : tokens.take (stopped.past.length + 1) = read ++ [token] := by
    rw [hlength, hsplit]
    exact List.take_left' (by simp)
  obtain ⟨other, hothers⟩ : ∃ other, others = (read ++ [token]) ++ other :=
    ⟨others.drop (stopped.past.length + 1), by rw [← htake, ← hagree, List.take_append_drop]⟩
  have halike : Cursor.Alike tail other (startCursor tokens false) (startCursor others false) := by
    rw [hsplit, hothers]
    exact Cursor.alike_ofTokens (List.append_ne_nil_of_right_ne_nil _ (List.cons_ne_nil _ _)) _
  have hsame := looksNoFurther_program halike (by
    rw [hfails, reached, hstopped]
    exact Nat.lt_succ_self _)
  rw [hfails] at hsame
  obtain ⟨stopped', hother, halike'⟩ := hsame.exists_of_error
  exact ⟨by rw [ofTokens, answer, hother], stopped', hother, halike'.past⟩

end Module

namespace LookaheadWitness

def token (kind : TokenKind) : Token := ⟨kind, "", Span.absent⟩

/-- `x =`, behind which a second `=` comes where a value should. -/
def read : List Token := [token (.identifier "x"), token (.symbol .assign)]

def tokens : List Token := read ++ [token (.symbol .assign), token (.layout .endOfInput)]

/-- The same tokens up to the second `=`, with others behind it. -/
def others : List Token :=
  read ++ [token (.symbol .assign), token (.keyword .classDefinition), token (.symbol .closeParen)]

def stopped : Cursor :=
  { Module.startCursor tokens false with past := read.reverse, rest := tokens.drop 2 }

def error : GrammarError := .expectedToken "expression" (.symbol .assign) Span.absent

theorem error_of_second_sign :
    Parser.program (Module.startCursor tokens false) = .error error stopped ∧
      stopped.past.length < tokens.length ∧
      others.take (stopped.past.length + 1) = tokens.take (stopped.past.length + 1) ∧
      Module.ofTokens others false = .error error ∧
      ∃ stopped', Parser.program (Module.startCursor others false) = .error error stopped' ∧
        stopped'.past = stopped.past := by
  have hfails : Parser.program (Module.startCursor tokens false) = .error error stopped := rfl
  have hwithin : stopped.past.length < tokens.length := by decide
  have hagree : others.take (stopped.past.length + 1) = tokens.take (stopped.past.length + 1) := rfl
  exact ⟨hfails, hwithin, hagree, Module.error_of_take_eq hfails hwithin hagree⟩

end LookaheadWitness

end Offside
