/-
Calls for the next token, made again and again, also behind errors.  What is still to be read, the
open levels and the tokens that are due pay for every answer, so the answers come to an end: to the
mark of the end of the input, or to a line whose width is no number.  Levels are closed only after
they have been opened.
-/
import Offside.Proofs.Token.Shape
import Offside.Proofs.Token.Within
import Offside.Text.IdentifierRanges

namespace Offside

/-- The tokens among answers. -/
def handedOut (answers : List Lexer.Answer) : List Token :=
  answers.filterMap fun answer => answer.toOption.join

namespace Lexer

/-- The answers of the first calls. -/
def answers [IdentifierTables] (lexer : Lexer) : Nat → List Answer
  | 0 => []
  | calls + 1 => lexer.next.1 :: lexer.next.2.answers calls

/-- The lexer that the first calls leave. -/
def afterCalls [IdentifierTables] (lexer : Lexer) : Nat → Lexer
  | 0 => lexer
  | calls + 1 => lexer.next.2.afterCalls calls

variable {lexer after begun : Lexer} {result : Answer} {error : LexicalError} {token : Token}

section

variable [IdentifierTables]

theorem Moves.rest_suffix (h : lexer.Moves (.silent after)) :
    after.rest <:+ lexer.rest := by
  cases h with
  | emptyLine _ hfaces | joinedLine _ hfaces _ =>
    rw [hfaces.rest]
    exact (List.suffix_cons _ _).trans (List.suffix_append _ _)
  | noLine _ hfaces | line _ hfaces _ _ | textEnd _ hfaces =>
    rw [hfaces.rest]
    exact List.suffix_append _ _
  | comment _ hfaces _ _ =>
    rw [hfaces.rest]
    exact (List.suffix_append _ _).trans (List.suffix_append _ _)

theorem Begins.rest_suffix (h : lexer.Begins begun) :
    begun.rest <:+ lexer.rest := by
  induction h with
  | here _ hfaces _ => exact ⟨_, hfaces.rest.symm⟩
  | @later lexer after _ hmove _ ih =>
    have hmoves := lexer.moves
    rw [hmove] at hmoves
    exact ih.trans hmoves.rest_suffix

theorem Begins.startsCode_rest (h : lexer.Begins begun) :
    startsCode begun.rest = true := by
  induction h with
  | here _ _ hcode => exact hcode
  | later _ _ ih => exact ih

/-- A fault is found where a token begins, and some of the text is taken there. -/
theorem exists_run_of_error (h : lexer.next = (.error (.reported error), after))
    (hfault : error.isFault = true) :
    ∃ begun run, lexer.Begins begun ∧ begun.rest <:+ lexer.rest ∧ run ≠ [] ∧
      begun.rest = run ++ after.rest := by
  obtain ⟨begun, hbegins⟩ := exists_begins_of_error h hfault
  have hread := hbegins.next_eq
  rw [h, readToken] at hread
  split at hread
  · cases hread
  · next error' after' hscan =>
    cases hread
    obtain ⟨run, tail, hne, hrest, hafter⟩ :=
      exists_run_of_scanToken_error hbegins.startsCode_rest hscan
    refine ⟨begun, run, hbegins, hbegins.rest_suffix, hne, ?_⟩
    rw [hrest, hafter]
    rfl

end

/-! ### What pays for answers -/

/-- Four for every character that is left, two for every open level, and one for every token that is
due, for an open line and for the end of the input. -/
def credit (lexer : Lexer) : Nat :=
  4 * lexer.rest.length + 2 * lexer.blocks.depth + lexer.queue.length + lexer.lineOpen.toNat +
    (!lexer.finished).toNat

theorem credit_ofString (source : String) (tabWidth : Nat) :
    (ofString source tabWidth).credit = 4 * source.length + 1 := by
  simp [credit, ofString, ofChars, Indentation.base, Indentation.depth, String.length_toList]

/-- The tokens that a line puts into the queue are paid for by levels or by blanks. -/
theorem credit_marks {blanks code : List Char} {marks : List Token} {inner : Indentation}
    (hfaces : lexer.Faces blanks code)
    (hmeet : lexer.blocks.meet (lineWidth lexer.tabWidth blanks) (lexer.place.after blanks) =
      (.ok marks, inner)) :
    4 * code.length + 2 * inner.depth + marks.length ≤
      4 * lexer.rest.length + 2 * lexer.blocks.depth := by
  have hlength := hfaces.length_rest
  have hpaid := depth_meet_ok hmeet
  cases blanks with
  | nil =>
    simp only [lineWidth, List.count_nil, Nat.mul_zero, Nat.add_zero, if_true] at hpaid
    simp only [List.length_nil] at hlength
    omega
  | cons c blanks =>
    simp only [List.length_cons] at hlength
    split at hpaid <;> omega

section

variable [IdentifierTables]

theorem credit_scanToken (hcode : startsCode begun.rest = true) :
    begun.scanToken.2.credit + 4 ≤ begun.credit := by
  have hlength {run tail : List Char} (hne : run ≠ []) (hrest : begun.rest = run ++ tail) :
      tail.length + 1 ≤ begun.rest.length := by
    have hpos := List.length_pos_iff.mpr hne
    rw [hrest, List.length_append]
    omega
  cases hscan : begun.scanToken with
  | mk result after =>
    cases result with
    | ok token =>
      obtain ⟨-, run, tail, brackets, hne, hrest, rfl⟩ := exists_run_of_scanToken_ok hcode hscan
      have hless := hlength hne hrest
      simp only [credit, past, markStart]
      omega
    | error error =>
      obtain ⟨run, tail, hne, hrest, rfl⟩ := exists_run_of_scanToken_error hcode hscan
      have hless := hlength hne hrest
      simp only [credit, past, markStart]
      omega

theorem Faces.credit_scanToken {blanks code : List Char}
    (h : lexer.Faces blanks code) (hcode : startsCode code = true) :
    (lexer.past blanks code).scanToken.2.credit + 4 ≤ lexer.credit := by
  have hbegun : startsCode (lexer.past blanks code).rest = true := hcode
  have hlength := h.length_rest
  refine Nat.le_trans (Lexer.credit_scanToken hbegun) ?_
  simp only [credit, past]
  omega

theorem Moves.credit_silent (h : lexer.Moves (.silent after)) :
    after.credit ≤ lexer.credit := by
  cases h with
  | emptyLine hline hfaces | joinedLine hline hfaces _ =>
    have hlength := hfaces.length_rest
    simp only [List.length_cons] at hlength
    simp only [credit, past, markStart]
    omega
  | noLine hline hfaces =>
    have hlength := hfaces.length_rest
    simp only [credit, past]
    omega
  | line hline hfaces hcode hmeet =>
    have hpaid := credit_marks hfaces hmeet
    simp only [credit, past]
    omega
  | comment hline hfaces htext htail =>
    have hlength := hfaces.length_rest
    simp only [List.cons_append, List.length_cons, List.length_append] at hlength
    simp only [credit, past]
    omega
  | textEnd hline hfaces =>
    have hlength := hfaces.length_rest
    simp only [credit, finish, past, Indentation.close, hline.queue, hline.finished]
    cases lexer.lineOpen <;> simp [Indentation.depth, Indentation.base] <;> omega

/-- Every answer but the last takes some of the credit. -/
theorem Moves.credit_answer (h : lexer.Moves (.answer result after))
    (hresult : result.isLast = false) : after.credit < lexer.credit := by
  cases h with
  | due hqueue =>
    simp only [credit, hqueue, List.length_cons]
    omega
  | done | tooWide => cases hresult
  | unmetLine hline hfaces hcode hmeet =>
    have hlength := hfaces.length_rest
    have hless := depth_meet_error hmeet
    simp only [credit, past]
    omega
  | lineEnd hline hfaces hclosed =>
    have hlength := hfaces.length_rest
    simp only [List.length_cons] at hlength
    simp only [credit, past, markStart, Bool.toNat_false]
    omega
  | token hline hfaces hcode hscan =>
    have hpaid := hfaces.credit_scanToken hcode
    rw [hscan] at hpaid
    simp only [credit, Bool.toNat_true] at hpaid ⊢
    omega
  | fault hline hfaces hcode hscan =>
    have hpaid := hfaces.credit_scanToken hcode
    rw [hscan] at hpaid
    exact Nat.lt_of_lt_of_le (by dsimp only; omega) hpaid

theorem credit_next (lexer : Lexer) (h : lexer.next.1.isLast = false) :
    lexer.next.2.credit < lexer.credit := by
  revert h
  refine next_induction (motive := fun lexer result =>
    result.1.isLast = false → result.2.credit < lexer.credit) ?_ ?_ lexer
  · exact fun hmoves hresult => hmoves.credit_answer hresult
  · exact fun hmoves ih hresult => Nat.lt_of_lt_of_le (ih hresult) hmoves.credit_silent

end

/-! ### Up to the end of the input -/

/-- An answer that is neither the mark of the end of the input nor the last. -/
inductive Inner : Answer → Prop
  | token {token : Token} (h : token.kind ≠ .layout .endOfInput) : Inner (.ok (some token))
  | error (error : LexicalError) : Inner (.error (.reported error))

theorem Inner.isLast (h : Inner result) : result.isLast = false := by
  cases h <;> rfl

/-- A lexer that has still to hand out the mark of the end of the input. -/
inductive Running (lexer : Lexer) : Prop
  | reading (hfinished : lexer.finished = false)
    (hqueue : ∀ token ∈ lexer.queue, token.kind ≠ .layout .endOfInput)
  | closing {front : List Token} {last : Token} (hfinished : lexer.finished = true)
    (hqueue : lexer.queue = front ++ [last])
    (hfront : ∀ token ∈ front, token.kind ≠ .layout .endOfInput)
    (hlast : last.kind = .layout .endOfInput)

/-- A lexer that has handed out everything. -/
structure Done (lexer : Lexer) : Prop where
  finished : lexer.finished = true
  queue : lexer.queue = []

/-- What a call can do before the end of the input. -/
inductive Proceeds : Answer × Lexer → Prop
  | inner {answer : Answer} {after : Lexer} (hinner : Inner answer) (h : after.Running) :
    Proceeds (answer, after)
  | last {last : Token} {after : Lexer} (hlast : last.kind = .layout .endOfInput) (h : after.Done) :
    Proceeds (.ok (some last), after)
  | tooWide {after : Lexer} (h : after.Stuck) : Proceeds (.error .overflow, after)

theorem running_ofString (source : String) (tabWidth : Nat) : (ofString source tabWidth).Running :=
  .reading rfl (List.forall_mem_nil _)

theorem Running.of_queue_nil (hqueue : lexer.queue = []) (hfinished : lexer.finished = false) :
    lexer.Running :=
  .reading hfinished (by rw [hqueue]; exact List.forall_mem_nil _)

theorem ne_endOfInput_of_areMarks {marks : List Token} (h : AreMarks marks) :
    ∀ mark ∈ marks, mark.kind ≠ .layout .endOfInput := by
  rcases h with rfl | ⟨mark, rfl, hmark⟩ | ⟨-, hmarks⟩
  · exact List.forall_mem_nil _
  · exact List.forall_mem_singleton.mpr (by rw [hmark]; decide)
  · intro mark hmem
    rw [hmarks mark hmem]
    decide

theorem ne_endOfInput_of_isLayout (h : token.kind.isLayout = false) :
    token.kind ≠ .layout .endOfInput := by
  intro heq
  rw [heq] at h
  cases h

section

variable [IdentifierTables]

theorem Moves.running_silent (h : lexer.Moves (.silent after)) :
    after.Running := by
  cases h with
  | emptyLine hline _ | noLine hline _ => exact .of_queue_nil hline.queue hline.finished
  | joinedLine hline _ _ => exact .of_queue_nil hline.queue hline.finished
  | comment hline _ _ _ =>
    rcases hline with hline | hline
    · exact .of_queue_nil hline.queue hline.finished
    · exact .of_queue_nil hline.queue hline.finished
  | line hline hfaces hcode hmeet =>
    exact .reading hline.finished (ne_endOfInput_of_areMarks (Indentation.areMarks_of_meet hmeet))
  | textEnd hline hfaces =>
    refine .closing rfl rfl ?_ rfl
    refine List.forall_mem_append.mpr ⟨?_, fun dedent hdedent => ?_⟩
    · split
      · exact List.forall_mem_singleton.mpr nofun
      · exact List.forall_mem_nil _
    · rw [List.eq_of_mem_replicate hdedent]
      nofun

theorem Moves.proceeds (h : lexer.Moves (.answer result after))
    (hrunning : lexer.Running) :
    Proceeds (result, after) := by
  cases h with
  | @due token queue hqueue =>
    cases hrunning with
    | reading hfinished hnone =>
      rw [hqueue, List.forall_mem_cons] at hnone
      exact .inner (.token hnone.1) (.reading hfinished hnone.2)
    | @closing front last hfinished hsplit hfront hlast =>
      rw [hqueue] at hsplit
      cases front with
      | nil =>
        obtain ⟨rfl, rfl⟩ := List.cons.inj hsplit
        exact .last hlast ⟨hfinished, rfl⟩
      | cons first front =>
        obtain ⟨rfl, hbehind⟩ := List.cons.inj hsplit
        rw [List.forall_mem_cons] at hfront
        exact .inner (.token hfront.1) (.closing hfinished hbehind hfront.2 hlast)
  | done hqueue hfinished =>
    cases hrunning with
    | reading hopen _ =>
      rw [hfinished] at hopen
      cases hopen
    | closing _ hsplit _ _ =>
      rw [hqueue] at hsplit
      exact absurd hsplit.symm (List.append_ne_nil_of_right_ne_nil _ (List.cons_ne_nil _ _))
  | tooWide hline hwide => exact .tooWide ⟨hline, hwide⟩
  | unmetLine hline hfaces hcode hmeet =>
    exact .inner (.error _) (.of_queue_nil hline.queue hline.finished)
  | lineEnd hline hfaces hclosed =>
    exact .inner (.token (by simp [Lexer.token])) (.of_queue_nil hline.queue hline.finished)
  | token hline hfaces hcode hscan =>
    obtain ⟨hlayout, run, tail, brackets, -, -, rfl⟩ := exists_run_of_scanToken_ok hcode hscan
    exact .inner (.token (ne_endOfInput_of_isLayout hlayout))
      (.of_queue_nil hline.queue hline.finished)
  | fault hline hfaces hcode hscan =>
    obtain ⟨run, tail, -, -, rfl⟩ := exists_run_of_scanToken_error hcode hscan
    exact .inner (.error _) (.of_queue_nil hline.queue hline.finished)

theorem Running.proceeds (h : lexer.Running) : Proceeds lexer.next := by
  revert h
  refine next_induction (motive := fun lexer result => lexer.Running → Proceeds result) ?_ ?_ lexer
  · exact fun hmoves hrunning => hmoves.proceeds hrunning
  · exact fun hmoves ih _ => ih hmoves.running_silent

theorem Done.next_eq (h : lexer.Done) : lexer.next = (.ok none, lexer) := by
  apply next_of_answer
  rw [move.eq_def, h.queue]
  simp [h.finished]

theorem Done.answers_eq (h : lexer.Done) (calls : Nat) :
    lexer.answers calls = List.replicate calls (.ok none) := by
  induction calls with
  | zero => rfl
  | succ calls ih => rw [answers, h.next_eq, ih, List.replicate_succ]

theorem Stuck.answers_eq (h : lexer.Stuck) (calls : Nat) :
    lexer.answers calls = List.replicate calls (.error .overflow) := by
  induction calls with
  | zero => rfl
  | succ calls ih => rw [answers, h.next_eq, ih, List.replicate_succ]

/-- How the answers of a lexer over a text end that gives `front` first: with the mark of the end of
the input, behind which there is nothing to hand out, or in front of a line that is too wide. -/
inductive Ends (lexer : Lexer) (text : List Char) (front : List Answer) : Prop
  | done {last : Token} (hlast : last.kind = .layout .endOfInput)
    (hanswers : ∀ more, lexer.answers (front.length + 1 + more) =
      front ++ .ok (some last) :: List.replicate more (.ok none))
  | tooWide {before rest : List Char} (htext : text = before ++ rest)
    (hstart : lastLine before = []) (hwide : ¬ Fits lexer.tabWidth rest)
    (hanswers : ∀ more, lexer.answers (front.length + more) =
      front ++ List.replicate more (.error .overflow))

/-- One answer more comes first. -/
theorem Ends.cons {text : List Char} {front : List Answer}
    (h : lexer.next.2.Ends text front) : lexer.Ends text (lexer.next.1 :: front) := by
  cases h with
  | @done last hlast hanswers =>
    refine .done hlast fun more => ?_
    have hcalls : (lexer.next.1 :: front).length + 1 + more = front.length + 1 + more + 1 := by
      rw [List.length_cons]
      omega
    rw [hcalls, answers, hanswers]
    rfl
  | tooWide htext hstart hwide hanswers =>
    rw [tabWidth_next] at hwide
    refine .tooWide htext hstart hwide fun more => ?_
    have hcalls : (lexer.next.1 :: front).length + more = front.length + more + 1 := by
      rw [List.length_cons]
      omega
    rw [hcalls, answers, hanswers]
    rfl

/-- The answers come to an end as long as there is something to pay for them. -/
theorem Running.exists_ends {text before : List Char} (h : lexer.Running)
    (hwithin : lexer.Within text before) :
    ∃ front, front.length ≤ lexer.credit ∧ (∀ answer ∈ front, Inner answer) ∧
      lexer.Ends text front := by
  -- every inner answer leaves less credit, so the induction is on the credit
  induction hcredit : lexer.credit using Nat.strong_induction_on generalizing lexer before with
  | _ credit ih =>
    subst hcredit
    have hproceeds := h.proceeds
    have hpaid := lexer.credit_next
    obtain ⟨reached, hreached⟩ := hwithin.within_next
    have hcons (front : List Answer) : lexer.next.2.Ends text front →
        lexer.Ends text (lexer.next.1 :: front) := Ends.cons
    have htab := lexer.tabWidth_next
    have hall (calls : Nat) : lexer.answers (calls + 1) =
        lexer.next.1 :: lexer.next.2.answers calls := rfl
    generalize lexer.next = result at hproceeds hpaid hreached hcons htab hall
    cases hproceeds with
    | inner hinner hrunning =>
      have hless := hpaid hinner.isLast
      obtain ⟨front, hlength, hfront, hends⟩ := ih _ hless hrunning hreached rfl
      refine ⟨_ :: front, ?_, List.forall_mem_cons.mpr ⟨hinner, hfront⟩, hcons front hends⟩
      rw [List.length_cons]
      omega
    | last hlast hdone =>
      refine ⟨[], Nat.zero_le _, List.forall_mem_nil _, .done hlast fun more => ?_⟩
      rw [List.length_nil, Nat.zero_add, Nat.add_comm, hall, hdone.answers_eq]
      rfl
    | tooWide hstuck =>
      refine ⟨[], Nat.zero_le _, List.forall_mem_nil _,
        .tooWide hreached.text (hreached.lastLine_of_stuck hstuck) (htab ▸ hstuck.wide)
          fun more => ?_⟩
      rw [List.length_nil, Nat.zero_add, List.nil_append]
      cases more with
      | zero => rfl
      | succ more => rw [hall, hstuck.answers_eq, List.replicate_succ]

end

/-! ### Levels -/

/-- Where so many levels have been handed out as open, the tokens that are due can be handed out,
and the levels that the lexer has open are among those that are open behind them. -/
def Covered (lexer : Lexer) (depth : Nat) : Prop :=
  ∃ final, levelsAfter? depth lexer.queue = some final ∧ lexer.blocks.depth ≤ final

variable {depth : Nat}

theorem Covered.of_queue_nil (hqueue : lexer.queue = []) (hdepth : lexer.blocks.depth ≤ depth) :
    lexer.Covered depth :=
  ⟨depth, by rw [hqueue]; rfl, hdepth⟩

theorem Covered.depth_le (h : lexer.Covered depth) (hqueue : lexer.queue = []) :
    lexer.blocks.depth ≤ depth := by
  obtain ⟨final, hfinal, hle⟩ := h
  rw [hqueue] at hfinal
  cases hfinal
  exact hle

/-- What closes the levels of a lexer closes as many of those that are open. -/
theorem exists_levelsAfter?_of_le {tokens : List Token} {inner final : Nat}
    (h : levelsAfter? inner tokens = some final) (hle : inner ≤ depth) :
    ∃ last, levelsAfter? depth tokens = some last ∧ final ≤ last := by
  obtain ⟨more, rfl⟩ := Nat.exists_eq_add_of_le hle
  exact ⟨final + more, levelsAfter?_add h more, Nat.le_add_right _ _⟩

/-- At the end of the input just the open levels are closed. -/
theorem levelsAfter?_finish (lexer : Lexer) :
    levelsAfter? lexer.blocks.depth lexer.finish.queue = some 0 := by
  have hline : levelsAfter? lexer.blocks.depth
      (if lexer.lineOpen then [Token.mark .newline lexer.place] else []) =
        some lexer.blocks.depth := by
    split <;> rfl
  rw [finish]
  dsimp only [Indentation.close]
  rw [List.append_assoc, levelsAfter?_append, hline, Option.bind_some, levelsAfter?_append,
    levelsAfter?_dedents (Nat.le_refl _), Nat.sub_self]
  rfl

variable [IdentifierTables]

theorem Moves.covered_silent (h : lexer.Moves (.silent after)) (hcovered : lexer.Covered depth) :
    after.Covered depth := by
  cases h with
  | emptyLine hline _ | noLine hline _ => exact hcovered
  | joinedLine hline _ _ => exact hcovered
  | comment => exact hcovered
  | line hline hfaces hcode hmeet =>
    -- the levels around those of the lexer stay open behind the marks
    exact exists_levelsAfter?_of_le (Indentation.levelsAfter?_of_meet hmeet)
      (hcovered.depth_le hline.queue)
  | @textEnd blanks hline hfaces =>
    have hclosed := levelsAfter?_finish (lexer.past blanks [])
    exact exists_levelsAfter?_of_le hclosed (hcovered.depth_le hline.queue)

theorem Moves.covered_answer (h : lexer.Moves (.answer result after))
    (hcovered : lexer.Covered depth) :
    ∃ next, levelsAfter? depth (handedOut [result]) = some next ∧ after.Covered next := by
  cases h with
  | @due token queue hqueue =>
    obtain ⟨final, hfinal, hle⟩ := hcovered
    rw [hqueue, ← List.singleton_append, levelsAfter?_append, Option.bind_eq_some_iff] at hfinal
    obtain ⟨next, hnext, hrest⟩ := hfinal
    exact ⟨next, hnext, final, hrest, hle⟩
  | done | tooWide => exact ⟨depth, rfl, hcovered⟩
  | unmetLine hline hfaces hcode hmeet =>
    have hless := depth_meet_error hmeet
    have hle := hcovered.depth_le hline.queue
    refine ⟨depth, rfl, .of_queue_nil hline.queue ?_⟩
    dsimp only
    omega
  | lineEnd hline hfaces hclosed => exact ⟨depth, rfl, hcovered⟩
  | token hline hfaces hcode hscan =>
    obtain ⟨hlayout, run, tail, brackets, -, -, rfl⟩ := exists_run_of_scanToken_ok hcode hscan
    exact ⟨depth, levelsAfter?_cons_of_isLayout hlayout, hcovered⟩
  | fault hline hfaces hcode hscan =>
    obtain ⟨run, tail, -, -, rfl⟩ := exists_run_of_scanToken_error hcode hscan
    exact ⟨depth, rfl, hcovered⟩

theorem Covered.next (h : lexer.Covered depth) :
    ∃ next, levelsAfter? depth (handedOut [lexer.next.1]) = some next ∧
      lexer.next.2.Covered next := by
  revert h
  refine next_induction (motive := fun lexer result => lexer.Covered depth →
    ∃ next, levelsAfter? depth (handedOut [result.1]) = some next ∧ result.2.Covered next)
    ?_ ?_ lexer
  · exact fun hmoves hcovered => hmoves.covered_answer hcovered
  · exact fun hmoves ih hcovered => ih (hmoves.covered_silent hcovered)

/-- Along all calls no level is closed that is not open. -/
theorem Covered.exists_levelsAfter? (h : lexer.Covered depth) (calls : Nat) :
    ∃ final, levelsAfter? depth (handedOut (lexer.answers calls)) = some final := by
  induction calls generalizing lexer depth with
  | zero => exact ⟨depth, rfl⟩
  | succ calls ih =>
    obtain ⟨next, hnext, hcovered⟩ := h.next
    obtain ⟨final, hfinal⟩ := ih hcovered
    refine ⟨final, ?_⟩
    have hsplit : handedOut (lexer.answers (calls + 1)) =
        handedOut [lexer.next.1] ++ handedOut (lexer.next.2.answers calls) :=
      List.filterMap_append (l := [lexer.next.1])
    rw [hsplit, levelsAfter?_append, hnext, Option.bind_some, hfinal]

/-- A text is driven to its end, also behind errors, unless a line is too wide for a number, where
the program ends.  For `n` characters there are at most `4 * n + 3` calls up to the first one that
has nothing to hand out, and nothing is handed out from then on.  The mark of the end of the input
comes once, as the last token.  At no time have more levels been closed than opened.  And every
error, but for a line that stands on no open level, comes from a call that takes characters of the
text where a token begins. -/
theorem answers_ofString (source : String) (tabWidth : Nat) :
    let lexer := ofString source tabWidth
    (∃ front, front.length + 2 ≤ 4 * source.length + 3 ∧ (∀ answer ∈ front, Inner answer) ∧
      ((∃ last, last.kind = .layout .endOfInput ∧
          ∀ more, lexer.answers (front.length + 1 + more) =
            front ++ .ok (some last) :: List.replicate more (.ok none)) ∨
        ∃ before rest, source.toList = before ++ rest ∧ lastLine before = [] ∧
          ¬ Fits tabWidth rest ∧
          ∀ more, lexer.answers (front.length + more) =
            front ++ List.replicate more (.error .overflow))) ∧
    (∀ calls, countLayout .dedent (handedOut (lexer.answers calls)) ≤
      countLayout .indent (handedOut (lexer.answers calls))) ∧
    ∀ calls error after, (lexer.afterCalls calls).next = (.error (.reported error), after) →
      (∀ width place, error ≠ .inconsistentDedent width place) →
      ∃ begun run, (lexer.afterCalls calls).Begins begun ∧
        begun.rest <:+ (lexer.afterCalls calls).rest ∧ run ≠ [] ∧
        begun.rest = run ++ after.rest := by
  refine ⟨?_, fun calls => ?_, fun calls error after hnext hdedent => ?_⟩
  · obtain ⟨front, hlength, hfront, hends⟩ :=
      (running_ofString source tabWidth).exists_ends (within_ofString source tabWidth)
    rw [credit_ofString] at hlength
    refine ⟨front, by omega, hfront, ?_⟩
    cases hends with
    | done hlast hanswers => exact .inl ⟨_, hlast, hanswers⟩
    | tooWide htext hstart hwide hanswers =>
      exact .inr ⟨_, _, htext, hstart, hwide, hanswers⟩
  · have hcovered : (ofString source tabWidth).Covered 0 := .of_queue_nil rfl (Nat.le_refl _)
    obtain ⟨final, hfinal⟩ := hcovered.exists_levelsAfter? calls
    exact countLayout_le_of_prefix hfinal List.prefix_rfl
  · apply exists_run_of_error hnext
    cases error with
    | inconsistentDedent width place => exact absurd rfl (hdedent width place)
    | _ => rfl

end Lexer

namespace DrivingWitness

/-- A line that stands on no open level, and in it a character that starts no token. -/
def source : String := "  x\n ?"

def lexer : Lexer := Lexer.ofString source 4

def answers : List Lexer.Answer :=
  [.ok (some (Token.mark .indent ⟨1, 3, 2⟩)),
    .ok (some ⟨.identifier "x", "x", ⟨⟨1, 3, 2⟩, ⟨1, 4, 3⟩⟩⟩),
    .ok (some ⟨.layout .newline, "\n", ⟨⟨1, 4, 3⟩, ⟨2, 1, 4⟩⟩⟩),
    .error (.reported (.inconsistentDedent 1 ⟨2, 2, 5⟩)),
    .error (.reported (.unexpectedChar '?' ⟨2, 2, 5⟩))]

/-- The answers up to the end of the input. -/
theorem answers_eq : lexer.answers 6 =
    answers ++ [.ok (some (Token.mark .endOfInput ⟨2, 3, 6⟩))] := by decide +kernel

theorem fits_source {before rest : List Char} (h : source.toList = before ++ rest) :
    Fits 4 rest := by
  have hall : ∀ count ≤ source.toList.length, Fits 4 (source.toList.drop count) := by
    decide +kernel
  have hfits := hall before.length (by simp [h])
  rwa [h, List.drop_left] at hfits

theorem driven_past_errors :
    (∃ front last, front.length + 2 ≤ 27 ∧ last.kind = .layout .endOfInput ∧
      lexer.answers (front.length + 3) = front ++ [.ok (some last), .ok none, .ok none]) ∧
    countLayout .dedent (handedOut (lexer.answers 6)) ≤
      countLayout .indent (handedOut (lexer.answers 6)) ∧
    lexer.answers 6 = answers ++ [.ok (some (Token.mark .endOfInput ⟨2, 3, 6⟩))] ∧
    ∃ after, (lexer.afterCalls 4).next =
        (.error (.reported (.unexpectedChar '?' ⟨2, 2, 5⟩)), after) ∧
      ∃ begun run, (lexer.afterCalls 4).Begins begun ∧ run ≠ [] ∧
        begun.rest = run ++ after.rest := by
  obtain ⟨⟨front, hlength, -, hends⟩, hlevels, hfaults⟩ := Lexer.answers_ofString source 4
  have herror : (lexer.afterCalls 4).next =
      (.error (.reported (.unexpectedChar '?' ⟨2, 2, 5⟩)), (lexer.afterCalls 4).next.2) := by
    decide +kernel
  refine ⟨?_, hlevels 6, answers_eq, _, herror, ?_⟩
  · rcases hends with ⟨last, hlast, hanswers⟩ | ⟨before, rest, hsplit, -, hwide, -⟩
    · exact ⟨front, last, hlength, hlast, hanswers 2⟩
    · exact absurd (fits_source hsplit) hwide
  · obtain ⟨begun, run, hbegins, -, hne, hrest⟩ := hfaults 4 _ _ herror (fun _ _ => nofun)
    exact ⟨begun, run, hbegins, hne, hrest⟩

/-- A blank line of four tabs. -/
def tabs : String := "\t\t\t\t\n"

/-- Four tabs of this width are too wide. -/
def quarter : Nat := 2 ^ 62

/-- Not every text is driven to its end: in front of a line that is too wide nothing is ever handed
out. -/
theorem not_always_driven :
    ¬ ∀ (source : String) (tabWidth : Nat), tabWidth < Lexer.widthBound →
      .ok none ∈ (Lexer.ofString source tabWidth).answers (4 * source.length + 3) := by
  intro hdriven
  have hstuck : (Lexer.ofString tabs quarter).Stuck :=
    ⟨⟨rfl, rfl, rfl, rfl⟩, by decide +kernel⟩
  have hdone := hdriven tabs quarter (by decide)
  rw [hstuck.answers_eq] at hdone
  cases List.eq_of_mem_replicate hdone

end DrivingWitness

end Offside
