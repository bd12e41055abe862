/-
Which levels are open behind lines of given widths, told from the widths alone: one for every
positive width that is the smallest of some of the lines up to the last one.
-/
import Mathlib.Data.Finset.Card
import Mathlib.Data.List.Infix
import Offside.Proofs.Token.Levels

namespace Offside

/-- The smallest width of every run of lines that ends with the last line, where it is positive. -/
def suffixMinima (widths : List Nat) : Finset Nat :=
  (widths.tails.filterMap List.min?).toFinset.filter (0 < ·)

section

variable {widths : List Nat} {width v : Nat}

theorem mem_suffixMinima :
    v ∈ suffixMinima widths ↔
      0 < v ∧ ∃ first others, widths = first ++ v :: others ∧ ∀ u ∈ others, v ≤ u := by
  simp only [suffixMinima, Finset.mem_filter, List.mem_toFinset, List.mem_filterMap,
    List.mem_tails, List.min?_eq_some_iff]
  constructor
  · rintro ⟨⟨suffix, ⟨before, rfl⟩, hmem, hle⟩, hpos⟩
    obtain ⟨first, others, rfl⟩ := List.append_of_mem hmem
    refine ⟨hpos, before ++ first, others, (List.append_assoc _ _ _).symm, fun u hu => ?_⟩
    exact hle u (by simp [hu])
  · rintro ⟨hpos, first, others, rfl, hle⟩
    refine ⟨⟨v :: others, ⟨first, rfl⟩, List.mem_cons_self, ?_⟩, hpos⟩
    exact List.forall_mem_cons.mpr ⟨Nat.le_refl v, hle⟩

/-- One more line hides the widths that are larger than its own. -/
theorem mem_suffixMinima_concat :
    v ∈ suffixMinima (widths ++ [width]) ↔
      0 < v ∧ (v = width ∨ v < width ∧ v ∈ suffixMinima widths) := by
  rw [mem_suffixMinima, mem_suffixMinima]
  constructor
  · rintro ⟨hpos, first, others, hsplit, hle⟩
    refine ⟨hpos, ?_⟩
    rcases List.eq_nil_or_concat others with rfl | ⟨others, last, rfl⟩
    · exact .inl (List.append_inj_right' hsplit rfl |> List.singleton_inj.mp).symm
    · rw [List.concat_eq_append, ← List.cons_append, ← List.append_assoc] at hsplit
      obtain ⟨hwidths, hlast⟩ := List.append_inj' hsplit rfl
      cases hlast
      have hv : v ≤ width := hle width (by simp)
      rcases Nat.eq_or_lt_of_le hv with heq | hlt
      · exact .inl heq
      · exact .inr ⟨hlt, hpos, first, others, hwidths, fun u hu => hle u (by simp [hu])⟩
  · rintro ⟨hpos, rfl | ⟨hlt, -, first, others, rfl, hle⟩⟩
    · exact ⟨hpos, widths, [], rfl, List.forall_mem_nil _⟩
    · refine ⟨hpos, first, others ++ [width], by simp, fun u hu => ?_⟩
      rcases List.mem_append.mp hu with hu | hu
      · exact hle u hu
      · rw [List.mem_singleton.mp hu]
        exact Nat.le_of_lt hlt

end

/-- A width behind lines of earlier widths to which no level answers: it is smaller than the last
of them, and since it last came up there has been a smaller one. -/
def Unmatched (earlier : List Nat) (width : Nat) : Prop :=
  0 < width ∧ (∃ last, earlier.getLast? = some last ∧ width < last) ∧
    ∀ first others, earlier = first ++ width :: others → ∃ v ∈ others, v < width

namespace Indentation

variable {blocks inner : Indentation} {widths : List Nat} {width v : Nat} {place : Position}
  {marks : List Token}

/-- The open levels are those that the widths of the lines so far call for. -/
structure Reflects (blocks : Indentation) (widths : List Nat) : Prop where
  pairwise : blocks.levels.Pairwise (· > ·)
  mem_iff : ∀ v, v ∈ blocks.levels ↔ v ∈ suffixMinima widths
  top : blocks.top = widths.getLastD 0

theorem reflects_base : base.Reflects [] := by
  refine ⟨List.Pairwise.nil, fun v => ?_, rfl⟩
  simp [mem_suffixMinima, base]

namespace Reflects

theorem depth_eq (h : blocks.Reflects widths) : blocks.depth = (suffixMinima widths).card := by
  have hset : blocks.levels.toFinset = suffixMinima widths := by
    ext v
    rw [List.mem_toFinset, h.mem_iff]
  have hnodup : blocks.levels.Nodup := h.pairwise.imp fun hgt => Nat.ne_of_gt hgt
  rw [← hset, List.toFinset_card_of_nodup hnodup, depth]

theorem pos_of_mem (h : blocks.Reflects widths) (hv : v ∈ blocks.levels) : 0 < v :=
  (mem_suffixMinima.mp ((h.mem_iff v).mp hv)).1

theorem nested (h : blocks.Reflects widths) : blocks.Nested :=
  List.pairwise_cons.mpr ⟨fun _ hv => h.pos_of_mem (List.mem_reverse.mp hv),
    List.pairwise_reverse.mpr h.pairwise⟩

theorem le_top (h : blocks.Reflects widths) (hv : v ∈ blocks.levels) : v ≤ blocks.top :=
  h.nested.le_top (mem_stack.mpr (.inr hv))

theorem mem_keep_iff (h : blocks.Reflects widths) :
    v ∈ blocks.keep width ↔ v ∈ blocks.levels ∧ v ≤ width := by
  have hkept : v ∈ (⟨blocks.keep width⟩ : Indentation).stack ↔ v ∈ blocks.stack ∧ v ≤ width := by
    simp [h.nested.stack_keep]
  rw [mem_stack, mem_stack] at hkept
  constructor
  · intro hv
    have hlevel : v ∈ blocks.levels := (List.dropWhile_sublist _).subset hv
    exact ⟨hlevel, (hkept.mp (.inr hv)).2⟩
  · rintro ⟨hlevel, hle⟩
    have hpos := h.pos_of_mem hlevel
    exact (hkept.mpr ⟨.inr hlevel, hle⟩).resolve_left (by omega)

/-- A line goes back to a level if it goes back to the base or its width is among the minima. -/
theorem top_keep_iff (h : blocks.Reflects widths) :
    (⟨blocks.keep width⟩ : Indentation).top = width ↔
      width = 0 ∨ width ∈ suffixMinima widths := by
  rw [h.nested.top_keep_iff, mem_stack, h.mem_iff]

/-- A line that is met leaves the levels open that its width calls for. -/
theorem met (h : blocks.Reflects widths)
    (hmeet : blocks.meet width place = (.ok marks, inner)) :
    inner.Reflects (widths ++ [width]) := by
  rcases meet_ok hmeet with ⟨hdeeper, -, rfl⟩ | ⟨-, rfl, htop, -⟩
  · have hlt (v : Nat) (hv : v ∈ blocks.levels) : v < width :=
      Nat.lt_of_le_of_lt (h.le_top hv) hdeeper
    refine ⟨List.pairwise_cons.mpr ⟨hlt, h.pairwise⟩, fun v => ?_, by simp [Indentation.top]⟩
    rw [List.mem_cons, mem_suffixMinima_concat, ← h.mem_iff]
    constructor
    · rintro (rfl | hv)
      · exact ⟨by omega, .inl rfl⟩
      · exact ⟨h.pos_of_mem hv, .inr ⟨hlt v hv, hv⟩⟩
    · rintro ⟨-, rfl | ⟨-, hv⟩⟩
      · exact .inl rfl
      · exact .inr hv
  · refine ⟨h.pairwise.sublist (List.dropWhile_sublist _), fun v => ?_, by simp [htop]⟩
    change v ∈ blocks.keep width ↔ _
    rw [h.mem_keep_iff, mem_suffixMinima_concat, ← h.mem_iff]
    constructor
    · rintro ⟨hv, hle⟩
      have hcases : v = width ∨ v < width := Nat.eq_or_lt_of_le hle
      exact ⟨h.pos_of_mem hv, hcases.imp_right fun hlt => ⟨hlt, hv⟩⟩
    · rintro ⟨hpos, rfl | ⟨hlt, hv⟩⟩
      · have hlevel := (h.top_keep_iff.mp htop).resolve_left (by omega)
        exact ⟨(h.mem_iff v).mpr hlevel, Nat.le_refl v⟩
      · exact ⟨hv, Nat.le_of_lt hlt⟩

/-- A line is refused just when no level answers to its width. -/
theorem exists_meet_error_iff (h : blocks.Reflects widths) :
    (∃ error, (blocks.meet width place).1 = .error error) ↔ Unmatched widths width := by
  constructor
  · rintro ⟨error, herror⟩
    obtain ⟨-, hle, hkept, hne⟩ := meet_error (Prod.ext herror rfl)
    rw [hkept] at hne
    have hnot : ¬ (width = 0 ∨ width ∈ suffixMinima widths) :=
      fun hwidth => hne (h.top_keep_iff.mpr hwidth)
    have hpos : 0 < width := Nat.pos_of_ne_zero fun hzero => hnot (.inl hzero)
    have hmissing (first others : List Nat) (hsplit : widths = first ++ width :: others) :
        ∃ v ∈ others, v < width := by
      by_contra hno
      push Not at hno
      exact hnot (.inr (mem_suffixMinima.mpr ⟨hpos, first, others, hsplit, hno⟩))
    refine ⟨hpos, ?_, hmissing⟩
    rw [h.top, List.getLastD_eq_getLast?] at hle
    cases hlast : widths.getLast? with
    | none =>
      rw [hlast] at hle
      exact absurd hle (Nat.not_le_of_gt hpos)
    | some last =>
      rw [hlast] at hle
      refine ⟨last, rfl, Nat.lt_of_le_of_ne hle ?_⟩
      rintro rfl
      obtain ⟨front, hfront⟩ := List.getLast?_eq_some_iff.mp hlast
      obtain ⟨v, hv, -⟩ := hmissing front [] hfront
      exact List.not_mem_nil hv
  · rintro ⟨hpos, ⟨last, hlast, hlt⟩, hmissing⟩
    have htop : blocks.top = last := by
      rw [h.top, List.getLastD_eq_getLast?, hlast]
      rfl
    have hne : (⟨blocks.keep width⟩ : Indentation).top ≠ width := by
      rw [Ne, h.top_keep_iff]
      rintro (rfl | hmem)
      · exact Nat.lt_irrefl 0 hpos
      · obtain ⟨-, first, others, hsplit, hle⟩ := mem_suffixMinima.mp hmem
        obtain ⟨v, hv, hsmaller⟩ := hmissing first others hsplit
        have := hle v hv
        omega
    refine ⟨.inconsistentDedent width place, ?_⟩
    rw [meet, if_neg (by omega)]
    dsimp only
    rw [if_neg hne]

end Reflects

end Indentation

end Offside
