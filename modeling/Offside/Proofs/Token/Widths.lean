/-
The width of blanks as a sum without bounds, and the sum that a lexer forms, which is the same as
long as it is a number of the program.
-/
import Offside.Token.Lexer

namespace Offside

/-- A space counts one, a tab the width of a tab, and a carriage return nothing. -/
def lineWidth (tabWidth : Nat) (blanks : List Char) : Nat :=
  blanks.count ' ' + tabWidth * blanks.count '\t'

theorem lineWidth_append (tabWidth : Nat) (blanks more : List Char) :
    lineWidth tabWidth (blanks ++ more) = lineWidth tabWidth blanks + lineWidth tabWidth more := by
  simp only [lineWidth, List.count_append, Nat.mul_add]
  omega

/-- Carriage returns apart, blanks take room. -/
theorem lineWidth_pos {tabWidth : Nat} {blanks : List Char} (htab : 0 < tabWidth)
    (h : ∃ c ∈ blanks, c = ' ' ∨ c = '\t') : 0 < lineWidth tabWidth blanks := by
  obtain ⟨c, hmem, rfl | rfl⟩ := h
  · exact Nat.add_pos_left (List.count_pos_iff.mpr hmem) _
  · exact Nat.add_pos_right _ (Nat.mul_pos htab (List.count_pos_iff.mpr hmem))

theorem lineWidth_of_not_mem (narrow wide : Nat) {blanks : List Char} (h : '\t' ∉ blanks) :
    lineWidth narrow blanks = lineWidth wide blanks := by
  rw [lineWidth, lineWidth, List.count_eq_zero.mpr h, Nat.mul_zero, Nat.mul_zero]

/-- Each tab or space adds one to the width, or more with wide tabs. -/
theorem lineWidth_cons (tabWidth : Nat) (c : Char) (blanks : List Char) :
    lineWidth tabWidth (c :: blanks) = (if c = ' ' then 1 else if c = '\t' then tabWidth else 0) +
      lineWidth tabWidth blanks := by
  rw [← List.singleton_append, lineWidth_append]
  congr 1
  by_cases hspace : c = ' '
  · subst hspace
    rfl
  · by_cases htab : c = '\t'
    · subst htab
      simp [lineWidth]
    · simp [lineWidth, hspace, htab]

/-- The blanks in front of a text have a width that is a number of the program. -/
def Fits (tabWidth : Nat) (text : List Char) : Prop :=
  lineWidth tabWidth (text.takeWhile Lexer.isBlank) < Lexer.widthBound

instance (tabWidth : Nat) (text : List Char) : Decidable (Fits tabWidth text) :=
  inferInstanceAs (Decidable (_ < _))

/-- From whatever width on blanks are counted, the sum is formed as long as it is a number. -/
theorem Lexer.foldlM_addWidth? (tabWidth : Nat) {width : Nat} (hwidth : width < widthBound)
    (blanks : List Char) :
    blanks.foldlM (fun width c =>
      if c = ' ' then addWidth? width 1
      else if c = '\t' then addWidth? width tabWidth
      else some width) width =
        if width + lineWidth tabWidth blanks < widthBound then
          some (width + lineWidth tabWidth blanks)
        else none := by
  induction blanks generalizing width with
  | nil => exact (if_pos hwidth).symm
  | cons c blanks ih =>
    have hadd (more : Nat) : (addWidth? width more).bind (fun width => blanks.foldlM
        (fun width c =>
          if c = ' ' then addWidth? width 1
          else if c = '\t' then addWidth? width tabWidth
          else some width) width) =
        if width + (more + lineWidth tabWidth blanks) < widthBound then
          some (width + (more + lineWidth tabWidth blanks))
        else none := by
      rw [addWidth?, ← Nat.add_assoc]
      by_cases hmore : width + more < widthBound
      · rw [if_pos hmore, Option.bind_some, ih hmore]
      · have hbehind : ¬ width + more + lineWidth tabWidth blanks < widthBound := by omega
        rw [if_neg hmore, if_neg hbehind, Option.bind_none]
    rw [List.foldlM_cons, lineWidth_cons, Option.bind_eq_bind]
    by_cases hspace : c = ' '
    · simp only [hspace, if_true]
      exact hadd 1
    · by_cases htab : c = '\t'
      · simp only [htab, Char.reduceEq, if_true, if_false]
        exact hadd tabWidth
      · simp only [hspace, htab, if_false, Nat.zero_add, Option.bind_some]
        exact ih hwidth

theorem Lexer.indentWidth?_eq (tabWidth : Nat) (blanks : List Char) :
    indentWidth? tabWidth blanks =
      if lineWidth tabWidth blanks < widthBound then some (lineWidth tabWidth blanks)
      else none := by
  have hwidth := foldlM_addWidth? tabWidth (show 0 < widthBound by decide) blanks
  rwa [Nat.zero_add] at hwidth

section

variable {tabWidth : Nat} {text blanks front tail : List Char}

theorem Fits.indentWidth? (h : Fits tabWidth text) :
    Lexer.indentWidth? tabWidth (text.takeWhile Lexer.isBlank) =
      some (lineWidth tabWidth (text.takeWhile Lexer.isBlank)) := by
  rw [Lexer.indentWidth?_eq]
  exact if_pos h

theorem indentWidth?_of_not_fits (h : ¬ Fits tabWidth text) :
    Lexer.indentWidth? tabWidth (text.takeWhile Lexer.isBlank) = none := by
  rw [Lexer.indentWidth?_eq]
  exact if_neg h

theorem fits_iff_of_blanks (h : ∀ c ∈ blanks, Lexer.isBlank c = true) :
    Fits tabWidth blanks ↔ lineWidth tabWidth blanks < Lexer.widthBound := by
  have htake : (blanks ++ []).takeWhile Lexer.isBlank = blanks ++ [].takeWhile Lexer.isBlank :=
    List.takeWhile_append_of_pos h
  rw [List.takeWhile_nil, List.append_nil] at htake
  rw [Fits, htake]

/-- What stands behind a part of a text only adds to the blanks in front of it. -/
theorem Fits.of_append (h : Fits tabWidth (front ++ tail)) : Fits tabWidth front := by
  refine Nat.lt_of_le_of_lt ?_ h
  rw [List.takeWhile_append]
  split
  · next hall =>
    rw [List.IsPrefix.eq_of_length (List.takeWhile_prefix _) hall, lineWidth_append]
    exact Nat.le_add_right _ _
  · exact Nat.le_refl _

/-- Behind the blanks, or anything that is no blank, a text may go on in any way. -/
theorem Fits.append (h : Fits tabWidth front)
    (htail : ∀ c cs, tail = c :: cs → Lexer.isBlank c = false) : Fits tabWidth (front ++ tail) := by
  have htake : (front ++ tail).takeWhile Lexer.isBlank = front.takeWhile Lexer.isBlank := by
    have hstop : tail.takeWhile Lexer.isBlank = [] := by
      cases tail with
      | nil => rfl
      | cons c cs => exact List.takeWhile_cons_of_neg (by simp [htail c cs rfl])
    rw [List.takeWhile_append, hstop, List.append_nil]
    split
    · next hall => exact (List.IsPrefix.eq_of_length (List.takeWhile_prefix _) hall).symm
    · rfl
  rwa [Fits, htake]

theorem fits_nil (tabWidth : Nat) : Fits tabWidth [] := by
  rw [Fits, List.takeWhile_nil]
  exact (by decide : 0 < Lexer.widthBound)

end

end Offside
