/-
What the text of a number says.  A decimal text stands for one rational number, and the text of a
finite number stands for its shortest decimal.  So a number is known from its text.
-/
import Offside.Decimal.Layout
import Offside.Proofs.Decimal.Shortest
import Offside.Proofs.Token.Literals

namespace Offside

namespace Decimal

/-! ### Decimal texts -/

/-- The number that digits stand for, with the point after the last of them, at an exponent. -/
def scaled (digits : List Char) (exponent : Int) : Rat := value digits * 10 ^ exponent

/-- The digits after a point, if there is one, and what follows. -/
def splitPoint : List Char → List Char × List Char
  | '.' :: rest => (rest.takeWhile Char.isDigit, rest.dropWhile Char.isDigit)
  | rest => ([], rest)

/-- The number that an unsigned decimal text stands for, before it is rounded. -/
def amount? (cs : List Char) : Option Rat :=
  let whole := cs.takeWhile Char.isDigit
  let (places, rest) := splitPoint (cs.dropWhile Char.isDigit)
  (readExponent? rest).map fun exponent => scaled (whole ++ places) (exponent - places.length)

theorem amount?_point {whole places tail : List Char} (hwhole : ∀ d ∈ whole, d.isDigit = true)
    (hplaces : ∀ d ∈ places, d.isDigit = true) (htail : EndsRun Char.isDigit tail) :
    amount? (whole ++ '.' :: (places ++ tail)) = (readExponent? tail).map fun exponent =>
      scaled (whole ++ places) (exponent - places.length) := by
  have hpoint : EndsRun Char.isDigit ('.' :: (places ++ tail)) := by
    rintro c cs ⟨⟩
    rfl
  have hsplit : splitPoint ('.' :: (places ++ tail)) = (places, tail) := by
    rw [splitPoint, (htail.span hplaces).1, (htail.span hplaces).2]
  rw [amount?, (hpoint.span hwhole).1, (hpoint.span hwhole).2, hsplit]

theorem amount?_whole {whole tail : List Char} (hwhole : ∀ d ∈ whole, d.isDigit = true)
    (htail : EndsRun Char.isDigit tail) (hpoint : tail.head? ≠ some '.') :
    amount? (whole ++ tail) = (readExponent? tail).map (scaled whole) := by
  have hsplit : splitPoint tail = ([], tail) := by
    rw [splitPoint.eq_def]
    split
    · exact absurd rfl hpoint
    · rfl
  rw [amount?, (htail.span hwhole).1, (htail.span hwhole).2, hsplit]
  simp

theorem isDigit_zeros (zeros : Nat) : ∀ d ∈ List.replicate zeros '0', d.isDigit = true :=
  fun d hd => by rw [List.eq_of_mem_replicate hd]; rfl

theorem scaled_zeros_append (zeros : Nat) (digits : List Char) (exponent : Int) :
    scaled (List.replicate zeros '0' ++ digits) exponent = scaled digits exponent := by
  simp only [scaled, value_eq_ofDigitChars, Nat.ofDigitChars_append,
    Nat.ofDigitChars_replicate_zero, Nat.mul_zero]

theorem scaled_append_zeros (digits : List Char) (zeros : Nat) (exponent : Int) :
    scaled (digits ++ List.replicate zeros '0') exponent = scaled digits (exponent + zeros) := by
  have hten : (10 : Rat) ≠ 0 := by norm_num
  simp only [scaled, value_eq_ofDigitChars, Nat.ofDigitChars_append,
    Nat.ofDigitChars_replicate_zero, Nat.cast_mul, Nat.cast_pow, zpow_add₀ hten, zpow_natCast]
  push_cast
  ring

/-- An exponent is read back from its text. -/
theorem readExponent?_mark (exponent : Int) :
    readExponent? ('e' :: (toString exponent).toList) = some exponent := by
  rw [Int.toString_eq_repr, Int.repr_eq_if]
  split
  · next hexponent =>
    rw [readExponent?, Nat.toList_repr, splitSign_toDigits]
    simp [isDigits_toDigits, value_toDigits, hexponent]
  · next hexponent =>
    have hsign : splitSign ("-" ++ (-exponent).toNat.repr).toList =
        (true, Nat.toDigits 10 (-exponent).toNat) := by
      rw [String.toList_append, Nat.toList_repr]
      rfl
    rw [readExponent?, hsign]
    simp [isDigits_toDigits, value_toDigits]
    omega

end Decimal

namespace FloatFormat

open Decimal

/-! ### Layouts -/

section

variable {digits : List Char} (hdigits : ∀ d ∈ digits, d.isDigit = true)

include hdigits

theorem amount?_positional (point : Int) :
    amount? (positional digits point) = some (scaled digits (point - digits.length)) := by
  have hend : EndsRun Char.isDigit [] := by rintro _ _ ⟨⟩
  rw [positional]
  split
  · next hpoint =>
    have hread := amount?_point (isDigit_zeros 1)
      (List.forall_mem_append.mpr ⟨isDigit_zeros (-point).toNat, hdigits⟩) hend
    rw [List.append_nil] at hread
    refine hread.trans ?_
    simp only [readExponent?, Option.map_some, scaled_zeros_append, List.length_append,
      List.length_replicate]
    congr 2
    omega
  · split
    · next hpoint hlong =>
      have hread := amount?_point
        (List.forall_mem_append.mpr ⟨hdigits, isDigit_zeros (point.toNat - digits.length)⟩)
        (isDigit_zeros 1) hend
      rw [List.append_nil] at hread
      refine hread.trans ?_
      rw [List.append_assoc, List.replicate_append_replicate]
      simp only [readExponent?, Option.map_some, scaled_append_zeros, List.length_replicate]
      congr 2
      omega
    · next hpoint hlong =>
      have hread := amount?_point
        (fun d (hd : d ∈ digits.take point.toNat) => hdigits d (List.mem_of_mem_take hd))
        (fun d (hd : d ∈ digits.drop point.toNat) => hdigits d (List.mem_of_mem_drop hd)) hend
      rw [List.append_nil] at hread
      refine hread.trans ?_
      rw [List.take_append_drop]
      simp only [readExponent?, Option.map_some, List.length_drop]
      congr 2
      omega

theorem amount?_scientific (hne : digits ≠ []) (point : Int) :
    amount? (scientific "e" digits point) = some (scaled digits (point - digits.length)) := by
  have hmark : EndsRun Char.isDigit ('e' :: (toString (point - 1)).toList) := by
    rintro c cs ⟨⟩
    rfl
  match digits with
  | [] => exact absurd rfl hne
  | [d] =>
    have hread := amount?_whole hdigits hmark (by simp)
    rw [readExponent?_mark] at hread
    exact hread
  | d :: other :: others =>
    obtain ⟨hd, hothers⟩ := List.forall_mem_cons.mp hdigits
    have htext : scientific "e" (d :: other :: others) point =
        [d] ++ '.' :: (other :: others ++ 'e' :: (toString (point - 1)).toList) := by
      simp [scientific]
    rw [htext, amount?_point (List.forall_mem_singleton.mpr hd) hothers hmark, readExponent?_mark]
    simp only [Option.map_some, List.singleton_append, List.length_cons]
    congr 2
    omega

end

/-! ### Shapes -/

/-- What a finite number is written as: digits with a point among them or with an exponent behind
them. -/
inductive Shape : List Char → Prop
  | point {whole places mark : List Char} (hwhole : isDigits whole = true)
    (hplaces : isDigits places = true)
    (hmark : mark = [] ∨ ∃ exponent : Int, mark = 'e' :: (toString exponent).toList) :
    Shape (whole ++ '.' :: (places ++ mark))
  | exponent {whole : List Char} (hwhole : isDigits whole = true) (exponent : Int) :
    Shape (whole ++ 'e' :: (toString exponent).toList)

theorem isDigits_zero : isDigits ['0'] = true := rfl

theorem isDigits_iff {digits : List Char} :
    isDigits digits = true ↔ digits ≠ [] ∧ ∀ d ∈ digits, d.isDigit = true := by
  simp [isDigits]

section

variable {digits : List Char} (h : isDigits digits = true)

include h

theorem shape_positional (point : Int) : Shape (positional digits point) := by
  obtain ⟨hne, hdigits⟩ := isDigits_iff.mp h
  rw [positional]
  split
  · have hplaces : isDigits (List.replicate (-point).toNat '0' ++ digits) = true :=
      isDigits_iff.mpr ⟨List.append_ne_nil_of_right_ne_nil _ hne,
        List.forall_mem_append.mpr ⟨isDigit_zeros _, hdigits⟩⟩
    have hshape := Shape.point isDigits_zero hplaces (.inl rfl)
    rwa [List.append_nil] at hshape
  · split
    · have hwhole : isDigits (digits ++ List.replicate (point.toNat - digits.length) '0') = true :=
        isDigits_iff.mpr ⟨List.append_ne_nil_of_left_ne_nil hne _,
          List.forall_mem_append.mpr ⟨hdigits, isDigit_zeros _⟩⟩
      exact .point hwhole isDigits_zero (.inl rfl)
    · next hpoint hlong =>
      have hwhole : isDigits (digits.take point.toNat) = true := by
        refine isDigits_iff.mpr ⟨?_, fun d hd => hdigits d (List.mem_of_mem_take hd)⟩
        rw [← List.length_pos_iff, List.length_take]
        omega
      have hplaces : isDigits (digits.drop point.toNat) = true := by
        refine isDigits_iff.mpr ⟨?_, fun d hd => hdigits d (List.mem_of_mem_drop hd)⟩
        rw [← List.length_pos_iff, List.length_drop]
        omega
      have hshape := Shape.point hwhole hplaces (.inl rfl)
      rwa [List.append_nil] at hshape

theorem shape_scientific (point : Int) : Shape (scientific "e" digits point) := by
  obtain ⟨hne, hdigits⟩ := isDigits_iff.mp h
  match digits with
  | [] => exact absurd rfl hne
  | [d] => exact .exponent h _
  | d :: other :: others =>
    have htext : scientific "e" (d :: other :: others) point =
        [d] ++ '.' :: (other :: others ++ 'e' :: (toString (point - 1)).toList) := by
      simp [scientific]
    rw [htext]
    obtain ⟨hd, hothers⟩ := List.forall_mem_cons.mp hdigits
    exact .point (isDigits_iff.mpr ⟨List.cons_ne_nil _ _, List.forall_mem_singleton.mpr hd⟩)
      (isDigits_iff.mpr ⟨List.cons_ne_nil _ _, hothers⟩) (.inr ⟨_, rfl⟩)

end

theorem shape_magnitudeText {x : Binary64} (hfinite : x.isInfinite = false) :
    Shape (literal.magnitudeText x) := by
  rw [magnitudeText, hfinite, if_neg Bool.false_ne_true]
  split
  · exact .point isDigits_zero isDigits_zero (.inl rfl)
  · dsimp only
    split
    · exact shape_positional (isDigits_toDigits _) _
    · exact shape_scientific (isDigits_toDigits _) _

/-- The characters of finite numbers without a sign in front. -/
def isNumeric (c : Char) : Bool := c.isDigit || c == '.' || c == 'e' || c == '-'

theorem isNumeric_toString (n : Int) : ∀ c ∈ (toString n).toList, isNumeric c = true ∧ c ≠ '.' := by
  have hdigit {c : Char} (hc : c.isDigit = true) : isNumeric c = true ∧ c ≠ '.' :=
    ⟨by simp [isNumeric, hc], by rintro rfl; cases hc⟩
  have hdigits (n : Nat) : ∀ c ∈ n.repr.toList, isNumeric c = true ∧ c ≠ '.' := fun c hc =>
    hdigit (isDigit_toDigits n c (by rwa [Nat.toList_repr] at hc))
  rw [Int.toString_eq_repr, Int.repr_eq_if]
  split
  · exact hdigits _
  · rw [String.toList_append]
    exact List.forall_mem_append.mpr
      ⟨List.forall_mem_singleton.mpr ⟨rfl, by decide⟩, hdigits _⟩

namespace Shape

variable {text : List Char} (h : Shape text)

include h

theorem exists_head : ∃ c cs, text = c :: cs ∧ c.isDigit = true := by
  cases h with
  | point hwhole | exponent hwhole =>
    obtain ⟨hne, hdigits⟩ := isDigits_iff.mp hwhole
    obtain ⟨c, cs, rfl⟩ := List.exists_cons_of_ne_nil hne
    exact ⟨c, _, rfl, hdigits c List.mem_cons_self⟩

theorem isNumeric : ∀ c ∈ text, isNumeric c = true := by
  have hdigit {digits : List Char} (h : isDigits digits = true) :
      ∀ c ∈ digits, FloatFormat.isNumeric c = true := fun c hc => by
    simp [FloatFormat.isNumeric, (isDigits_iff.mp h).2 c hc]
  have hexponent (exponent : Int) :
      ∀ c ∈ 'e' :: (toString exponent).toList, FloatFormat.isNumeric c = true :=
    List.forall_mem_cons.mpr ⟨rfl, fun c hc => (isNumeric_toString exponent c hc).1⟩
  cases h with
  | point hwhole hplaces hmark =>
    refine List.forall_mem_append.mpr ⟨hdigit hwhole, List.forall_mem_cons.mpr ⟨rfl,
      List.forall_mem_append.mpr ⟨hdigit hplaces, ?_⟩⟩⟩
    rcases hmark with rfl | ⟨exponent, rfl⟩
    · exact List.forall_mem_nil _
    · exact hexponent exponent
  | exponent hwhole exponent =>
    exact List.forall_mem_append.mpr ⟨hdigit hwhole, hexponent exponent⟩

/-- A number with a point or with an exponent is no whole number. -/
theorem exists_not_isDigit : ∃ c ∈ text, c.isDigit = false := by
  cases h with
  | point => exact ⟨'.', by simp, rfl⟩
  | exponent => exact ⟨'e', by simp, rfl⟩

/-- A digit follows the point of a number. -/
theorem isDigit_behind_point {before after : List Char} {c : Char}
    (htext : text = before ++ '.' :: c :: after) : c.isDigit = true := by
  have hdigits {digits : List Char} (h : isDigits digits = true) : '.' ∉ digits := fun hmem =>
    absurd ((isDigits_iff.mp h).2 '.' hmem) (by decide)
  have hexponent (exponent : Int) : '.' ∉ 'e' :: (toString exponent).toList :=
    List.not_mem_cons_of_ne_of_not_mem (by decide) fun hmem =>
      (isNumeric_toString exponent _ hmem).2 rfl
  cases h with
  | @point whole places mark hwhole hplaces hmark =>
    have hmark' : '.' ∉ mark := by
      rcases hmark with rfl | ⟨exponent, rfl⟩
      · exact List.not_mem_nil
      · exact hexponent exponent
    obtain ⟨-, -, hbehind⟩ := (List.append_cons_inj_of_notMem (hdigits hwhole)
      (List.not_mem_append (hdigits hplaces) hmark')).mp htext
    obtain ⟨hne, hall⟩ := isDigits_iff.mp hplaces
    obtain ⟨d, others, rfl⟩ := List.exists_cons_of_ne_nil hne
    rw [← (List.cons.inj hbehind).1]
    exact hall d List.mem_cons_self
  | exponent hwhole exponent =>
    have hmem : '.' ∈ before ++ '.' :: c :: after := by simp
    rw [← htext] at hmem
    exact absurd hmem (List.not_mem_append (hdigits hwhole) (hexponent exponent))

end Shape

end FloatFormat

/-- The number that a short decimal stands for is that of its digits at its point. -/
theorem ShortDecimal.scaled_digitText (short : ShortDecimal) :
    Decimal.scaled (FloatFormat.digitText short.digits)
        (short.point - (FloatFormat.digitText short.digits).length) * Binary64.unitsOfOne =
      short.units := by
  rw [Decimal.scaled, FloatFormat.digitText, Decimal.value_toDigits, mul_assoc]
  rfl

namespace Binary64

/-- The text of a finite number, up to its sign, stands for a number that rounds to it. -/
theorem amount?_magnitudeText {x : Binary64} (hfinite : x.isInfinite = false) : ∃ amount,
    Decimal.amount? (FloatFormat.literal.magnitudeText x) = some amount ∧
      (interval x.magnitude).Holds (amount * unitsOfOne) := by
  rw [FloatFormat.magnitudeText, hfinite, if_neg Bool.false_ne_true]
  by_cases hzero : x.magnitude = 0
  · rw [if_pos hzero, hzero]
    refine ⟨0, by decide +kernel, ?_⟩
    rw [zero_mul, Interval.Holds, if_pos (show (interval 0).closed = true from rfl)]
    exact ⟨le_of_eq rfl, Nat.cast_nonneg _⟩
  · rw [if_neg hzero]
    have hholds := holds_shortest (Nat.pos_of_ne_zero hzero)
    rw [← ShortDecimal.scaled_digitText] at hholds
    have hdigits := Decimal.isDigit_toDigits (shortest x.magnitude).digits
    refine ⟨_, ?_, hholds⟩
    dsimp only
    split
    · exact FloatFormat.amount?_positional hdigits _
    · exact FloatFormat.amount?_scientific hdigits Nat.toDigits_ne_nil _

theorem amount?_magnitudeText_of_isInfinite {x : Binary64} (h : x.isInfinite = true) :
    Decimal.amount? (FloatFormat.literal.magnitudeText x) = none := by
  rw [FloatFormat.magnitudeText, h, if_pos rfl]
  decide

/-- Numbers whose texts agree up to the sign agree up to the sign. -/
theorem magnitude_eq_of_text_eq {x y : Binary64}
    (h : FloatFormat.literal.magnitudeText x = FloatFormat.literal.magnitudeText y) :
    x.magnitude = y.magnitude := by
  cases hx : x.isInfinite with
  | true =>
    cases hy : y.isInfinite with
    | true => rw [isInfinite, beq_iff_eq] at hx hy; rw [hx, hy]
    | false =>
      obtain ⟨amount, hread, -⟩ := amount?_magnitudeText hy
      rw [← h, amount?_magnitudeText_of_isInfinite hx] at hread
      cases hread
  | false =>
    obtain ⟨amount, hread, hholds⟩ := amount?_magnitudeText hx
    cases hy : y.isInfinite with
    | true =>
      rw [h, amount?_magnitudeText_of_isInfinite hy] at hread
      cases hread
    | false =>
      obtain ⟨other, hother, hholds'⟩ := amount?_magnitudeText hy
      rw [← h, hread] at hother
      cases hother
      exact eq_of_holds hholds hholds'

/-- The text of a magnitude shows no sign. -/
theorem magnitudeText_ne_minus (x : Binary64) (rest : List Char) :
    FloatFormat.literal.magnitudeText x ≠ '-' :: rest := by
  intro h
  cases hx : x.isInfinite with
  | true =>
    rw [FloatFormat.magnitudeText, hx, if_pos rfl] at h
    cases h
  | false =>
    obtain ⟨amount, hread, -⟩ := amount?_magnitudeText hx
    rw [h] at hread
    cases hread

theorem ext_of_sign {x y : Binary64} (hsign : x.isNegative = y.isNegative)
    (hmagnitude : x.magnitude = y.magnitude) : x = y := by
  obtain ⟨x⟩ := x
  obtain ⟨y⟩ := y
  congr 1
  apply UInt64.toNat.inj
  have hx := x.toNat_lt
  have hy := y.toNat_lt
  have hbound : signBit = 2 ^ 63 := rfl
  simp only [isNegative, magnitude, decide_eq_decide, hbound] at hsign hmagnitude
  omega

/-- A number is known from its text. -/
theorem text_inj {x y : Binary64} (hx : x.isNaN = false) (hy : y.isNaN = false) :
    x.text = y.text ↔ x = y := by
  refine ⟨fun h => ?_, congrArg text⟩
  rw [text, text, FloatFormat.write, FloatFormat.write, hx, hy, if_neg Bool.false_ne_true,
    if_neg Bool.false_ne_true] at h
  cases hxs : x.isNegative <;> cases hys : y.isNegative <;>
    simp only [hxs, hys, if_true, Bool.false_eq_true, if_false, String.ofList_inj] at h
  · exact ext_of_sign (hxs.trans hys.symm) (magnitude_eq_of_text_eq h)
  · exact absurd h (magnitudeText_ne_minus x _)
  · exact absurd h.symm (magnitudeText_ne_minus y _)
  · exact ext_of_sign (hxs.trans hys.symm) (magnitude_eq_of_text_eq (List.cons.inj h).2)

end Binary64

end Offside
