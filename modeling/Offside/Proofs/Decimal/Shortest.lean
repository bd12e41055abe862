/-
What the shortest decimal of a number says.  The numbers that round to a magnitude form an interval,
no two magnitudes share a point of theirs, and the decimal that is found lies in the interval it was
searched in.  So a magnitude is known from its shortest decimal.
-/
import Offside.Decimal.Shortest
import Mathlib.Algebra.Order.Field.Rat
import Mathlib.Tactic.FieldSimp
import Mathlib.Tactic.Positivity
import Mathlib.Tactic.Linarith
import Mathlib.Tactic.Ring

namespace Offside

namespace Binary64

/-! ### Units -/

theorem binade_pos : 0 < binade := by decide

theorem unitsOfOne_pos : 0 < unitsOfOne := by decide +kernel

/-- The units from a magnitude to the next one. -/
def gap (magnitude : Nat) : Nat := 2 ^ (magnitude / binade - 1)

theorem gap_pos (magnitude : Nat) : 0 < gap magnitude := Nat.two_pow_pos _

theorem exists_eq_binade (magnitude : Nat) :
    ∃ exponent fraction, fraction < binade ∧ magnitude = exponent * binade + fraction :=
  ⟨magnitude / binade, magnitude % binade, Nat.mod_lt _ binade_pos,
    (Nat.div_add_mod' magnitude binade).symm⟩

section

variable {exponent fraction : Nat}

theorem binade_div (h : fraction < binade) : (exponent * binade + fraction) / binade = exponent := by
  rw [Nat.add_comm, Nat.add_mul_div_right _ _ binade_pos, Nat.div_eq_of_lt h, Nat.zero_add]

theorem units_binade (h : fraction < binade) :
    units (exponent * binade + fraction) =
      if exponent = 0 then fraction else (binade + fraction) * 2 ^ (exponent - 1) := by
  have hmod : (exponent * binade + fraction) % binade = fraction := by
    rw [Nat.add_comm, Nat.add_mul_mod_self_right, Nat.mod_eq_of_lt h]
  rw [units, binade_div h, hmod]
  rfl

theorem gap_binade (h : fraction < binade) :
    gap (exponent * binade + fraction) = 2 ^ (exponent - 1) := by
  rw [gap, binade_div h]

end

theorem units_succ (magnitude : Nat) :
    units (magnitude + 1) = units magnitude + gap magnitude := by
  obtain ⟨exponent, fraction, hfraction, rfl⟩ := exists_eq_binade magnitude
  rw [units_binade hfraction, gap_binade hfraction]
  rcases Nat.lt_or_ge (fraction + 1) binade with hnext | hlast
  · rw [Nat.add_assoc, units_binade hnext]
    cases exponent with
    | zero => rfl
    | succ exponent =>
      simp only [Nat.succ_ne_zero, if_false]
      ring
  · -- the next magnitude opens a binade, in which the gaps are twice as wide
    have hfull : exponent * binade + fraction + 1 = (exponent + 1) * binade + 0 := by
      rw [Nat.succ_mul]
      omega
    rw [hfull, units_binade binade_pos]
    cases exponent with
    | zero =>
      simp only [Nat.succ_ne_zero, if_false, if_true, Nat.zero_add, Nat.sub_self, pow_zero]
      omega
    | succ exponent =>
      have hlast : fraction + 1 = binade := by omega
      simp only [Nat.succ_ne_zero, if_false, Nat.add_sub_cancel, ← hlast]
      ring

/-- A gap is no small part of the magnitude in front of it. -/
theorem units_lt (magnitude : Nat) : units magnitude < 2 * binade * gap magnitude := by
  obtain ⟨exponent, fraction, hfraction, rfl⟩ := exists_eq_binade magnitude
  rw [units_binade hfraction, gap_binade hfraction]
  split
  · next hzero =>
    subst hzero
    simp only [Nat.zero_sub, pow_zero]
    omega
  · exact Nat.mul_lt_mul_of_pos_right (by omega) (Nat.two_pow_pos _)

theorem units_strictMono : StrictMono units :=
  strictMono_nat_of_lt_succ fun magnitude => by
    rw [units_succ]
    exact Nat.lt_add_of_pos_right (gap_pos magnitude)

/-! ### Intervals -/

/-- Whether a number, in units of 2^-1075, lies in an interval. -/
def Interval.Holds (i : Interval) (r : Rat) : Prop :=
  if i.closed then (i.low : Rat) ≤ r ∧ r ≤ i.high else (i.low : Rat) < r ∧ r < i.high

namespace Interval

variable {i : Interval} {r : Rat}

theorem Holds.le (h : i.Holds r) : (i.low : Rat) ≤ r ∧ r ≤ i.high := by
  rw [Holds] at h
  split at h
  · exact h
  · exact ⟨h.1.le, h.2.le⟩

theorem Holds.of_lt (hlow : (i.low : Rat) < r) (hhigh : r < i.high) : i.Holds r := by
  rw [Holds]
  split
  · exact ⟨hlow.le, hhigh.le⟩
  · exact ⟨hlow, hhigh⟩

theorem contains_iff {numerator denominator : Nat} (h : 0 < denominator) :
    i.contains numerator denominator = true ↔ i.Holds (numerator / denominator) := by
  have hpos : (0 : Rat) < denominator := Nat.cast_pos.mpr h
  rw [contains, Holds]
  split
  · rw [Bool.and_eq_true, decide_eq_true_iff, decide_eq_true_iff, le_div_iff₀ hpos, div_le_iff₀ hpos]
    norm_cast
  · rw [Bool.and_eq_true, decide_eq_true_iff, decide_eq_true_iff, lt_div_iff₀ hpos, div_lt_iff₀ hpos]
    norm_cast

end Interval

/-- No number rounds to two magnitudes: where the intervals of neighbours touch, only the end of the
even one belongs to it. -/
theorem not_holds_of_lt {first second : Nat} {r : Rat} (hlt : first < second)
    (hfirst : (interval first).Holds r) : ¬ (interval second).Holds r := by
  intro hsecond
  have hends : (interval first).high ≤ (interval second).low := by
    simp only [interval]
    exact Nat.add_le_add (units_strictMono.monotone (by omega))
      (units_strictMono.monotone (by omega))
  have hmeet : (interval second).low ≤ (interval first).high := by
    exact_mod_cast hsecond.le.1.trans hfirst.le.2
  have hnext : second = first + 1 := by
    by_contra hne
    have hless : units (first + 1) < units second := units_strictMono (by omega)
    have hle : units first ≤ units (second - 1) := units_strictMono.monotone (by omega)
    simp only [interval] at hmeet
    omega
  have hr : (r : Rat) = (interval first).high := by
    refine le_antisymm hfirst.le.2 (le_trans ?_ hsecond.le.1)
    exact_mod_cast hends
  subst hnext
  rw [Interval.Holds] at hfirst hsecond
  have hclosed : (interval first).closed = true := by
    by_contra hopen
    rw [if_neg hopen] at hfirst
    exact absurd hfirst.2 (by rw [hr]; exact lt_irrefl _)
  have hclosed' : (interval (first + 1)).closed = true := by
    by_contra hopen
    rw [if_neg hopen] at hsecond
    exact absurd hsecond.1 (by rw [hr]; exact_mod_cast Nat.not_lt.mpr hends)
  simp only [interval, beq_iff_eq] at hclosed hclosed'
  omega

theorem eq_of_holds {first second : Nat} {r : Rat} (hfirst : (interval first).Holds r)
    (hsecond : (interval second).Holds r) : first = second := by
  rcases Nat.lt_trichotomy first second with h | h | h
  · exact absurd hsecond (not_holds_of_lt h hfirst)
  · exact h
  · exact absurd hfirst (not_holds_of_lt h hsecond)

/-! ### Grids -/

/-- The distance of two points of a grid of multiples of a power of ten. -/
def gridStep (exponent : Int) : Rat := 10 ^ exponent * unitsOfOne

/-- The points of a grid are counted with whole numbers only. -/
theorem gridStep_eq (exponent : Int) : gridStep exponent =
    ((if 0 ≤ exponent then Nat.pow 10 exponent.toNat * unitsOfOne else unitsOfOne : Nat) : Rat) /
      (if 0 ≤ exponent then 1 else Nat.pow 10 (-exponent).toNat : Nat) := by
  rw [gridStep]
  split
  · next hexponent =>
    obtain ⟨n, rfl⟩ := Int.eq_ofNat_of_zero_le hexponent
    have htoNat : (n : Int).toNat = n := Int.toNat_natCast n
    rw [htoNat, zpow_natCast, Nat.cast_one, div_one, Nat.cast_mul, Nat.pow_eq, Nat.cast_pow]
    rfl
  · next hexponent =>
    obtain ⟨n, hn⟩ := Int.eq_ofNat_of_zero_le (show 0 ≤ -exponent by omega)
    obtain rfl : exponent = -(n : Int) := by omega
    rw [neg_neg, Int.toNat_natCast, zpow_neg, zpow_natCast, Nat.pow_eq, Nat.cast_pow,
      inv_mul_eq_div]
    rfl

namespace Interval

variable {i : Interval} {exponent : Int}

/-- What is found on a grid lies in the interval, and the point above its value is not missed. -/
theorem onGrid?_spec (i : Interval) (exponent : Int) :
    (∀ digits, i.onGrid? exponent = some digits → i.Holds (digits * gridStep exponent)) ∧
      (i.onGrid? exponent = none → ∃ above : Nat, i.value < above * gridStep exponent ∧
        above * gridStep exponent ≤ i.value + gridStep exponent ∧
        ¬ i.Holds (above * gridStep exponent)) := by
  rw [onGrid?, gridStep_eq]
  have hscale : 0 < if 0 ≤ exponent then 1 else Nat.pow 10 (-exponent).toNat := by
    split
    · exact Nat.one_pos
    · exact Nat.pow_pos (by decide)
  have hstep : 0 < if 0 ≤ exponent then Nat.pow 10 exponent.toNat * unitsOfOne else unitsOfOne := by
    split
    · exact Nat.mul_pos (Nat.pow_pos (by decide)) unitsOfOne_pos
    · exact unitsOfOne_pos
  generalize (if 0 ≤ exponent then 1 else Nat.pow 10 (-exponent).toNat) = scale at *
  generalize (if 0 ≤ exponent then Nat.pow 10 exponent.toNat * unitsOfOne else unitsOfOne) = step
    at *
  have hfits (n : Nat) : i.contains (n * step) scale = true ↔ i.Holds (n * (step / scale)) := by
    rw [contains_iff hscale, Nat.cast_mul, mul_div_assoc]
  have hpos : (0 : Rat) < scale := Nat.cast_pos.mpr hscale
  refine ⟨fun digits h => ?_, fun h => ⟨i.value * scale / step + 1, ?_, ?_, ?_⟩⟩
  · split at h
    · next habove =>
      rw [← Option.some.inj h]
      exact (hfits _).mp (Bool.and_eq_true_iff.mp habove).1
    · split at h
      · next hbelow =>
        rw [← Option.some.inj h]
        exact (hfits _).mp hbelow
      · exact absurd h (by simp)
  · have hlt : i.value * scale < (i.value * scale / step + 1) * step := by
      rw [Nat.succ_mul]
      exact Nat.lt_div_mul_add hstep
    rw [← mul_div_assoc, lt_div_iff₀ hpos]
    exact_mod_cast hlt
  · have hle : (i.value * scale / step + 1) * step ≤ i.value * scale + step := by
      rw [Nat.succ_mul]
      exact Nat.add_le_add_right (Nat.div_mul_le_self _ _) _
    rw [← mul_div_assoc, div_le_iff₀ hpos, add_mul, div_mul_cancel₀ _ hpos.ne']
    exact_mod_cast hle
  · rw [← hfits]
    intro habove
    rw [habove] at h
    split at h
    · exact absurd h (by simp)
    · split at h
      · exact absurd h (by simp)
      · next hnot hbelow => simp [hbelow] at hnot

theorem onGrid?_ne_none (hlow : i.low < i.value)
    (hhigh : i.value + gridStep exponent < i.high) : i.onGrid? exponent ≠ none := by
  intro hnone
  obtain ⟨above, hvalue, hnear, hmissed⟩ := (onGrid?_spec i exponent).2 hnone
  refine hmissed (.of_lt ?_ (hnear.trans_lt hhigh))
  exact lt_trans (by exact_mod_cast hlow) hvalue

/-- A search that comes by a grid with a point in the interval finds such a point. -/
theorem onGrid?_shortestFrom {grids finer : Nat} (hfiner : finer < grids)
    (h : i.onGrid? (exponent - finer) ≠ none) :
    i.onGrid? (i.shortestFrom grids exponent).2 = some (i.shortestFrom grids exponent).1 := by
  induction grids generalizing exponent finer with
  | zero => exact absurd hfiner (Nat.not_lt_zero finer)
  | succ grids ih =>
    rw [shortestFrom]
    cases hgrid : i.onGrid? exponent with
    | some digits => exact hgrid
    | none =>
      cases finer with
      | zero => exact absurd (by simpa using hgrid) h
      | succ finer =>
        refine ih (Nat.lt_of_succ_lt_succ hfiner) ?_
        rwa [show exponent - 1 - (finer : Int) = exponent - ((finer + 1 : Nat) : Int) by omega]

end Interval

theorem digitCount_pos (n : Nat) : 0 < digitCount n := Nat.length_toDigits_pos

theorem lt_pow_digitCount (n : Nat) : n < 10 ^ digitCount n :=
  (Nat.length_toDigits_le_iff (by decide) (digitCount_pos n)).mp (Nat.le_refl _)

theorem pow_digitCount_le {n : Nat} (hn : 0 < n) : 10 ^ (digitCount n - 1) ≤ n := by
  rcases Nat.eq_zero_or_pos (digitCount n - 1) with hone | hmore
  · rw [hone]
    exact hn
  · by_contra hlt
    have := (Nat.length_toDigits_le_iff (by decide) hmore).mpr (Nat.not_le.mp hlt)
    have := digitCount_pos n
    rw [digitCount] at *
    omega

/-- The place of the first digit of a number of units, up to one. -/
def top (value : Nat) : Int :=
  if unitsOfOne ≤ value then (digitCount (value / unitsOfOne) : Int)
  else 1 - (digitCount (unitsOfOne / value) : Int)

theorem gridStep_top_le {value : Nat} (hvalue : 0 < value) :
    gridStep (top value - 1) ≤ value := by
  rw [top, gridStep]
  split
  · next hone =>
    have hquotient : 0 < value / unitsOfOne := Nat.div_pos hone unitsOfOne_pos
    have hcount := digitCount_pos (value / unitsOfOne)
    rw [show (digitCount (value / unitsOfOne) : Int) - 1 =
      ((digitCount (value / unitsOfOne) - 1 : Nat) : Int) by omega, zpow_natCast]
    have := (Nat.mul_le_mul_right unitsOfOne (pow_digitCount_le hquotient)).trans
      (Nat.div_mul_le_self _ _)
    exact_mod_cast this
  · next hone =>
    have hcount : unitsOfOne < 10 ^ digitCount (unitsOfOne / value) * value :=
      (Nat.div_lt_iff_lt_mul hvalue).mp (lt_pow_digitCount _)
    rw [sub_sub_cancel_left, zpow_neg, zpow_natCast, inv_mul_le_iff₀ (by positivity)]
    exact_mod_cast hcount.le

theorem gridStep_sub (exponent : Int) (finer : Nat) :
    gridStep (exponent - finer) = gridStep exponent / 10 ^ finer := by
  rw [gridStep, gridStep, zpow_sub₀ (by norm_num), zpow_natCast]
  ring

theorem dropZeros_value (fuel digits : Nat) (exponent : Int) :
    ((dropZeros fuel digits exponent).1 : Rat) * gridStep (dropZeros fuel digits exponent).2 =
      digits * gridStep exponent := by
  induction fuel generalizing digits exponent with
  | zero => rfl
  | succ fuel ih =>
    rw [dropZeros]
    split
    · next hzero =>
      have hdigits : (digits : Rat) = (digits / 10 : Nat) * 10 := by
        exact_mod_cast (Nat.div_mul_cancel (Nat.dvd_of_mod_eq_zero hzero)).symm
      have hstep := gridStep_sub (exponent + 1) 1
      rw [Nat.cast_one, Int.add_sub_cancel] at hstep
      rw [ih, hdigits, hstep]
      ring
    · rfl

end Binary64

/-- The number that a short decimal stands for, in units of 2^-1075. -/
def ShortDecimal.units (short : ShortDecimal) : Rat :=
  short.digits * Binary64.gridStep (short.point - Binary64.digitCount short.digits)

namespace Binary64

/-- Seventeen digits are enough for a grid that is finer than the gap after a magnitude. -/
theorem gridStep_lt_gap {magnitude : Nat} (h : 0 < units magnitude) :
    gridStep (top (2 * units magnitude) - 1 - (17 : Nat)) < gap magnitude := by
  have htop : gridStep (top (2 * units magnitude) - 1) ≤ (2 * units magnitude : Nat) :=
    gridStep_top_le (by omega)
  have hunits : 2 * units magnitude < 10 ^ 17 * gap magnitude :=
    calc 2 * units magnitude < 2 * (2 * binade * gap magnitude) := by
          have := units_lt magnitude
          omega
      _ = 4 * binade * gap magnitude := by ring
      _ ≤ 10 ^ 17 * gap magnitude := Nat.mul_le_mul_right _ (by decide)
  rw [gridStep_sub, div_lt_iff₀' (by positivity)]
  exact htop.trans_lt (by exact_mod_cast hunits)

/-- The shortest decimal of a magnitude rounds to it. -/
theorem holds_shortest {magnitude : Nat} (h : 0 < magnitude) :
    (interval magnitude).Holds (shortest magnitude).units := by
  have hunits : units (magnitude - 1) < units magnitude := units_strictMono (by omega)
  have hgrid : (interval magnitude).onGrid?
      (top (2 * units magnitude) + 1 - (19 : Nat)) ≠ none := by
    rw [show top (2 * units magnitude) + 1 - ((19 : Nat) : Int) =
      top (2 * units magnitude) - 1 - ((17 : Nat) : Int) by omega]
    refine Interval.onGrid?_ne_none (by simp only [interval]; omega) ?_
    have hgap := gridStep_lt_gap (Nat.zero_lt_of_lt hunits)
    simp only [interval, units_succ]
    push_cast at hgap ⊢
    linarith
  have hfound := Interval.onGrid?_shortestFrom (by decide : 19 < 20) hgrid
  have hholds := (Interval.onGrid?_spec _ _).1 _ hfound
  rw [← dropZeros_value 20] at hholds
  rw [ShortDecimal.units, shortest]
  dsimp only
  rw [Int.add_sub_cancel]
  exact hholds

end Binary64

end Offside
