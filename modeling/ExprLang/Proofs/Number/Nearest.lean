import ExprLang.Number.Decimal
import ExprLang.Proofs.Number.Sign
import Mathlib.Algebra.Order.Field.Rat
import Mathlib.Data.Nat.Dist
import Mathlib.Tactic.FieldSimp
import Mathlib.Tactic.Linarith
import Mathlib.Tactic.Positivity
import Mathlib.Tactic.Ring

/-!
# Rounding to the nearest double

What a quotient is rounded to is told without the rounding: no other double is nearer to the
quotient, and if another one is as near, the double that is chosen is the even one. Infinity takes
part in this as the power of two behind the greatest finite double. There is exactly one double like
this for every quotient.

The rounding looks at multiples of one power of two only, which is enough: a double that is none of
them is below the least one with a full significand, and that one is not above the quotient.

## Main results

* `units_strictMono` — the magnitudes grow with their index.
* `nearestOf_divNearestEven` — a quotient of natural numbers is rounded to the nearest one.
* `nearestOf_roundedIndex` — no magnitude is nearer to the quotient than the one that is chosen.
* `isNearest_iff` — rounding gives the one double that is nearest to the quotient.
* `Decimal.isNearest_iff` — a decimal is read as the one double that is nearest to it.
-/

namespace ExprLang

namespace Binary64

/-! ## Magnitudes -/

theorem scale_mul_add_significand (index : Nat) :
    scale index * Nat.pow 2 52 + significand index = index := by
  simp only [significand, scale, Nat.pow_eq, Nat.reducePow]
  omega

theorem significand_lt (index : Nat) : significand index < 2 ^ 53 := by
  simp only [significand, scale, Nat.pow_eq, Nat.reducePow]
  omega

theorem le_significand {index : Nat} (h : scale index ≠ 0) : 2 ^ 52 ≤ significand index := by
  simp only [significand, scale, Nat.pow_eq, Nat.reducePow] at h ⊢
  omega

/-- A significand on a scale, also one that is carried over to the next scale. -/
theorem units_eq {power digits : Nat} (hUpper : digits ≤ 2 ^ 53)
    (hLower : power = 0 ∨ 2 ^ 52 ≤ digits) :
    units (power * Nat.pow 2 52 + digits) = digits * 2 ^ power := by
  rcases hUpper.lt_or_eq with hLess | rfl
  · have hScale : scale (power * Nat.pow 2 52 + digits) = power := by
      simp only [scale, Nat.pow_eq, Nat.reducePow] at hLess hLower ⊢
      omega
    rw [units, significand, hScale, Nat.add_sub_cancel_left, Nat.pow_eq]
  · have hScale : scale (power * Nat.pow 2 52 + 2 ^ 53) = power + 1 := by
      simp only [scale, Nat.pow_eq, Nat.reducePow]
      omega
    have hSignificand : significand (power * Nat.pow 2 52 + 2 ^ 53) = 2 ^ 52 := by
      rw [significand, hScale]
      simp only [Nat.pow_eq, Nat.reducePow]
      omega
    rw [units, hScale, hSignificand, Nat.pow_eq]
    ring

theorem units_of_lt {index : Nat} (h : index < 2 ^ 53) : units index = index := by
  have hUnits := @units_eq 0 index h.le (.inl rfl)
  rwa [Nat.zero_mul, Nat.zero_add, Nat.pow_zero, Nat.mul_one] at hUnits

/-- **The magnitudes grow with their index.** -/
theorem units_strictMono : StrictMono units := by
  refine strictMono_nat_of_lt_succ fun index => ?_
  have hLower : scale index = 0 ∨ 2 ^ 52 ≤ significand index + 1 :=
    or_iff_not_imp_left.2 fun hScale => Nat.le_succ_of_le (le_significand hScale)
  have hNext := units_eq (significand_lt index) hLower
  rw [Nat.add_succ, scale_mul_add_significand] at hNext
  rw [hNext, units, Nat.pow_eq]
  exact Nat.mul_lt_mul_of_pos_right (Nat.lt_succ_self _) (Nat.two_pow_pos _)

/-- A magnitude is on a scale, or it is below every full significand on that scale. -/
theorem exists_units_eq_or_lt (index power : Nat) :
    (∃ steps, units index = steps * 2 ^ power) ∨
      power ≠ 0 ∧ units index < 2 ^ 52 * 2 ^ power := by
  rw [units, Nat.pow_eq]
  rcases Nat.lt_or_ge (scale index) power with hScale | hScale
  · refine .inr ⟨Nat.ne_zero_of_lt hScale, ?_⟩
    calc significand index * 2 ^ scale index
        < 2 ^ 53 * 2 ^ scale index :=
          Nat.mul_lt_mul_of_pos_right (significand_lt index) (Nat.two_pow_pos _)
      _ = 2 ^ 52 * 2 ^ (scale index + 1) := by ring
      _ ≤ 2 ^ 52 * 2 ^ power := Nat.mul_le_mul_left _ (Nat.pow_le_pow_right (by decide) hScale)
  · left
    refine ⟨significand index * 2 ^ (scale index - power), ?_⟩
    rw [Nat.mul_assoc, ← Nat.pow_add, Nat.sub_add_cancel hScale]

/-! ## The nearest of many values -/

/-- Of two numbers that stand for values, the first one is to be chosen for a target: its value is
nearer, or as near and the number is even. -/
def Nearer (value : Nat → Nat) (target choice other : Nat) : Prop :=
  Nat.dist (value choice) target < Nat.dist (value other) target ∨
    Nat.dist (value choice) target = Nat.dist (value other) target ∧ choice % 2 = 0

/-- The choice of a number whose value is nearest to the target. -/
def NearestOf (value : Nat → Nat) (target choice : Nat) : Prop :=
  ∀ other, other ≠ choice → Nearer value target choice other

/-- **A quotient is rounded to the nearest natural number**; halfway goes to the even one. -/
theorem nearestOf_divNearestEven (a : Nat) {b : Nat} (hb : 0 < b) :
    NearestOf (· * b) a (divNearestEven a b) := by
  intro other hOther
  have hSplit := Nat.div_add_mod' a b
  have hRest := Nat.mod_lt a hb
  -- Any other multiple is at least one step away from the one that is chosen.
  have hStep : ∀ choice, other ≠ choice →
      other * b + b ≤ choice * b ∨ choice * b + b ≤ other * b := by
    intro choice hChoice
    rw [← Nat.succ_mul, ← Nat.succ_mul]
    exact (Nat.lt_or_gt_of_ne hChoice).imp (Nat.mul_le_mul_right b) (Nat.mul_le_mul_right b)
  have hNext : (a / b + 1) * b = a / b * b + b := Nat.succ_mul _ _
  simp only [divNearestEven] at hOther ⊢
  split at hOther <;> rename_i hLower
  · have hFar := hStep _ hOther
    rw [if_pos hLower]
    simp only [Nearer, Nat.dist]
    omega
  · have hFar := hStep _ hOther
    rw [if_neg hLower]
    simp only [Nearer, Nat.dist]
    omega

/-- What is chosen among growing values is chosen as well if the numbers end with an even one, and
all numbers behind it are counted as this one. -/
theorem NearestOf.nearer_min {value : Nat → Nat} {target choice : Nat}
    (h : NearestOf value target choice) (hGrows : StrictMono value) {greatest : Nat}
    (hEven : greatest % 2 = 0) {other : Nat} (hLe : other ≤ greatest)
    (hOther : other ≠ min greatest choice) : Nearer value target (min greatest choice) other := by
  rcases Nat.le_total choice greatest with hChoice | hChoice
  · rw [Nat.min_eq_right hChoice] at hOther ⊢
    exact h other hOther
  · rw [Nat.min_eq_left hChoice] at hOther ⊢
    have hBelow := hGrows (Nat.lt_of_le_of_ne hLe hOther)
    rcases hChoice.eq_or_lt with rfl | hBeyond
    · exact h other hOther
    · have hAbove := hGrows hBeyond
      have hGreatest := h greatest hBeyond.ne
      simp only [Nearer, Nat.dist] at hGreatest ⊢
      omega

/-! ## The nearest magnitude -/

/-- The index that a quotient in units is rounded to, if the indices have no end. -/
def roundedIndex (a b : Nat) : Nat :=
  let scale := (a / b).log2 - 52
  scale * Nat.pow 2 52 + divNearestEven a (b * Nat.pow 2 scale)

theorem nearestInUnits_eq_min (a b : Nat) :
    nearestInUnits a b = min infinityIndex (roundedIndex a b) := rfl

/-- On the scale of a quotient, its significand has 53 digits, or the scale is the least one. -/
theorem scaled_bounds (a : Nat) {b : Nat} (hb : 0 < b) {power : Nat}
    (hPower : power = (a / b).log2 - 52) :
    a < 2 ^ 53 * (b * 2 ^ power) ∧ (power = 0 ∨ 2 ^ 52 * (b * 2 ^ power) ≤ a) := by
  constructor
  · have hLog : a / b < 2 ^ (53 + power) :=
      (Nat.lt_log2_self).trans_le (Nat.pow_le_pow_right (by decide) (by omega))
    calc a < b * 2 ^ (53 + power) := by
            rw [Nat.mul_comm]
            exact (Nat.div_lt_iff_lt_mul hb).1 hLog
      _ = 2 ^ 53 * (b * 2 ^ power) := by ring
  · refine or_iff_not_imp_left.2 fun hPositive => ?_
    have hLog : 2 ^ (52 + power) ≤ a / b := by
      have hSame : 52 + power = (a / b).log2 := by omega
      rw [hSame]
      refine Nat.log2_self_le fun hZero => ?_
      rw [hZero, Nat.log2_zero] at hPower
      omega
    calc 2 ^ 52 * (b * 2 ^ power) = 2 ^ (52 + power) * b := by ring
      _ ≤ a := (Nat.le_div_iff_mul_le hb).1 hLog

theorem divNearestEven_le_of_lt {a b bound : Nat} (h : a < bound * b) :
    divNearestEven a b ≤ bound := by
  have hQuotient := Nat.div_lt_of_lt_mul (Nat.mul_comm bound b ▸ h)
  simp only [divNearestEven]
  split <;> omega

theorem le_divNearestEven_of_le {a b bound : Nat} (hb : 0 < b) (h : bound * b ≤ a) :
    bound ≤ divNearestEven a b := by
  have hQuotient := (Nat.le_div_iff_mul_le hb).2 h
  simp only [divNearestEven]
  split <;> omega

/-- The index is rounded to as a significand on the scale of the quotient. -/
theorem exists_roundedIndex (a : Nat) {b : Nat} (hb : 0 < b) :
    ∃ power digits, units (roundedIndex a b) = digits * 2 ^ power ∧
      roundedIndex a b % 2 = digits % 2 ∧ NearestOf (· * (b * 2 ^ power)) a digits ∧
      (power = 0 ∨ 2 ^ 52 * (b * 2 ^ power) ≤ a) := by
  generalize hPower : (a / b).log2 - 52 = power
  have hStep : 0 < b * 2 ^ power := by positivity
  obtain ⟨hUpper, hLower⟩ := scaled_bounds a hb hPower.symm
  have hRounded : roundedIndex a b =
      power * Nat.pow 2 52 + divNearestEven a (b * 2 ^ power) := by
    simp only [roundedIndex, hPower, Nat.pow_eq]
  refine ⟨power, divNearestEven a (b * 2 ^ power), ?_, ?_, nearestOf_divNearestEven a hStep,
    hLower⟩
  · rw [hRounded]
    exact units_eq (divNearestEven_le_of_lt hUpper)
      (hLower.imp_right (le_divNearestEven_of_le hStep))
  · rw [hRounded]
    simp only [Nat.pow_eq, Nat.reducePow]
    omega

/-- **No magnitude is nearer to a quotient than the one that is chosen for it.** -/
theorem nearestOf_roundedIndex (a : Nat) {b : Nat} (hb : 0 < b) :
    NearestOf (units · * b) a (roundedIndex a b) := by
  intro other hOther
  obtain ⟨power, digits, hUnits, hParity, hNearest, hLower⟩ := exists_roundedIndex a hb
  have hOnScale : ∀ steps, steps * 2 ^ power * b = steps * (b * 2 ^ power) := fun steps => by ring
  rcases exists_units_eq_or_lt other power with ⟨steps, hSteps⟩ | ⟨hPositive, hSmall⟩
  · have hDifferent : steps ≠ digits := by
      rintro rfl
      exact hOther (units_strictMono.injective (hSteps.trans hUnits.symm))
    have hNearer := hNearest steps hDifferent
    rwa [Nearer, hUnits, hSteps, hOnScale, hOnScale, hParity]
  · -- The least full significand is between this magnitude and the quotient.
    have hFull := hLower.resolve_left hPositive
    have hBelow : units other * b < 2 ^ 52 * (b * 2 ^ power) :=
      hOnScale (2 ^ 52) ▸ Nat.mul_lt_mul_of_pos_right hSmall hb
    left
    show Nat.dist (units (roundedIndex a b) * b) a < Nat.dist (units other * b) a
    rw [hUnits, hOnScale]
    rcases eq_or_ne (2 ^ 52) digits with rfl | hDifferent
    · simp only [Nat.dist]
      omega
    · have hNearer := hNearest (2 ^ 52) hDifferent
      simp only [Nearer, Nat.dist] at hNearer ⊢
      omega

/-! ## The nearest double -/

/-- The magnitude of a double as a number; for infinity, what would follow the greatest finite
magnitude. -/
def magnitude (x : Binary64) : ℚ := units x.index / 2 ^ unitsExponent

/-- **A double is the nearest one to a number that is not negative**: there is none that is nearer,
and one that is as near only if this one is even. -/
structure IsNearest (x : Binary64) (value : ℚ) : Prop where
  isNaN : x.isNaN = false
  isNegative : x.isNegative = false
  nearer : ∀ other : Binary64, other.isNaN = false → other.isNegative = false → other ≠ x →
    |x.magnitude - value| < |other.magnitude - value| ∨
      |x.magnitude - value| = |other.magnitude - value| ∧ x.index % 2 = 0

theorem magnitude_lt {x y : Binary64} (h : x.index < y.index) : x.magnitude < y.magnitude := by
  have hUnits : (units x.index : ℚ) < units y.index := Nat.cast_lt.2 (units_strictMono h)
  exact div_lt_div_of_pos_right hUnits (by positivity)

theorem cast_dist (m n : Nat) : (Nat.dist m n : ℚ) = |(m : ℚ) - n| := by
  rcases Nat.le_total m n with hLe | hLe
  · rw [Nat.dist_eq_sub_of_le hLe, Nat.cast_sub hLe, abs_sub_comm,
      abs_of_nonneg (sub_nonneg.2 (Nat.cast_le.2 hLe))]
  · rw [Nat.dist_eq_sub_of_le_right hLe, Nat.cast_sub hLe,
      abs_of_nonneg (sub_nonneg.2 (Nat.cast_le.2 hLe))]

/-- The distance of a magnitude from a quotient, counted in natural numbers. -/
theorem abs_magnitude_sub (x : Binary64) (a : Nat) {b : Nat} (hb : 0 < b) :
    |x.magnitude - a / b| =
      Nat.dist (units x.index * b) (a * 2 ^ unitsExponent) / (2 ^ unitsExponent * b : ℚ) := by
  have hCast : (b : ℚ) ≠ 0 := Nat.cast_ne_zero.2 hb.ne'
  have hPower : (2 ^ unitsExponent : ℚ) ≠ 0 := by positivity
  have hPositive : 0 < (2 ^ unitsExponent * b : ℚ) := by positivity
  rw [magnitude, div_sub_div _ _ hPower hCast, abs_div, abs_of_pos hPositive, cast_dist]
  push_cast
  rw [mul_comm (a : ℚ)]

/-- **Rounding gives a nearest double.** -/
theorem isNearest_nearest (a : Nat) {b : Nat} (hb : 0 < b) :
    (ofIndex (nearest a b)).IsNearest (a / b) := by
  have hLe : nearest a b ≤ infinityIndex := Nat.min_le_left _ _
  refine ⟨isNaN_ofIndex hLe, isNegative_ofIndex hLe, fun other hNaN hSign hOther => ?_⟩
  have hIndex : other.index ≠ nearest a b := by
    intro hSame
    refine hOther (eq_of_index_eq ?_ ?_)
    · rw [index_ofIndex hLe, hSame]
    · rw [isNegative_ofIndex hLe, hSign]
  have hGrows : StrictMono (units · * b) := fun _ _ hLess =>
    Nat.mul_lt_mul_of_pos_right (units_strictMono hLess) hb
  have hNearer := (nearestOf_roundedIndex (a * Nat.pow 2 unitsExponent) hb).nearer_min hGrows
    (by decide : infinityIndex % 2 = 0) (index_le_iff.2 hNaN) hIndex
  have hPositive : 0 < (2 ^ unitsExponent * b : ℚ) := by positivity
  rw [abs_magnitude_sub _ a hb, abs_magnitude_sub _ a hb, div_lt_div_iff_of_pos_right hPositive,
    div_left_inj' hPositive.ne', Nat.cast_lt, Nat.cast_inj, index_ofIndex hLe]
  exact hNearer

/-- What is between two numbers that are equally far from a third one is nearer to it. -/
theorem abs_sub_lt_of_between {lower middle upper value : ℚ} (hLower : lower < middle)
    (hUpper : middle < upper) (hTie : |lower - value| = |upper - value|) :
    |middle - value| < |lower - value| := by
  rcases le_total value middle with hLe | hLe
  · rw [hTie, abs_of_nonneg (sub_nonneg.2 hLe), abs_of_pos (sub_pos.2 (hLe.trans_lt hUpper))]
    exact sub_lt_sub_right hUpper value
  · rw [abs_sub_comm, abs_sub_comm lower, abs_of_nonneg (sub_nonneg.2 hLe),
      abs_of_pos (sub_pos.2 (hLower.trans_le hLe))]
    exact sub_lt_sub_left hLower value

namespace IsNearest

variable {x y : Binary64} {value : ℚ}

theorem not_index_lt (hX : x.IsNearest value) (hY : y.IsNearest value) :
    ¬ x.index < y.index := by
  intro hLess
  have hFirst := hX.nearer y hY.isNaN hY.isNegative fun hSame => hLess.ne (hSame ▸ rfl)
  have hLast := hY.nearer x hX.isNaN hX.isNegative fun hSame => hLess.ne (hSame ▸ rfl)
  -- They are equally near, so both are even, and the double between them is nearer.
  obtain ⟨hTie, hFirstEven⟩ := hFirst.resolve_left fun hNearer =>
    hLast.elim hNearer.not_gt fun hTie => hNearer.ne hTie.1.symm
  have hLastEven := (hLast.resolve_left hTie.not_gt).2
  have hGap : x.index + 1 < y.index := by omega
  have hLe : x.index + 1 ≤ infinityIndex := hGap.le.trans (index_le_iff.2 hY.isNaN)
  have hMiddle := index_ofIndex hLe
  generalize hBetween : ofIndex (x.index + 1) = middle at hMiddle
  have hLower : x.magnitude < middle.magnitude := magnitude_lt (hMiddle ▸ Nat.lt_succ_self _)
  have hUpper : middle.magnitude < y.magnitude := magnitude_lt (hMiddle ▸ hGap)
  have hNearer := abs_sub_lt_of_between hLower hUpper hTie
  have hNearest := hX.nearer middle (hBetween ▸ isNaN_ofIndex hLe)
    (hBetween ▸ isNegative_ofIndex hLe) fun hSame => hLower.ne (hSame ▸ rfl)
  exact hNearest.elim hNearer.not_gt fun hTie => hNearer.ne hTie.1.symm

/-- **A number has only one nearest double.** -/
theorem unique (hX : x.IsNearest value) (hY : y.IsNearest value) : x = y := by
  refine eq_of_index_eq ?_ (hX.isNegative.trans hY.isNegative.symm)
  exact Nat.le_antisymm (Nat.not_lt.1 (hY.not_index_lt hX)) (Nat.not_lt.1 (hX.not_index_lt hY))

end IsNearest

/-- **Rounding gives the one double that is nearest to a quotient.** -/
theorem isNearest_iff {x : Binary64} {a b : Nat} (hb : 0 < b) :
    x.IsNearest (a / b) ↔ x = ofIndex (nearest a b) := by
  constructor
  · intro h
    exact h.unique (isNearest_nearest a hb)
  · rintro rfl
    exact isNearest_nearest a hb

end Binary64

namespace Decimal

theorem denominator_pos (d : Decimal) : 0 < d.denominator := Nat.pow_pos (by decide)

theorem cast_eq (d : Decimal) : (d.digits * 10 ^ d.exponent : ℚ) = d.numerator / d.denominator := by
  rw [numerator, denominator]
  obtain ⟨power, hPower | hPower⟩ := d.exponent.eq_nat_or_neg
  · rw [hPower]
    simp
  · rw [hPower]
    simp [div_eq_mul_inv]

/-- **A decimal is read as the one double that is nearest to it.** -/
theorem isNearest_iff {x : Binary64} (d : Decimal) :
    x.IsNearest (d.digits * 10 ^ d.exponent) ↔ x = Binary64.ofIndex d.index := by
  rw [cast_eq]
  exact Binary64.isNearest_iff d.denominator_pos

end Decimal

end ExprLang
