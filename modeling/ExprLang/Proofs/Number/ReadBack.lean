import ExprLang.Number.Shortest
import ExprLang.Proofs.Number.Nearest

/-!
# A double is read back from its decimal

The decimal that is chosen for a double is one that the double is nearest to. On a grid each
candidate is tested for this; the exact decimal beyond all grids has the very magnitude of the
double. Zeros at the end of a decimal may be dropped, because only the quotient counts.

## Main results

* `nearest_eq_of_cross` — rounding looks at the quotient only.
* `nearestInUnits_units` — a magnitude is rounded to its own index.
* `index_shortest` — the shortest decimal of a double reads back as this double.
-/

namespace ExprLang

namespace Binary64

/-! ## Rounding a quotient -/

theorem divNearestEven_mul_mul (a b : Nat) {c : Nat} (hc : 0 < c) :
    divNearestEven (a * c) (b * c) = divNearestEven a b := by
  have hTwice : 2 * (a * c % (b * c)) = 2 * (a % b) * c := by
    rw [Nat.mul_mod_mul_right, Nat.mul_assoc]
  simp only [divNearestEven, hTwice, Nat.mul_div_mul_right _ _ hc,
    Nat.mul_lt_mul_right hc, Nat.mul_left_inj hc.ne']

theorem nearestInUnits_mul_mul (a b : Nat) {c : Nat} (hc : 0 < c) :
    nearestInUnits (a * c) (b * c) = nearestInUnits a b := by
  have hScaled : ∀ scale, b * c * Nat.pow 2 scale = b * Nat.pow 2 scale * c :=
    fun scale => Nat.mul_right_comm _ _ _
  simp only [nearestInUnits, hScaled, Nat.mul_div_mul_right _ _ hc, divNearestEven_mul_mul _ _ hc]

theorem nearest_mul_mul (a b : Nat) {c : Nat} (hc : 0 < c) :
    nearest (a * c) (b * c) = nearest a b := by
  rw [nearest, nearest, Nat.mul_right_comm, nearestInUnits_mul_mul _ _ hc]

/-- **Equal quotients are rounded alike.** -/
theorem nearest_eq_of_cross {a b c d : Nat} (hb : 0 < b) (hd : 0 < d) (h : a * d = c * b) :
    nearest a b = nearest c d := by
  rw [← nearest_mul_mul a b hd, h, Nat.mul_comm b d, nearest_mul_mul c d hb]

theorem nearest_zero {b : Nat} (hb : 0 < b) : nearest 0 b = 0 := by
  rw [nearest, Nat.zero_mul]
  simp [nearestInUnits, divNearestEven, hb]

/-- **A magnitude is rounded to its own index**: nothing else is as near to it. -/
theorem nearestInUnits_units {index unit : Nat} (h : index ≤ infinityIndex) (hUnit : 0 < unit) :
    nearestInUnits (units index * unit) unit = index := by
  have hRounded : roundedIndex (units index * unit) unit = index := by
    by_contra hOther
    have hNearer := nearestOf_roundedIndex (units index * unit) hUnit index (Ne.symm hOther)
    simp only [Nearer, Nat.dist_self, Nat.not_lt_zero, false_or] at hNearer
    have hSame := Nat.eq_of_mul_eq_mul_right hUnit (Nat.eq_of_dist_eq_zero hNearer.1)
    exact hOther (units_strictMono.injective hSame)
  rw [nearestInUnits_eq_min, hRounded]
  exact Nat.min_eq_right h

end Binary64

/-! ## Decimals -/

namespace Decimal

/-- Decimals with equal quotients read back as the same double. -/
theorem index_eq_of_cross {d other : Decimal}
    (h : d.numerator * other.denominator = other.numerator * d.denominator) :
    d.index = other.index :=
  Binary64.nearest_eq_of_cross d.denominator_pos other.denominator_pos h

/-- A zero at the end of the digits is worth one power of ten. -/
theorem index_mul_ten (digits : Nat) (exponent : Int) :
    index ⟨digits, exponent + 1⟩ = index ⟨10 * digits, exponent⟩ := by
  apply index_eq_of_cross
  simp only [numerator, denominator, Nat.pow_eq]
  obtain ⟨power, rfl | rfl⟩ := exponent.eq_nat_or_neg
  · have hTo : (-((power : Int) + 1)).toNat = 0 ∧ (-(power : Int)).toNat = 0 ∧
        ((power : Int) + 1).toNat = power + 1 ∧ (power : Int).toNat = power := by omega
    obtain ⟨h₁, h₂, h₃, h₄⟩ := hTo
    rw [h₁, h₂, h₃, h₄]
    ring
  · cases power with
    | zero => simp [Nat.mul_comm]
    | succ power =>
        have hTo : (-(((power + 1 : Nat) : Int)) + 1).toNat = 0 ∧
            (-((power + 1 : Nat) : Int)).toNat = 0 ∧
            (-(-((power + 1 : Nat) : Int))).toNat = power + 1 ∧
            (-(-((power + 1 : Nat) : Int) + 1)).toNat = power := by omega
        obtain ⟨h₁, h₂, h₃, h₄⟩ := hTo
        rw [h₁, h₂, h₃, h₄]
        ring

theorem index_strip (d : Decimal) : d.strip.index = d.index := by
  fun_induction strip d with
  | case1 d hZero ih =>
      have hDigits : 10 * (d.digits / 10) = d.digits := by omega
      rw [ih, index_mul_ten, hDigits]
  | case2 d hLast => rfl

end Decimal

/-! ## The decimal of a double -/

namespace Binary64

theorem index_of_onGrid? {index : Nat} {exponent : Int} {d : Decimal}
    (h : onGrid? index exponent = some d) : d.index = index := by
  simp only [onGrid?] at h
  split at h
  · rename_i hLower
    cases h
    exact hLower.1
  · split at h
    · rename_i hUpper
      cases h
      exact hUpper
    · cases h

theorem index_exactDecimal {index : Nat} (h : index ≤ infinityIndex) :
    (exactDecimal index).index = index := by
  have hTen : ∀ power : Nat, units index * Nat.pow 5 power * Nat.pow 2 power =
      units index * Nat.pow 10 power := by
    intro power
    rw [Nat.mul_assoc]
    exact congrArg _ (Nat.mul_pow 5 2 power).symm
  have hNumerator : (exactDecimal index).numerator = units index * Nat.pow 5 unitsExponent := by
    rw [exactDecimal, Decimal.numerator, Int.toNat_neg_natCast]
    exact Nat.mul_one _
  have hDenominator : (exactDecimal index).denominator = Nat.pow 10 unitsExponent := by
    rw [exactDecimal, Decimal.denominator, neg_neg, Int.toNat_natCast]
  rw [Decimal.index, nearest, hNumerator, hDenominator, hTen]
  exact nearestInUnits_units h (Nat.pow_pos (by decide))

/-- **The shortest decimal of a double reads back as this double.** -/
theorem index_shortest {index : Nat} (h : index ≤ infinityIndex) :
    (shortest index).index = index := by
  simp only [shortest, Decimal.index_strip]
  generalize hFound : List.findSome? _ _ = found
  cases found with
  | none => exact index_exactDecimal h
  | some d =>
      obtain ⟨position, _, hGrid⟩ := List.exists_of_findSome?_eq_some hFound
      exact index_of_onGrid? hGrid

end Binary64

end ExprLang
