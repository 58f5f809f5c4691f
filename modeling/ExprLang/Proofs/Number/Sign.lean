import ExprLang.Number.Arithmetic
import Mathlib.Algebra.Ring.Nat

/-!
# The sign of a double

A double is its sign and the index of its magnitude. Whether it is finite or NaN is told by the
index alone, and negation changes the sign alone.

## Main results

* `eq_of_index_eq` — sign and index determine a double.
* `isFinite_iff_index`, `index_le_iff` — the two bounds for indices.
* `index_neg`, `isNegative_neg` — negation flips the sign bit.
* `eq_ofIndex` — a double that is not NaN is the number at its index, or the negation of it.
-/

namespace ExprLang.Binary64

/-! ## Sign and index -/

theorem toBits_inj {x y : Binary64} : x.toBits = y.toBits ↔ x = y :=
  ⟨congrArg ofBits, congrArg toBits⟩

theorem toNat_toBits_lt (x : Binary64) : x.toBits.toNat < 2 ^ 64 := x.toBits.toNat_lt

/-- **Sign and index determine a double.** -/
theorem eq_of_index_eq {x y : Binary64} (hIndex : x.index = y.index)
    (hSign : x.isNegative = y.isNegative) : x = y := by
  have hX := x.toNat_toBits_lt
  have hY := y.toNat_toBits_lt
  simp only [index, isNegative, decide_eq_decide, Nat.pow_eq, Nat.reducePow] at hIndex hSign hX hY
  have hBits : x.toBits.toNat = y.toBits.toNat := by omega
  exact toBits_inj.1 (UInt64.toNat_inj.1 hBits)

/-- A number is finite if it has not the greatest exponent. -/
def isFinite (x : Binary64) : Bool := decide (x.toBits.toNat / 2 ^ 52 % 2 ^ 11 ≠ 2047)

theorem isFinite_iff_index {x : Binary64} : x.isFinite = true ↔ x.index < infinityIndex := by
  rw [isFinite, decide_eq_true_iff]
  show _ ↔ x.toBits.toNat % 2 ^ 63 < 2047 * 2 ^ 52
  omega

theorem index_le_iff {x : Binary64} : x.index ≤ infinityIndex ↔ x.isNaN = false := by
  rw [isNaN, decide_eq_false_iff_not, Nat.not_lt]

/-! ## Negation -/

theorem toNat_toBits_neg (x : Binary64) : (-x).toBits.toNat = x.toBits.toNat ^^^ 2 ^ 63 :=
  UInt64.toNat_xor _ _

theorem index_neg (x : Binary64) : (-x).index = x.index := by
  rw [index, toNat_toBits_neg, index]
  exact (Nat.xor_mod_two_pow).trans (Nat.xor_zero _)

theorem isNegative_neg (x : Binary64) : (-x).isNegative = !x.isNegative := by
  have hBound := x.toNat_toBits_lt
  -- The sign bit is what is left when the other bits are shifted out.
  have hShifted : ∀ bits < 2 ^ 64, (2 ^ 63 ≤ bits ↔ bits / 2 ^ 63 = 1) := fun bits h => by omega
  have hFlipped : (x.toBits.toNat ^^^ 2 ^ 63) / 2 ^ 63 = x.toBits.toNat / 2 ^ 63 ^^^ 1 :=
    Nat.xor_div_two_pow
  rw [isNegative, isNegative, Bool.eq_iff_iff, Bool.not_eq_true', decide_eq_true_iff,
    decide_eq_false_iff_not, Nat.pow_eq, hShifted _ (-x).toNat_toBits_lt, hShifted _ hBound,
    toNat_toBits_neg, hFlipped]
  have hSign : x.toBits.toNat / 2 ^ 63 = 0 ∨ x.toBits.toNat / 2 ^ 63 = 1 := by omega
  rcases hSign with hSign | hSign <;> rw [hSign] <;> decide

theorem isNaN_neg (x : Binary64) : (-x).isNaN = x.isNaN := by
  rw [isNaN, index_neg, isNaN]

/-! ## Numbers at an index -/

/-- The bits of the number at an index are the index. -/
theorem toBits_ofIndex {magnitude : Nat} (h : magnitude ≤ infinityIndex) :
    (ofIndex magnitude).toBits.toNat = magnitude :=
  UInt64.toNat_ofNat_of_lt' (Nat.lt_of_le_of_lt h (by decide))

theorem index_ofIndex {magnitude : Nat} (h : magnitude ≤ infinityIndex) :
    (ofIndex magnitude).index = magnitude := by
  rw [index, toBits_ofIndex h]
  exact Nat.mod_eq_of_lt (Nat.lt_of_le_of_lt h (by decide))

theorem isNegative_ofIndex {magnitude : Nat} (h : magnitude ≤ infinityIndex) :
    (ofIndex magnitude).isNegative = false := by
  have hBound : magnitude < Nat.pow 2 63 := Nat.lt_of_le_of_lt h (by decide)
  rw [isNegative, toBits_ofIndex h, decide_eq_false_iff_not]
  omega

theorem isNaN_ofIndex {magnitude : Nat} (h : magnitude ≤ infinityIndex) :
    (ofIndex magnitude).isNaN = false := by
  rwa [← index_le_iff, index_ofIndex h]

/-- **A double that is not NaN is the number at its index**, or the negation of it. -/
theorem eq_ofIndex {x : Binary64} (h : x.index ≤ infinityIndex) :
    x = if x.isNegative then -ofIndex x.index else ofIndex x.index := by
  split
  · rename_i hSign
    refine eq_of_index_eq ?_ ?_
    · rw [index_neg, index_ofIndex h]
    · rw [isNegative_neg, isNegative_ofIndex h, hSign]
      rfl
  · rename_i hSign
    refine eq_of_index_eq (index_ofIndex h).symm ?_
    rw [isNegative_ofIndex h, Bool.eq_false_iff.2 hSign]

end ExprLang.Binary64
