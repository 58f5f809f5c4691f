import ExprLang.Number.Arithmetic
import Mathlib.Algebra.Ring.Nat

/-!
# NaN in arithmetic and comparisons

What is computed from numbers is computed by the machine, which does not tell one NaN from another.
So what arithmetic gives with a NaN operand is NaN, and no number is less than a NaN or greater,
whatever the payloads are; and a rule for NaN decides nothing but which NaN a result is.

## Main results

* `isNaN_iff_fields` — NaN by its exponent and its significand.
* `isNaN_compute_of_isNaN`, `same_compute` — arithmetic with a NaN, and by two rules.
* `rejectsNaN_lt`, `rejectsNaN_le` — comparison with a NaN.
-/

namespace ExprLang

open Float.Model (UnpackedFloat)

namespace Binary64

/-- A NaN has the greatest exponent and a significand. -/
theorem isNaN_iff_fields {x : Binary64} :
    x.isNaN = true ↔ x.toBits.toNat / 2 ^ 52 % 2 ^ 11 = 2047 ∧ x.toBits.toNat % 2 ^ 52 ≠ 0 := by
  rw [isNaN, decide_eq_true_iff]
  show 2047 * 2 ^ 52 < x.toBits.toNat % 2 ^ 63 ↔ _
  omega

theorem unpack_of_isNaN {x : Binary64} (h : x.isNaN = true) :
    UnpackedFloat.unpack .binary64 x.toBits.toBitVec = .notANumber := by
  obtain ⟨hExponent, hSignificand⟩ := isNaN_iff_fields.1 h
  have hExponentField : @UnpackedFloat.unpackExponent .binary64 x.toBits.toBitVec = -1#11 := by
    rw [← BitVec.toNat_inj, UnpackedFloat.unpackExponent, BitVec.toNat_cast,
      BitVec.extractLsb_toNat, Nat.shiftRight_eq_div_pow]
    exact hExponent
  have hSignificandField : ¬ @UnpackedFloat.unpackMantissa .binary64 x.toBits.toBitVec = 0#52 := by
    rw [← BitVec.toNat_inj, UnpackedFloat.unpackMantissa, BitVec.toNat_cast,
      BitVec.extractLsb_toNat]
    exact hSignificand
  exact (if_pos hExponentField).trans (if_neg hSignificandField)

/-- **All NaN are the same to the machine.** -/
theorem unpack_toFloat_of_isNaN {x : Binary64} (h : x.isNaN = true) :
    x.toFloat.toModel.unpack = .notANumber := by
  show UnpackedFloat.unpack .binary64
    (UnpackedFloat.pack .binary64 (UnpackedFloat.unpack .binary64 x.toBits.toBitVec)) = .notANumber
  rw [unpack_of_isNaN h]
  rfl

/-! ## Operations on a NaN -/

/-- Two numbers that nobody tells apart: both are NaN, or they have the same bits. -/
def Same (x y : Binary64) : Prop := (x.isNaN = true ∧ y.isNaN = true) ∨ x = y

theorem Same.trans {x y z : Binary64} (h : x.Same y) (hNext : y.Same z) : x.Same z := by
  rcases h with ⟨hX, hY⟩ | rfl
  · rcases hNext with ⟨-, hZ⟩ | rfl
    · exact .inl ⟨hX, hZ⟩
    · exact .inl ⟨hX, hY⟩
  · exact hNext

/-- A comparison of two numbers that is false if one of them is NaN. -/
def RejectsNaN (compare : Binary64 → Binary64 → Bool) : Prop :=
  ∀ x y, x.isNaN = true ∨ y.isNaN = true → compare x y = false

/-- An operation of the machine has NaN for its result if it does so on unpacked numbers. -/
theorem isNaN_pack {compute : UnpackedFloat → UnpackedFloat → UnpackedFloat}
    (hLeft : ∀ y, compute .notANumber y = .notANumber)
    (hRight : ∀ x, compute x .notANumber = .notANumber) {x y : Binary64}
    (h : x.isNaN = true ∨ y.isNaN = true) :
    (Float.ofModel (.pack (compute x.toFloat.toModel.unpack y.toFloat.toModel.unpack))).isNaN =
      true := by
  have hPack : (Float.ofModel (.pack .notANumber)).isNaN = true := by decide
  rcases h with hX | hY
  · rwa [unpack_toFloat_of_isNaN hX, hLeft]
  · rwa [unpack_toFloat_of_isNaN hY, hRight]

end Binary64

namespace Arithmetic

open Binary64

theorem isNaN_onFloats (operation : Arithmetic) {x y : Binary64}
    (h : x.isNaN = true ∨ y.isNaN = true) :
    (operation.onFloats x.toFloat y.toFloat).isNaN = true := by
  cases operation with
  | add => exact isNaN_pack (fun _ => rfl) (fun x => by cases x <;> rfl) h
  | sub => exact isNaN_pack (fun _ => rfl) (fun x => by cases x <;> rfl) h
  | mul => exact isNaN_pack (fun _ => rfl) (fun x => by cases x <;> rfl) h
  | div => exact isNaN_pack (fun _ => rfl) (fun x => by cases x <;> rfl) h

/-- Where the machine has NaN for a result, the rule has one of its NaN. -/
theorem isNaN_compute [NaNRule] {operation : Arithmetic} {x y : Binary64}
    (h : (operation.onFloats x.toFloat y.toFloat).isNaN = true) :
    (operation.compute x y).isNaN = true := by
  rw [compute, h]
  exact (NaNRule.result operation x y).2

/-- **What is computed from a NaN is NaN.** -/
theorem isNaN_compute_of_isNaN [NaNRule] (operation : Arithmetic) {x y : Binary64}
    (h : x.isNaN = true ∨ y.isNaN = true) : (operation.compute x y).isNaN = true :=
  isNaN_compute (operation.isNaN_onFloats h)

/-- By two rules the result is the same, or a NaN by either. -/
theorem same_of_rules (rule otherRule : NaNRule) (operation : Arithmetic) (x y : Binary64) :
    (@compute rule operation x y).Same (@compute otherRule operation x y) := by
  cases hResult : (operation.onFloats x.toFloat y.toFloat).isNaN with
  | true => exact .inl ⟨@isNaN_compute rule _ _ _ hResult, @isNaN_compute otherRule _ _ _ hResult⟩
  | false =>
      right
      simp only [compute, hResult]
      rfl

/-- **Arithmetic does not tell NaN apart**, neither those among its operands nor, by whatever rules,
those that it gives. -/
theorem same_compute (rule otherRule : NaNRule) (operation : Arithmetic) {x y u v : Binary64}
    (hLeft : x.Same u) (hRight : y.Same v) :
    (@compute rule operation x y).Same (@compute otherRule operation u v) := by
  have hNaN := @isNaN_compute_of_isNaN rule operation
  have hOtherNaN := @isNaN_compute_of_isNaN otherRule operation
  rcases hLeft with ⟨hX, hU⟩ | rfl
  · exact .inl ⟨hNaN (.inl hX), hOtherNaN (.inl hU)⟩
  · rcases hRight with ⟨hY, hV⟩ | rfl
    · exact .inl ⟨hNaN (.inr hY), hOtherNaN (.inr hV)⟩
    · exact same_of_rules rule otherRule operation x y

end Arithmetic

namespace Binary64

/-- Nothing compares with a NaN. -/
theorem compare_of_isNaN {x y : Binary64} (h : x.isNaN = true ∨ y.isNaN = true) :
    x.toFloat.toModel.unpack.compare y.toFloat.toModel.unpack = none := by
  rcases h with hX | hY
  · rw [unpack_toFloat_of_isNaN hX]
    rfl
  · rw [unpack_toFloat_of_isNaN hY]
    cases x.toFloat.toModel.unpack <;> rfl

theorem rejectsNaN_lt : RejectsNaN fun x y => decide (x < y) := by
  intro x y h
  rw [decide_eq_false_iff_not]
  show ¬ decide ((x.toFloat.toModel.unpack.compare y.toFloat.toModel.unpack == some .lt) = true) =
    true
  rw [compare_of_isNaN h]
  decide

theorem rejectsNaN_le : RejectsNaN fun x y => decide (x ≤ y) := by
  intro x y h
  rw [decide_eq_false_iff_not]
  show ¬ decide ((x.toFloat.toModel.unpack.compare y.toFloat.toModel.unpack).any (·.isLE) = true) =
    true
  rw [compare_of_isNaN h]
  decide

/-- **Comparisons do not tell NaN apart.** -/
theorem RejectsNaN.congr {compare : Binary64 → Binary64 → Bool} (hCompare : RejectsNaN compare)
    {x y u v : Binary64} (hLeft : x.Same u) (hRight : y.Same v) : compare x y = compare u v := by
  rcases hLeft with ⟨hX, hU⟩ | rfl
  · rw [hCompare _ _ (.inl hX), hCompare _ _ (.inl hU)]
  · rcases hRight with ⟨hY, hV⟩ | rfl
    · rw [hCompare _ _ (.inr hY), hCompare _ _ (.inr hV)]
    · rfl

end Binary64

end ExprLang
