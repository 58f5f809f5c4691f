import ExprLang.Number.Decimal

/-!
# The shortest decimal of a double

Among the decimals that read back as a given double, the one with the fewest digits is chosen;
of several with that many digits the nearest to the double, and of two equally near ones the
greater. The search tries grids of powers of ten from coarse to fine, and on each grid the two
neighbours of the double. Seventeen digits are enough for every double; beyond them stands the
exact decimal, so that the result reads back in any case.
-/

namespace ExprLang.Binary64

/-- The number of decimal digits of a positive number. -/
private def digitCount (n : Nat) : Nat := (Nat.toDigits 10 n).length

/-- The least `p` such that the magnitude at a positive index is below `10 ^ p`. -/
def decimalPoint (index : Nat) : Int :=
  let whole := units index / Nat.pow 2 unitsExponent
  if whole ≠ 0 then digitCount whole
  else 1 - digitCount ((Nat.pow 2 unitsExponent - 1) / units index)

/-- The greatest whole number of steps `10 ^ exponent` that is not above the magnitude. -/
def floorOn (index : Nat) (exponent : Int) : Nat :=
  units index * Nat.pow 10 (-exponent).toNat / (Nat.pow 2 unitsExponent * Nat.pow 10 exponent.toNat)

/-- Whether the magnitude lies nearer to `d` than to `d + 1` steps of `10 ^ exponent`. -/
def nearerToLower (index : Nat) (exponent : Int) (d : Nat) : Bool :=
  decide (2 * (units index * Nat.pow 10 (-exponent).toNat) <
    (2 * d + 1) * (Nat.pow 2 unitsExponent * Nat.pow 10 exponent.toNat))

/--
The decimal on the grid of `10 ^ exponent` that reads back as the double at an index: one of the
two neighbours of the double on the grid, the nearer one if both do, the greater one on a tie.
-/
def onGrid? (index : Nat) (exponent : Int) : Option Decimal :=
  let lower : Decimal := ⟨floorOn index exponent, exponent⟩
  let upper : Decimal := ⟨lower.digits + 1, exponent⟩
  let lowerHits := lower.index = index
  let upperHits := upper.index = index
  if lowerHits ∧ (¬ upperHits ∨ nearerToLower index exponent lower.digits) then some lower
  else if upperHits then some upper
  else none

/-- The magnitude at an index as a decimal, exactly: a unit is `5¹⁰⁷⁴` steps of `10⁻¹⁰⁷⁴`. -/
def exactDecimal (index : Nat) : Decimal :=
  ⟨units index * Nat.pow 5 unitsExponent, -unitsExponent⟩

/-- The shortest decimal that reads back as the double at a positive index. -/
def shortest (index : Nat) : Decimal :=
  let point := decimalPoint index
  let found := (List.range 17).findSome? fun (n : Nat) => onGrid? index (point - 1 - n)
  (found.getD (exactDecimal index)).strip

end ExprLang.Binary64
