/-!
# Double precision numbers

A number is its 64 bits. The bits without the sign, read as a natural number, are the *index* of the
magnitude: the magnitudes are listed by size, from zero over the finite ones to infinity, and what
stands behind infinity is NaN. There are many NaN, of either sign and with any payload.

Every finite magnitude is a whole number of units of `2⁻¹⁰⁷⁴`, the least positive double, so sizes
and distances are natural numbers, and rounding a quotient to a double needs no other arithmetic.
-/

namespace ExprLang

/-- A double precision number: its bits. -/
structure Binary64 where
  ofBits ::
  toBits : UInt64
deriving DecidableEq, Repr

namespace Binary64

/-! ## Numbers by their bits -/

/-- The index after that of the greatest finite double; its bits stand for infinity. -/
def infinityIndex : Nat := 2047 * Nat.pow 2 52

/-- The number without sign at an index. -/
def ofIndex (index : Nat) : Binary64 := ofBits (UInt64.ofNat index)

/-- The index of a number's magnitude: its bits without the sign. -/
def index (x : Binary64) : Nat := x.toBits.toNat % Nat.pow 2 63

/-- Whether the sign bit is set. -/
def isNegative (x : Binary64) : Bool := decide (Nat.pow 2 63 ≤ x.toBits.toNat)

/-- Whether a number is not a number. -/
def isNaN (x : Binary64) : Bool := decide (infinityIndex < x.index)

/-! ## Magnitudes -/

/-- One is this power of two in units. The power is too great to be computed with, except by running
the program, so the exponent stays folded. -/
@[irreducible]
def unitsExponent : Nat := 1074

/-- The power of two by which the significand of the double at an index is scaled, in units. -/
def scale (index : Nat) : Nat := index / Nat.pow 2 52 - 1

/-- The significand of the double at an index, with the leading bit that the bits leave out. -/
def significand (index : Nat) : Nat := index - scale index * Nat.pow 2 52

/-- The magnitude of the double at an index, in units of `2⁻¹⁰⁷⁴`. -/
def units (index : Nat) : Nat := significand index * Nat.pow 2 (scale index)

/-! ## Rounding -/

/-- The quotient `a / b` rounded to the nearest natural number; halfway goes to the even one. -/
def divNearestEven (a b : Nat) : Nat :=
  let quotient := a / b
  let twice := 2 * (a % b)
  if twice < b ∨ (twice = b ∧ quotient % 2 = 0) then quotient else quotient + 1

/--
The index of the double nearest to the quotient `a / b`, counted in units; ties go to the even
significand.

The quotient has `scale + 53` binary digits once it is out of the range of the subnormals. The
significand is rounded on that scale, and a carry out of it runs into the exponent, which is again
the right index. What is too great becomes infinity.
-/
def nearestInUnits (a b : Nat) : Nat :=
  let scale := (a / b).log2 - 52
  min infinityIndex (scale * Nat.pow 2 52 + divNearestEven a (b * Nat.pow 2 scale))

/-- The index of the double nearest to the quotient `a / b`. -/
def nearest (a b : Nat) : Nat := nearestInUnits (a * Nat.pow 2 unitsExponent) b

end Binary64

end ExprLang
