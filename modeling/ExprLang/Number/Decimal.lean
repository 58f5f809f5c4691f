import ExprLang.Number.Binary64

/-!
# Decimals and numerals

A decimal is a whole number of powers of ten. A numeral is its text without exponent: digits,
and perhaps a point and more digits. The number of a numeral is the double nearest to it.
-/

namespace ExprLang

/-- The number `digits * 10 ^ exponent`. -/
structure Decimal where
  digits : Nat
  exponent : Int
deriving DecidableEq, Repr

namespace Decimal

/-- The numerator of the decimal as a quotient of natural numbers. -/
def numerator (d : Decimal) : Nat := d.digits * Nat.pow 10 d.exponent.toNat

/-- The denominator of the decimal as a quotient of natural numbers. -/
def denominator (d : Decimal) : Nat := Nat.pow 10 (-d.exponent).toNat

/-- The index of the double nearest to the decimal. -/
def index (d : Decimal) : Nat := Binary64.nearest d.numerator d.denominator

/-- The decimal with the same value whose last digit is not zero, if it is not zero itself. -/
def strip (d : Decimal) : Decimal :=
  if d.digits ≠ 0 ∧ d.digits % 10 = 0 then strip ⟨d.digits / 10, d.exponent + 1⟩ else d
termination_by d.digits
decreasing_by omega

/-- The decimal that a numeral's text stands for. -/
def ofNumeral (text : List Char) : Decimal :=
  let whole := text.takeWhile Char.isDigit
  let fraction := (text.dropWhile Char.isDigit).drop 1
  ⟨Nat.ofDigitChars 10 (whole ++ fraction) 0, -fraction.length⟩

end Decimal

/-- The number that a numeral's text stands for: the nearest double. -/
def numeralValue (text : List Char) : Binary64 :=
  Binary64.ofIndex (Decimal.ofNumeral text).index

end ExprLang
