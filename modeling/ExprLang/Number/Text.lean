import ExprLang.Number.Shortest

/-!
# Numbers as text

A number is written with its shortest decimal. From `10⁻⁴` up to, but not including, `10¹⁶` the
decimal is written positionally, a whole number without a point. Outside that range one digit
stands before the point and a power of ten follows, marked by `e` and without a plus sign. A
minus sign shows the sign bit, also on zero.
-/

namespace ExprLang

namespace Decimal

/-- The decimal written positionally. -/
def plain (digits : List Char) (exponent : Int) : List Char :=
  let point := digits.length + exponent
  if 0 ≤ exponent then digits ++ List.replicate exponent.toNat '0'
  else if 0 < point then digits.take point.toNat ++ '.' :: digits.drop point.toNat
  else '0' :: '.' :: List.replicate (-point).toNat '0' ++ digits

/-- The decimal written with one digit before the point and a power of ten. -/
def scientific (digits : List Char) (exponent : Int) : List Char :=
  let power := digits.length + exponent - 1
  let mantissa := match digits with
    | first :: rest => if rest.isEmpty then [first] else first :: '.' :: rest
    | [] => []
  let sign := if power < 0 then ['-'] else []
  mantissa ++ 'e' :: sign ++ Nat.toDigits 10 power.natAbs

/-- The text of a positive decimal without trailing zeros. -/
def chars (d : Decimal) : List Char :=
  let digits := Nat.toDigits 10 d.digits
  let power := digits.length + d.exponent - 1
  if -4 ≤ power ∧ power < 16 then plain digits d.exponent else scientific digits d.exponent

end Decimal

/-- The text of the magnitude at an index. -/
def Binary64.chars (index : Nat) : List Char :=
  if index = 0 then ['0']
  else if index < infinityIndex then (shortest index).chars
  else "Infinity".toList

/-- The text of a number. -/
def numberChars (x : Binary64) : List Char :=
  if x.isNaN then "NaN".toList
  else (if x.isNegative then ['-'] else []) ++ Binary64.chars x.index

end ExprLang
