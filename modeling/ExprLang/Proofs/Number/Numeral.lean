import ExprLang.Proofs.Number.Nearest
import ExprLang.Proofs.Source.LongestMatch

/-!
# The values of numerals

The text of a number token stands for a number by the places of its digits. The token carries the
double that is nearest to this number, and no other.

## Main results

* `Decimal.ofNumeral_whole`, `Decimal.ofNumeral_fraction` — the digits that are read.
* `Kind.Lexeme.exists_standsFor` — the text of every number token stands for a number.
* `StandsFor.isNearest_iff` — it is read as the nearest double.
-/

namespace ExprLang

namespace Decimal

theorem ofNumeral_whole {digits : List Char} (h : IsNumeral digits) :
    ofNumeral digits = ⟨Nat.ofDigitChars 10 digits 0, 0⟩ := by
  rw [ofNumeral, List.takeWhile_eq_self_iff.2 h.isDigit, List.dropWhile_eq_nil_iff.2 h.isDigit,
    List.drop_nil, List.append_nil]
  rfl

theorem ofNumeral_fraction {whole : List Char} (h : IsNumeral whole) (fraction : List Char) :
    ofNumeral (whole ++ '.' :: fraction) =
      ⟨Nat.ofDigitChars 10 (whole ++ fraction) 0, -fraction.length⟩ := by
  obtain ⟨hTaken, hDropped⟩ := Piece.takeWhile_append_mark h.isDigit
    (show Char.isDigit '.' = false from rfl) fraction
  rw [ofNumeral, hTaken, hDropped, List.drop_one, List.tail_cons]

end Decimal

/-- The number that a text stands for: a whole number, or digits of which those behind the point
count as tenths, hundredths and so on. -/
inductive StandsFor : List Char → ℚ → Prop where
  | whole {digits : List Char} : IsNumeral digits → StandsFor digits (Nat.ofDigitChars 10 digits 0)
  | fraction {digits decimals : List Char} :
      IsNumeral digits → IsNumeral decimals →
      StandsFor (digits ++ '.' :: decimals)
        (Nat.ofDigitChars 10 (digits ++ decimals) 0 / 10 ^ decimals.length)

theorem Kind.Lexeme.exists_standsFor {text : List Char} (h : Kind.Lexeme .number text) :
    ∃ value, StandsFor text value := by
  cases h with
  | fixed hText => cases hText
  | reserved hMem => simp [Kind.reservedWords] at hMem
  | whole hDigits => exact ⟨_, .whole hDigits⟩
  | fraction hDigits hDecimals => exact ⟨_, .fraction hDigits hDecimals⟩

/-- **A numeral is read as the one double that is nearest to what it stands for.** -/
theorem StandsFor.isNearest_iff {text : List Char} {value : ℚ} {x : Binary64}
    (h : StandsFor text value) : x.IsNearest value ↔ x = numeralValue text := by
  have hDecimal := @Decimal.isNearest_iff x (Decimal.ofNumeral text)
  cases h with
  | whole hDigits =>
      rw [numeralValue, ← hDecimal, Decimal.ofNumeral_whole hDigits, zpow_zero, mul_one]
  | @fraction digits decimals hDigits _ =>
      rw [numeralValue, ← hDecimal, Decimal.ofNumeral_fraction hDigits, zpow_neg, zpow_natCast,
        div_eq_mul_inv]

end ExprLang
