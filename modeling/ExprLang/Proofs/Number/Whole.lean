import ExprLang.Proofs.Number.Notation

/-!
# Whole numbers

A whole number is a double if it has at most 53 binary digits in front of zeros. A whole number
below `10¹⁶` that is a double is written with its decimal digits, although the shortest decimal that
reads back is looked for: the candidates with fewer digits are multiples of ten, thus even, and they
are below `2⁵⁴`. So they are doubles and read back as themselves, and none but the number itself can
be chosen.

## Main results

* `Binary64.exists_represents` — the whole numbers that are doubles.
* `Binary64.Represents.isWhole_shortest` — the decimal that is chosen for a whole number is this
  number.
* `Binary64.Represents.chars` — a whole number is written with its decimal digits.
* `WholeNumeral.index_ofNumeral` — zeros before a numeral and behind its point mean nothing.
* `shortestNumeral_toDigits` — no numeral of a whole number is shorter than its decimal digits.
-/

namespace ExprLang

/-! ## Whole decimals -/

namespace Decimal

/-- A decimal without a fraction, and the whole number that it is. -/
structure IsWhole (d : Decimal) (n : Nat) : Prop where
  exponent_nonneg : 0 ≤ d.exponent
  numerator_eq : d.numerator = n

/-- A power of ten puts its zeros behind the digits of a positive number. -/
theorem toDigits_mul_pow {digits : Nat} (h : 0 < digits) (power : Nat) :
    Nat.toDigits 10 (digits * 10 ^ power) = Nat.toDigits 10 digits ++ List.replicate power '0' := by
  induction power with
  | zero => simp
  | succ power ih =>
      have hScaled : 10 * (digits * 10 ^ power) + 0 = digits * 10 ^ (power + 1) := by ring
      have hLast := Nat.toDigits_append_toDigits (b := 10) (by decide)
        (show 0 < digits * 10 ^ power by positivity) (show 0 < 10 by decide)
      rw [← hScaled, ← hLast, ih, Nat.toDigits_zero, List.append_assoc, List.replicate_succ']

namespace IsWhole

variable {d : Decimal} {n : Nat}

theorem of_exponent {power : Nat} (h : d.exponent = power) :
    d.IsWhole (d.digits * 10 ^ power) where
  exponent_nonneg := h ▸ Int.natCast_nonneg power
  numerator_eq := by rw [numerator, h, Int.toNat_natCast, Nat.pow_eq]

theorem of_digits (n : Nat) : IsWhole ⟨n, 0⟩ n := ⟨le_rfl, Nat.mul_one n⟩

theorem exists_power (h : d.IsWhole n) :
    ∃ power : Nat, d.exponent = power ∧ d.digits * 10 ^ power = n := by
  obtain ⟨power, hPower⟩ := Int.eq_ofNat_of_zero_le h.exponent_nonneg
  have hNumerator := h.numerator_eq
  rw [numerator, hPower, Int.toNat_natCast, Nat.pow_eq] at hNumerator
  exact ⟨power, hPower, hNumerator⟩

theorem index (h : d.IsWhole n) : d.index = Binary64.nearest n 1 := by
  obtain ⟨power, hPower, _⟩ := h.exists_power
  have hDenominator : d.denominator = 1 := by
    rw [denominator, hPower, Int.toNat_neg_natCast, Nat.pow_eq, Nat.pow_zero]
  rw [Decimal.index, h.numerator_eq, hDenominator]

theorem strip (h : d.IsWhole n) : d.strip.IsWhole n := by
  fun_induction Decimal.strip d with
  | case1 d hZero ih =>
      obtain ⟨power, hPower, hValue⟩ := h.exists_power
      have hDigits : d.digits / 10 * 10 ^ (power + 1) = n := by
        rw [Nat.pow_succ', ← Nat.mul_assoc, Nat.div_mul_cancel (Nat.dvd_of_mod_eq_zero hZero.2),
          hValue]
      have hStripped : d.exponent + 1 = (power + 1 : Nat) := by rw [hPower, Int.natCast_succ]
      exact ih (hDigits ▸ of_exponent hStripped)
  | case2 d hLast => exact h

/-- **A positive whole decimal below `10¹⁶` is written with the digits of the whole number.** -/
theorem chars (h : d.IsWhole n) (hPos : 0 < n) (hBound : n < 10 ^ 16) :
    d.chars = Nat.toDigits 10 n := by
  obtain ⟨power, hPower, hValue⟩ := h.exists_power
  have hDigits : 0 < d.digits := by
    refine Nat.pos_of_ne_zero fun hZero => ?_
    rw [hZero, Nat.zero_mul] at hValue
    omega
  have hText := toDigits_mul_pow hDigits power
  rw [hValue] at hText
  have hLength := congrArg List.length hText
  rw [List.length_append, List.length_replicate] at hLength
  have hSixteen := (Nat.length_toDigits_le_iff (b := 10) (by decide) (by decide)).2 hBound
  have hFirst := @Nat.length_toDigits_pos 10 d.digits
  rw [Decimal.chars, hPower, if_pos (by omega), plain, if_pos (Int.natCast_nonneg power),
    Int.toNat_natCast, hText]

end IsWhole

end Decimal

/-! ## Whole numbers among the doubles -/

namespace Binary64

/-- Doubling a magnitude leads at most `2⁵²` indices further. -/
theorem exists_units_eq_double (index : Nat) :
    ∃ double ≤ index + 2 ^ 52, units double = 2 * units index := by
  by_cases hSmall : index < 2 ^ 52
  · refine ⟨2 * index, by omega, ?_⟩
    rw [units_of_lt (by omega), units_of_lt (by omega)]
  · have hScale : scale (index + 2 ^ 52) = scale index + 1 := by
      simp only [scale, Nat.pow_eq, Nat.reducePow] at hSmall ⊢
      omega
    have hSignificand : significand (index + 2 ^ 52) = significand index := by
      rw [significand, hScale, significand, Nat.pow_eq, Nat.add_mul, Nat.one_mul,
        Nat.add_sub_add_right]
    refine ⟨index + 2 ^ 52, le_rfl, ?_⟩
    rw [units, hScale, hSignificand, units, Nat.pow_eq, Nat.pow_eq, Nat.pow_succ]
    ring

theorem exists_units_eq_shift {digits : Nat} (h : digits < 2 ^ 53) (shift : Nat) :
    ∃ index ≤ digits + shift * 2 ^ 52, units index = digits * 2 ^ shift := by
  induction shift with
  | zero => exact ⟨digits, by omega, by rw [units_of_lt h, Nat.pow_zero, Nat.mul_one]⟩
  | succ shift ih =>
      obtain ⟨index, hIndex, hUnits⟩ := ih
      obtain ⟨double, hDouble, hTwice⟩ := exists_units_eq_double index
      refine ⟨double, by omega, ?_⟩
      rw [hTwice, hUnits]
      ring

/-- The double at an index is a whole number. -/
structure Represents (index n : Nat) : Prop where
  finite : index < infinityIndex
  units_eq : units index = n * 2 ^ unitsExponent

theorem unitsExponent_le : unitsExponent ≤ 1074 := by rw [unitsExponent]

/-- **A whole number with at most 53 binary digits in front of zeros is a double**, up to the
greatest one, which has 971 zeros. -/
theorem exists_represents {digits shift : Nat} (hDigits : digits < 2 ^ 53) (hShift : shift ≤ 971) :
    ∃ index, Represents index (digits * 2 ^ shift) := by
  obtain ⟨index, hIndex, hUnits⟩ := exists_units_eq_shift hDigits (shift + unitsExponent)
  have hExponent := unitsExponent_le
  refine ⟨index, ?_, ?_⟩
  · simp only [infinityIndex, Nat.pow_eq, Nat.reducePow] at hDigits hIndex ⊢
    omega
  · rw [hUnits, Nat.pow_add, ← Nat.mul_assoc]

theorem exists_represents_of_even {n : Nat} (hEven : n % 2 = 0) (hBound : n < 2 ^ 54) :
    ∃ index, Represents index n := by
  have hHalf : n / 2 * 2 ^ 1 = n := by omega
  exact hHalf ▸ exists_represents (by omega) (by decide)

/-- The multiples of a power of ten up to the next one above a number of at most sixteen digits are
doubles: they are even. -/
theorem exists_represents_of_grid {n steps power : Nat} (hBound : n < 10 ^ 16)
    (hPower : power + 1 ≤ 15) (hSteps : steps ≤ n / 10 ^ (power + 1) + 1) :
    ∃ index, Represents index (steps * 10 ^ (power + 1)) := by
  have hGrid : 10 ^ (power + 1) ≤ 10 ^ 15 := Nat.pow_le_pow_right (by decide) hPower
  have hEven : steps * 10 ^ (power + 1) % 2 = 0 := by
    rw [Nat.pow_succ, ← Nat.mul_assoc]
    omega
  have hSmall : steps * 10 ^ (power + 1) < 2 ^ 54 :=
    calc steps * 10 ^ (power + 1)
        ≤ (n / 10 ^ (power + 1) + 1) * 10 ^ (power + 1) := Nat.mul_le_mul_right _ hSteps
      _ = n / 10 ^ (power + 1) * 10 ^ (power + 1) + 10 ^ (power + 1) := Nat.succ_mul _ _
      _ ≤ n + 10 ^ 15 := Nat.add_le_add (Nat.div_mul_le_self _ _) hGrid
      _ < 2 ^ 54 := by omega
  exact exists_represents_of_even hEven hSmall

theorem exists_represents_of_le {n : Nat} (h : n ≤ 2 ^ 53) : ∃ index, Represents index n := by
  rcases h.lt_or_eq with hLess | rfl
  · exact Nat.mul_one n ▸ @exists_represents n 0 hLess (by decide)
  · exact exists_represents_of_even (by decide) (by decide)

namespace Represents

variable {index n : Nat}

/-- A whole number that is a double is the double nearest to it. -/
theorem nearest (h : Represents index n) : Binary64.nearest n 1 = index := by
  have hOwn := nearestInUnits_units h.finite.le Nat.one_pos
  rwa [Nat.mul_one, h.units_eq, ← Nat.pow_eq] at hOwn

theorem unique {other : Nat} (h : Represents index n) (hOther : Represents index other) :
    n = other :=
  Nat.eq_of_mul_eq_mul_right (Nat.two_pow_pos _) (h.units_eq.symm.trans hOther.units_eq)

end Represents

/-! ## The search for the shortest decimal -/

theorem decimalPoint_of_whole {index : Nat} (h : units index / Nat.pow 2 unitsExponent ≠ 0) :
    decimalPoint index = (Nat.toDigits 10 (units index / Nat.pow 2 unitsExponent)).length := by
  exact if_pos h

/-- What is found on a grid stands on this grid, at most one step above the magnitude. -/
theorem of_onGrid?_eq_some {index : Nat} {exponent : Int} {d : Decimal}
    (h : onGrid? index exponent = some d) :
    d.exponent = exponent ∧ d.digits ≤ floorOn index exponent + 1 := by
  simp only [onGrid?] at h
  split at h
  · cases h
    exact ⟨rfl, Nat.le_succ _⟩
  · split at h
    · cases h
      exact ⟨rfl, le_rfl⟩
    · cases h

namespace Represents

variable {index n : Nat}

theorem decimalPoint (h : Represents index n) (hPos : 0 < n) :
    decimalPoint index = (Nat.toDigits 10 n).length := by
  have hWhole : units index / Nat.pow 2 unitsExponent = n := by
    rw [Nat.pow_eq, h.units_eq, Nat.mul_div_cancel n (Nat.two_pow_pos _)]
  have hPoint := @decimalPoint_of_whole index
  rw [hWhole] at hPoint
  exact hPoint hPos.ne'

theorem floorOn (h : Represents index n) (power : Nat) :
    floorOn index power = n / 10 ^ power := by
  rw [Binary64.floorOn, Int.toNat_neg_natCast, Int.toNat_natCast, h.units_eq]
  simp only [Nat.pow_eq, Nat.pow_zero, Nat.mul_one]
  rw [Nat.mul_comm n, Nat.mul_div_mul_left _ _ (Nat.two_pow_pos _)]

theorem nearerToLower (h : Represents index n) : nearerToLower index 0 n = true := by
  rw [Binary64.nearerToLower, Int.neg_zero, Int.toNat_zero, h.units_eq, decide_eq_true_iff]
  simp only [Nat.pow_eq, Nat.pow_zero, Nat.mul_one]
  rw [Nat.add_mul, Nat.one_mul, Nat.mul_assoc]
  exact Nat.lt_add_of_pos_right (Nat.two_pow_pos unitsExponent)

/-- On the grid of ones a whole number is found itself. -/
theorem onGrid?_zero (h : Represents index n) : onGrid? index 0 = some ⟨n, 0⟩ := by
  have hFloor : Binary64.floorOn index 0 = n :=
    (h.floorOn 0).trans (by rw [Nat.pow_zero, Nat.div_one])
  have hHits : Decimal.index ⟨n, 0⟩ = index := (Decimal.IsWhole.of_digits n).index.trans h.nearest
  simp only [onGrid?, hFloor]
  rw [if_pos ⟨hHits, .inr h.nearerToLower⟩]

/-- **What is found for a whole number on a grid of powers of ten is the number itself.** -/
theorem isWhole_of_onGrid? (h : Represents index n) (hBound : n < 10 ^ 16) {power : Nat}
    (hPower : power ≤ 15) {d : Decimal} (hFound : onGrid? index power = some d) :
    d.IsWhole n := by
  obtain ⟨hExponent, hDigits⟩ := of_onGrid?_eq_some hFound
  cases power with
  | zero =>
      obtain rfl : Decimal.mk n 0 = d := Option.some.inj (h.onGrid?_zero.symm.trans hFound)
      exact .of_digits n
  | succ power =>
      have hWhole := Decimal.IsWhole.of_exponent hExponent
      rw [h.floorOn] at hDigits
      -- What is found is a double of its own, and it reads back as the double at `index`.
      obtain ⟨other, hOther⟩ := exists_represents_of_grid hBound hPower hDigits
      have hSame : other = index := by
        rw [← hOther.nearest, ← hWhole.index, index_of_onGrid? hFound]
      rwa [h.unique (hSame ▸ hOther)]

/-- The search ends on the grid of ones at the latest. -/
theorem exists_findSome? (h : Represents index n) {length : Nat} (hPos : 0 < length)
    (hLength : length ≤ 17) :
    ∃ power < length, ∃ d, onGrid? index power = some d ∧
      (List.range 17).findSome? (fun n : Nat => onGrid? index ((length : Int) - 1 - n)) =
        some d := by
  have hRange : List.range 17 =
      List.range length ++ (List.range (17 - length)).map (length + ·) := by
    rw [← List.range_add, Nat.add_sub_cancel' hLength]
  -- The grid of ones has the position `length - 1`.
  have hOnes : (length : Int) - 1 - (length - 1 : Nat) = 0 := by omega
  have hSome : ((List.range length).findSome? fun n : Nat =>
      onGrid? index ((length : Int) - 1 - n)).isSome = true := by
    refine List.findSome?_isSome_iff.2 ⟨length - 1, List.mem_range.2 (by omega), ?_⟩
    rw [hOnes, h.onGrid?_zero]
    rfl
  obtain ⟨d, hFound⟩ := Option.isSome_iff_exists.1 hSome
  obtain ⟨position, hMem, hGrid⟩ := List.exists_of_findSome?_eq_some hFound
  have hPosition := List.mem_range.1 hMem
  have hPower : (length : Int) - 1 - position = (length - 1 - position : Nat) := by omega
  refine ⟨length - 1 - position, by omega, d, hPower ▸ hGrid, ?_⟩
  rw [hRange, List.findSome?_append, hFound, Option.some_or]

/-- **The decimal that is chosen for a whole number is this number.** -/
theorem isWhole_shortest (h : Represents index n) (hPos : 0 < n) (hBound : n < 10 ^ 16) :
    (shortest index).IsWhole n := by
  have hSixteen := (Nat.length_toDigits_le_iff (b := 10) (by decide) (by decide)).2 hBound
  obtain ⟨power, hPower, d, hGrid, hFound⟩ :=
    h.exists_findSome? (@Nat.length_toDigits_pos 10 n) (by omega)
  simp only [shortest, h.decimalPoint hPos, hFound, Option.getD_some]
  exact (h.isWhole_of_onGrid? hBound (by omega) hGrid).strip

/-- **A whole number below `10¹⁶` is written with its decimal digits.** -/
theorem chars (h : Represents index n) (hBound : n < 10 ^ 16) :
    chars index = Nat.toDigits 10 n := by
  rcases Nat.eq_zero_or_pos n with rfl | hPos
  · have hIndex : index = 0 := by rw [← h.nearest, nearest_zero Nat.one_pos]
    rw [hIndex, Nat.toDigits_zero, Binary64.chars, if_pos rfl]
  · have hIndex : index ≠ 0 := by
      rintro rfl
      have hUnits := h.units_eq
      have hOne : 0 < n * 2 ^ unitsExponent := Nat.mul_pos hPos (Nat.two_pow_pos _)
      rw [units_of_lt (by decide)] at hUnits
      omega
    rw [Binary64.chars, if_neg hIndex, if_pos h.finite, (h.isWhole_shortest hPos hBound).chars hPos
      hBound]

end Represents

end Binary64

/-! ## Numerals of whole numbers -/

/-- The ways to write a whole number as a number token: its digits, perhaps behind zeros, and
perhaps a point and zeros. -/
inductive WholeNumeral (n : Nat) : List Char → Prop where
  | digits {digits : List Char} :
      IsNumeral digits → Nat.ofDigitChars 10 digits 0 = n → WholeNumeral n digits
  | point {digits : List Char} (zeros : Nat) :
      IsNumeral digits → Nat.ofDigitChars 10 digits 0 = n →
      WholeNumeral n (digits ++ '.' :: List.replicate (zeros + 1) '0')

namespace WholeNumeral

variable {n : Nat} {text : List Char}

theorem lexeme (h : WholeNumeral n text) : Kind.Lexeme .number text := by
  cases h with
  | digits hDigits _ => exact .whole hDigits
  | point zeros hDigits _ =>
      exact .fraction hDigits ⟨List.cons_ne_nil _ _, fun _ => Decimal.isDigit_of_mem_zeros⟩

/-- **Zeros before a numeral and behind its point mean nothing.** -/
theorem index_ofNumeral (h : WholeNumeral n text) :
    (Decimal.ofNumeral text).index = Binary64.nearest n 1 := by
  cases h with
  | digits hDigits hValue =>
      rw [Decimal.ofNumeral_whole hDigits, hValue]
      exact (Decimal.IsWhole.of_digits n).index
  | point zeros hDigits hValue =>
      rw [Decimal.ofNumeral_fraction hDigits, Nat.ofDigitChars_append,
        Nat.ofDigitChars_replicate_zero, hValue, List.length_replicate,
        ← (Decimal.IsWhole.of_digits n).index]
      refine Decimal.index_eq_of_cross ?_
      simp only [Decimal.numerator, Decimal.denominator, Int.toNat_zero, Int.toNat_neg_natCast,
        neg_neg, Int.toNat_natCast, Nat.pow_eq, Int.neg_zero]
      ring

/-- **The value of a numeral of a whole number is written with the decimal digits.** -/
theorem numberChars_numeralValue (h : WholeNumeral n text) (hBound : n ≤ 2 ^ 53) :
    numberChars (numeralValue text) = Nat.toDigits 10 n := by
  obtain ⟨index, hIndex⟩ := Binary64.exists_represents_of_le hBound
  rw [numeralValue, h.index_ofNumeral, hIndex.nearest, numberChars_ofIndex hIndex.finite.le,
    hIndex.chars (by omega)]

end WholeNumeral

/-- A numeral of a whole number than which no other one is shorter. -/
structure ShortestNumeral (n : Nat) (numeral : List Char) : Prop where
  isNumeral : IsNumeral numeral
  value : Nat.ofDigitChars 10 numeral 0 = n
  length_le : ∀ other, IsNumeral other → Nat.ofDigitChars 10 other 0 = n →
    numeral.length ≤ other.length

/-- So many digits do not lead further than so many powers of ten. -/
theorem ofDigitChars_lt {digits : List Char} (h : ∀ char ∈ digits, IsDigit char) (start : Nat) :
    Nat.ofDigitChars 10 digits start < (start + 1) * 10 ^ digits.length := by
  induction digits generalizing start with
  | nil => simp
  | cons first digits ih =>
      have hFirst : first.toNat - '0'.toNat ≤ 9 := by
        have hUpper : first.toNat ≤ '9'.toNat := (h first List.mem_cons_self).2
        have hTo : '9'.toNat = 57 ∧ '0'.toNat = 48 := by decide
        omega
      rw [Nat.ofDigitChars_cons, List.length_cons]
      calc Nat.ofDigitChars 10 digits (10 * start + (first.toNat - '0'.toNat))
          < (10 * start + (first.toNat - '0'.toNat) + 1) * 10 ^ digits.length :=
            ih (fun char hMem => h char (List.mem_cons_of_mem _ hMem)) _
        _ ≤ (start + 1) * 10 * 10 ^ digits.length := Nat.mul_le_mul_right _ (by omega)
        _ = (start + 1) * 10 ^ (digits.length + 1) := by ring

theorem shortestNumeral_toDigits (n : Nat) : ShortestNumeral n (Nat.toDigits 10 n) where
  isNumeral := Decimal.isNumeral_toDigits n
  value := Nat.ofDigitChars_ten_toDigits
  length_le := by
    rintro other hOther rfl
    have hBound := ofDigitChars_lt hOther.2 0
    rw [Nat.zero_add, Nat.one_mul] at hBound
    exact (Nat.length_toDigits_le_iff (by decide) (List.length_pos_iff.2 hOther.1)).2 hBound

end ExprLang
