import ExprLang.Number.Text
import ExprLang.Proofs.Number.Numeral
import ExprLang.Proofs.Number.ReadBack

/-!
# The texts of numbers

A number is written positionally or with a power of ten. Either text stands for the decimal that was
written, so the number is read back from it, and two numbers with one text are the same number or
both NaN. Without a power of ten the text of a magnitude is the text of a number token.

## Main results

* `Decimal.index_ofText_chars` — what a text stands for reads back as what was written.
* `Binary64.lexeme_chars` — the text of a magnitude without a power of ten is a numeral.
* `numberChars_eq_iff` — only NaN share their text.
-/

namespace ExprLang

namespace Decimal

/-! ## Digits -/

theorem isNumeral_toDigits (n : Nat) : IsNumeral (Nat.toDigits 10 n) :=
  ⟨Nat.toDigits_ne_nil, fun _ hMem =>
    isDigit_iff.1 (Nat.isDigit_of_mem_toDigits (by decide) (by decide) hMem)⟩

theorem isDigit_of_mem_zeros {count : Nat} {char : Char} (h : char ∈ List.replicate count '0') :
    IsDigit char := by
  rw [List.eq_of_mem_replicate h]
  decide

theorem isNumeral_append_zeros {digits : List Char} (h : IsNumeral digits) (count : Nat) :
    IsNumeral (digits ++ List.replicate count '0') := by
  refine ⟨List.append_ne_nil_of_left_ne_nil h.1 _, fun char hMem => ?_⟩
  exact (List.mem_append.1 hMem).elim (h.2 char) isDigit_of_mem_zeros

theorem isNumeral_zeros_append {digits : List Char} (h : IsNumeral digits) (count : Nat) :
    IsNumeral (List.replicate count '0' ++ digits) := by
  refine ⟨List.append_ne_nil_of_right_ne_nil _ h.1, fun char hMem => ?_⟩
  exact (List.mem_append.1 hMem).elim isDigit_of_mem_zeros (h.2 char)

/-! ## Positional texts -/

/-- A positional text is a whole number, or digits on both sides of a point. -/
inductive Positional (digits : List Char) (exponent : Int) : List Char → Prop where
  | whole {power : Nat} :
      exponent = power → Positional digits exponent (digits ++ List.replicate power '0')
  | fraction {whole fraction : List Char} :
      IsNumeral whole → IsNumeral fraction → exponent = -fraction.length →
      Nat.ofDigitChars 10 (whole ++ fraction) 0 = Nat.ofDigitChars 10 digits 0 →
      Positional digits exponent (whole ++ '.' :: fraction)

theorem positional_plain {digits : List Char} (h : IsNumeral digits) (exponent : Int) :
    Positional digits exponent (plain digits exponent) := by
  have hLength := List.length_pos_iff.2 h.1
  rw [plain]
  split
  · rename_i hWhole
    exact .whole (Int.toNat_of_nonneg hWhole).symm
  split
  · -- The point stands between two digits.
    rename_i hPoint
    generalize hCount : ((digits.length : Int) + exponent).toNat = count
    refine .fraction ⟨List.ne_nil_of_length_pos ?_, fun char hMem => ?_⟩
      ⟨List.ne_nil_of_length_pos ?_, fun char hMem => ?_⟩ ?_ ?_
    · rw [List.length_take]
      omega
    · exact h.2 char (List.mem_of_mem_take hMem)
    · rw [List.length_drop]
      omega
    · exact h.2 char (List.mem_of_mem_drop hMem)
    · rw [List.length_drop]
      omega
    · rw [List.take_append_drop]
  · -- The point stands before all digits, and perhaps before some zeros.
    rename_i hPoint
    generalize hCount : (-((digits.length : Int) + exponent)).toNat = count
    show Positional digits exponent (['0'] ++ '.' :: (List.replicate count '0' ++ digits))
    refine .fraction (by decide) (isNumeral_zeros_append h count) ?_ ?_
    · rw [List.length_append, List.length_replicate]
      omega
    · have hZeros : Nat.ofDigitChars 10 (List.replicate (count + 1) '0') 0 = 0 := by
        rw [Nat.ofDigitChars_replicate_zero, Nat.mul_zero]
      rw [← List.append_assoc, Nat.ofDigitChars_append]
      exact congrArg (Nat.ofDigitChars 10 digits) hZeros

namespace Positional

variable {digits text : List Char} {exponent : Int}

/-- **A positional text reads back as the decimal that was written.** -/
theorem index_ofNumeral (h : Positional digits exponent text) (hDigits : IsNumeral digits) :
    (ofNumeral text).index = index ⟨Nat.ofDigitChars 10 digits 0, exponent⟩ := by
  cases h with
  | @whole power hPower =>
      rw [ofNumeral_whole (isNumeral_append_zeros hDigits power), Nat.ofDigitChars_append,
        Nat.ofDigitChars_replicate_zero, hPower]
      refine index_eq_of_cross ?_
      simp only [numerator, denominator, Int.toNat_zero, Int.toNat_natCast, Int.toNat_neg_natCast,
        Nat.pow_eq, Int.neg_zero]
      ring
  | fraction hWhole _ hPower hSame =>
      rw [ofNumeral_fraction hWhole, hSame, hPower]

/-- A positional text is the text of a number token. -/
theorem lexeme (h : Positional digits exponent text) (hDigits : IsNumeral digits) :
    Kind.Lexeme .number text := by
  cases h with
  | @whole power => exact .whole (isNumeral_append_zeros hDigits power)
  | fraction hWhole hFraction => exact .fraction hWhole hFraction

end Positional

/-! ## Texts with a power of ten -/

/-- A power of ten as it is written behind its mark. -/
def powerChars (power : Int) : List Char :=
  (if power < 0 then ['-'] else []) ++ Nat.toDigits 10 power.natAbs

/-- The power of ten that stands behind its mark. -/
def powerOfText : List Char → Int
  | '-' :: digits => -(Nat.ofDigitChars 10 digits 0)
  | digits => Nat.ofDigitChars 10 digits 0

theorem powerOfText_of_isNumeral {digits : List Char} (h : IsNumeral digits) :
    powerOfText digits = Nat.ofDigitChars 10 digits 0 := by
  obtain ⟨first, tail, rfl, hFirst⟩ := h.exists_cons
  have hSign : first ≠ '-' := by
    rintro rfl
    exact absurd hFirst (by decide)
  simp [powerOfText, hSign]

theorem powerOfText_powerChars (power : Int) : powerOfText (powerChars power) = power := by
  rw [powerChars]
  split
  · rw [List.singleton_append, powerOfText, Nat.ofDigitChars_ten_toDigits]
    omega
  · rw [List.nil_append, powerOfText_of_isNumeral (isNumeral_toDigits _),
      Nat.ofDigitChars_ten_toDigits]
    omega

/-- A text stands for a decimal: a numeral of the same number, or a numeral with a power of ten. -/
inductive Written (d : Decimal) : List Char → Prop where
  | positional {text : List Char} :
      Kind.Lexeme .number text → (ofNumeral text).index = d.index → Written d text
  | scientific {mantissa : List Char} {power : Int} :
      Kind.Lexeme .number mantissa → ofNumeral mantissa = ⟨d.digits, d.exponent - power⟩ →
      Written d (mantissa ++ 'e' :: powerChars power)

theorem written_scientific {digits : List Char} (h : IsNumeral digits) (exponent : Int) :
    Written ⟨Nat.ofDigitChars 10 digits 0, exponent⟩ (scientific digits exponent) := by
  obtain ⟨first, rest, rfl, hFirst⟩ := h.exists_cons
  have hWhole : IsNumeral [first] := ⟨List.cons_ne_nil _ _, List.forall_mem_singleton.2 hFirst⟩
  have hText : ∀ mantissa power,
      mantissa ++ 'e' :: (if power < 0 then ['-'] else []) ++ Nat.toDigits 10 power.natAbs =
        mantissa ++ 'e' :: powerChars power :=
    fun mantissa power => List.append_assoc _ _ _
  simp only [scientific, hText]
  cases rest with
  | nil =>
      refine .scientific (.whole hWhole) ((ofNumeral_whole hWhole).trans ?_)
      simp
  | cons second rest =>
      have hFraction : IsNumeral (second :: rest) :=
        ⟨List.cons_ne_nil _ _, fun char hMem => h.2 char (List.mem_cons_of_mem _ hMem)⟩
      refine .scientific (.fraction hWhole hFraction) ((ofNumeral_fraction hWhole _).trans ?_)
      simp only [List.singleton_append, List.length_cons, mk.injEq, true_and]
      omega

/-- **The text of a decimal stands for it.** -/
theorem written_chars (d : Decimal) : d.Written d.chars := by
  have hDigits := isNumeral_toDigits d.digits
  have hValue := @Nat.ofDigitChars_ten_toDigits d.digits
  simp only [chars]
  split
  · have hPlain := positional_plain hDigits d.exponent
    refine .positional (hPlain.lexeme hDigits) ((hPlain.index_ofNumeral hDigits).trans ?_)
    rw [hValue]
  · have hScientific := written_scientific hDigits d.exponent
    rwa [hValue] at hScientific

end Decimal

/-! ## Numerals -/

namespace Kind.Lexeme

variable {text : List Char}

/-- The text of a number token is digits, or digits on both sides of a point. -/
theorem number_cases (h : Kind.Lexeme .number text) :
    IsNumeral text ∨ ∃ whole fraction, IsNumeral whole ∧ IsNumeral fraction ∧
      text = whole ++ '.' :: fraction := by
  cases h with
  | fixed hText => cases hText
  | reserved hMem => simp [Kind.reservedWords] at hMem
  | whole hDigits => exact .inl hDigits
  | fraction hDigits hDecimals => exact .inr ⟨_, _, hDigits, hDecimals, rfl⟩

theorem isDigit_or_point (h : Kind.Lexeme .number text) :
    ∀ char ∈ text, IsDigit char ∨ char = '.' := by
  intro char hMem
  rcases h.number_cases with hDigits | ⟨whole, fraction, hWhole, hFraction, rfl⟩
  · exact .inl (hDigits.2 char hMem)
  · rcases List.mem_append.1 hMem with hDigit | hRest
    · exact .inl (hWhole.2 char hDigit)
    · exact (List.mem_cons.1 hRest).symm.imp_left (hFraction.2 char)

theorem exists_digit_cons (h : Kind.Lexeme .number text) :
    ∃ first tail, text = first :: tail ∧ IsDigit first := by
  rcases h.number_cases with hDigits | ⟨whole, fraction, hWhole, _, rfl⟩
  · exact hDigits.exists_cons
  · obtain ⟨first, tail, rfl, hFirst⟩ := hWhole.exists_cons
    exact ⟨first, _, rfl, hFirst⟩

theorem notMem_e (h : Kind.Lexeme .number text) : 'e' ∉ text := by
  intro hMem
  rcases h.isDigit_or_point _ hMem with hDigit | hPoint
  · exact absurd hDigit (by decide)
  · exact absurd hPoint (by decide)

end Kind.Lexeme

/-! ## Texts of decimals -/

namespace Decimal

/-- The decimal that the text of a magnitude stands for: a numeral, and perhaps the mark `e` and a
power of ten. -/
def ofText (text : List Char) : Decimal :=
  let mantissa := ofNumeral (text.takeWhile (· ≠ 'e'))
  ⟨mantissa.digits, mantissa.exponent + powerOfText ((text.dropWhile (· ≠ 'e')).drop 1)⟩

namespace Written

variable {d : Decimal} {text : List Char}

/-- **A text reads back as the decimal that it stands for.** -/
theorem index_ofText (h : d.Written text) : (ofText text).index = d.index := by
  cases h with
  | positional hNumeral hIndex =>
      have hMark := Piece.all_ne_of_notMem hNumeral.notMem_e
      have hPower : powerOfText [] = 0 := rfl
      rw [← hIndex, ofText, List.takeWhile_eq_self_iff.2 hMark, List.dropWhile_eq_nil_iff.2 hMark,
        List.drop_nil, hPower, Int.add_zero]
  | @scientific mantissa power hNumeral hValue =>
      obtain ⟨hTaken, hDropped⟩ := Piece.takeWhile_append_mark
        (Piece.all_ne_of_notMem hNumeral.notMem_e) (show decide ('e' ≠ 'e') = false from rfl)
        (powerChars power)
      rw [ofText, hTaken, hDropped, hValue, List.drop_one, List.tail_cons, powerOfText_powerChars,
        Int.sub_add_cancel]

/-- Without a power of ten the text is a numeral of the same number. -/
theorem of_notMem_e (h : d.Written text) (hMark : 'e' ∉ text) :
    Kind.Lexeme .number text ∧ (ofNumeral text).index = d.index := by
  cases h with
  | positional hNumeral hIndex => exact ⟨hNumeral, hIndex⟩
  | scientific => simp at hMark

theorem exists_digit_cons (h : d.Written text) :
    ∃ first tail, text = first :: tail ∧ IsDigit first := by
  cases h with
  | positional hNumeral => exact hNumeral.exists_digit_cons
  | scientific hNumeral =>
      obtain ⟨first, tail, rfl, hFirst⟩ := hNumeral.exists_digit_cons
      exact ⟨first, _, rfl, hFirst⟩

theorem mem (h : d.Written text) : ∀ char ∈ text, IsDigit char ∨ char ∈ ['.', 'e', '-'] := by
  have hNumeralMem : ∀ {numeral : List Char}, Kind.Lexeme .number numeral →
      ∀ char ∈ numeral, IsDigit char ∨ char ∈ ['.', 'e', '-'] := by
    intro numeral hNumeral char hMem
    exact (hNumeral.isDigit_or_point char hMem).imp_right fun hPoint => by simp [hPoint]
  cases h with
  | positional hNumeral => exact hNumeralMem hNumeral
  | @scientific mantissa power hNumeral =>
      intro char hMem
      rw [List.mem_append, List.mem_cons, powerChars, List.mem_append] at hMem
      rcases hMem with hMem | rfl | hSign | hDigit
      · exact hNumeralMem hNumeral char hMem
      · exact .inr (by decide)
      · split at hSign
        · exact .inr (by simp [List.mem_singleton.1 hSign])
        · cases hSign
      · exact .inl ((isNumeral_toDigits _).2 char hDigit)

end Written

end Decimal

/-! ## Texts of magnitudes -/

namespace Binary64

theorem exists_written {magnitude : Nat} (h : magnitude < infinityIndex) :
    ∃ d : Decimal, d.index = magnitude ∧ d.Written (chars magnitude) := by
  by_cases hZero : magnitude = 0
  · have hNumeral : IsNumeral ['0'] := by decide
    rw [chars, if_pos hZero]
    refine ⟨⟨0, 0⟩, ?_, .positional (.whole hNumeral) ?_⟩
    · rw [hZero]
      exact nearest_zero Nat.one_pos
    · rw [Decimal.ofNumeral_whole hNumeral]
      rfl
  · rw [chars, if_neg hZero, if_pos h]
    exact ⟨shortest magnitude, index_shortest h.le, Decimal.written_chars _⟩

theorem chars_infinity : chars infinityIndex = "Infinity".toList := by decide

/-- The text of a magnitude begins with a digit, or it is the word for infinity. -/
theorem exists_cons_chars {magnitude : Nat} (h : magnitude ≤ infinityIndex) :
    ∃ first tail, chars magnitude = first :: tail ∧ (IsDigit first ∨ first = 'I') := by
  rcases h.lt_or_eq with hFinite | rfl
  · obtain ⟨d, _, hWritten⟩ := exists_written hFinite
    obtain ⟨first, tail, hCons, hFirst⟩ := hWritten.exists_digit_cons
    exact ⟨first, tail, hCons, .inl hFirst⟩
  · exact ⟨'I', "nfinity".toList, chars_infinity, .inr rfl⟩

theorem index_ofText_chars {magnitude : Nat} (h : magnitude < infinityIndex) :
    (Decimal.ofText (chars magnitude)).index = magnitude := by
  obtain ⟨d, hIndex, hWritten⟩ := exists_written h
  rw [hWritten.index_ofText, hIndex]

theorem chars_ne_infinity {magnitude : Nat} (h : magnitude < infinityIndex) :
    chars magnitude ≠ chars infinityIndex := by
  intro hSame
  obtain ⟨d, _, hWritten⟩ := exists_written h
  obtain ⟨first, tail, hCons, hFirst⟩ := hWritten.exists_digit_cons
  rw [hCons, chars_infinity] at hSame
  cases hSame
  exact absurd hFirst (by decide)

/-- **Magnitudes with one text are the same.** -/
theorem chars_inj {magnitude other : Nat} (h : magnitude ≤ infinityIndex)
    (hOther : other ≤ infinityIndex) (hSame : chars magnitude = chars other) :
    magnitude = other := by
  rcases h.lt_or_eq with hFinite | rfl
  · rcases hOther.lt_or_eq with hOtherFinite | rfl
    · rw [← index_ofText_chars hFinite, hSame, index_ofText_chars hOtherFinite]
    · exact absurd hSame (chars_ne_infinity hFinite)
  · rcases hOther.lt_or_eq with hOtherFinite | rfl
    · exact absurd hSame.symm (chars_ne_infinity hOtherFinite)
    · rfl

/-- **The text of a magnitude without a power of ten is a numeral of this magnitude.** -/
theorem lexeme_chars {magnitude : Nat} (h : magnitude < infinityIndex)
    (hMark : 'e' ∉ chars magnitude) :
    Kind.Lexeme .number (chars magnitude) ∧
      numeralValue (chars magnitude) = ofIndex magnitude := by
  obtain ⟨d, hIndex, hWritten⟩ := exists_written h
  obtain ⟨hLexeme, hValue⟩ := hWritten.of_notMem_e hMark
  exact ⟨hLexeme, congrArg ofIndex (hValue.trans hIndex)⟩

end Binary64

/-! ## Texts of numbers -/

theorem numberChars_of_isNaN {x : Binary64} (h : x.isNaN = true) : numberChars x = "NaN".toList :=
  if_pos h

theorem numberChars_of_not_isNaN {x : Binary64} (h : x.isNaN = false) :
    numberChars x = (if Binary64.isNegative x then ['-'] else []) ++
      Binary64.chars (Binary64.index x) := by
  rw [numberChars, h]
  rfl

theorem numberChars_ofIndex {magnitude : Nat} (h : magnitude ≤ Binary64.infinityIndex) :
    numberChars (Binary64.ofIndex magnitude) = Binary64.chars magnitude := by
  rw [numberChars_of_not_isNaN (Binary64.isNaN_ofIndex h), Binary64.isNegative_ofIndex h,
    Binary64.index_ofIndex h]
  rfl

/-- The text of a number that is not NaN begins with a minus sign exactly if the sign bit is set. -/
theorem head?_numberChars {x : Binary64} (h : x.isNaN = false) :
    ∃ first tail, numberChars x = first :: tail ∧
      (first = '-' ∨ IsDigit first ∨ first = 'I') ∧
      (first = '-' ↔ Binary64.isNegative x = true) := by
  obtain ⟨first, tail, hCons, hFirst⟩ := Binary64.exists_cons_chars (Binary64.index_le_iff.2 h)
  rw [numberChars_of_not_isNaN h, hCons]
  cases Binary64.isNegative x with
  | true => exact ⟨'-', first :: tail, rfl, .inl rfl, iff_of_true rfl rfl⟩
  | false =>
      refine ⟨first, tail, rfl, .inr hFirst, iff_of_false ?_ Bool.false_ne_true⟩
      rintro rfl
      exact absurd hFirst (by decide)

/-- **Numbers share their text only if they are the same or both are NaN.** -/
theorem numberChars_eq_iff {x y : Binary64} :
    numberChars x = numberChars y ↔ (x.isNaN = true ∧ y.isNaN = true) ∨ x = y := by
  have hNaN : ∀ {number other : Binary64}, number.isNaN = true → other.isNaN = false →
      numberChars number ≠ numberChars other := by
    intro number other hNumber hOther hSame
    obtain ⟨first, tail, hCons, hFirst, _⟩ := head?_numberChars hOther
    rw [numberChars_of_isNaN hNumber, hCons] at hSame
    cases hSame
    exact absurd hFirst (by decide)
  constructor
  · intro hSame
    cases hX : x.isNaN with
    | true =>
        cases hY : y.isNaN with
        | true => exact .inl ⟨rfl, rfl⟩
        | false => exact absurd hSame (hNaN hX hY)
    | false =>
        cases hY : y.isNaN with
        | true => exact absurd hSame.symm (hNaN hY hX)
        | false =>
            obtain ⟨first, tail, hCons, _, hSign⟩ := head?_numberChars hX
            obtain ⟨other, otherTail, hOtherCons, _, hOtherSign⟩ := head?_numberChars hY
            have hFirst : first = other := by
              rw [hCons, hOtherCons] at hSame
              exact (List.cons.inj hSame).1
            have hSigns : Binary64.isNegative x = Binary64.isNegative y := by
              rw [Bool.eq_iff_iff, ← hSign, ← hOtherSign, hFirst]
            rw [numberChars_of_not_isNaN hX, numberChars_of_not_isNaN hY, hSigns] at hSame
            have hMagnitudes := Binary64.chars_inj (Binary64.index_le_iff.2 hX)
              (Binary64.index_le_iff.2 hY) (List.append_cancel_left hSame)
            exact .inr (Binary64.eq_of_index_eq hMagnitudes hSigns)
  · rintro (⟨hX, hY⟩ | rfl)
    · rw [numberChars_of_isNaN hX, numberChars_of_isNaN hY]
    · rfl

end ExprLang
