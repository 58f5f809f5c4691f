import ExprLang.Proofs.Expr.Equality
import ExprLang.Proofs.Number.Whole
import ExprLang.Proofs.Session.PrintStatement

/-!
# Printed numbers read back

The text of a number tells the number, so two numbers are printed alike only if they are equal in
the language. The text of a finite number without an exponent is an expression of the language: a
number token, behind a minus sign if the sign bit is set. Its value is the number itself, also for
negative zero, because the numeral stands for the magnitude and negation flips the sign bit. Up to
`2⁵³` whole numbers are doubles, and the digits of their numerals come out as they went in, but for
zeros that mean nothing.

## Main results

* `printsTree_signedNumeral` — the print statement that the text of a number makes.
* `evaluate_signedLiteral` — its value is the number.
* `printed_number_reads_back` — texts of numbers, and what comes of printing them.
* `whole_number_printed` — whole numbers up to `2⁵³` are printed with their shortest numeral.
-/

namespace ExprLang

/-- A magnitude as an expression, behind a minus sign on some line for the sign bit. -/
def signedLiteral (negative : Bool) (magnitude : Binary64) : Expr :=
  if negative then .unary .negate (.plain .minus "-") (.literal (.number magnitude))
  else .literal (.number magnitude)

/-- A magnitude behind a space as a written expression. -/
def signedNumeral (negative : Bool) (magnitude : List Char) : List Entry :=
  if negative then [⟨[' '], .minus, ['-']⟩, ⟨[], .number, magnitude⟩]
  else [⟨[' '], .number, magnitude⟩]

theorem printText_signedNumeral (negative : Bool) (magnitude : List Char) :
    printText [] (signedNumeral negative magnitude) [] [] =
      "print " ++ String.ofList ((if negative then ['-'] else []) ++ magnitude) ++ ";" := by
  rw [printText, ← String.toList_inj]
  cases negative <;>
    simp [written, printEntries, signedNumeral, Entry.written, String.toList_ofList]

theorem fits_signedNumeral (negative : Bool) {magnitude : List Char}
    (h : Kind.Lexeme .number magnitude) :
    Fits (printEntries [] (signedNumeral negative magnitude) []) [] := by
  have hSpace : ∀ {kind : Kind} (tail : List Char), kind.EndsBefore (' ' :: tail) := by
    rintro kind tail _ ⟨rfl⟩
    exact Kind.not_goesOn_of_blank (by decide)
  have hNumber : Fits [⟨[], .number, magnitude⟩, ⟨[], .semicolon, [';']⟩] [] := by
    refine ⟨.nil, h, Kind.endsBefore_of_number ?_, .nil, lexeme_semicolon, nofun, .closed .nil⟩
    rintro char ⟨rfl⟩
    decide
  cases negative with
  | false =>
      obtain ⟨_, hRest⟩ := hNumber
      exact ⟨.nil, lexeme_printWord, hSpace _, .blank (by decide) .nil, hRest⟩
  | true =>
      obtain ⟨first, tail, rfl, hFirst⟩ := h.exists_digit_cons
      refine ⟨.nil, lexeme_printWord, hSpace _, .blank (by decide) .nil,
        @Kind.Lexeme.fixed .minus "-" rfl, ?_, hNumber⟩
      refine Kind.endsBefore_of_fixed rfl (by decide) ?_
      rintro char ⟨rfl⟩ rfl
      exact absurd hFirst (by decide)

/-- The text of a magnitude that is a number token, behind its sign, as a print statement. -/
theorem printsTree_signedNumeral (negative : Bool) {magnitude : List Char}
    (h : Kind.Lexeme .number magnitude) :
    PrintsTree (printText [] (signedNumeral negative magnitude) [] [])
      (signedLiteral negative (numeralValue magnitude)) := by
  have hLiteral : ∀ line, (Expr.literal (.number (numeralValue magnitude))).TreeOf
      [Entry.token ⟨[], .number, magnitude⟩ line] :=
    fun line => ⟨.literal (.number rfl rfl), trivial⟩
  refine printsTree_of_fits (fits_signedNumeral negative h) ?_
  cases negative with
  | false => exact hLiteral _
  | true => exact ⟨.unary rfl (hLiteral _).spells, Tier.le_primary .unary, trivial⟩

theorem spelling_signedNumeral (negative : Bool) {magnitude : List Char}
    (h : Kind.Lexeme .number magnitude) :
    (Scan.ofSource (printText [] (signedNumeral negative magnitude) [] [])).tokens.map
        Token.spelling =
      (.printWord, some "print") :: (if negative then [(.minus, some "-")] else []) ++
        [(.number, some (String.ofList magnitude)), (.semicolon, some ";"), (.eof, none)] := by
  rw [ofSource_printText (fits_signedNumeral negative h)]
  cases negative <;> rfl

/-- The value of the expression that the text of a number makes is the number. -/
theorem evaluate_signedLiteral {x : Binary64} (h : Binary64.index x ≤ Binary64.infinityIndex) :
    (signedLiteral (Binary64.isNegative x) (Binary64.ofIndex (Binary64.index x))).evaluate =
      .ok (.number x) := by
  have hValue := Binary64.eq_ofIndex h
  cases hSign : Binary64.isNegative x with
  | false =>
      rw [hSign] at hValue
      exact congrArg (Except.ok ∘ Value.number) hValue.symm
  | true =>
      rw [hSign] at hValue
      exact congrArg (Except.ok ∘ Value.number) hValue.symm

theorem number_text_eq_iff {x y : Binary64} :
    (Value.number x).text = (Value.number y).text ↔ (Value.number x == Value.number y) = true := by
  rw [number_beq_iff, Value.text, Value.text, String.ofList_inj]
  exact numberChars_eq_iff

/-- **Printed numbers read back.** Two numbers have the same text exactly if they are equal in the
language. The text of a finite number, if it has no exponent, is a number token for the magnitude,
behind a minus sign if the sign bit is set; the print statement for it is read without an error, has
the number itself for its value, and prints the same text again. -/
theorem printed_number_reads_back :
    (∀ x y : Binary64, (Value.number x).text = (Value.number y).text ↔
      (Value.number x == Value.number y) = true) ∧
    ∀ x : Binary64, x.isFinite = true → 'e' ∉ (Value.number x).text.toList →
      let run := Run.fresh ("print " ++ (Value.number x).text ++ ";")
      ∃ magnitude : List Char,
        numberChars x = (if Binary64.isNegative x then ['-'] else []) ++ magnitude ∧
        run.scan.tokens.map Token.spelling =
          (.printWord, some "print") ::
            (if Binary64.isNegative x then [(.minus, some "-")] else []) ++
            [(.number, some (String.ofList magnitude)), (.semicolon, some ";"), (.eof, none)] ∧
        run.program.statements =
          [.print (signedLiteral (Binary64.isNegative x) (numeralValue magnitude))] ∧
        (signedLiteral (Binary64.isNegative x) (numeralValue magnitude)).evaluate =
          .ok (.number x) ∧
        run.diagnostics = [] ∧ run.output = utf8 ((Value.number x).text ++ "\n") := by
  refine ⟨fun x y => number_text_eq_iff, fun x hFinite hMark => ?_⟩
  have hIndex := Binary64.isFinite_iff_index.1 hFinite
  have hNaN := Binary64.index_le_iff.1 hIndex.le
  have hText := numberChars_of_not_isNaN hNaN
  rw [Value.text, String.toList_ofList, hText, List.mem_append, not_or] at hMark
  obtain ⟨hLexeme, hValue⟩ := Binary64.lexeme_chars hIndex hMark.2
  have hSource : printText [] (signedNumeral (Binary64.isNegative x)
      (Binary64.chars (Binary64.index x))) [] [] = "print " ++ (Value.number x).text ++ ";" := by
    rw [printText_signedNumeral, Value.text, hText]
  have hPrints := printsTree_signedNumeral (Binary64.isNegative x) hLexeme
  have hSpelling := spelling_signedNumeral (Binary64.isNegative x) hLexeme
  have hEvaluate := evaluate_signedLiteral hIndex.le
  rw [← hValue] at hEvaluate
  rw [hSource] at hPrints hSpelling
  exact ⟨_, hText, hSpelling, hPrints.program.2, hEvaluate, hPrints.fresh_of_ok hEvaluate⟩

/-- Negative zero and a fraction, from their bits. -/
theorem printed_number_reads_back_of_negative :
    (Binary64.ofBits 0x8000000000000000).isFinite = true ∧
      'e' ∉ (Value.number (.ofBits 0x8000000000000000)).text.toList ∧
      (Run.fresh "print -0;").diagnostics = [] ∧ (Run.fresh "print -0;").output = utf8 "-0\n" ∧
      (Run.fresh "print -0;").scan.tokens.map Token.spelling =
        [(.printWord, some "print"), (.minus, some "-"), (.number, some "0"),
          (.semicolon, some ";"), (.eof, none)] ∧
      (Binary64.ofBits 0xC029000000000000).isFinite = true ∧
      'e' ∉ (Value.number (.ofBits 0xC029000000000000)).text.toList ∧
      (Run.fresh "print -12.5;").output = utf8 "-12.5\n" := by
  have hZero : (Value.number (.ofBits 0x8000000000000000)).text = "-0" := by decide +kernel
  have hFraction : (Value.number (.ofBits 0xC029000000000000)).text = "-12.5" := by decide +kernel
  have hZeroFinite : (Binary64.ofBits 0x8000000000000000).isFinite = true := by decide +kernel
  have hFractionFinite : (Binary64.ofBits 0xC029000000000000).isFinite = true := by decide +kernel
  have hZeroMark : 'e' ∉ (Value.number (.ofBits 0x8000000000000000)).text.toList := by
    rw [hZero]
    decide
  have hFractionMark : 'e' ∉ (Value.number (.ofBits 0xC029000000000000)).text.toList := by
    rw [hFraction]
    decide
  obtain ⟨magnitude, hText, hTokens, _, _, hCalm, hOutput⟩ :=
    printed_number_reads_back.2 _ hZeroFinite hZeroMark
  obtain ⟨_, _, _, _, _, _, hFractionOutput⟩ :=
    printed_number_reads_back.2 _ hFractionFinite hFractionMark
  have hSign : Binary64.isNegative (.ofBits 0x8000000000000000) = true := by decide +kernel
  have hChars : numberChars (.ofBits 0x8000000000000000) = ['-', '0'] := by decide +kernel
  obtain rfl : magnitude = ['0'] := by simpa [hChars, hSign] using hText.symm
  rw [hZero] at hTokens hCalm hOutput
  rw [hSign] at hTokens
  rw [hFraction] at hFractionOutput
  exact ⟨hZeroFinite, hZeroMark, hCalm, hOutput, hTokens, hFractionFinite, hFractionMark,
    hFractionOutput⟩

/-! ## Whole numbers -/

/-- **Whole numbers are printed exactly.** The print statement for a whole number up to `2⁵³`, with
any number of zeros before it and perhaps a point and zeros behind it, reports nothing and prints
the decimal digits of the number, its shortest numeral. -/
theorem whole_number_printed {n : Nat} {text : List Char} (hText : WholeNumeral n text)
    (hBound : n ≤ 2 ^ 53) :
    (Run.fresh ("print " ++ String.ofList text ++ ";")).diagnostics = [] ∧
    (Run.fresh ("print " ++ String.ofList text ++ ";")).output = utf8 (toString n ++ "\n") ∧
    ShortestNumeral n (toString n).toList := by
  have hSource : printText [] (signedNumeral false text) [] [] =
      "print " ++ String.ofList text ++ ";" := printText_signedNumeral false text
  have hPrints := printsTree_signedNumeral false hText.lexeme
  rw [hSource] at hPrints
  have hPrinted : (Value.number (numeralValue text)).text = toString n := by
    rw [Value.text, hText.numberChars_numeralValue hBound, Nat.toString_eq_ofList_toDigits]
  obtain ⟨hDiagnostics, hOutput⟩ := hPrints.fresh_of_ok rfl
  rw [hPrinted] at hOutput
  refine ⟨hDiagnostics, hOutput, ?_⟩
  rw [Nat.toString_eq_ofList_toDigits, String.toList_ofList]
  exact shortestNumeral_toDigits n

/-- The greatest number, behind zeros and before a point; a number with zeros of its own; and zero,
of which one digit is left. -/
theorem whole_number_printed_without_zeros :
    WholeNumeral (2 ^ 53) "009007199254740992.00".toList ∧ WholeNumeral 1000 "01000".toList ∧
      WholeNumeral 0 "000.0".toList ∧
      (Run.fresh "print 009007199254740992.00;").diagnostics = [] ∧
      (Run.fresh "print 009007199254740992.00;").output = utf8 "9007199254740992\n" ∧
      (Run.fresh "print 01000;").output = utf8 "1000\n" ∧
      (Run.fresh "print 000.0;").output = utf8 "0\n" := by
  have hGreatest : WholeNumeral (2 ^ 53) "009007199254740992.00".toList :=
    @WholeNumeral.point _ "009007199254740992".toList 1 (by decide) (by decide)
  have hThousand : WholeNumeral 1000 "01000".toList := .digits (by decide) (by decide)
  have hZero : WholeNumeral 0 "000.0".toList :=
    @WholeNumeral.point _ "000".toList 0 (by decide) (by decide)
  obtain ⟨hCalm, hOutput, _⟩ := whole_number_printed hGreatest le_rfl
  exact ⟨hGreatest, hThousand, hZero, hCalm, hOutput,
    (whole_number_printed hThousand (by decide)).2.1, (whole_number_printed hZero (by decide)).2.1⟩

end ExprLang
