import ExprLang.Proofs.Source.LongestMatch

/-!
# Tokens side by side

A token is cut off as it was written also where no gap stands behind it, if the character there is
none with which a token of its kind may go on: a string goes on with nothing, a number with a digit
or a point, a word with a letter or a digit, and a sign with an equals sign or, if it is a slash,
with another slash. So gaps may be left out where tokens cannot grow together.

## Main results

* `Piece.first_append_of_endsBefore` — a token in front of a character with which it does not go on.
* `Kind.not_goesOn_of_blank` — no token goes on with a blank.
-/

namespace ExprLang

/-- With this character a text of a token of a kind may go on. -/
inductive Kind.GoesOn : Kind → Char → Prop where
  | sign {kind : Kind} : kind.fixedText?.isSome → GoesOn kind '='
  | comment : GoesOn .slash '/'
  | point : GoesOn .number '.'
  | digit {char : Char} : IsDigit char → GoesOn .number char
  | word {kind : Kind} {char : Char} :
      kind.fixedText? = none → kind ≠ .number → kind ≠ .string → IsLetter char ∨ IsDigit char →
      GoesOn kind char

/-- Nothing comes behind a token of a kind, or a character with which it does not go on. -/
def Kind.EndsBefore (kind : Kind) (rest : List Char) : Prop :=
  ∀ char ∈ rest.head?, ¬ kind.GoesOn char

/-- Reserved words have no fixed text, and are neither numbers nor strings. -/
theorem Kind.fixedText?_of_wordSpelling? {kind : Kind} {text : String}
    (h : kind.wordSpelling? = some text) :
    kind.fixedText? = none ∧ kind ≠ .number ∧ kind ≠ .string := by
  cases kind <;> cases h <;> decide

namespace Piece

/-- Nothing is taken if the first character does not pass the test. -/
theorem takeWhile_of_head {test : Char → Bool} {rest : List Char}
    (h : ∀ char ∈ rest.head?, test char = false) :
    rest.takeWhile test = [] ∧ rest.dropWhile test = rest := by
  cases rest with
  | nil => exact ⟨rfl, rfl⟩
  | cons char rest => simp [h char rfl]

theorem word_append_of_ends {text : List Char} (hText : IsWord text) {rest : List Char}
    (hRest : ∀ char ∈ rest.head?, ¬ (IsLetter char ∨ IsDigit char)) :
    word (text ++ rest) = (lexeme (wordKind text) text, rest) := by
  have hHead : ∀ char ∈ rest.head?, isWordPart char = false := fun char hChar =>
    Bool.eq_false_iff.2 (mt isWordPart_iff.1 (hRest char hChar))
  obtain ⟨hTaken, hDropped⟩ := takeWhile_of_head hHead
  rw [word_append hText.isWordPart, hTaken, hDropped, List.append_nil]

theorem isDigit_head_of_ends {rest : List Char} (hRest : Kind.EndsBefore .number rest) :
    ∀ char ∈ rest.head?, char.isDigit = false := fun char hChar =>
  Bool.eq_false_iff.2 fun hDigit => hRest char hChar (.digit (isDigit_iff.1 hDigit))

theorem numeral_append_of_ends {digits : List Char} (hDigits : IsNumeral digits)
    {rest : List Char} (hRest : Kind.EndsBefore .number rest) :
    numeral (digits ++ rest) = (lexeme .number digits, rest) := by
  obtain ⟨hTaken, hDropped⟩ := takeWhile_of_head (isDigit_head_of_ends hRest)
  simp only [numeral, List.takeWhile_append_of_pos hDigits.isDigit,
    List.dropWhile_append_of_pos hDigits.isDigit, hTaken, hDropped, List.append_nil]
  split
  · exact absurd .point (hRest '.' rfl)
  · rfl

theorem punctuation_of_ends {char : Char} {kind : Kind} (hKind : Kind.ofChar? char = some kind)
    {rest : List Char} (hRest : kind.EndsBefore rest) :
    punctuation char kind rest = (lexeme kind [char], rest) := by
  have hFixed : kind.fixedText?.isSome := by
    rw [Kind.fixedText?_of_ofChar? hKind]
    rfl
  unfold punctuation
  split
  · exact absurd (.sign hFixed) (hRest '=' rfl)
  · split
    · rename_i hSlash
      exact absurd (hSlash ▸ .comment) (hRest '/' rfl)
    · rfl
  · rfl

/-- **A token is cut off as it is before a character with which it does not go on.** -/
theorem first_append_of_endsBefore {kind : Kind} {char : Char} {tail : List Char}
    (h : kind.Lexeme (char :: tail)) {rest : List Char} (hRest : kind.EndsBefore rest) :
    first char (tail ++ rest) = (lexeme kind (char :: tail), rest) := by
  generalize hWhole : char :: tail = whole at h
  have hSource : char :: (tail ++ rest) = whole ++ rest := by rw [← hWhole, List.cons_append]
  have hWordRead : IsWord whole → kind.fixedText? = none → kind ≠ .number → kind ≠ .string →
      first char (tail ++ rest) = (lexeme (wordKind whole) whole, rest) := by
    intro hWord hFixed hNumber hString
    have hRead := word_append_of_ends hWord fun next hNext hPart =>
      hRest next hNext (.word hFixed hNumber hString hPart)
    subst hWhole
    rw [first_of_letter hWord.isLetter_head, hSource, hRead]
  cases h with
  | fixed hText =>
      rcases Kind.fixedText?_cases hText with ⟨_, hChars, hKind⟩ | ⟨_, _, hChars, hShort, hKind⟩
      · rw [hChars] at hWhole ⊢
        cases hWhole
        rw [first_of_ofChar? hKind]
        exact punctuation_of_ends hKind hRest
      · rw [hChars] at hWhole ⊢
        cases hWhole
        rw [first_of_ofChar? hShort]
        simp only [punctuation, List.cons_append, List.nil_append, hKind]
  | @reserved _ text hMem =>
      have hKeyword := Kind.keyword?_eq_some_iff.2 hMem
      obtain ⟨hFixed, hNumber, hString⟩ :=
        Kind.fixedText?_of_wordSpelling? (Kind.wordSpelling?_of_keyword? hKeyword)
      rw [hWordRead (isWord_of_mem_reservedWords hMem) hFixed hNumber hString, wordKind,
        String.ofList_toList, hKeyword]
      rfl
  | name hWord hFree =>
      rw [hWordRead hWord rfl (by decide) (by decide), wordKind, Kind.keyword?_eq_none_iff.2 hFree]
      rfl
  | whole hDigits =>
      rw [first_of_digit (hWhole ▸ hDigits).isDigit_head, hSource,
        numeral_append_of_ends hDigits hRest]
  | @fraction digits decimals hDigits hDecimals =>
      obtain ⟨hTaken, hDropped⟩ := takeWhile_of_head (isDigit_head_of_ends hRest)
      rw [first_of_digit (hDigits.isDigit_of_append hWhole), hSource, List.append_assoc,
        List.cons_append, numeral_fraction hDigits hDecimals, hTaken, hDropped, List.append_nil]
  | @string body hBody =>
      rw [List.cons_append] at hWhole ⊢
      cases hWhole
      rw [first_quote, List.append_assoc, List.singleton_append, quotation_closed hBody]
      rfl

end Piece

/-- No token goes on with a blank. -/
theorem Kind.not_goesOn_of_blank {kind : Kind} {char : Char} (h : char ∈ blanks) :
    ¬ kind.GoesOn char := by
  have hPart : ¬ (IsLetter char ∨ IsDigit char) := by
    intro hPart
    rw [← isBlank_iff, Piece.not_isBlank_of_word hPart] at h
    cases h
  intro hGoesOn
  cases hGoesOn with
  | sign _ => exact absurd h (by decide)
  | comment => exact absurd h (by decide)
  | point => exact absurd h (by decide)
  | digit hDigit => exact hPart (.inr hDigit)
  | word _ _ _ hWord => exact hPart hWord

namespace Kind

/-- A sign other than a slash ends before everything but an equals sign. -/
theorem endsBefore_of_fixed {kind : Kind} (hKind : kind.fixedText?.isSome) (hSlash : kind ≠ .slash)
    {rest : List Char} (hRest : ∀ char ∈ rest.head?, char ≠ '=') : kind.EndsBefore rest := by
  intro char hChar hGoesOn
  cases hGoesOn with
  | sign _ => exact hRest '=' hChar rfl
  | comment => exact hSlash rfl
  | point => cases hKind
  | digit _ => cases hKind
  | word hNone =>
      rw [hNone] at hKind
      cases hKind

theorem endsBefore_of_number {rest : List Char}
    (hRest : ∀ char ∈ rest.head?, ¬ IsDigit char ∧ char ≠ '.') : EndsBefore .number rest := by
  intro char hChar hGoesOn
  cases hGoesOn with
  | sign hKind => cases hKind
  | point => exact (hRest '.' hChar).2 rfl
  | digit hDigit => exact (hRest char hChar).1 hDigit
  | word _ hNumber => exact hNumber rfl

theorem not_goesOn_slash {kind : Kind} (hKind : kind ≠ .slash) : ¬ kind.GoesOn '/' := by
  intro hGoesOn
  cases hGoesOn with
  | comment => exact hKind rfl
  | digit hDigit => exact absurd hDigit (by decide)
  | word _ _ _ hPart => exact absurd hPart (by decide)

/-- What a token ends before is told by the first character. -/
theorem endsBefore_append {kind : Kind} {text : List Char} (hText : text ≠ [])
    (rest : List Char) : kind.EndsBefore (text ++ rest) ↔ kind.EndsBefore text := by
  obtain ⟨first, tail, rfl⟩ := List.exists_cons_of_ne_nil hText
  rfl

/-- A string ends with its closing quote, whatever comes behind it. -/
theorem endsBefore_of_string (rest : List Char) : EndsBefore .string rest := by
  intro char _ hGoesOn
  cases hGoesOn with
  | sign hKind => cases hKind
  | word _ _ hString => exact hString rfl

end Kind

end ExprLang
