import ExprLang.Proofs.Source.Lexeme
import Mathlib.Data.List.TakeWhile

/-!
# The first piece of a source text is the longest match

The classes of pieces are sets of texts. The scanner cuts off the longest text at the front of the
source that is in one of them, and one character if none is. The proof goes through the classes:
whatever text of a class stands at the front, the piece that is cut off there is at least as long.

## Main results

* `Piece.longest_first` — no text of a class at the front is longer than the first piece.
* `Piece.inClass_first`, `Piece.first_of_not_opening` — the first piece is in its class, or it is a
  rejected character with which no text of a class begins.
* `Piece.first_eq_of_longest` — a longest match at the front is the first piece.
-/

namespace ExprLang

namespace Piece

/-! ## Classes -/

/-- A piece is a blank, a comment, the text of a token or a string that is not closed. A rejected
character is in no class: it is what is left where no class has a text. -/
def InClass : Piece → Prop
  | blank char => char ∈ blanks
  | comment body => '\n' ∉ body
  | lexeme kind text => kind.Lexeme text
  | rejected _ => False
  | unterminated body => '"' ∉ body

/-- A comment ends where the line or the source text ends, and a string without a closing quote
where the source text ends. -/
def EndsBefore : Piece → List Char → Prop
  | comment _, rest => ∀ char ∈ rest.head?, char = '\n'
  | unterminated _, rest => rest = []
  | _, _ => True

/-- No piece of a class that stands at the front of the source is longer than this one. -/
def Longest (piece : Piece) (rest : List Char) : Prop :=
  ∀ other : Piece, other.InClass → other.text <+: piece.text ++ rest →
    other.text.length ≤ piece.text.length

/-- The texts of the classes, told apart by how they begin. -/
inductive Shape : List Char → Prop where
  | blank {char : Char} : char ∈ blanks → Shape [char]
  | comment {body : List Char} : '\n' ∉ body → Shape ('/' :: '/' :: body)
  | word {text : List Char} : IsWord text → Shape text
  | whole {digits : List Char} : IsNumeral digits → Shape digits
  | fraction {digits decimals : List Char} :
      IsNumeral digits → IsNumeral decimals → Shape (digits ++ '.' :: decimals)
  | string {body : List Char} : '"' ∉ body → Shape ('"' :: body ++ ['"'])
  | unterminated {body : List Char} : '"' ∉ body → Shape ('"' :: body)
  | single {char : Char} {kind : Kind} : Kind.ofChar? char = some kind → Shape [char]
  | double {char : Char} {kind longer : Kind} :
      Kind.ofChar? char = some kind → kind.withEqual? = some longer → Shape [char, '=']

theorem InClass.shape {piece : Piece} (h : piece.InClass) : Shape piece.text := by
  match piece with
  | .blank char => exact .blank h
  | .comment body => exact .comment h
  | .unterminated body => exact .unterminated h
  | .lexeme kind text =>
      have hLexeme : kind.Lexeme text := h
      cases hLexeme with
      | fixed hText =>
          rcases Kind.fixedText?_cases hText with ⟨char, hChars, hKind⟩ |
            ⟨char, short, hChars, hShort, hKind⟩
          · exact hChars ▸ Shape.single hKind
          · exact hChars ▸ Shape.double hShort hKind
      | reserved hMem => exact .word (isWord_of_mem_reservedWords hMem)
      | name hWord _ => exact .word hWord
      | whole hDigits => exact .whole hDigits
      | fraction hDigits hDecimals => exact .fraction hDigits hDecimals
      | string hBody => exact .string hBody

/-! ## How the first piece is chosen -/

theorem first_of_blank {char : Char} (h : char ∈ blanks) (rest : List Char) :
    first char rest = (blank char, rest) := by
  rw [first, if_pos (isBlank_iff.2 h)]

theorem not_isBlank_of_word {char : Char} (h : IsLetter char ∨ IsDigit char) :
    isBlank char = false := by
  rw [Bool.eq_false_iff, Ne, isBlank_iff]
  intro hBlank
  simp only [blanks, List.mem_cons, List.not_mem_nil, or_false] at hBlank
  rcases hBlank with rfl | rfl | rfl | rfl <;> exact absurd h (by decide)

theorem first_of_digit {char : Char} (h : IsDigit char) (rest : List Char) :
    first char rest = numeral (char :: rest) := by
  rw [first, not_isBlank_of_word (.inr h), isDigit_iff.2 h]
  rfl

theorem not_isDigit_of_letter {char : Char} (h : IsLetter char) : char.isDigit = false := by
  rw [Bool.eq_false_iff, Ne, isDigit_iff]
  simp only [IsLetter, IsDigit, Char.le_def, UInt32.le_iff_toNat_le] at h ⊢
  rcases h with h | h | rfl
  · simp only [Char.reduceVal, UInt32.reduceToNat] at h ⊢
    omega
  · simp only [Char.reduceVal, UInt32.reduceToNat] at h ⊢
    omega
  · decide

theorem first_of_letter {char : Char} (h : IsLetter char) (rest : List Char) :
    first char rest = word (char :: rest) := by
  rw [first, not_isBlank_of_word (.inl h), not_isDigit_of_letter h, isWordStart_iff.2 h]
  rfl

theorem first_quote (rest : List Char) : first '"' rest = quotation rest := rfl

/-- Characters of punctuation are in no other class. -/
theorem first_of_ofChar? {char : Char} {kind : Kind} (h : Kind.ofChar? char = some kind)
    (rest : List Char) : first char rest = punctuation char kind rest := by
  unfold Kind.ofChar? at h
  split at h <;> cases h <;> rfl

/-! ## Reading words, numbers and strings -/

theorem word_append {text : List Char} (hText : ∀ char ∈ text, isWordPart char = true)
    (rest : List Char) :
    word (text ++ rest) =
      (lexeme (wordKind (text ++ rest.takeWhile isWordPart)) (text ++ rest.takeWhile isWordPart),
        rest.dropWhile isWordPart) := by
  rw [word, List.takeWhile_append_of_pos hText, List.dropWhile_append_of_pos hText]

/-- Characters that pass a test are taken up to the first one that does not. -/
theorem takeWhile_append_mark {test : Char → Bool} {chars : List Char} {mark : Char}
    (h : ∀ char ∈ chars, test char = true) (hMark : test mark = false) (rest : List Char) :
    (chars ++ mark :: rest).takeWhile test = chars ∧
      (chars ++ mark :: rest).dropWhile test = mark :: rest := by
  rw [List.takeWhile_append_of_pos h, List.dropWhile_append_of_pos h]
  simp [hMark]

theorem numeral_digits {digits : List Char} (h : IsNumeral digits) :
    numeral digits = (lexeme .number digits, []) := by
  have hTaken := List.takeWhile_eq_self_iff.2 h.isDigit
  have hDropped := List.dropWhile_eq_nil_iff.2 h.isDigit
  simp only [numeral, hTaken, hDropped]

theorem numeral_fraction {digits decimals : List Char} (hDigits : IsNumeral digits)
    (hDecimals : IsNumeral decimals) (rest : List Char) :
    numeral (digits ++ '.' :: (decimals ++ rest)) =
      (lexeme .number (digits ++ '.' :: (decimals ++ rest.takeWhile Char.isDigit)),
        rest.dropWhile Char.isDigit) := by
  have hPoint : Char.isDigit '.' = false := rfl
  obtain ⟨hWhole, hRest⟩ := takeWhile_append_mark hDigits.isDigit hPoint (decimals ++ rest)
  have hNonempty : (decimals ++ rest.takeWhile Char.isDigit).isEmpty = false := by
    simp [hDecimals.1]
  simp only [numeral, hWhole, hRest, List.takeWhile_append_of_pos hDecimals.isDigit,
    List.dropWhile_append_of_pos hDecimals.isDigit, hNonempty]
  rfl

/-- A number is at least as long as the digits at the front. -/
theorem length_takeWhile_le_numeral (chars : List Char) :
    (chars.takeWhile Char.isDigit).length ≤ (numeral chars).1.text.length := by
  simp only [numeral]
  split
  · split
    · exact le_rfl
    · simp only [text, List.length_append]
      omega
  · exact le_rfl

theorem all_ne_of_notMem {mark : Char} {body : List Char} (h : mark ∉ body) :
    ∀ char ∈ body, decide (char ≠ mark) = true := by
  intro char hMem
  exact decide_eq_true fun hEq => h (hEq ▸ hMem)

theorem quotation_closed {body : List Char} (h : '"' ∉ body) (rest : List Char) :
    quotation (body ++ '"' :: rest) = (lexeme .string ('"' :: body ++ ['"']), rest) := by
  have hBody := all_ne_of_notMem h
  have hQuote : decide ('"' ≠ '"') = false := rfl
  obtain ⟨hTaken, hDropped⟩ := takeWhile_append_mark hBody hQuote rest
  simp only [quotation, hTaken, hDropped]

theorem quotation_open {body : List Char} (h : '"' ∉ body) :
    quotation body = (unterminated body, []) := by
  have hBody := all_ne_of_notMem h
  have hTaken := List.takeWhile_eq_self_iff.2 hBody
  have hDropped := List.dropWhile_eq_nil_iff.2 hBody
  simp only [quotation, hTaken, hDropped]

/-- Either way of reading a string takes in the opening quote and all that is not a quote. -/
theorem length_takeWhile_lt_quotation (chars : List Char) :
    (chars.takeWhile (· ≠ '"')).length < (quotation chars).1.text.length := by
  simp only [quotation]
  split
  · simp only [text, List.cons_append, List.length_cons, List.length_append]
    omega
  · exact Nat.lt_succ_self _

/-! ## No text of a class is longer -/

/-- The characters with which the texts of the classes begin. -/
def Opening (char : Char) : Prop :=
  char ∈ blanks ∨ IsDigit char ∨ IsLetter char ∨ char = '"' ∨
    ∃ kind, Kind.ofChar? char = some kind

theorem Shape.opening {text : List Char} (h : Shape text) :
    ∃ char tail, text = char :: tail ∧ Opening char := by
  cases h with
  | blank hBlank => exact ⟨_, _, rfl, .inl hBlank⟩
  | comment hBody => exact ⟨_, _, rfl, .inr (.inr (.inr (.inr ⟨.slash, rfl⟩)))⟩
  | word hWord =>
      obtain ⟨letter, tail, rfl, hLetter⟩ := hWord.exists_cons
      exact ⟨letter, tail, rfl, .inr (.inr (.inl hLetter))⟩
  | whole hDigits =>
      obtain ⟨digit, tail, rfl, hDigit⟩ := hDigits.exists_cons
      exact ⟨digit, tail, rfl, .inr (.inl hDigit)⟩
  | fraction hDigits hDecimals =>
      obtain ⟨digit, tail, rfl, hDigit⟩ := hDigits.exists_cons
      exact ⟨digit, _, rfl, .inr (.inl hDigit)⟩
  | string hBody => exact ⟨_, _, rfl, .inr (.inr (.inr (.inl rfl)))⟩
  | unterminated hBody => exact ⟨_, _, rfl, .inr (.inr (.inr (.inl rfl)))⟩
  | single hKind => exact ⟨_, _, rfl, .inr (.inr (.inr (.inr ⟨_, hKind⟩)))⟩
  | double hKind hLonger => exact ⟨_, _, rfl, .inr (.inr (.inr (.inr ⟨_, hKind⟩)))⟩

/-- Whatever comes after a text of a class, the piece that is cut off is at least as long. -/
theorem length_le_first {char : Char} {chars : List Char} (h : Shape (char :: chars))
    (tail : List Char) :
    (char :: chars).length ≤ (first char (chars ++ tail)).1.text.length := by
  have hPos : 1 ≤ (first char (chars ++ tail)).1.text.length :=
    List.length_pos_iff.2 (text_first_ne_nil char (chars ++ tail))
  generalize hChars : char :: chars = whole at h
  cases h with
  | blank hBlank =>
      cases hChars
      exact hPos
  | single hKind =>
      cases hChars
      exact hPos
  | @comment body hBody =>
      cases hChars
      -- A slash is read as punctuation, which turns into a comment before a second slash.
      show _ ≤ (comment ((body ++ tail).takeWhile (· ≠ '\n'))).text.length
      rw [List.takeWhile_append_of_pos (all_ne_of_notMem hBody)]
      simp only [text, List.length_cons, List.length_append]
      omega
  | word hWord =>
      subst hChars
      rw [first_of_letter hWord.isLetter_head, ← List.cons_append, word_append hWord.isWordPart]
      simp only [text, List.length_append]
      omega
  | whole hDigits =>
      subst hChars
      have hTaken := length_takeWhile_le_numeral (char :: chars ++ tail)
      rw [List.takeWhile_append_of_pos hDigits.isDigit, List.length_append] at hTaken
      rw [first_of_digit hDigits.isDigit_head, ← List.cons_append]
      omega
  | @fraction digits decimals hDigits hDecimals =>
      have hRead := numeral_fraction hDigits hDecimals tail
      have hSource : char :: (chars ++ tail) = digits ++ '.' :: (decimals ++ tail) := by
        rw [← List.cons_append, hChars, List.append_assoc, List.cons_append]
      rw [first_of_digit (hDigits.isDigit_of_append hChars), hSource, hRead]
      simp only [text, List.length_append, List.length_cons]
      omega
  | @string body hBody =>
      rw [List.cons_append] at hChars ⊢
      cases hChars
      rw [first_quote, List.append_assoc, List.singleton_append, quotation_closed hBody]
      exact le_rfl
  | unterminated hBody =>
      cases hChars
      have hTaken := length_takeWhile_lt_quotation (chars ++ tail)
      rw [List.takeWhile_append_of_pos (all_ne_of_notMem hBody), List.length_append] at hTaken
      rw [first_quote, List.length_cons]
      omega
  | double hKind hLonger =>
      cases hChars
      rw [first_of_ofChar? hKind]
      simp only [punctuation, List.cons_append, hLonger]
      exact le_rfl

/-! ## The first piece is in its class -/

theorem inClass_word {char : Char} (h : IsLetter char) (rest : List Char) :
    (word (char :: rest)).1.InClass := by
  have hPart : isWordPart char = true := isWordPart_iff.2 (.inl h)
  refine Kind.lexeme_wordKind ⟨⟨char, ?_, h⟩, fun other hMem => ?_⟩
  · rw [List.takeWhile_cons_of_pos hPart]
    rfl
  · exact isWordPart_iff.1 (List.mem_takeWhile_imp hMem)

theorem isNumeral_takeWhile {chars : List Char} (h : chars.takeWhile Char.isDigit ≠ []) :
    IsNumeral (chars.takeWhile Char.isDigit) :=
  ⟨h, fun _ hMem => isDigit_iff.1 (List.mem_takeWhile_imp hMem)⟩

theorem inClass_numeral {char : Char} (h : IsDigit char) (rest : List Char) :
    (numeral (char :: rest)).1.InClass := by
  have hWhole : IsNumeral ((char :: rest).takeWhile Char.isDigit) := by
    refine isNumeral_takeWhile ?_
    rw [List.takeWhile_cons_of_pos (isDigit_iff.2 h)]
    exact List.cons_ne_nil _ _
  simp only [numeral]
  split
  · split
    · exact .whole hWhole
    · rename_i hNonempty
      refine .fraction hWhole (isNumeral_takeWhile fun hEmpty => hNonempty ?_)
      rw [hEmpty]
      rfl
  · exact .whole hWhole

theorem notMem_takeWhile_ne (mark : Char) (chars : List Char) :
    mark ∉ chars.takeWhile (· ≠ mark) := by
  intro hMem
  simpa using List.mem_takeWhile_imp hMem

theorem eq_of_head?_dropWhile_ne {mark char : Char} {chars : List Char}
    (h : char ∈ (chars.dropWhile (· ≠ mark)).head?) : char = mark := by
  have hNot := List.head?_dropWhile_not (· ≠ mark) chars
  rw [Option.mem_def.1 h] at hNot
  simpa using hNot

theorem inClass_quotation (chars : List Char) :
    (quotation chars).1.InClass ∧ (quotation chars).1.EndsBefore (quotation chars).2 := by
  have hBody := notMem_takeWhile_ne '"' chars
  simp only [quotation]
  split
  · rename_i quote tail hDropped
    have hQuote : quote = '"' :=
      eq_of_head?_dropWhile_ne (by rw [hDropped]; rfl)
    exact ⟨hQuote ▸ .string hBody, trivial⟩
  · exact ⟨hBody, rfl⟩

theorem inClass_punctuation {char : Char} {kind : Kind} (h : Kind.ofChar? char = some kind)
    (rest : List Char) :
    (punctuation char kind rest).1.InClass ∧
      (punctuation char kind rest).1.EndsBefore (punctuation char kind rest).2 := by
  have hShort : Kind.Lexeme kind [char] := by
    simpa using Kind.Lexeme.fixed (Kind.fixedText?_of_ofChar? h)
  unfold punctuation
  split
  · split
    · rename_i longer hLonger
      have hLong : Kind.Lexeme longer [char, '='] := by
        simpa using Kind.Lexeme.fixed (Kind.fixedText?_of_withEqual? h hLonger)
      exact ⟨hLong, trivial⟩
    · exact ⟨hShort, trivial⟩
  · rename_i tail
    split
    · exact ⟨notMem_takeWhile_ne '\n' tail, fun _ hNext => eq_of_head?_dropWhile_ne hNext⟩
    · exact ⟨hShort, trivial⟩
  · exact ⟨hShort, trivial⟩

/-- A piece that begins with an opening character is in its class and ends where it may end. -/
theorem inClass_first {char : Char} (h : Opening char) (rest : List Char) :
    (first char rest).1.InClass ∧ (first char rest).1.EndsBefore (first char rest).2 := by
  rcases h with hBlank | hDigit | hLetter | rfl | ⟨kind, hKind⟩
  · rw [first_of_blank hBlank]
    exact ⟨hBlank, trivial⟩
  · rw [first_of_digit hDigit]
    refine ⟨inClass_numeral hDigit rest, ?_⟩
    simp only [numeral]
    split
    · split <;> trivial
    · trivial
  · rw [first_of_letter hLetter]
    exact ⟨inClass_word hLetter rest, trivial⟩
  · exact inClass_quotation rest
  · rw [first_of_ofChar? hKind]
    exact inClass_punctuation hKind rest

theorem first_of_not_opening {char : Char} (h : ¬ Opening char) (rest : List Char) :
    first char rest = (rejected char, rest) := by
  simp only [Opening, not_or, not_exists] at h
  obtain ⟨hBlank, hDigit, hLetter, hQuote, hKind⟩ := h
  have hNone : Kind.ofChar? char = none := Option.eq_none_iff_forall_not_mem.2 hKind
  rw [← isBlank_iff] at hBlank
  rw [← isDigit_iff] at hDigit
  rw [← isWordStart_iff] at hLetter
  rw [first, if_neg hBlank, if_neg hDigit, if_neg hLetter, if_neg hQuote, hNone]

/-! ## The longest match -/

theorem opening_of_isPrefix {piece : Piece} (h : piece.InClass) {char : Char} {rest : List Char}
    (hPrefix : piece.text <+: char :: rest) : Opening char := by
  obtain ⟨first, tail, hText, hOpening⟩ := h.shape.opening
  rw [hText, List.cons_prefix_cons] at hPrefix
  exact hPrefix.1 ▸ hOpening

/-- The first piece is the longest match. -/
theorem longest_first (char : Char) (rest : List Char) :
    (first char rest).1.Longest (first char rest).2 := by
  intro other hOther hPrefix
  have hShape := hOther.shape
  obtain ⟨opening, chars, hText, _⟩ := hShape.opening
  rw [text_first, hText, List.cons_prefix_cons] at hPrefix
  obtain ⟨rfl, tail, rfl⟩ := hPrefix
  rw [hText] at hShape ⊢
  exact length_le_first hShape tail

theorem first_of_lexeme {kind : Kind} {char : Char} {tail : List Char}
    (h : kind.Lexeme (char :: tail)) : first char tail = (lexeme kind (char :: tail), []) := by
  generalize hWhole : char :: tail = whole at h
  have hWordRead : IsWord whole → first char tail = (lexeme (wordKind whole) whole, []) := by
    intro hWord
    have hRead := word_append hWord.isWordPart []
    subst hWhole
    rw [first_of_letter hWord.isLetter_head]
    simpa using hRead
  cases h with
  | fixed hText =>
      rcases Kind.fixedText?_cases hText with ⟨_, hChars, hKind⟩ | ⟨_, _, hChars, hShort, hKind⟩
      · rw [hChars] at hWhole ⊢
        cases hWhole
        rw [first_of_ofChar? hKind]
        rfl
      · rw [hChars] at hWhole ⊢
        cases hWhole
        rw [first_of_ofChar? hShort]
        simp only [punctuation, hKind]
  | reserved hMem =>
      rw [hWordRead (isWord_of_mem_reservedWords hMem), wordKind, String.ofList_toList,
        Kind.keyword?_eq_some_iff.2 hMem]
      rfl
  | name hWord hFree =>
      rw [hWordRead hWord, wordKind, Kind.keyword?_eq_none_iff.2 hFree]
      rfl
  | whole hDigits =>
      subst hWhole
      rw [first_of_digit hDigits.isDigit_head, numeral_digits hDigits]
  | fraction hDigits hDecimals =>
      have hRead := numeral_fraction hDigits hDecimals []
      rw [first_of_digit (hDigits.isDigit_of_append hWhole), hWhole]
      simpa using hRead
  | string hBody =>
      rw [List.cons_append] at hWhole ⊢
      cases hWhole
      exact quotation_closed hBody []

/-- The text of a class is cut off as the piece of that class. -/
theorem first_of_inClass {piece : Piece} (h : piece.InClass) {char : Char} {tail : List Char}
    (hText : piece.text = char :: tail) : first char tail = (piece, []) := by
  cases piece with
  | blank mark =>
      cases hText
      exact first_of_blank h []
  | comment body =>
      cases hText
      have hBody := all_ne_of_notMem h
      show (comment (body.takeWhile (· ≠ '\n')), body.dropWhile (· ≠ '\n')) = _
      rw [List.takeWhile_eq_self_iff.2 hBody, List.dropWhile_eq_nil_iff.2 hBody]
  | lexeme kind text =>
      have hLexeme : kind.Lexeme text := h
      rw [show text = char :: tail from hText] at hLexeme ⊢
      exact first_of_lexeme hLexeme
  | rejected mark => exact h.elim
  | unterminated body =>
      cases hText
      exact quotation_open h

/-- A text is the text of at most one piece that is in its class. -/
theorem InClass.eq_of_text_eq {piece other : Piece} (h : piece.InClass) (hOther : other.InClass)
    (hText : piece.text = other.text) : piece = other := by
  obtain ⟨char, tail, hCons, _⟩ := h.shape.opening
  have hFirst := first_of_inClass h hCons
  rw [first_of_inClass hOther (hText ▸ hCons)] at hFirst
  exact (congrArg Prod.fst hFirst).symm

/-- A longest match at the front of the source is the first piece of the source. -/
theorem first_eq_of_longest {piece : Piece} {rest : List Char} (h : piece.InClass)
    (hLongest : piece.Longest rest) {char : Char} {tail : List Char}
    (hSource : piece.text ++ rest = char :: tail) : first char tail = (piece, rest) := by
  have hOpening : Opening char := opening_of_isPrefix h ⟨rest, hSource⟩
  have hInClass := (inClass_first hOpening tail).1
  have hWhole := text_first char tail
  have hLength : (first char tail).1.text.length = piece.text.length := by
    refine Nat.le_antisymm (hLongest _ hInClass ?_) (longest_first char tail _ h ?_)
    · exact ⟨_, hWhole.trans hSource.symm⟩
    · exact ⟨_, hSource.trans hWhole.symm⟩
  obtain ⟨hText, hRest⟩ := List.append_inj (hWhole.trans hSource.symm) hLength
  exact Prod.ext (hInClass.eq_of_text_eq h hText) hRest

end Piece

end ExprLang
