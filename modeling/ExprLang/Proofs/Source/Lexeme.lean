import ExprLang.Source.Scan

/-!
# The texts of tokens

The token classes as sets of texts, described without looking at how source text is cut: tables for
punctuation and reserved words, and predicates for names, numbers and strings. The lemmas connect
the tests that the scanner makes on single characters with these classes.

## Main results

* `Kind.keyword?_eq_some_iff` — the look-up of reserved words is exactly the table.
* `Kind.fixedText?_cases` — a text of punctuation is one character, or one character and an equals
  sign.
* `Kind.lexeme_wordKind` — the kind that the scanner gives to a word is the one of its class.
-/

namespace ExprLang

/-! ## Character classes -/

/-- The characters between tokens that mean nothing. -/
def blanks : List Char := [' ', '\t', '\r', '\n']

/-- An ASCII letter or the underscore. -/
def IsLetter (char : Char) : Prop :=
  'a' ≤ char ∧ char ≤ 'z' ∨ 'A' ≤ char ∧ char ≤ 'Z' ∨ char = '_'

/-- An ASCII digit. -/
def IsDigit (char : Char) : Prop := '0' ≤ char ∧ char ≤ '9'

theorem isBlank_iff {char : Char} : Piece.isBlank char = true ↔ char ∈ blanks := by
  simp [Piece.isBlank, blanks, or_assoc]

theorem isDigit_iff {char : Char} : char.isDigit = true ↔ IsDigit char := by
  simp [Char.isDigit, IsDigit, Char.le_def]

theorem isWordStart_iff {char : Char} : Piece.isWordStart char = true ↔ IsLetter char := by
  have hUpper : char.isUpper = decide ('A' ≤ char ∧ char ≤ 'Z') := rfl
  have hLower : char.isLower = (decide ('a' ≤ char) && decide (char ≤ 'z')) := rfl
  have hAlpha : char.isAlpha = (char.isUpper || char.isLower) := rfl
  simp only [Piece.isWordStart, hAlpha, hUpper, hLower, IsLetter, Bool.or_eq_true,
    Bool.and_eq_true, decide_eq_true_eq, beq_iff_eq]
  rw [or_assoc, or_left_comm]

theorem isWordPart_iff {char : Char} :
    Piece.isWordPart char = true ↔ IsLetter char ∨ IsDigit char := by
  rw [← isWordStart_iff, ← isDigit_iff]
  simp only [Piece.isWordPart, Piece.isWordStart, Char.isAlphanum, Bool.or_eq_true]
  exact or_right_comm

/-! ## Tables -/

namespace Kind

/-- The texts of punctuation and operators. -/
def fixedText? : Kind → Option String
  | leftParen => some "("
  | rightParen => some ")"
  | leftBrace => some "\x7b"
  | rightBrace => some "\x7d"
  | comma => some ","
  | dot => some "."
  | minus => some "-"
  | plus => some "+"
  | semicolon => some ";"
  | slash => some "/"
  | star => some "*"
  | bang => some "!"
  | bangEqual => some "!="
  | equal => some "="
  | equalEqual => some "=="
  | greater => some ">"
  | greaterEqual => some ">="
  | less => some "<"
  | lessEqual => some "<="
  | _ => none

/-- The sixteen reserved words. -/
def reservedWords : List (String × Kind) :=
  [("and", andWord), ("class", classWord), ("else", elseWord), ("false", falseWord),
    ("for", forWord), ("fun", funWord), ("if", ifWord), ("nill", nilWord), ("or", orWord),
    ("print", printWord), ("return", returnWord), ("super", superWord), ("this", thisWord),
    ("true", trueWord), ("var", varWord), ("while", whileWord)]

theorem wordSpelling?_of_keyword? {text : String} {kind : Kind} (h : keyword? text = some kind) :
    kind.wordSpelling? = some text := by
  simpa using List.find?_some h

theorem keyword?_eq_some_iff {text : String} {kind : Kind} :
    keyword? text = some kind ↔ (text, kind) ∈ reservedWords := by
  constructor
  · intro h
    have hSpelling := wordSpelling?_of_keyword? h
    cases kind <;> cases hSpelling <;> decide
  · intro h
    simp only [reservedWords, List.mem_cons, Prod.mk.injEq, List.not_mem_nil, or_false] at h
    rcases h with ⟨rfl, rfl⟩ | ⟨rfl, rfl⟩ | ⟨rfl, rfl⟩ | ⟨rfl, rfl⟩ | ⟨rfl, rfl⟩ | ⟨rfl, rfl⟩ |
      ⟨rfl, rfl⟩ | ⟨rfl, rfl⟩ | ⟨rfl, rfl⟩ | ⟨rfl, rfl⟩ | ⟨rfl, rfl⟩ | ⟨rfl, rfl⟩ | ⟨rfl, rfl⟩ |
      ⟨rfl, rfl⟩ | ⟨rfl, rfl⟩ | ⟨rfl, rfl⟩
    all_goals decide

theorem keyword?_eq_none_iff {text : String} :
    keyword? text = none ↔ ∀ kind, (text, kind) ∉ reservedWords := by
  simp only [← keyword?_eq_some_iff, Option.eq_none_iff_forall_ne_some]

/-- A text of punctuation is one character, or such a character and an equals sign. -/
theorem fixedText?_cases {kind : Kind} {text : String} (h : kind.fixedText? = some text) :
    (∃ char, text.toList = [char] ∧ ofChar? char = some kind) ∨
      ∃ char short, text.toList = [char, '='] ∧ ofChar? char = some short ∧
        short.withEqual? = some kind := by
  cases kind with
  | bangEqual =>
      cases h
      exact .inr ⟨'!', _, rfl, rfl, rfl⟩
  | equalEqual =>
      cases h
      exact .inr ⟨'=', _, rfl, rfl, rfl⟩
  | greaterEqual =>
      cases h
      exact .inr ⟨'>', _, rfl, rfl, rfl⟩
  | lessEqual =>
      cases h
      exact .inr ⟨'<', _, rfl, rfl, rfl⟩
  | _ => cases h <;> exact .inl ⟨_, rfl, rfl⟩

theorem fixedText?_of_ofChar? {char : Char} {kind : Kind} (h : ofChar? char = some kind) :
    kind.fixedText? = some (String.ofList [char]) := by
  unfold ofChar? at h
  split at h <;> cases h <;> rfl

theorem fixedText?_of_withEqual? {char : Char} {short kind : Kind}
    (hChar : ofChar? char = some short) (hKind : short.withEqual? = some kind) :
    kind.fixedText? = some (String.ofList [char, '=']) := by
  unfold ofChar? at hChar
  split at hChar <;> cases hChar <;> cases hKind <;> rfl

end Kind

/-! ## Texts of tokens -/

/-- A letter, and after it letters and digits. -/
def IsWord (text : List Char) : Prop :=
  (∃ first ∈ text.head?, IsLetter first) ∧ ∀ char ∈ text, IsLetter char ∨ IsDigit char

/-- One or more digits. -/
def IsNumeral (text : List Char) : Prop := text ≠ [] ∧ ∀ char ∈ text, IsDigit char

theorem IsWord.exists_cons {text : List Char} (h : IsWord text) :
    ∃ first tail, text = first :: tail ∧ IsLetter first := by
  obtain ⟨⟨first, hFirst, hLetter⟩, _⟩ := h
  obtain ⟨tail, rfl⟩ := List.head?_eq_some_iff.1 hFirst
  exact ⟨first, tail, rfl, hLetter⟩

theorem IsWord.isLetter_head {char : Char} {tail : List Char} (h : IsWord (char :: tail)) :
    IsLetter char := by
  obtain ⟨_, _, hCons, hLetter⟩ := h.exists_cons
  cases hCons
  exact hLetter

theorem IsNumeral.isDigit_head {char : Char} {tail : List Char} (h : IsNumeral (char :: tail)) :
    IsDigit char := h.2 char List.mem_cons_self

theorem IsNumeral.exists_cons {digits : List Char} (h : IsNumeral digits) :
    ∃ first tail, digits = first :: tail ∧ IsDigit first := by
  obtain ⟨first, tail, rfl⟩ := List.exists_cons_of_ne_nil h.1
  exact ⟨first, tail, rfl, h.2 first List.mem_cons_self⟩

theorem IsNumeral.isDigit_of_append {digits rest tail : List Char} {char : Char}
    (h : IsNumeral digits) (hCons : char :: tail = digits ++ rest) : IsDigit char := by
  obtain ⟨_, _, rfl, hDigit⟩ := h.exists_cons
  cases hCons
  exact hDigit

theorem IsNumeral.isDigit {digits : List Char} (h : IsNumeral digits) :
    ∀ char ∈ digits, char.isDigit = true :=
  fun char hMem => isDigit_iff.2 (h.2 char hMem)

theorem IsWord.isWordPart {text : List Char} (h : IsWord text) :
    ∀ char ∈ text, Piece.isWordPart char = true :=
  fun char hMem => isWordPart_iff.2 (h.2 char hMem)

/-- The texts of the tokens of a kind. -/
inductive Kind.Lexeme : Kind → List Char → Prop where
  | fixed {kind : Kind} {text : String} :
      kind.fixedText? = some text → Lexeme kind text.toList
  | reserved {kind : Kind} {text : String} :
      (text, kind) ∈ Kind.reservedWords → Lexeme kind text.toList
  | name {text : List Char} :
      IsWord text → (∀ kind, (String.ofList text, kind) ∉ Kind.reservedWords) →
      Lexeme .identifier text
  | whole {digits : List Char} : IsNumeral digits → Lexeme .number digits
  | fraction {digits decimals : List Char} :
      IsNumeral digits → IsNumeral decimals → Lexeme .number (digits ++ '.' :: decimals)
  | string {body : List Char} : '"' ∉ body → Lexeme .string ('"' :: body ++ ['"'])

instance : DecidablePred IsLetter := fun _ => inferInstanceAs (Decidable (_ ∨ _))

instance : DecidablePred IsDigit := fun _ => inferInstanceAs (Decidable (_ ∧ _))

theorem isWord_iff {text : List Char} :
    text.head?.any Piece.isWordStart ∧ text.all Piece.isWordPart ↔ IsWord text := by
  simp only [Option.any_eq_true, List.all_eq_true, isWordStart_iff, isWordPart_iff, IsWord,
    Option.mem_def]

-- The tests on characters decide this. A search for an instance may find one that goes through
-- all characters.
instance : DecidablePred IsWord := fun _ => decidable_of_iff _ isWord_iff

theorem isNumeral_iff {text : List Char} :
    text ≠ [] ∧ text.all Char.isDigit = true ↔ IsNumeral text := by
  simp only [List.all_eq_true, isDigit_iff, IsNumeral]

instance : DecidablePred IsNumeral := fun _ => decidable_of_iff _ isNumeral_iff

theorem isWord_of_mem_reservedWords {text : String} {kind : Kind}
    (h : (text, kind) ∈ Kind.reservedWords) : IsWord text.toList := by
  have hSpelling := Kind.wordSpelling?_of_keyword? (Kind.keyword?_eq_some_iff.2 h)
  cases kind <;> cases hSpelling <;> decide

theorem Kind.lexeme_wordKind {text : List Char} (h : IsWord text) :
    Kind.Lexeme (Piece.wordKind text) text := by
  unfold Piece.wordKind
  cases hFound : keyword? (String.ofList text) with
  | some kind =>
      have hLexeme := Lexeme.reserved (keyword?_eq_some_iff.1 hFound)
      rwa [String.toList_ofList] at hLexeme
  | none =>
      exact .name h (keyword?_eq_none_iff.1 hFound)

theorem Kind.Lexeme.kind_ne_eof {kind : Kind} {text : List Char} (h : Kind.Lexeme kind text) :
    kind ≠ .eof := by
  rintro rfl
  cases h with
  | fixed hText => cases hText
  | reserved hMem => simp [Kind.reservedWords] at hMem

end ExprLang
