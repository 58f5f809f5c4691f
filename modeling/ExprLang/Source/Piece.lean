import ExprLang.Token.Kind

/-!
# Pieces of source text

Source text is cut from the left into pieces, each as long as possible: blanks, comments, the
texts of tokens, characters that fit nowhere, and at the very end perhaps a string whose closing
quote is missing. Nothing is dropped at this stage, so the pieces put together again are the
source text.
-/

namespace ExprLang

/-- A piece of source text. -/
inductive Piece where
  /-- A space, tab, carriage return or line feed. -/
  | blank (char : Char)
  /-- Two slashes and the rest of the line. -/
  | comment (body : List Char)
  /-- The text of a token. -/
  | lexeme (kind : Kind) (text : List Char)
  /-- A character that begins no piece of another sort. -/
  | rejected (char : Char)
  /-- An opening quote and the rest of the source text, which holds no other quote. -/
  | unterminated (body : List Char)
deriving DecidableEq, Repr

namespace Piece

/-- The source text of a piece. -/
def text : Piece → List Char
  | blank char => [char]
  | comment body => '/' :: '/' :: body
  | lexeme _ text => text
  | rejected char => [char]
  | unterminated body => '"' :: body

/-- The characters between tokens that mean nothing. -/
def isBlank (char : Char) : Bool := char == ' ' || char == '\t' || char == '\r' || char == '\n'

/-- The characters that begin a name or a reserved word: ASCII letters and the underscore. -/
def isWordStart (char : Char) : Bool := char.isAlpha || char == '_'

/-- The characters that continue a name or a reserved word. -/
def isWordPart (char : Char) : Bool := char.isAlphanum || char == '_'

/-- The kind of a word: that of the reserved word, or else a name. -/
def wordKind (text : List Char) : Kind := (Kind.keyword? (String.ofList text)).getD .identifier

/-- The word at the front of a text, and what follows it. -/
def word (chars : List Char) : Piece × List Char :=
  let text := chars.takeWhile isWordPart
  (lexeme (wordKind text) text, chars.dropWhile isWordPart)

/-- The number at the front of a text, and what follows it. A point belongs to the number only
if a digit follows it. -/
def numeral (chars : List Char) : Piece × List Char :=
  let whole := chars.takeWhile Char.isDigit
  let rest := chars.dropWhile Char.isDigit
  match rest with
  | '.' :: tail =>
    let fraction := tail.takeWhile Char.isDigit
    if fraction.isEmpty then (lexeme .number whole, rest)
    else (lexeme .number (whole ++ '.' :: fraction), tail.dropWhile Char.isDigit)
  | _ => (lexeme .number whole, rest)

/-- The string after an opening quote, and what follows it. -/
def quotation (chars : List Char) : Piece × List Char :=
  let body := chars.takeWhile (· ≠ '"')
  match chars.dropWhile (· ≠ '"') with
  | quote :: tail => (lexeme .string ('"' :: body ++ [quote]), tail)
  | [] => (unterminated body, [])

/-- The piece that begins with a character of punctuation or an operator, and what follows it. -/
def punctuation (char : Char) (kind : Kind) (rest : List Char) : Piece × List Char :=
  match rest with
  | '=' :: tail =>
    match kind.withEqual? with
    | some longer => (lexeme longer [char, '='], tail)
    | none => (lexeme kind [char], rest)
  | '/' :: tail =>
    if kind = .slash then (comment (tail.takeWhile (· ≠ '\n')), tail.dropWhile (· ≠ '\n'))
    else (lexeme kind [char], rest)
  | _ => (lexeme kind [char], rest)

/-- The first piece of the text that begins with `char` and goes on with `rest`, and what
follows it. -/
def first (char : Char) (rest : List Char) : Piece × List Char :=
  if isBlank char then (blank char, rest)
  else if char.isDigit then numeral (char :: rest)
  else if isWordStart char then word (char :: rest)
  else if char = '"' then quotation rest
  else match Kind.ofChar? char with
    | some kind => punctuation char kind rest
    | none => (rejected char, rest)

/-! ## A piece and what follows it make up the text -/

theorem text_word (chars : List Char) : (word chars).1.text ++ (word chars).2 = chars :=
  List.takeWhile_append_dropWhile

theorem text_numeral (chars : List Char) :
    (numeral chars).1.text ++ (numeral chars).2 = chars := by
  have whole := List.takeWhile_append_dropWhile (p := Char.isDigit) (l := chars)
  simp only [numeral]
  split
  · rename_i tail point
    have fraction := List.takeWhile_append_dropWhile (p := Char.isDigit) (l := tail)
    split
    · exact whole
    · simp only [text, List.append_assoc, List.cons_append, fraction]
      rw [← point, whole]
  · exact whole

theorem text_quotation (chars : List Char) :
    (quotation chars).1.text ++ (quotation chars).2 = '"' :: chars := by
  have split := List.takeWhile_append_dropWhile (p := (· ≠ '"')) (l := chars)
  unfold quotation
  split
  · rename_i quote tail found
    rw [found] at split
    simp only [text, List.cons_append, List.append_assoc, List.nil_append, split]
  · rename_i found
    rw [found] at split
    simpa only [text, List.append_nil, List.cons.injEq, true_and] using split

theorem text_punctuation (char : Char) (kind : Kind) (rest : List Char)
    (slash : kind = .slash → char = '/') :
    (punctuation char kind rest).1.text ++ (punctuation char kind rest).2 = char :: rest := by
  unfold punctuation
  split
  · split <;> rfl
  · rename_i tail
    split
    · rename_i same
      have body := List.takeWhile_append_dropWhile (p := (· ≠ '\n')) (l := tail)
      simp only [text, List.cons_append, body, slash same]
    · rfl
  · rfl

theorem eq_slash_of_ofChar? {char : Char} (found : Kind.ofChar? char = some .slash) :
    char = '/' := by
  unfold Kind.ofChar? at found
  split at found <;> simp_all

/-- The first piece followed by the rest is the text. -/
theorem text_first (char : Char) (rest : List Char) :
    (first char rest).1.text ++ (first char rest).2 = char :: rest := by
  unfold first
  split
  · rfl
  split
  · exact text_numeral _
  split
  · exact text_word _
  split
  · rename_i quote
    rw [quote]
    exact text_quotation rest
  split
  · rename_i kind found
    exact text_punctuation char kind rest fun same => eq_slash_of_ofChar? (same ▸ found)
  · rfl

/-- No piece is empty. -/
theorem text_first_ne_nil (char : Char) (rest : List Char) : (first char rest).1.text ≠ [] := by
  unfold first
  split
  · exact List.cons_ne_nil _ _
  split
  · rename_i digit
    simp only [numeral, List.takeWhile_cons, digit, if_true]
    split
    · split <;> exact List.cons_ne_nil _ _
    · exact List.cons_ne_nil _ _
  split
  · rename_i start
    have part : isWordPart char = true := by
      simp only [isWordStart, isWordPart, Char.isAlphanum, Bool.or_eq_true] at start ⊢
      exact start.imp_left Or.inl
    simp only [word, text, List.takeWhile_cons, part, if_true]
    exact List.cons_ne_nil _ _
  split
  · simp only [quotation]
    split <;> exact List.cons_ne_nil _ _
  split
  · simp only [punctuation]
    split
    · split <;> exact List.cons_ne_nil _ _
    · split <;> exact List.cons_ne_nil _ _
    · exact List.cons_ne_nil _ _
  · exact List.cons_ne_nil _ _

/-- What follows the first piece is shorter than the text. -/
theorem length_first_lt (char : Char) (rest : List Char) :
    (first char rest).2.length < (char :: rest).length := by
  have whole := congrArg List.length (text_first char rest)
  have nonempty := List.length_pos_iff.mpr (text_first_ne_nil char rest)
  rw [List.length_append] at whole
  omega

end Piece

end ExprLang
