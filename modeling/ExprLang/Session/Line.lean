import ExprLang.Stream

/-!
# Lines of input

Input is cut into lines after each line feed; text after the last line feed is a line too. The
line feed, and one carriage return before it, do not belong to the text of a line. A carriage
return at the end of the input stays.
-/

namespace ExprLang

/-- The code of a line feed. -/
def lineFeed : UInt8 := 10

/-- The code of a carriage return. -/
def carriageReturn : UInt8 := 13

/-- The lines of input, each with the line feed that ends it. -/
def inputLines : List UInt8 → List (List UInt8)
  | [] => []
  | byte :: bytes =>
    if byte = lineFeed then [byte] :: inputLines bytes
    else match inputLines bytes with
      | [] => [[byte]]
      | line :: lines => (byte :: line) :: lines

/-- A line without the line feed that ends it and one carriage return before that. -/
def dropLineEnd (line : List UInt8) : List UInt8 :=
  if line.getLast? = some lineFeed then
    let body := line.dropLast
    if body.getLast? = some carriageReturn then body.dropLast else body
  else line

/-- The text of a line, if the line is valid UTF-8. -/
def lineText? (line : List UInt8) : Option String := decodeUtf8? (dropLineEnd line)

/-- The lines put together again are the input. -/
theorem flatten_inputLines (bytes : List UInt8) : (inputLines bytes).flatten = bytes := by
  induction bytes with
  | nil => rfl
  | cons byte bytes ih =>
    simp only [inputLines]
    split
    · rw [List.flatten_cons, ih, List.singleton_append]
    · split
      · rename_i none
        rw [none] at ih
        rw [← ih]
        rfl
      · rename_i line lines some
        rw [some] at ih
        rw [← ih]
        rfl

end ExprLang
