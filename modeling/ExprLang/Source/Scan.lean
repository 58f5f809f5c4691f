import ExprLang.Source.Piece
import ExprLang.Token.Basic

/-!
# Scanning source text

The pieces of a source text, read with the lines on which they start, give the tokens and the
lexical errors. An error never stops the scan, and the tokens end with exactly one end mark.
-/

namespace ExprLang

/-- What can be wrong with source text before its tokens are looked at. -/
inductive ScanError where
  /-- A string was still open at the end of the source text, which ends on this line. -/
  | unterminatedString (line : Nat)
  /-- A character that begins no token. -/
  | unexpectedCharacter (char : Char) (line : Nat)
deriving DecidableEq, Repr

namespace ScanError

/-- The line on which an error is reported. -/
def line : ScanError → Nat
  | unterminatedString line => line
  | unexpectedCharacter _ line => line

/-- The description of an error. -/
def message : ScanError → String
  | unterminatedString _ => "Unterminated string."
  | unexpectedCharacter _ _ => "Unexpected character."

end ScanError

/-- The number of line feeds in a text. -/
def lineFeeds (text : List Char) : Nat := text.count '\n'

/-- The value that the text of a token stands for, where the kind of token has one. -/
def literalValue? (kind : Kind) (text : List Char) : Option Value :=
  match kind with
  | .number => some (.number (numeralValue text))
  | .string => some (.string (String.ofList text.tail.dropLast))
  | _ => none

/-- The pieces of a source text, from left to right. -/
def pieces : List Char → List Piece
  | [] => []
  | char :: rest => (Piece.first char rest).1 :: pieces (Piece.first char rest).2
termination_by source => source.length
decreasing_by exact Piece.length_first_lt char rest

/-- The pieces of a source text put together again are the source text. -/
theorem flatMap_text_pieces (source : List Char) : (pieces source).flatMap Piece.text = source := by
  fun_induction pieces source with
  | case1 => rfl
  | case2 char rest ih => rw [List.flatMap_cons, ih, Piece.text_first]

/-- The tokens and the lexical errors of a source text. -/
structure Scan where
  tokens : List Token
  errors : List ScanError

namespace Scan

/-- The token that a piece starting on a line is, if it is one. -/
def token? (line : Nat) : Piece → Option Token
  | .lexeme kind text => some ⟨kind, some (String.ofList text), literalValue? kind text, line⟩
  | _ => none

/-- The error that a piece starting on a line is, if it is one. -/
def error? (line : Nat) : Piece → Option ScanError
  | .rejected char => some (.unexpectedCharacter char line)
  | .unterminated body => some (.unterminatedString (line + lineFeeds body))
  | _ => none

/-- The pieces with the lines on which they start. -/
def withLines (line : Nat) : List Piece → List (Nat × Piece)
  | [] => []
  | piece :: rest => (line, piece) :: withLines (line + lineFeeds piece.text) rest

/-- The tokens and errors of pieces that start on a line. -/
def ofPieces (line : Nat) (pieces : List Piece) : Scan :=
  let lined := withLines line pieces
  let last := line + lineFeeds (pieces.flatMap Piece.text)
  { tokens := lined.filterMap (fun (line, piece) => token? line piece) ++ [Token.endMark last]
    errors := lined.filterMap fun (line, piece) => error? line piece }

/-- The scan of a source text, whose first line is line one. -/
def ofSource (source : String) : Scan := ofPieces 1 (pieces source.toList)

end Scan

end ExprLang
