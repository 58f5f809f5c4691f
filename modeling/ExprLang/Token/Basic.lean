import ExprLang.Token.Kind
import ExprLang.Value

/-!
# Tokens

A token is a classified piece of source text with the line on which it starts. Strings and
numbers carry the value that they stand for. The mark at the end has no text.
-/

namespace ExprLang

/-- A classified lexical unit. -/
structure Token where
  kind : Kind
  /-- The source text of the token; absent for the mark at the end. -/
  lexeme : Option String
  /-- The value of a string or number. -/
  literal : Option Value
  /-- The line on which the token starts, counted from one. -/
  line : Nat
deriving BEq, Repr

namespace Token

/-- The mark at the end of the source text, with the last line. -/
def endMark (line : Nat) : Token := ⟨.eof, none, none, line⟩

/-- The text of a token, empty where there is none. -/
def lexemeText (token : Token) : String := token.lexeme.getD ""

/-- A token in listings: its kind, its text and its value. -/
def text (token : Token) : String :=
  token.kind.name ++ " " ++ token.lexemeText ++
    match token.literal with
    | some value => " " ++ value.quoted
    | none => ""

/-- The value of a token that is an expression by itself: a reserved constant, or a number or
string that carries a value. -/
def constant? (token : Token) : Option Value :=
  match token.kind with
  | .falseWord => some (.bool false)
  | .trueWord => some (.bool true)
  | .nilWord => some .nil
  | .number | .string => token.literal
  | _ => none

end Token

end ExprLang
