import ExprLang.Token.Basic

/-!
# Expressions

Trees of literals, groups, prefix operators and binary operators. An operator node keeps the
token that it was read from, so that a fault can name the line; what is computed is decided by
the operator alone.
-/

namespace ExprLang

/-- A prefix operator. -/
inductive UnaryOp where
  | negate
  | not
deriving DecidableEq, Repr

/-- A binary operator. -/
inductive BinaryOp where
  | add | sub | mul | div
  | less | greater | lessEqual | greaterEqual
  | equal | notEqual
deriving DecidableEq, Repr

/-- How tightly a binary operator binds, from the loosest level to the tightest. -/
inductive Level where
  | equality
  | comparison
  | term
  | factor
deriving DecidableEq, Repr

/-- The position of a level, counted from the loosest. -/
def Level.rank : Level → Nat
  | equality => 0
  | comparison => 1
  | term => 2
  | factor => 3

namespace UnaryOp

/-- The prefix operator that a token of this kind spells, if it spells one. -/
def ofKind? : Kind → Option UnaryOp
  | .minus => some negate
  | .bang => some not
  | _ => none

/-- The spelling of a prefix operator. -/
def symbol : UnaryOp → String
  | negate => "-"
  | not => "!"

end UnaryOp

namespace BinaryOp

/-- The binary operator that a token of this kind spells, if it spells one. -/
def ofKind? : Kind → Option BinaryOp
  | .plus => some add
  | .minus => some sub
  | .star => some mul
  | .slash => some div
  | .less => some less
  | .greater => some greater
  | .lessEqual => some lessEqual
  | .greaterEqual => some greaterEqual
  | .equalEqual => some equal
  | .bangEqual => some notEqual
  | _ => none

/-- The spelling of a binary operator. -/
def symbol : BinaryOp → String
  | add => "+"
  | sub => "-"
  | mul => "*"
  | div => "/"
  | less => "<"
  | greater => ">"
  | lessEqual => "<="
  | greaterEqual => ">="
  | equal => "=="
  | notEqual => "!="

/-- The level of a binary operator. -/
def level : BinaryOp → Level
  | equal | notEqual => .equality
  | less | greater | lessEqual | greaterEqual => .comparison
  | add | sub => .term
  | mul | div => .factor

end BinaryOp

/-- An expression. -/
inductive Expr where
  | literal (value : Value)
  | group (inner : Expr)
  | unary (op : UnaryOp) (operator : Token) (right : Expr)
  | binary (left : Expr) (op : BinaryOp) (operator : Token) (right : Expr)
deriving BEq, Repr

/-- An expression in listings: operators first, every node but a literal between parentheses. -/
def Expr.text : Expr → String
  | literal value => value.quoted
  | group inner => "(group " ++ inner.text ++ ")"
  | unary op _ right => "(" ++ op.symbol ++ " " ++ right.text ++ ")"
  | binary left op _ right => "(" ++ op.symbol ++ " " ++ left.text ++ " " ++ right.text ++ ")"

end ExprLang
