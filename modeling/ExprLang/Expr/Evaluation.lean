import ExprLang.Expr.Basic
import ExprLang.Number.Arithmetic

/-!
# Evaluating expressions

The value of an expression is a function of the tree. Both operands of a binary operator are
evaluated, the left one first, before the operator looks at them. The only faults are operands
of the wrong type; a division by zero is an infinity or NaN, and which NaN it is, is up to a rule.
-/

namespace ExprLang

/-- What is wrong with the operands of an operator. -/
inductive TypeFault where
  | operandMustBeNumber
  | operandsMustBeNumbers
  | operandsMustBeNumbersOrStrings
deriving DecidableEq, Repr

/-- A fault of an evaluation, with the token of the operator whose operands were rejected. -/
structure RuntimeError where
  fault : TypeFault
  operator : Token
deriving BEq, Repr

namespace RuntimeError

/-- The line on which an error is reported. -/
def line (error : RuntimeError) : Nat := error.operator.line

/-- The description of an error. -/
def message (error : RuntimeError) : String :=
  match error.fault with
  | .operandMustBeNumber => "Operand must be a number."
  | .operandsMustBeNumbers => "Operands must be numbers."
  | .operandsMustBeNumbersOrStrings => "Operands must be two numbers or to strings."

end RuntimeError

/-- The value of a prefix operator on an operand. -/
def UnaryOp.apply (op : UnaryOp) (operator : Token) (operand : Value) :
    Except RuntimeError Value :=
  match op, operand with
  | negate, .number x => .ok (.number (-x))
  | negate, _ => .error ⟨.operandMustBeNumber, operator⟩
  | not, operand => .ok (.bool (!operand.isTruthy))

/-- The value of an operator that takes two numbers. -/
def onNumbers (operator : Token) (left right : Value) (compute : Binary64 → Binary64 → Value) :
    Except RuntimeError Value :=
  match left, right with
  | .number x, .number y => .ok (compute x y)
  | _, _ => .error ⟨.operandsMustBeNumbers, operator⟩

/-- The value of `+`: the sum of two numbers, or two strings one after the other. -/
def addition [NaNRule] (operator : Token) (left right : Value) : Except RuntimeError Value :=
  match left, right with
  | .number x, .number y => .ok (.number (x + y))
  | .string s, .string t => .ok (.string (s ++ t))
  | _, _ => .error ⟨.operandsMustBeNumbersOrStrings, operator⟩

/-- The value of a binary operator on two operands. -/
def BinaryOp.apply [NaNRule] (op : BinaryOp) (operator : Token) (left right : Value) :
    Except RuntimeError Value :=
  match op with
  | equal => .ok (.bool (left == right))
  | notEqual => .ok (.bool (left != right))
  | less => onNumbers operator left right fun x y => .bool (decide (x < y))
  | lessEqual => onNumbers operator left right fun x y => .bool (decide (x ≤ y))
  | greater => onNumbers operator left right fun x y => .bool (decide (y < x))
  | greaterEqual => onNumbers operator left right fun x y => .bool (decide (y ≤ x))
  | add => addition operator left right
  | sub => onNumbers operator left right fun x y => .number (x - y)
  | mul => onNumbers operator left right fun x y => .number (x * y)
  | div => onNumbers operator left right fun x y => .number (x / y)

/-- The value of an expression, or the first fault in the order of evaluation. -/
def Expr.evaluate [NaNRule] : Expr → Except RuntimeError Value
  | literal value => .ok value
  | group inner => inner.evaluate
  | unary op operator right => do
    let operand ← right.evaluate
    op.apply operator operand
  | binary left op operator right => do
    let leftValue ← left.evaluate
    let rightValue ← right.evaluate
    op.apply operator leftValue rightValue

end ExprLang
