import ExprLang.Expr.Evaluation

/-!
# Types decide whether an evaluation fails

Whether an expression has a value depends on the types of its literals and not on the literals. The
checker below goes through a tree as the evaluator does, but computes with types in place of values:
the operands of an operator from left to right, and then the operator. It knows nothing of numbers,
so no infinity, no NaN and no division by zero can make an evaluation fail.

## Main results

* `Expr.map_variant_evaluate` — the checker computes the type of the value, or the same error.
* `Expr.findSome?_offence?_nodes` — the error is that of the first offending operator in post-order.
* `Expr.Alike.check_eq` — trees that differ in the values of literals only are checked alike.
* `Expr.evaluation_decided_by_types` — all of this about evaluation.
-/

namespace ExprLang

/-! ## Types of values and operators -/

/-- The type of a value: which of the four sorts of values it is. -/
inductive Variant where
  | nil
  | bool
  | number
  | string
deriving DecidableEq, Repr

/-- The type of a value. -/
def Value.variant : Value → Variant
  | nil => .nil
  | bool _ => .bool
  | number _ => .number
  | string _ => .string

namespace UnaryOp

/-- The type of a prefix operator's value on an operand of some type, if it takes the operand. -/
def result? : UnaryOp → Variant → Option Variant
  | negate, .number => some .number
  | negate, _ => none
  | not, _ => some .bool

/-- What is wrong with an operand that a prefix operator does not take. -/
def fault : UnaryOp → TypeFault := fun _ => .operandMustBeNumber

end UnaryOp

namespace BinaryOp

/-- The type of a binary operator's value on operands of some types, if it takes them. -/
def result? : BinaryOp → Variant → Variant → Option Variant
  | equal, _, _ | notEqual, _, _ => some .bool
  | less, .number, .number | lessEqual, .number, .number => some .bool
  | greater, .number, .number | greaterEqual, .number, .number => some .bool
  | sub, .number, .number | mul, .number, .number | div, .number, .number => some .number
  | add, .number, .number => some .number
  | add, .string, .string => some .string
  | _, _, _ => none

/-- What is wrong with operands that a binary operator does not take. -/
def fault : BinaryOp → TypeFault
  | add => .operandsMustBeNumbersOrStrings
  | _ => .operandsMustBeNumbers

end BinaryOp

/-- The outcome of a check at an operator: the type of its value, or an error that names it. -/
def checked (fault : TypeFault) (operator : Token) : Option Variant → Except RuntimeError Variant
  | some variant => .ok variant
  | none => .error ⟨fault, operator⟩

/-- The type of an expression's value, or the first error, found without any value. -/
def Expr.check : Expr → Except RuntimeError Variant
  | literal value => .ok value.variant
  | group inner => inner.check
  | unary op operator right => do
    let operand ← right.check
    checked op.fault operator (op.result? operand)
  | binary left op operator right => do
    let leftOperand ← left.check
    let rightOperand ← right.check
    checked op.fault operator (op.result? leftOperand rightOperand)

/-! ## The checker follows the evaluator -/

theorem UnaryOp.map_variant_apply (op : UnaryOp) (operator : Token) (operand : Value) :
    (op.apply operator operand).map Value.variant =
      checked op.fault operator (op.result? operand.variant) := by
  cases op <;> cases operand <;> rfl

theorem BinaryOp.map_variant_apply [NaNRule] (op : BinaryOp) (operator : Token)
    (left right : Value) :
    (op.apply operator left right).map Value.variant =
      checked op.fault operator (op.result? left.variant right.variant) := by
  cases op <;> cases left <;> cases right <;> rfl

/-- **The checker computes the type of the value, or the very error of the evaluation.** -/
theorem Expr.map_variant_evaluate [NaNRule] (tree : Expr) :
    tree.evaluate.map Value.variant = tree.check := by
  induction tree with
  | literal value => rfl
  | group inner ih => exact ih
  | unary op operator right ih =>
      rw [evaluate, check, ← ih]
      cases right.evaluate with
      | error error => rfl
      | ok operand => exact op.map_variant_apply operator operand
  | binary left op operator right ihLeft ihRight =>
      rw [evaluate, check, ← ihLeft, ← ihRight]
      cases left.evaluate with
      | error error => rfl
      | ok leftValue =>
          cases right.evaluate with
          | error error => rfl
          | ok rightValue => exact op.map_variant_apply operator leftValue rightValue

theorem Expr.evaluate_eq_error_iff [NaNRule] {tree : Expr} {error : RuntimeError} :
    tree.evaluate = .error error ↔ tree.check = .error error := by
  rw [← map_variant_evaluate]
  cases tree.evaluate <;> simp [Except.map]

theorem Expr.evaluate_ok_iff [NaNRule] {tree : Expr} :
    (∃ value, tree.evaluate = .ok value) ↔ ∃ variant, tree.check = .ok variant := by
  rw [← map_variant_evaluate]
  cases tree.evaluate <;> simp [Except.map]

/-! ## The first offending operator -/

/-- All subexpressions in left-to-right post-order: every operand before its operator, and the left
operand before the right one. -/
def Expr.nodes : Expr → List Expr
  | literal value => [literal value]
  | group inner => inner.nodes ++ [group inner]
  | unary op operator right => right.nodes ++ [unary op operator right]
  | binary left op operator right => left.nodes ++ right.nodes ++ [binary left op operator right]

/-- The error at an operator that does not take the types of its operands, where these have
types. -/
def Expr.offence? : Expr → Option RuntimeError
  | unary op operator right =>
    match right.check with
    | .ok operand => if op.result? operand = none then some ⟨op.fault, operator⟩ else none
    | .error _ => none
  | binary left op operator right =>
    match left.check, right.check with
    | .ok leftOperand, .ok rightOperand =>
      if op.result? leftOperand rightOperand = none then some ⟨op.fault, operator⟩ else none
    | _, _ => none
  | _ => none

/-- The error of a check that failed. -/
def failure? {α : Type} : Except RuntimeError α → Option RuntimeError
  | .error error => some error
  | .ok _ => none

theorem failure?_eq_some_iff {α : Type} {outcome : Except RuntimeError α} {error : RuntimeError} :
    failure? outcome = some error ↔ outcome = .error error := by
  cases outcome <;> simp [failure?]

theorem failure?_checked (fault : TypeFault) (operator : Token) (result : Option Variant) :
    failure? (checked fault operator result) =
      if result = none then some ⟨fault, operator⟩ else none := by
  cases result <;> rfl

/-- **A check fails at the first operator in post-order that offends.** -/
theorem Expr.findSome?_offence?_nodes (tree : Expr) :
    tree.nodes.findSome? offence? = failure? tree.check := by
  induction tree with
  | literal value => rfl
  | group inner ih =>
      rw [nodes, List.findSome?_append, ih]
      exact Option.or_none
  | unary op operator right ih =>
      rw [nodes, List.findSome?_append, ih, List.findSome?_singleton, check, offence?]
      cases right.check with
      | error error => rfl
      | ok operand => exact (failure?_checked ..).symm
  | binary left op operator right ihLeft ihRight =>
      rw [nodes, List.findSome?_append, List.findSome?_append, ihLeft, ihRight,
        List.findSome?_singleton, check, offence?]
      cases left.check with
      | error error => rfl
      | ok leftOperand =>
          cases right.check with
          | error error => rfl
          | ok rightOperand => exact (failure?_checked ..).symm

-- Three operators offend here. The one in the left operand comes before the others.
example (minus plus sign : Token) :
    (Expr.binary (.binary (.literal (.number 1.0)) .sub minus (.literal (.string "a"))) .add plus
      (.unary .negate sign (.literal .nil))).check = .error ⟨.operandsMustBeNumbers, minus⟩ :=
  rfl

theorem Expr.check_ok_iff {tree : Expr} :
    (∃ variant, tree.check = .ok variant) ↔ ∀ node ∈ tree.nodes, node.offence? = none := by
  rw [← List.findSome?_eq_none_iff, findSome?_offence?_nodes]
  cases tree.check <;> simp [failure?]

theorem Expr.mem_nodes_self (tree : Expr) : tree ∈ tree.nodes := by
  cases tree <;> simp [nodes]

theorem Expr.nodes_subset {tree node : Expr} (h : node ∈ tree.nodes) : node.nodes ⊆ tree.nodes := by
  induction tree with
  | literal value =>
      rw [List.mem_singleton.1 h]
      exact List.Subset.refl _
  | group inner ih =>
      rcases List.mem_append.1 h with hInner | hSelf
      · exact List.subset_append_of_subset_left _ (ih hInner)
      · rw [List.mem_singleton.1 hSelf]
        exact List.Subset.refl _
  | unary op operator right ih =>
      rcases List.mem_append.1 h with hRight | hSelf
      · exact List.subset_append_of_subset_left _ (ih hRight)
      · rw [List.mem_singleton.1 hSelf]
        exact List.Subset.refl _
  | binary left op operator right ihLeft ihRight =>
      rcases List.mem_append.1 h with hOperand | hSelf
      · refine List.subset_append_of_subset_left _ ?_
        rcases List.mem_append.1 hOperand with hLeft | hRight
        · exact List.subset_append_of_subset_left _ (ihLeft hLeft)
        · exact List.subset_append_of_subset_right _ (ihRight hRight)
      · rw [List.mem_singleton.1 hSelf]
        exact List.Subset.refl _

/-- An expression has a type exactly if all its subexpressions have one. -/
theorem Expr.check_ok_iff_nodes {tree : Expr} :
    (∃ variant, tree.check = .ok variant) ↔
      ∀ node ∈ tree.nodes, ∃ variant, node.check = .ok variant := by
  constructor
  · intro hCheck node hNode
    exact check_ok_iff.2 fun inner hInner => check_ok_iff.1 hCheck inner (nodes_subset hNode hInner)
  · intro hNodes
    exact hNodes tree tree.mem_nodes_self

/-! ## Other literals of the same types -/

/-- Trees that are the same but for literals, which have the same types. -/
inductive Expr.Alike : Expr → Expr → Prop where
  | literal {value other : Value} :
      value.variant = other.variant → Alike (.literal value) (.literal other)
  | group {inner other : Expr} : Alike inner other → Alike (.group inner) (.group other)
  | unary {op : UnaryOp} {operator : Token} {right other : Expr} :
      Alike right other → Alike (.unary op operator right) (.unary op operator other)
  | binary {left right otherLeft otherRight : Expr} {op : BinaryOp} {operator : Token} :
      Alike left otherLeft → Alike right otherRight →
      Alike (.binary left op operator right) (.binary otherLeft op operator otherRight)

theorem Expr.Alike.check_eq {tree other : Expr} (h : Alike tree other) :
    tree.check = other.check := by
  induction h with
  | literal hVariant => rw [check, check, hVariant]
  | group _ ih => exact ih
  | unary _ ih => rw [check, check, ih]
  | binary _ _ ihLeft ihRight => rw [check, check, ihLeft, ihRight]

/-! ## Evaluation -/

/-- **Failure is decided by types alone.** An evaluation gives a value of the type that the checker
computes, or the error with which the check fails, and that is the error of the first offending
operator in post-order. Other literals of the same types change neither whether nor how an
evaluation fails. An expression has a value exactly if all its subexpressions have one, so no
operand of an operator is ever passed over. -/
theorem Expr.evaluation_decided_by_types [NaNRule] (tree : Expr) :
    tree.evaluate.map Value.variant = tree.check ∧
      (∀ error, tree.evaluate = .error error ↔ tree.check = .error error) ∧
      (∀ error, tree.evaluate = .error error ↔ tree.nodes.findSome? offence? = some error) ∧
      (∀ other, Alike tree other →
        ∀ error, tree.evaluate = .error error ↔ other.evaluate = .error error) ∧
      ((∃ value, tree.evaluate = .ok value) ↔
        ∀ node ∈ tree.nodes, ∃ value, node.evaluate = .ok value) := by
  refine ⟨tree.map_variant_evaluate, fun _ => evaluate_eq_error_iff, fun error => ?_,
    fun other hAlike error => ?_, ?_⟩
  · rw [findSome?_offence?_nodes, failure?_eq_some_iff, evaluate_eq_error_iff]
  · rw [evaluate_eq_error_iff, evaluate_eq_error_iff, hAlike.check_eq]
  · simp only [evaluate_ok_iff]
    exact check_ok_iff_nodes

end ExprLang
