import ExprLang.Proofs.Number.Bits
import ExprLang.Proofs.Number.Sign
import ExprLang.Proofs.Program.Sequence
import ExprLang.Session.Log
import Mathlib.Data.List.Forall2

/-!
# Equality of the language is observational equivalence

Values that the language takes for equal cannot be told apart by any program: every operator gives
equal results on them, and they are shown alike. Values that it takes for different are told apart
by the operator `==` itself. For numbers this hangs on what is equal: all NaN are, whatever their
bits, because nothing that is computed from one shows which it was; the two zeros are not, because
a quotient by them shows the sign.

Of numbers no more is used than that results with a NaN operand are NaN, that comparisons with a NaN
are false, and that all NaN have the same text. Which NaN a result is does not matter, so that equal
programs agree even where arithmetic follows a rule for NaN of its own in each.

## Main results

* `UnaryOp.agree_apply`, `BinaryOp.agree_apply` — operators on equal operands.
* `Expr.Same.agree_evaluate`, `agree_interpret` — equal trees and equal programs.
* `agree_interpret_of_rules` — no program shows the rule for NaN.
* `equality_is_observational` — all of it, with the contexts that tell values apart.
-/

namespace ExprLang

open Binary64 (RejectsNaN)

/-! ## Equal values -/

/-- Values that the language takes for equal, by their variants. -/
inductive Value.Same : Value → Value → Prop where
  | nil : Same .nil .nil
  | bool (value : Bool) : Same (.bool value) (.bool value)
  | number {x y : Binary64} : x.Same y → Same (.number x) (.number y)
  | string (value : String) : Same (.string value) (.string value)

theorem number_beq_iff {x y : Binary64} :
    (Value.number x == Value.number y) = true ↔ x.Same y := by
  show ((x.isNaN && y.isNaN) || x.toBits == y.toBits) = true ↔ _
  rw [Bool.or_eq_true, Bool.and_eq_true, beq_iff_eq, Binary64.toBits_inj, Binary64.Same]

/-- Numbers are equal if their bits are the same, or if both have the greatest exponent and a
significand. -/
theorem number_beq_iff_bits {x y : Binary64} :
    (Value.number x == Value.number y) = true ↔ x.toBits = y.toBits ∨
      ∀ number ∈ [x, y], number.toBits.toNat / 2 ^ 52 % 2 ^ 11 = 2047 ∧
        number.toBits.toNat % 2 ^ 52 ≠ 0 := by
  rw [number_beq_iff, Binary64.Same, or_comm, Binary64.toBits_inj, List.forall_mem_cons,
    List.forall_mem_singleton, Binary64.isNaN_iff_fields, Binary64.isNaN_iff_fields]

-- Two NaN, and the two zeros.
example : (Value.number (.ofBits 0x7FF8000000000000) == .number (.ofBits 0xFFF0000000000001)) =
    true := by decide

example : (Value.number (.ofBits 0) == .number (.ofBits 0x8000000000000000)) = false := by decide

namespace Value

theorem same_iff {left right : Value} : Same left right ↔ (left == right) = true := by
  show Same left right ↔ left.equals right = true
  constructor
  · intro h
    cases h with
    | nil => rfl
    | bool value => exact beq_self_eq_true value
    | number hNumber => exact number_beq_iff.2 hNumber
    | string value => exact beq_self_eq_true value
  · intro h
    fun_cases equals left right with
    | case1 => exact .nil
    | case2 a b =>
        rw [equals, beq_iff_eq] at h
        exact h ▸ .bool a
    | case3 x y => exact .number (number_beq_iff.1 h)
    | case4 a b =>
        rw [equals, beq_iff_eq] at h
        exact h ▸ .string a
    | case5 => simp_all [equals]

theorem Same.refl (value : Value) : Same value value := by
  cases value with
  | nil => exact .nil
  | bool value => exact .bool value
  | number x => exact .number (.inr rfl)
  | string value => exact .string value

theorem Same.symm {left right : Value} (h : Same left right) : Same right left := by
  cases h with
  | nil => exact .nil
  | bool value => exact .bool value
  | number hNumber => exact .number (hNumber.imp And.symm Eq.symm)
  | string value => exact .string value

theorem Same.trans {left middle right : Value} (h : Same left middle) (hNext : Same middle right) :
    Same left right := by
  cases h with
  | number hNumber =>
      cases hNext with
      | number hOther => exact .number (hNumber.trans hOther)
  | _ => exact hNext

theorem Same.isTruthy_eq {left right : Value} (h : Same left right) :
    left.isTruthy = right.isTruthy := by
  cases h <;> rfl

theorem Same.text_eq {left right : Value} (h : Same left right) : left.text = right.text := by
  cases h with
  | @number x y hNumber =>
      rcases hNumber with ⟨hX, hY⟩ | rfl
      · show String.ofList (numberChars x) = String.ofList (numberChars y)
        rw [numberChars, if_pos hX, numberChars, if_pos hY]
      · rfl
  | _ => rfl

/-- Equality tells equal values from no others. -/
theorem Same.beq_eq {left right other rightOther : Value} (hLeft : Same left other)
    (hRight : Same right rightOther) : (left == right) = (other == rightOther) := by
  rw [Bool.eq_iff_iff, ← same_iff, ← same_iff]
  constructor
  · exact fun h => (hLeft.symm.trans h).trans hRight
  · exact fun h => (hLeft.trans h).trans hRight.symm

end Value

/-! ## Equal operator tokens -/

theorem Token.beq_iff {token other : Token} :
    (token == other) = true ↔ token.kind = other.kind ∧ token.lexeme = other.lexeme ∧
      (token.literal == other.literal) = true ∧ token.line = other.line := by
  show (token.kind == other.kind && (token.lexeme == other.lexeme &&
    (token.literal == other.literal && token.line == other.line))) = true ↔ _
  simp only [Bool.and_eq_true, beq_iff_eq]

theorem Token.beq_refl (token : Token) : (token == token) = true := by
  refine beq_iff.2 ⟨rfl, rfl, ?_, rfl⟩
  cases token.literal with
  | none => rfl
  | some value => exact Value.same_iff.1 (.refl value)

theorem RuntimeError.beq_iff {error other : RuntimeError} :
    (error == other) = true ↔
      error.fault = other.fault ∧ (error.operator == other.operator) = true := by
  show (error.fault == other.fault && error.operator == other.operator) = true ↔ _
  rw [Bool.and_eq_true, beq_iff_eq]

/-- Equal errors are reported alike. -/
theorem RuntimeError.report_eq {error other : RuntimeError} (h : (error == other) = true) :
    Diagnostic.ofRuntimeError error = Diagnostic.ofRuntimeError other := by
  obtain ⟨hFault, hOperator⟩ := beq_iff.1 h
  obtain ⟨-, -, -, hLine⟩ := Token.beq_iff.1 hOperator
  rw [Diagnostic.ofRuntimeError, Diagnostic.ofRuntimeError, line, line, hLine, message, message,
    hFault]

/-! ## Operators on equal operands -/

/-- Outcomes of evaluations that nobody tells apart: values that are equal, equally true and shown
alike, or equal errors. -/
inductive Agree : Except RuntimeError Value → Except RuntimeError Value → Prop where
  | value {left right : Value} : (left == right) = true → left.isTruthy = right.isTruthy →
      left.text = right.text → Agree (.ok left) (.ok right)
  | error {left right : RuntimeError} : (left == right) = true → Agree (.error left) (.error right)

theorem Value.Same.agree {left right : Value} (h : Same left right) :
    Agree (.ok left) (.ok right) :=
  .value (same_iff.1 h) h.isTruthy_eq h.text_eq

/-- Outcomes agree if what comes first does, and what follows agrees on equal values. -/
theorem Agree.bind {first other : Except RuntimeError Value} (h : Agree first other)
    {next otherNext : Value → Except RuntimeError Value}
    (hNext : ∀ {left right : Value}, left.Same right → Agree (next left) (otherNext right)) :
    Agree (first >>= next) (other >>= otherNext) := by
  cases h with
  | value hEqual => exact hNext (Value.same_iff.2 hEqual)
  | error hError => exact .error hError

theorem agree_error (fault : TypeFault) {operator other : Token}
    (hOperator : (operator == other) = true) :
    Agree (.error ⟨fault, operator⟩) (.error ⟨fault, other⟩) :=
  .error (RuntimeError.beq_iff.2 ⟨rfl, hOperator⟩)

theorem Binary64.Same.neg {x y : Binary64} (h : x.Same y) : (-x).Same (-y) := by
  rw [Same, isNaN_neg, isNaN_neg]
  exact h.imp_right (congrArg _)

section Operators

variable {operator other : Token} (hOperator : (operator == other) = true)
include hOperator

theorem UnaryOp.agree_apply (op : UnaryOp) {operand otherOperand : Value}
    (h : operand.Same otherOperand) :
    Agree (op.apply operator operand) (op.apply other otherOperand) := by
  cases op with
  | not =>
      simp only [apply, h.isTruthy_eq]
      exact (Value.Same.bool _).agree
  | negate =>
      cases h with
      | number hNumber => exact (Value.Same.number hNumber.neg).agree
      | _ => exact agree_error _ hOperator

variable {left right otherLeft otherRight : Value} (hLeft : left.Same otherLeft)
  (hRight : right.Same otherRight)
include hLeft hRight

theorem agree_onNumbers {compute otherCompute : Binary64 → Binary64 → Value}
    (hCompute : ∀ {x y u v : Binary64}, x.Same u → y.Same v →
      (compute x y).Same (otherCompute u v)) :
    Agree (onNumbers operator left right compute)
      (onNumbers other otherLeft otherRight otherCompute) := by
  cases hLeft with
  | number hX =>
      cases hRight with
      | number hY => exact (hCompute hX hY).agree
      | _ => exact agree_error _ hOperator
  | _ => exact agree_error _ hOperator

theorem agree_comparison {compare : Binary64 → Binary64 → Bool} (hCompare : RejectsNaN compare) :
    Agree (onNumbers operator left right fun x y => .bool (compare x y))
      (onNumbers other otherLeft otherRight fun x y => .bool (compare x y)) := by
  refine agree_onNumbers hOperator hLeft hRight fun hX hY => ?_
  rw [hCompare.congr hX hY]
  exact .bool _

variable (rule otherRule : NaNRule)

theorem agree_arithmetic (operation : Arithmetic) :
    Agree (onNumbers operator left right fun x y => .number (@operation.compute rule x y))
      (onNumbers other otherLeft otherRight fun x y =>
        .number (@operation.compute otherRule x y)) :=
  agree_onNumbers hOperator hLeft hRight fun hX hY =>
    .number (operation.same_compute rule otherRule hX hY)

theorem agree_addition :
    Agree (@addition rule operator left right)
      (@addition otherRule other otherLeft otherRight) := by
  cases hLeft with
  | number hX =>
      cases hRight with
      | number hY =>
          exact (Value.Same.number (Arithmetic.add.same_compute rule otherRule hX hY)).agree
      | _ => exact agree_error _ hOperator
  | string first =>
      cases hRight with
      | string second => exact (Value.Same.string (first ++ second)).agree
      | _ => exact agree_error _ hOperator
  | _ => exact agree_error _ hOperator

/-- **Every operator gives equal results on equal operands.** -/
theorem BinaryOp.agree_apply (op : BinaryOp) :
    Agree (@op.apply rule operator left right)
      (@op.apply otherRule other otherLeft otherRight) := by
  have hSwap {compare : Binary64 → Binary64 → Bool} (hCompare : RejectsNaN compare) :
      RejectsNaN fun x y => compare y x := fun x y h => hCompare y x h.symm
  cases op with
  | equal =>
      simp only [apply, hLeft.beq_eq hRight]
      exact (Value.Same.bool _).agree
  | notEqual =>
      simp only [apply, bne, hLeft.beq_eq hRight]
      exact (Value.Same.bool _).agree
  | less => exact agree_comparison hOperator hLeft hRight Binary64.rejectsNaN_lt
  | lessEqual => exact agree_comparison hOperator hLeft hRight Binary64.rejectsNaN_le
  | greater => exact agree_comparison hOperator hLeft hRight (hSwap Binary64.rejectsNaN_lt)
  | greaterEqual => exact agree_comparison hOperator hLeft hRight (hSwap Binary64.rejectsNaN_le)
  | add => exact agree_addition hOperator hLeft hRight rule otherRule
  | sub => exact agree_arithmetic hOperator hLeft hRight rule otherRule .sub
  | mul => exact agree_arithmetic hOperator hLeft hRight rule otherRule .mul
  | div => exact agree_arithmetic hOperator hLeft hRight rule otherRule .div

end Operators

/-! ## Equal trees -/

/-- Trees that are the same but for literals and operator tokens, which are equal. -/
inductive Expr.Same : Expr → Expr → Prop where
  | literal {value other : Value} : value.Same other → Same (.literal value) (.literal other)
  | group {inner other : Expr} : Same inner other → Same (.group inner) (.group other)
  | unary {op : UnaryOp} {operator otherOperator : Token} {right other : Expr} :
      (operator == otherOperator) = true → Same right other →
      Same (.unary op operator right) (.unary op otherOperator other)
  | binary {op : BinaryOp} {operator otherOperator : Token}
      {left right otherLeft otherRight : Expr} :
      (operator == otherOperator) = true → Same left otherLeft → Same right otherRight →
      Same (.binary left op operator right) (.binary otherLeft op otherOperator otherRight)

namespace Expr

theorem same_of_beq {tree other : Expr} (h : (tree == other) = true) : Same tree other := by
  induction tree generalizing other with
  | literal value =>
      cases other with
      | literal otherValue => exact .literal (Value.same_iff.2 h)
      | _ => cases h
  | group inner ih =>
      cases other with
      | group otherInner => exact .group (ih h)
      | _ => cases h
  | unary op operator right ih =>
      cases other with
      | unary otherOp otherOperator otherRight =>
          have hParts : (op == otherOp && (operator == otherOperator && right == otherRight)) =
              true := h
          simp only [Bool.and_eq_true, beq_iff_eq] at hParts
          obtain ⟨rfl, hOperator, hRight⟩ := hParts
          exact .unary hOperator (ih hRight)
      | _ => cases h
  | binary left op operator right ihLeft ihRight =>
      cases other with
      | binary otherLeft otherOp otherOperator otherRight =>
          have hParts : (left == otherLeft && (op == otherOp && (operator == otherOperator &&
              right == otherRight))) = true := h
          simp only [Bool.and_eq_true, beq_iff_eq] at hParts
          obtain ⟨hLeft, rfl, hOperator, hRight⟩ := hParts
          exact .binary hOperator (ihLeft hLeft) (ihRight hRight)
      | _ => cases h

theorem Same.beq {tree other : Expr} (h : Same tree other) : (tree == other) = true := by
  induction h with
  | literal hValue => exact Value.same_iff.1 hValue
  | group _ ih => exact ih
  | @unary op operator otherOperator right other hOperator _ ih =>
      show (op == op && (operator == otherOperator && right == other)) = true
      rw [hOperator, ih, beq_self_eq_true]
      rfl
  | @binary op operator otherOperator left right otherLeft otherRight hOperator _ _ ihLeft
      ihRight =>
      show (left == otherLeft && (op == op && (operator == otherOperator && right == otherRight))) =
        true
      rw [ihLeft, hOperator, ihRight, beq_self_eq_true]
      rfl

theorem Same.refl (tree : Expr) : Same tree tree := by
  induction tree with
  | literal value => exact .literal (.refl value)
  | group inner ih => exact .group ih
  | unary op operator right ih => exact .unary operator.beq_refl ih
  | binary left op operator right ihLeft ihRight => exact .binary operator.beq_refl ihLeft ihRight

/-- **Equal trees have equal values or equal errors.** -/
theorem Same.agree_evaluate {tree other : Expr} (h : Same tree other) (rule otherRule : NaNRule) :
    Agree (@tree.evaluate rule) (@other.evaluate otherRule) := by
  induction h with
  | literal hValue => exact hValue.agree
  | group _ ih => exact ih
  | unary hOperator _ ih => exact ih.bind fun hRight => UnaryOp.agree_apply hOperator _ hRight
  | binary hOperator _ _ ihLeft ihRight =>
      exact ihLeft.bind fun hLeft => ihRight.bind fun hRight =>
        BinaryOp.agree_apply hOperator hLeft hRight rule otherRule _

end Expr

/-! ## Contexts -/

/-- An expression with one place left open. -/
inductive Context where
  | hole
  | group (inner : Context)
  | unary (op : UnaryOp) (operator : Token) (right : Context)
  | binaryLeft (left : Context) (op : BinaryOp) (operator : Token) (right : Expr)
  | binaryRight (left : Expr) (op : BinaryOp) (operator : Token) (right : Context)

namespace Context

/-- The expression with a tree in the open place. -/
def fill (tree : Expr) : Context → Expr
  | hole => tree
  | group inner => .group (inner.fill tree)
  | unary op operator right => .unary op operator (right.fill tree)
  | binaryLeft left op operator right => .binary (left.fill tree) op operator right
  | binaryRight left op operator right => .binary left op operator (right.fill tree)

theorem fill_same (context : Context) {tree other : Expr} (h : tree.Same other) :
    (context.fill tree).Same (context.fill other) := by
  induction context with
  | hole => exact h
  | group _ ih => exact .group ih
  | unary _ operator _ ih => exact .unary operator.beq_refl ih
  | binaryLeft _ _ operator right ih => exact .binary operator.beq_refl ih (.refl right)
  | binaryRight left _ operator _ ih => exact .binary operator.beq_refl (.refl left) ih

/-- The context that compares what stands in its open place with a value. -/
def comparison (value : Value) : Context :=
  .binaryLeft .hole .equal (.endMark 0) (.literal value)

theorem evaluate_fill_comparison [NaNRule] (value other : Value) :
    ((comparison value).fill (.literal other)).evaluate = .ok (.bool (other == value)) := rfl

end Context

/-! ## Equal programs -/

/-- Two executions that nobody tells apart: they write the same, report the same, and leave the
output alike. -/
structure Execution.Agree (execution other : Execution) : Prop where
  written : execution.written = other.written
  stream : execution.stream = other.stream
  fault : execution.fault? = other.fault?
  report : execution.runtimeError?.map Diagnostic.ofRuntimeError =
    other.runtimeError?.map Diagnostic.ofRuntimeError

namespace Execution

theorem Agree.refl (execution : Execution) : Agree execution execution := ⟨rfl, rfl, rfl, rfl⟩

theorem Agree.failure_eq_none_iff {execution other : Execution} (h : Agree execution other) :
    execution.failure = none ↔ other.failure = none := by
  rw [Execution.failure_eq_none_iff, Execution.failure_eq_none_iff, h.fault,
    ← Option.map_eq_none_iff (f := Diagnostic.ofRuntimeError), h.report, Option.map_eq_none_iff]

theorem agree_of_error {error other : RuntimeError} (h : (error == other) = true)
    (stream : Stream) :
    Agree ⟨[], stream, some (.runtime error)⟩ ⟨[], stream, some (.runtime other)⟩ :=
  ⟨rfl, rfl, rfl, congrArg some (RuntimeError.report_eq h)⟩

theorem Agree.andThen {first other : Execution} (h : Agree first other)
    {next otherNext : Stream → Execution}
    (hNext : ∀ stream, Agree (next stream) (otherNext stream)) :
    Agree (first.andThen next) (other.andThen otherNext) := by
  cases hFailure : first.failure with
  | some failure =>
      have hOther : other.failure ≠ none := by
        rw [ne_eq, ← h.failure_eq_none_iff, hFailure]
        exact Option.some_ne_none failure
      obtain ⟨otherFailure, hOther⟩ := Option.ne_none_iff_exists'.1 hOther
      rw [andThen_of_failure hFailure, andThen_of_failure hOther]
      exact h
  | none =>
      rw [andThen_of_none hFailure, andThen_of_none (h.failure_eq_none_iff.1 hFailure), h.stream]
      have hSecond := hNext other.stream
      exact ⟨congrArg₂ _ h.written hSecond.written, hSecond.stream, hSecond.fault, hSecond.report⟩

end Execution

/-- Statements of one sort whose expressions are equal. -/
inductive Statement.Same : Statement → Statement → Prop where
  | expr {body other : Expr} : body.Same other → Same (.expr body) (.expr other)
  | print {body other : Expr} : body.Same other → Same (.print body) (.print other)

theorem Statement.same_of_beq {statement other : Statement} (h : (statement == other) = true) :
    Same statement other := by
  cases statement <;> cases other
  · exact .expr (Expr.same_of_beq h)
  · cases h
  · cases h
  · exact .print (Expr.same_of_beq h)

theorem Statement.Same.agree_execute {statement other : Statement} (h : Same statement other)
    (rule otherRule : NaNRule) (stream : Stream) :
    (@statement.execute rule stream).Agree (@other.execute otherRule stream) := by
  cases h with
  | @expr body otherBody hBody =>
      have hAgree := hBody.agree_evaluate rule otherRule
      simp only [execute]
      generalize @body.evaluate rule = outcome, @otherBody.evaluate otherRule = otherOutcome
        at hAgree ⊢
      cases hAgree with
      | value => exact .refl _
      | error hError => exact Execution.agree_of_error hError stream
  | @print body otherBody hBody =>
      have hAgree := hBody.agree_evaluate rule otherRule
      simp only [execute]
      generalize @body.evaluate rule = outcome, @otherBody.evaluate otherRule = otherOutcome
        at hAgree ⊢
      cases hAgree with
      | value _ _ hText =>
          simp only [hText]
          exact .refl _
      | error hError => exact Execution.agree_of_error hError stream

theorem Statement.forall₂_same_of_beq {statements others : List Statement}
    (h : (statements == others) = true) : List.Forall₂ Same statements others := by
  induction statements generalizing others with
  | nil =>
      cases others with
      | nil => exact .nil
      | cons other others => cases h
  | cons statement statements ih =>
      cases others with
      | nil => cases h
      | cons other others =>
          rw [List.cons_beq_cons, Bool.and_eq_true] at h
          exact .cons (same_of_beq h.1) (ih h.2)

/-- **Equal programs do the same.** -/
theorem agree_interpret {statements others : List Statement}
    (h : List.Forall₂ Statement.Same statements others) (rule otherRule : NaNRule)
    (stream : Stream) :
    (@interpret rule stream statements).Agree (@interpret otherRule stream others) := by
  induction h generalizing stream with
  | nil => exact .refl _
  | cons hStatement _ ih =>
      rw [@interpret_cons rule, @interpret_cons otherRule]
      exact (hStatement.agree_execute rule otherRule stream).andThen ih

theorem Statement.Same.refl (statement : Statement) : Same statement statement := by
  cases statement with
  | expr body => exact .expr (.refl body)
  | print body => exact .print (.refl body)

/-- **No program shows which NaN its arithmetic gives.** -/
theorem agree_interpret_of_rules (rule otherRule : NaNRule) (stream : Stream)
    (statements : List Statement) :
    (@interpret rule stream statements).Agree (@interpret otherRule stream statements) :=
  agree_interpret (List.forall₂_same.2 fun statement _ => .refl statement) rule otherRule stream

/-! ## Equality and observation -/

/-- **Equality of the language is observational equivalence**, whatever rules for NaN the arithmetic
follows, also two rules for two programs. Equal expressions have outcomes that agree, and equal
programs write, fail and report alike. So does what a context makes of two equal literals; for two
literals that are not equal some context has different booleans as values. The equality is an
equivalence relation, the operators `==` and `!=` decide it and its negation on all operands.
Numbers are equal exactly if their bits are the same or both are NaN, and NaN differ in bits. -/
theorem equality_is_observational :
    (∀ rule otherRule : NaNRule,
      (∀ tree other : Expr, (tree == other) = true →
        Agree (@tree.evaluate rule) (@other.evaluate otherRule)) ∧
      (∀ statements others : List Statement, (statements == others) = true → ∀ stream,
        (@interpret rule stream statements).Agree (@interpret otherRule stream others)) ∧
      (∀ value other : Value, (value == other) = true → ∀ context : Context,
        (context.fill (.literal value) == context.fill (.literal other)) = true ∧
        Agree (@(context.fill (.literal value)).evaluate rule)
          (@(context.fill (.literal other)).evaluate otherRule))) ∧
    (∀ value other : Value, (value == other) = false → ∃ context : Context,
      ∃ answer otherAnswer, answer ≠ otherAnswer ∧ ∀ _ : NaNRule,
        (context.fill (.literal value)).evaluate = .ok (.bool answer) ∧
        (context.fill (.literal other)).evaluate = .ok (.bool otherAnswer)) ∧
    (∀ value : Value, (value == value) = true) ∧
    (∀ value other : Value, (value == other) = (other == value)) ∧
    (∀ value other third : Value, (value == other) = true → (other == third) = true →
      (value == third) = true) ∧
    (∀ (_ : NaNRule) operator (left right : Value),
      BinaryOp.equal.apply operator left right = .ok (.bool (left == right)) ∧
      BinaryOp.notEqual.apply operator left right = .ok (.bool !(left == right))) ∧
    (∀ x y : Binary64, (Value.number x == .number y) = true ↔ x.toBits = y.toBits ∨
      ∀ number ∈ [x, y], number.toBits.toNat / 2 ^ 52 % 2 ^ 11 = 2047 ∧
        number.toBits.toNat % 2 ^ 52 ≠ 0) ∧
    (∃ value other : Value, value ≠ other ∧ (value == other) = true) := by
  refine ⟨fun rule otherRule => ⟨fun tree other h => ?_, fun statements others h => ?_,
      fun value other h context => ?_⟩, fun value other h => ?_,
    fun value => Value.same_iff.1 (.refl value), fun value other => ?_,
    fun value other third h hNext => ?_, fun rule operator left right => ⟨rfl, rfl⟩,
    fun x y => number_beq_iff_bits, ?_⟩
  · exact (Expr.same_of_beq h).agree_evaluate rule otherRule
  · exact agree_interpret (Statement.forall₂_same_of_beq h) rule otherRule
  · have hFilled := context.fill_same (.literal (Value.same_iff.2 h))
    exact ⟨hFilled.beq, hFilled.agree_evaluate rule otherRule⟩
  · refine ⟨.comparison value, true, false, by decide, fun rule => ⟨?_, ?_⟩⟩
    · rw [Context.evaluate_fill_comparison, Value.same_iff.1 (.refl value)]
    · have hOther : (other == value) = false := by
        rw [Bool.eq_false_iff, ne_eq, ← Value.same_iff]
        intro hSame
        rw [Value.same_iff.1 hSame.symm] at h
        cases h
      rw [Context.evaluate_fill_comparison, hOther]
  · rw [Bool.eq_iff_iff, ← Value.same_iff, ← Value.same_iff]
    exact ⟨.symm, .symm⟩
  · exact Value.same_iff.1 ((Value.same_iff.2 h).trans (Value.same_iff.2 hNext))
  · refine ⟨.number (.ofBits 0x7FF8000000000000), .number (.ofBits 0x7FF8000000000001), ?_, ?_⟩
    · intro hSame
      cases hSame
    · decide

end ExprLang
