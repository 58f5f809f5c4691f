import ExprLang.Proofs.Grammar
import ExprLang.Proofs.Program.Relined
import ExprLang.Proofs.Source.Lines

/-!
# Programs on later lines

The line of a token decides nothing but what an error names. So the tokens of statements, all of
them a number of lines later, are the tokens of the same statements with their operators that many
lines later. These statements write the same and end with the same failure, except that its
operator stands that many lines later: counting lines on is one way of moving them.

## Main results

* `Statement.TreesOf.later`, `Statement.TreesOf.append` — the trees of later tokens, and of tokens
  one after the other.
* `interpret_later` — the same for executions.
-/

namespace ExprLang

/-! ## Trees -/

/-- The same tree with its operators a number of lines later. -/
def Expr.later (lines : Nat) : Expr → Expr
  | literal value => literal value
  | group inner => group (inner.later lines)
  | unary op operator right => unary op (operator.later lines) (right.later lines)
  | binary left op operator right =>
    binary (left.later lines) op (operator.later lines) (right.later lines)

/-- The same statement with its operators a number of lines later. -/
def Statement.later (lines : Nat) : Statement → Statement
  | expr body => expr (body.later lines)
  | print body => print (body.later lines)

theorem Expr.later_eq_relined (lines : Nat) (tree : Expr) :
    tree.later lines = tree.relined (· + lines) := by
  induction tree with
  | literal value => rfl
  | group inner ih => rw [later, ih, relined]
  | unary op operator right ih =>
      rw [later, ih, relined]
      rfl
  | binary left op operator right ihLeft ihRight =>
      rw [later, ihLeft, ihRight, relined]
      rfl

theorem Statement.later_eq_relined (lines : Nat) (statement : Statement) :
    statement.later lines = statement.relined (· + lines) := by
  cases statement with
  | expr body => exact congrArg expr (body.later_eq_relined lines)
  | print body => exact congrArg print (body.later_eq_relined lines)

theorem Token.Denotes.later {token : Token} {value : Value} (h : token.Denotes value)
    (lines : Nat) : (token.later lines).Denotes value := by
  cases h with
  | trueWord hKind => exact .trueWord hKind
  | falseWord hKind => exact .falseWord hKind
  | nilWord hKind => exact .nilWord hKind
  | number hKind hLiteral => exact .number hKind hLiteral
  | string hKind hLiteral => exact .string hKind hLiteral

theorem Expr.Spells.later {tree : Expr} {tokens : List Token} (h : tree.Spells tokens)
    (lines : Nat) : (tree.later lines).Spells (tokens.map (Token.later lines)) := by
  induction h with
  | literal hDenotes => exact .literal (hDenotes.later lines)
  | @group inner opening closing tokens hOpening _ hClosing ih =>
      rw [List.map_append, List.map_cons]
      exact @Spells.group _ (opening.later lines) (closing.later lines) _ hOpening ih hClosing
  | unary hKind _ ih => exact .unary hKind ih
  | binary _ hKind _ ihLeft ihRight =>
      rw [List.map_append, List.map_cons]
      exact .binary ihLeft hKind ihRight

theorem Expr.tier_later (lines : Nat) (tree : Expr) : (tree.later lines).tier = tree.tier := by
  cases tree <;> rfl

theorem Expr.Canonical.later {tree : Expr} (h : tree.Canonical) (lines : Nat) :
    (tree.later lines).Canonical := by
  induction tree with
  | literal => trivial
  | group inner ih => exact ih h
  | unary op operator right ih =>
      obtain ⟨hTier, hRight⟩ := h
      refine ⟨?_, ih hRight⟩
      rw [tier_later]
      exact hTier
  | binary left op operator right ihLeft ihRight =>
      obtain ⟨hLeftTier, hRightTier, hLeft, hRight⟩ := h
      refine ⟨?_, ?_, ihLeft hLeft, ihRight hRight⟩
      · rw [tier_later]
        exact hLeftTier
      · rw [tier_later]
        exact hRightTier

namespace Statement

theorem TreeOf.later {tree : Statement} {tokens : List Token} (h : tree.TreeOf tokens)
    (lines : Nat) : (tree.later lines).TreeOf (tokens.map (Token.later lines)) := by
  obtain ⟨hSpells, hCanonical⟩ := h
  cases hSpells with
  | @print body word semicolon tokens hWord hBody hSemicolon =>
      rw [List.map_append, List.map_cons]
      exact ⟨@Spells.print _ (word.later lines) (semicolon.later lines) _ hWord
        (hBody.later lines) hSemicolon, hCanonical.later lines⟩
  | @expr body semicolon tokens hBody hSemicolon =>
      rw [List.map_append]
      exact ⟨@Spells.expr _ (semicolon.later lines) _ (hBody.later lines) hSemicolon,
        hCanonical.later lines⟩

/-- **Later tokens are the tokens of later statements.** -/
theorem TreesOf.later {trees : List Statement} {tokens : List Token} (h : TreesOf trees tokens)
    (lines : Nat) :
    TreesOf (trees.map (Statement.later lines)) (tokens.map (Token.later lines)) := by
  induction h with
  | nil => exact .nil
  | cons hTree _ ih =>
      rw [List.map_append]
      exact .cons (hTree.later lines) ih

theorem TreesOf.append {trees others : List Statement} {tokens rest : List Token}
    (h : TreesOf trees tokens) (hOthers : TreesOf others rest) :
    TreesOf (trees ++ others) (tokens ++ rest) := by
  induction h with
  | nil => exact hOthers
  | cons hTree _ ih =>
      rw [List.append_assoc]
      exact .cons hTree ih

end Statement

/-! ## Executions -/

/-- The same error with its operator a number of lines later. -/
def RuntimeError.later (lines : Nat) (error : RuntimeError) : RuntimeError :=
  { error with operator := error.operator.later lines }

/-- The same failure, a runtime error with its operator a number of lines later. -/
def Failure.later (lines : Nat) : Failure → Failure
  | runtime error => runtime (error.later lines)
  | output fault => output fault

namespace Execution

/-- The same execution with its failure a number of lines later. -/
def later (lines : Nat) (execution : Execution) : Execution :=
  { execution with failure := execution.failure.map (Failure.later lines) }

theorem later_zero (execution : Execution) : execution.later 0 = execution := by
  obtain ⟨written, stream, failure⟩ := execution
  cases failure with
  | none => rfl
  | some failure => cases failure <;> rfl

theorem later_later (lines more : Nat) (execution : Execution) :
    (execution.later lines).later more = execution.later (lines + more) := by
  obtain ⟨written, stream, failure⟩ := execution
  cases failure with
  | none => rfl
  | some failure =>
      cases failure with
      | output fault => rfl
      | runtime error =>
          simp only [later, Option.map_some, Failure.later, RuntimeError.later, Token.later,
            Nat.add_assoc]

theorem relined_eq_later (lines : Nat) (execution : Execution) :
    execution.relined (· + lines) = execution.later lines := by
  obtain ⟨written, stream, failure⟩ := execution
  cases failure with
  | none => rfl
  | some failure => cases failure <;> rfl

end Execution

/-- **Later statements do the same**, and a runtime error is that many lines later. -/
theorem interpret_later (lines : Nat) (stream : Stream) (statements : List Statement) :
    interpret stream (statements.map (Statement.later lines)) =
      (interpret stream statements).later lines := by
  have hStatements : Statement.later lines = Statement.relined (· + lines) :=
    funext fun statement => statement.later_eq_relined lines
  rw [hStatements, interpret_relined, Execution.relined_eq_later]

end ExprLang
