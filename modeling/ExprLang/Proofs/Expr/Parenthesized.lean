import ExprLang.Expr.Evaluation
import ExprLang.Proofs.Expr.Reading

/-!
# Trees written with all parentheses

The levels of the grammar allow only some trees as they stand. With parentheses around every
operator node every tree can be written, of whatever shape it is: what is read back is the tree with
a group around every operator node, and this one is canonical, since all its operands are primary
expressions. A group has the value of what stands inside of it, so the groups change neither the
value of the tree nor its error.

## Main results

* `Expr.Parenthesizes.treeOf` — such tokens are the yield of a canonical tree.
* `Expr.ungrouped_grouped`, `Expr.evaluate_ungrouped` — groups change neither the tree inside of
  them nor its value.
* `Expr.read_parenthesized` — every tree can be written, is read back and evaluates as before.
-/

namespace ExprLang

/-! ## Writing trees -/

/-- Every value is denoted by a token: a reserved word, or a number or string that carries it. -/
theorem Value.exists_denotes (value : Value) : ∃ token : Token, token.Denotes value := by
  cases value with
  | nil => exact ⟨.plain .nilWord "nill", .nilWord rfl⟩
  | bool value =>
      cases value with
      | false => exact ⟨.plain .falseWord "false", .falseWord rfl⟩
      | true => exact ⟨.plain .trueWord "true", .trueWord rfl⟩
  | number value => exact ⟨⟨.number, none, some (.number value), 1⟩, .number rfl rfl⟩
  | string value => exact ⟨⟨.string, none, some (.string value), 1⟩, .string rfl rfl⟩

namespace Expr

/-- A token list is a tree written out with parentheses around every operator node, and around what
stands in a group. -/
inductive Parenthesizes : Expr → List Token → Prop where
  | literal {value : Value} {token : Token} :
      token.Denotes value → Parenthesizes (.literal value) [token]
  | group {inner : Expr} {opening closing : Token} {tokens : List Token} :
      opening.kind = .leftParen → Parenthesizes inner tokens → closing.kind = .rightParen →
      Parenthesizes (.group inner) (opening :: tokens ++ [closing])
  | unary {op : UnaryOp} {operator opening closing : Token} {right : Expr} {tokens : List Token} :
      opening.kind = .leftParen → operator.kind = op.kind → Parenthesizes right tokens →
      closing.kind = .rightParen →
      Parenthesizes (.unary op operator right) (opening :: (operator :: tokens) ++ [closing])
  | binary {left right : Expr} {op : BinaryOp} {operator opening closing : Token}
      {leftTokens rightTokens : List Token} :
      opening.kind = .leftParen → Parenthesizes left leftTokens → operator.kind = op.kind →
      Parenthesizes right rightTokens → closing.kind = .rightParen →
      Parenthesizes (.binary left op operator right)
        (opening :: (leftTokens ++ operator :: rightTokens) ++ [closing])

/-- The operator tokens of a tree have the kinds that spell their operators. -/
def OperatorsSpelled : Expr → Prop
  | .literal _ => True
  | .group inner => inner.OperatorsSpelled
  | .unary op operator right => operator.kind = op.kind ∧ right.OperatorsSpelled
  | .binary left op operator right =>
    left.OperatorsSpelled ∧ operator.kind = op.kind ∧ right.OperatorsSpelled

/-- The trees that can be written are those whose operator tokens spell their operators. -/
theorem exists_parenthesizes_iff {tree : Expr} :
    (∃ tokens, tree.Parenthesizes tokens) ↔ tree.OperatorsSpelled := by
  have hOpening : (Token.plain .leftParen "(").kind = .leftParen := rfl
  have hClosing : (Token.plain .rightParen ")").kind = .rightParen := rfl
  constructor
  · rintro ⟨tokens, h⟩
    induction h with
    | literal => trivial
    | group _ _ _ ih => exact ih
    | unary _ hKind _ _ ih => exact ⟨hKind, ih⟩
    | binary _ _ hKind _ _ ihLeft ihRight => exact ⟨ihLeft, hKind, ihRight⟩
  · intro h
    induction tree with
    | literal value =>
        obtain ⟨token, hDenotes⟩ := value.exists_denotes
        exact ⟨_, .literal hDenotes⟩
    | group inner ih =>
        obtain ⟨tokens, hInner⟩ := ih h
        exact ⟨_, .group hOpening hInner hClosing⟩
    | unary op operator right ih =>
        obtain ⟨tokens, hRight⟩ := ih h.2
        exact ⟨_, .unary hOpening h.1 hRight hClosing⟩
    | binary left op operator right ihLeft ihRight =>
        obtain ⟨leftTokens, hLeft⟩ := ihLeft h.1
        obtain ⟨rightTokens, hRight⟩ := ihRight h.2.2
        exact ⟨_, .binary hOpening hLeft h.2.1 hRight hClosing⟩

/-! ## Groups around every operator node -/

/-- The tree with a group around every operator node. -/
def grouped : Expr → Expr
  | .literal value => .literal value
  | .group inner => .group inner.grouped
  | .unary op operator right => .group (.unary op operator right.grouped)
  | .binary left op operator right => .group (.binary left.grouped op operator right.grouped)

/-- The tree without its groups. -/
def ungrouped : Expr → Expr
  | .literal value => .literal value
  | .group inner => inner.ungrouped
  | .unary op operator right => .unary op operator right.ungrouped
  | .binary left op operator right => .binary left.ungrouped op operator right.ungrouped

theorem tier_grouped (tree : Expr) : tree.grouped.tier = .primary := by
  cases tree <;> rfl

theorem canonical_grouped (tree : Expr) : tree.grouped.Canonical := by
  induction tree with
  | literal value => trivial
  | group inner ih => exact ih
  | unary op operator right ih =>
      refine ⟨?_, ih⟩
      rw [tier_grouped]
      exact Tier.le_primary _
  | binary left op operator right ihLeft ihRight =>
      refine ⟨?_, ?_, ihLeft, ihRight⟩
      · rw [tier_grouped]
        exact Tier.le_primary _
      · rw [tier_grouped]
        exact op.level.tier_lt_unary.trans (by decide)

/-- **Tokens with all parentheses are the yield of the tree with all groups.** -/
theorem Parenthesizes.treeOf {tree : Expr} {tokens : List Token} (h : tree.Parenthesizes tokens) :
    tree.grouped.TreeOf tokens := by
  refine ⟨?_, tree.canonical_grouped⟩
  induction h with
  | literal hDenotes => exact .literal hDenotes
  | group hOpening _ hClosing ih => exact .group hOpening ih hClosing
  | unary hOpening hKind _ hClosing ih => exact .group hOpening (.unary hKind ih) hClosing
  | binary hOpening _ hKind _ hClosing ihLeft ihRight =>
      exact .group hOpening (.binary ihLeft hKind ihRight) hClosing

theorem ungrouped_grouped (tree : Expr) : tree.grouped.ungrouped = tree.ungrouped := by
  induction tree with
  | literal value => rfl
  | group inner ih => exact ih
  | unary op operator right ih => simp only [grouped, ungrouped, ih]
  | binary left op operator right ihLeft ihRight => simp only [grouped, ungrouped, ihLeft, ihRight]

/-- **Groups change neither a value nor an error.** -/
theorem evaluate_ungrouped [NaNRule] (tree : Expr) : tree.ungrouped.evaluate = tree.evaluate := by
  induction tree with
  | literal value => rfl
  | group inner ih => exact ih
  | unary op operator right ih => simp only [ungrouped, evaluate, ih]
  | binary left op operator right ihLeft ihRight => simp only [ungrouped, evaluate, ihLeft, ihRight]

theorem evaluate_eq_of_ungrouped_eq [NaNRule] {tree other : Expr}
    (h : tree.ungrouped = other.ungrouped) : tree.evaluate = other.evaluate := by
  rw [← evaluate_ungrouped, h, evaluate_ungrouped]

/-- **Parentheses around every operator node express every tree and keep its meaning.** A tree can
be written exactly if its operator tokens spell its operators. What is written is read back up to
its last token, if no binary operator comes behind it, as a tree that is the same without groups.
This tree has the same value, or raises the same error at the same operator. -/
theorem read_parenthesized [NaNRule] (tree : Expr) :
    ((∃ tokens, tree.Parenthesizes tokens) ↔ tree.OperatorsSpelled) ∧
    ∀ tokens rest, tree.Parenthesizes tokens →
      (∀ token ∈ rest.head?, ∀ op : BinaryOp, token.kind ≠ op.kind) →
      ∃ whole, Expr.read .equality (tokens ++ rest) = ⟨.ok whole, rest⟩ ∧
        whole.ungrouped = tree.ungrouped ∧ whole.evaluate = tree.evaluate := by
  refine ⟨exists_parenthesizes_iff, fun tokens rest hTokens hRest => ?_⟩
  have hEnds : Level.equality.EndsBefore rest :=
    fun token hToken op hKind => absurd hKind (hRest token hToken op)
  have hRead : Expr.read .equality (tokens ++ rest) = ⟨.ok tree.grouped, rest⟩ :=
    read_of_treeOf hTokens.treeOf (Tier.equality_le _) hEnds
  exact ⟨tree.grouped, hRead, tree.ungrouped_grouped,
    evaluate_eq_of_ungrouped_eq tree.ungrouped_grouped⟩

/-- An equality under a prefix operator under a product, which the levels do not allow. -/
theorem read_parenthesized_loose_under_tight :
    let token : Kind → Token := fun kind => .plain kind kind.name
    let same : Expr := .binary (.literal .nil) .equal (token .equalEqual) (.literal .nil)
    let tree : Expr := .binary (.literal .nil) .mul (token .star) (.unary .not (token .bang) same)
    let tokens : List Token :=
      [.leftParen, .nilWord, .star, .leftParen, .bang, .leftParen, .nilWord, .equalEqual, .nilWord,
        .rightParen, .rightParen, .rightParen].map token
    let rest : List Token := [token .semicolon]
    tree.Parenthesizes tokens ∧
      ∃ whole, Expr.read .equality (tokens ++ rest) = ⟨.ok whole, rest⟩ ∧
        whole.ungrouped = tree ∧
        whole.evaluate = .error ⟨.operandsMustBeNumbers, token .star⟩ := by
  intro token same tree tokens rest
  have hNil : (Expr.literal .nil).Parenthesizes [token .nilWord] := .literal (.nilWord rfl)
  have hTokens : tree.Parenthesizes tokens :=
    .binary rfl hNil rfl (.unary rfl rfl (.binary rfl hNil rfl hNil rfl) rfl) rfl
  have hRest : ∀ next ∈ rest.head?, ∀ op : BinaryOp, next.kind ≠ op.kind := by
    intro next hNext op
    cases hNext
    cases op <;> decide
  obtain ⟨whole, hRead, hWhole, hValue⟩ :=
    (read_parenthesized tree).2 tokens rest hTokens hRest
  exact ⟨hTokens, whole, hRead, hWhole, hValue⟩

end Expr

end ExprLang
