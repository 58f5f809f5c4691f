import ExprLang.Program.Basic
import Mathlib.Order.Lattice
import Mathlib.Order.Nat

/-!
# The grammar and its trees

The language is described twice, and neither description looks at how tokens are read.

* `Grammar.Phrase` and `Grammar.Sentence` say which token lists are expressions of a level and
  which are statements. These are the productions, with a left recursion for every level of binary
  operators.
* `Expr.Spells` and `Expr.Canonical` say which token list a tree stands for, and which trees the
  levels allow without a group.

## Main results

* `Grammar.phrase_iff` — a token list is a phrase of a level exactly if it is spelled by a
  canonical tree of that level or a tighter one.
* `Grammar.sentence_iff` — a token list is a sentence exactly if it is spelled by a canonical
  statement.
-/

namespace ExprLang

/-! ## The six levels -/

/-- A level of the grammar of expressions, from the loosest to the tightest. -/
inductive Tier where
  | equality | comparison | term | factor | unary | primary
deriving DecidableEq, Repr

namespace Tier

/-- The position of a level of the grammar, counted from the loosest. -/
def rank : Tier → Nat
  | equality => 0
  | comparison => 1
  | term => 2
  | factor => 3
  | unary => 4
  | primary => 5

theorem rank_injective : Function.Injective rank := by
  intro a b h
  cases a <;> cases b <;> first | rfl | cases h

/-- Tighter levels are greater. -/
instance : LinearOrder Tier := LinearOrder.lift' rank rank_injective

theorem le_iff_rank {a b : Tier} : a ≤ b ↔ a.rank ≤ b.rank := Iff.rfl

theorem lt_iff_rank {a b : Tier} : a < b ↔ a.rank < b.rank := Iff.rfl

theorem equality_le (tier : Tier) : equality ≤ tier := Nat.zero_le _

theorem le_primary (tier : Tier) : tier ≤ primary := by cases tier <;> decide

end Tier

namespace Level

/-- The level of the grammar that a level of binary operators is. -/
def tier : Level → Tier
  | equality => .equality
  | comparison => .comparison
  | term => .term
  | factor => .factor

/-- The next tighter level of the grammar, that of the right operands. -/
def operand : Level → Tier
  | equality => .comparison
  | comparison => .term
  | term => .factor
  | factor => .unary

/-- The kinds of the operators of a level. -/
def operators : Level → List Kind
  | equality => [.bangEqual, .equalEqual]
  | comparison => [.greater, .greaterEqual, .less, .lessEqual]
  | term => [.minus, .plus]
  | factor => [.slash, .star]

theorem rank_tier (level : Level) : level.tier.rank = level.rank := by cases level <;> rfl

theorem tier_le_iff {a b : Level} : a.tier ≤ b.tier ↔ a.rank ≤ b.rank := by
  rw [Tier.le_iff_rank, rank_tier, rank_tier]

theorem tier_lt_iff {a b : Level} : a.tier < b.tier ↔ a.rank < b.rank := by
  rw [Tier.lt_iff_rank, rank_tier, rank_tier]

theorem tier_lt_unary (level : Level) : level.tier < .unary := by cases level <;> decide

theorem tier_lt_operand (level : Level) : level.tier < level.operand := by
  cases level <;> decide

/-- No level of the grammar lies between a level of binary operators and that of its operands. -/
theorem operand_le_iff (level : Level) (tier : Tier) :
    level.operand ≤ tier ↔ level.tier < tier := by
  cases level <;> cases tier <;> decide

end Level

/-! ## Terminals -/

/-- A token without a value, on the first line. -/
def Token.plain (kind : Kind) (text : String) : Token := ⟨kind, some text, none, 1⟩

/-- A token is an expression by itself and stands for a value. -/
inductive Token.Denotes (token : Token) : Value → Prop where
  | trueWord : token.kind = .trueWord → Denotes token (.bool true)
  | falseWord : token.kind = .falseWord → Denotes token (.bool false)
  | nilWord : token.kind = .nilWord → Denotes token .nil
  | number {value : Value} : token.kind = .number → token.literal = some value →
      Denotes token value
  | string {value : Value} : token.kind = .string → token.literal = some value →
      Denotes token value

/-- The terminals that are expressions: three reserved words, and numbers and strings that carry
a literal. -/
def Token.IsLiteral (token : Token) : Prop :=
  token.kind ∈ [Kind.trueWord, .falseWord, .nilWord] ∨
    token.kind ∈ [Kind.number, .string] ∧ token.literal.isSome

theorem Token.constant?_eq_some_iff {token : Token} {value : Value} :
    token.constant? = some value ↔ token.Denotes value := by
  unfold Token.constant?
  constructor
  · intro h
    split at h
    · rename_i hKind
      cases h
      exact .falseWord hKind
    · rename_i hKind
      cases h
      exact .trueWord hKind
    · rename_i hKind
      cases h
      exact .nilWord hKind
    · rename_i hKind
      exact .number hKind h
    · rename_i hKind
      exact .string hKind h
    · cases h
  · intro h
    cases h <;> simp_all

theorem Token.isLiteral_iff {token : Token} :
    token.IsLiteral ↔ ∃ value, token.Denotes value := by
  simp only [← constant?_eq_some_iff, ← Option.isSome_iff_exists]
  unfold IsLiteral constant?
  cases hKind : token.kind <;> simp

/-- The kind of the token that spells a prefix operator. -/
def UnaryOp.kind : UnaryOp → Kind
  | negate => .minus
  | not => .bang

/-- The kind of the token that spells a binary operator. -/
def BinaryOp.kind : BinaryOp → Kind
  | add => .plus
  | sub => .minus
  | mul => .star
  | div => .slash
  | less => .less
  | greater => .greater
  | lessEqual => .lessEqual
  | greaterEqual => .greaterEqual
  | equal => .equalEqual
  | notEqual => .bangEqual

theorem UnaryOp.ofKind?_eq_some_iff {kind : Kind} {op : UnaryOp} :
    ofKind? kind = some op ↔ kind = op.kind := by
  cases op <;> cases kind <;> decide

theorem BinaryOp.ofKind?_eq_some_iff {kind : Kind} {op : BinaryOp} :
    ofKind? kind = some op ↔ kind = op.kind := by
  cases op <;> cases kind <;> decide

theorem BinaryOp.kind_mem_operators (op : BinaryOp) : op.kind ∈ op.level.operators := by
  cases op <;> decide

theorem Level.exists_of_mem_operators {level : Level} {kind : Kind}
    (h : kind ∈ level.operators) : ∃ op : BinaryOp, kind = op.kind ∧ op.level = level := by
  simp only [← BinaryOp.ofKind?_eq_some_iff]
  cases level <;> cases kind <;> first | exact absurd h (by decide) | exact ⟨_, rfl, rfl⟩

/-! ## Productions -/

namespace Grammar

/-- The token lists of a level of expressions. -/
inductive Phrase : Tier → List Token → Prop where
  | literal {token : Token} : token.IsLiteral → Phrase .primary [token]
  | group {opening closing : Token} {inner : List Token} :
      opening.kind = .leftParen → Phrase .equality inner → closing.kind = .rightParen →
      Phrase .primary (opening :: inner ++ [closing])
  | primary {tokens : List Token} : Phrase .primary tokens → Phrase .unary tokens
  | unary {operator : Token} {right : List Token} :
      operator.kind ∈ [Kind.minus, .bang] → Phrase .unary right →
      Phrase .unary (operator :: right)
  | operand (level : Level) {tokens : List Token} :
      Phrase level.operand tokens → Phrase level.tier tokens
  | binary (level : Level) {left right : List Token} {operator : Token} :
      Phrase level.tier left → operator.kind ∈ level.operators → Phrase level.operand right →
      Phrase level.tier (left ++ operator :: right)

/-- The token lists of a statement. -/
inductive Sentence : List Token → Prop where
  | print {word semicolon : Token} {body : List Token} :
      word.kind = .printWord → Phrase .equality body → semicolon.kind = .semicolon →
      Sentence (word :: body ++ [semicolon])
  | expr {semicolon : Token} {body : List Token} :
      Phrase .equality body → semicolon.kind = .semicolon → Sentence (body ++ [semicolon])

/-- The token lists that are zero or more statements one after the other. -/
inductive Text : List Token → Prop where
  | nil : Text []
  | cons {sentence rest : List Token} : Sentence sentence → Text rest → Text (sentence ++ rest)

end Grammar

/-! ## Trees and the tokens that they stand for -/

/-- The level of the grammar that the outermost node of a tree belongs to. -/
def Expr.tier : Expr → Tier
  | literal _ | group _ => .primary
  | unary _ _ _ => .unary
  | binary _ op _ _ => op.level.tier

/-- A token list is the yield of a tree. Operator nodes hold the very token of their operator. -/
inductive Expr.Spells : Expr → List Token → Prop where
  | literal {value : Value} {token : Token} :
      token.Denotes value → Spells (.literal value) [token]
  | group {inner : Expr} {opening closing : Token} {tokens : List Token} :
      opening.kind = .leftParen → Spells inner tokens → closing.kind = .rightParen →
      Spells (.group inner) (opening :: tokens ++ [closing])
  | unary {op : UnaryOp} {operator : Token} {right : Expr} {tokens : List Token} :
      operator.kind = op.kind → Spells right tokens →
      Spells (.unary op operator right) (operator :: tokens)
  | binary {left right : Expr} {op : BinaryOp} {operator : Token}
      {leftTokens rightTokens : List Token} :
      Spells left leftTokens → operator.kind = op.kind → Spells right rightTokens →
      Spells (.binary left op operator right) (leftTokens ++ operator :: rightTokens)

/-- The levels allow a tree as it stands: a left operand is of the level of its operator or a
tighter one, a right operand of a tighter one, and the operand of a prefix operator is a unary or
primary expression. Inside a group all trees are allowed. -/
def Expr.Canonical : Expr → Prop
  | literal _ => True
  | group inner => inner.Canonical
  | unary _ _ right => .unary ≤ right.tier ∧ right.Canonical
  | binary left op _ right =>
    op.level.tier ≤ left.tier ∧ op.level.tier < right.tier ∧ left.Canonical ∧ right.Canonical

/-- A canonical tree and its yield. -/
structure Expr.TreeOf (tree : Expr) (tokens : List Token) : Prop where
  spells : tree.Spells tokens
  canonical : tree.Canonical

/-- The expression of a statement. -/
def Statement.body : Statement → Expr
  | expr body | print body => body

/-- A token list is the yield of a statement. -/
inductive Statement.Spells : Statement → List Token → Prop where
  | print {body : Expr} {word semicolon : Token} {tokens : List Token} :
      word.kind = .printWord → body.Spells tokens → semicolon.kind = .semicolon →
      Spells (.print body) (word :: tokens ++ [semicolon])
  | expr {body : Expr} {semicolon : Token} {tokens : List Token} :
      body.Spells tokens → semicolon.kind = .semicolon →
      Spells (.expr body) (tokens ++ [semicolon])

/-- A canonical statement and its yield. -/
structure Statement.TreeOf (tree : Statement) (tokens : List Token) : Prop where
  spells : tree.Spells tokens
  canonical : tree.body.Canonical

/-- Canonical statements and their yields, one after the other. -/
inductive Statement.TreesOf : List Statement → List Token → Prop where
  | nil : TreesOf [] []
  | cons {tree : Statement} {trees : List Statement} {tokens rest : List Token} :
      tree.TreeOf tokens → TreesOf trees rest → TreesOf (tree :: trees) (tokens ++ rest)

/-! ## Productions and trees describe the same language -/

/-- The two kinds of prefix operators. -/
theorem UnaryOp.exists_of_mem {kind : Kind} (h : kind ∈ [Kind.minus, .bang]) :
    ∃ op : UnaryOp, kind = op.kind := by
  simp only [List.mem_cons, List.not_mem_nil, or_false] at h
  rcases h with h | h
  · exact ⟨negate, h⟩
  · exact ⟨not, h⟩

theorem UnaryOp.kind_mem (op : UnaryOp) : op.kind ∈ [Kind.minus, .bang] := by
  cases op <;> decide

namespace Grammar

/-- A phrase of a tight level is a phrase of every looser one. -/
theorem Phrase.mono {tight : Tier} {tokens : List Token} (hPhrase : Phrase tight tokens) :
    ∀ loose : Tier, loose ≤ tight → Phrase loose tokens := by
  -- A production loosens by one level only, so the levels are gone through from the tightest.
  have hUnary : .unary ≤ tight → Phrase .unary tokens := by
    intro h
    cases tight with
    | unary => exact hPhrase
    | primary => exact .primary hPhrase
    | _ => exact absurd h (by decide)
  have hLevel : ∀ level : Level, (level.operand ≤ tight → Phrase level.operand tokens) →
      level.tier ≤ tight → Phrase level.tier tokens := by
    intro level hOperand h
    rcases h.eq_or_lt with hSame | hTighter
    · exact hSame ▸ hPhrase
    · exact .operand level (hOperand ((level.operand_le_iff tight).2 hTighter))
  intro loose
  cases loose with
  | equality =>
      exact hLevel .equality (hLevel .comparison (hLevel .term (hLevel .factor hUnary)))
  | comparison => exact hLevel .comparison (hLevel .term (hLevel .factor hUnary))
  | term => exact hLevel .term (hLevel .factor hUnary)
  | factor => exact hLevel .factor hUnary
  | unary => exact hUnary
  | primary =>
      intro h
      rw [le_antisymm h (Tier.le_primary tight)]
      exact hPhrase

/-- The yield of a canonical tree is a phrase of the level of the tree. -/
theorem phrase_of_treeOf {tree : Expr} {tokens : List Token} (h : tree.TreeOf tokens) :
    Phrase tree.tier tokens := by
  obtain ⟨hSpells, hCanonical⟩ := h
  induction hSpells with
  | literal hDenotes => exact .literal (Token.isLiteral_iff.2 ⟨_, hDenotes⟩)
  | group hOpening _ hClosing ih =>
      exact .group hOpening ((ih hCanonical).mono .equality (Tier.equality_le _)) hClosing
  | @unary op operator right tokens hKind _ ih =>
      obtain ⟨hOperand, hRight⟩ := hCanonical
      exact .unary (hKind ▸ op.kind_mem) ((ih hRight).mono .unary hOperand)
  | @binary left right op operator _ _ _ hKind _ ihLeft ihRight =>
      obtain ⟨hLeftTier, hRightTier, hLeft, hRight⟩ := hCanonical
      have hOperand := (op.level.operand_le_iff right.tier).2 hRightTier
      exact .binary op.level ((ihLeft hLeft).mono _ hLeftTier)
        (hKind ▸ op.kind_mem_operators) ((ihRight hRight).mono _ hOperand)

/-- Every phrase is the yield of a canonical tree of its level or a tighter one. -/
theorem exists_treeOf_of_phrase {tier : Tier} {tokens : List Token} (h : Phrase tier tokens) :
    ∃ tree : Expr, tree.TreeOf tokens ∧ tier ≤ tree.tier := by
  induction h with
  | literal hLiteral =>
      obtain ⟨value, hDenotes⟩ := Token.isLiteral_iff.1 hLiteral
      exact ⟨.literal value, ⟨.literal hDenotes, trivial⟩, le_rfl⟩
  | group hOpening _ hClosing ih =>
      obtain ⟨inner, hInner, _⟩ := ih
      exact ⟨.group inner, ⟨.group hOpening hInner.spells hClosing, hInner.canonical⟩, le_rfl⟩
  | primary _ ih =>
      obtain ⟨tree, hTree, hTier⟩ := ih
      exact ⟨tree, hTree, le_trans (Tier.le_primary _) hTier⟩
  | unary hOperator _ ih =>
      obtain ⟨op, hKind⟩ := UnaryOp.exists_of_mem hOperator
      obtain ⟨right, hRight, hTier⟩ := ih
      exact ⟨.unary op _ right, ⟨.unary hKind hRight.spells, hTier, hRight.canonical⟩, le_rfl⟩
  | operand level _ ih =>
      obtain ⟨tree, hTree, hTier⟩ := ih
      exact ⟨tree, hTree, level.tier_lt_operand.le.trans hTier⟩
  | binary level _ hOperator _ ihLeft ihRight =>
      obtain ⟨op, hKind, rfl⟩ := level.exists_of_mem_operators hOperator
      obtain ⟨left, hLeft, hLeftTier⟩ := ihLeft
      obtain ⟨right, hRight, hRightTier⟩ := ihRight
      have hTighter := (op.level.operand_le_iff right.tier).1 hRightTier
      exact ⟨.binary left op _ right, ⟨.binary hLeft.spells hKind hRight.spells,
        hLeftTier, hTighter, hLeft.canonical, hRight.canonical⟩, le_rfl⟩

theorem phrase_iff {tier : Tier} {tokens : List Token} :
    Phrase tier tokens ↔ ∃ tree : Expr, tree.TreeOf tokens ∧ tier ≤ tree.tier := by
  constructor
  · exact exists_treeOf_of_phrase
  · rintro ⟨tree, hTree, hTier⟩
    exact (phrase_of_treeOf hTree).mono tier hTier

theorem sentence_iff {tokens : List Token} :
    Sentence tokens ↔ ∃ tree : Statement, tree.TreeOf tokens := by
  constructor
  · intro h
    cases h with
    | print hWord hBody hSemicolon =>
        obtain ⟨body, hTree, _⟩ := phrase_iff.1 hBody
        exact ⟨.print body, .print hWord hTree.spells hSemicolon, hTree.canonical⟩
    | expr hBody hSemicolon =>
        obtain ⟨body, hTree, _⟩ := phrase_iff.1 hBody
        exact ⟨.expr body, .expr hTree.spells hSemicolon, hTree.canonical⟩
  · rintro ⟨tree, hSpells, hCanonical⟩
    cases hSpells with
    | @print body _ _ _ hWord hBody hSemicolon =>
        exact .print hWord
          (phrase_iff.2 ⟨body, ⟨hBody, hCanonical⟩, Tier.equality_le _⟩) hSemicolon
    | @expr body _ _ hBody hSemicolon =>
        exact .expr (phrase_iff.2 ⟨body, ⟨hBody, hCanonical⟩, Tier.equality_le _⟩) hSemicolon

/-- A token list is a text exactly if it is the yield of canonical statements. -/
theorem text_iff {tokens : List Token} :
    Text tokens ↔ ∃ trees : List Statement, Statement.TreesOf trees tokens := by
  constructor
  · intro h
    induction h with
    | nil => exact ⟨[], .nil⟩
    | cons hSentence _ ih =>
        obtain ⟨tree, hTree⟩ := sentence_iff.1 hSentence
        obtain ⟨trees, hTrees⟩ := ih
        exact ⟨tree :: trees, .cons hTree hTrees⟩
  · rintro ⟨trees, hTrees⟩
    induction hTrees with
    | nil => exact .nil
    | cons hTree _ ih => exact .cons (sentence_iff.2 ⟨_, hTree⟩) ih

end Grammar

end ExprLang
