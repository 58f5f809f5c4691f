import ExprLang.Expr.Evaluation
import ExprLang.Proofs.Program.Sentence
import ExprLang.Proofs.Source.Writing

/-!
# Chains of `+`

A chain is a bracketing of leaves with `+` between them, each leaf a string or a number. Its tokens
are read as the tree of the same shape. Of strings alone the tree makes their concatenation, however
they are bracketed. With one number among two leaves or more there is exactly one `+` that has the
number for an operand, and it fails: what is evaluated before it are strings, so no other `+` can
fail first.

## Main results

* `Chain.exists_spelled`, `Chain.Spelled.treeOf` — the tokens of a chain are the yield of a tree.
* `Chain.Spelled.evaluate_of_texts` — strings are concatenated.
* `Chain.Spelled.failsAtNumber`, `Chain.Meets.unique` — the `+` that meets a number.
-/

namespace ExprLang

/-- A string or a number literal, by its characters. -/
inductive Leaf where
  | text (body : List Char)
  | number (numeral : List Char)
deriving DecidableEq

/-- A bracketing of leaves with `+` between them. -/
inductive Chain where
  | single (leaf : Leaf)
  | group (inner : Chain)
  | sum (left right : Chain)

/-- The kind and the text of a token that is written. -/
def Entry.word (entry : Entry) : Kind × List Char := (entry.kind, entry.text)

namespace Leaf

def isNumber : Leaf → Bool
  | text _ => false
  | number _ => true

/-- The token of a leaf. -/
def word : Leaf → Kind × List Char
  | text body => (.string, '"' :: body ++ ['"'])
  | number numeral => (.number, numeral)

/-- A string holds no quote, and a number is written as one. -/
def WellFormed : Leaf → Prop
  | text body => '"' ∉ body
  | number numeral => Kind.Lexeme .number numeral

theorem exists_texts {leaves : List Leaf} (h : leaves.countP isNumber = 0) :
    ∃ texts : List (List Char), leaves = texts.map text := by
  induction leaves with
  | nil => exact ⟨[], rfl⟩
  | cons leaf leaves ih =>
      cases leaf with
      | number numeral => simp [isNumber] at h
      | text body =>
          obtain ⟨texts, rfl⟩ := ih (by simpa [isNumber] using h)
          exact ⟨body :: texts, rfl⟩

end Leaf

namespace Chain

/-- The leaves from left to right. -/
def leaves : Chain → List Leaf
  | single leaf => [leaf]
  | group inner => inner.leaves
  | sum left right => left.leaves ++ right.leaves

/-- The tokens from left to right. -/
def words : Chain → List (Kind × List Char)
  | single leaf => [leaf.word]
  | group inner => (.leftParen, ['(']) :: inner.words ++ [(.rightParen, [')'])]
  | sum left right => left.words ++ (.plus, ['+']) :: right.words

/-- The level of the tree of a chain. -/
def tier : Chain → Tier
  | single _ | group _ => .primary
  | sum _ _ => .term

theorem term_le_tier (chain : Chain) : .term ≤ chain.tier := by
  cases chain with
  | sum _ _ => exact le_refl _
  | _ => exact Tier.le_primary _

/-- A sum stands on the right of a `+` only in a group, so that the tokens tell the shape. -/
def Bracketed : Chain → Prop
  | single _ => True
  | group inner => inner.Bracketed
  | sum left right => right.tier = .primary ∧ left.Bracketed ∧ right.Bracketed

/-- The number of numbers among the leaves. -/
def numbers (chain : Chain) : Nat := chain.leaves.countP Leaf.isNumber

theorem length_leaves_pos (chain : Chain) : 0 < chain.leaves.length := by
  induction chain with
  | single leaf => exact Nat.one_pos
  | group inner ih => exact ih
  | sum left right ihLeft _ =>
      rw [leaves, List.length_append]
      omega

theorem numbers_sum (left right : Chain) :
    (sum left right).numbers = left.numbers + right.numbers := by
  rw [numbers, leaves, List.countP_append]
  rfl

theorem length_leaves_sum (left right : Chain) :
    (sum left right).leaves.length = left.leaves.length + right.leaves.length := by
  rw [leaves, List.length_append]

/-- A chain is a number, perhaps in groups. -/
def IsNumber (chain : Chain) : Prop := ∃ numeral, chain.leaves = [.number numeral]

theorem isNumber_iff {chain : Chain} :
    chain.IsNumber ↔ chain.leaves.length = 1 ∧ chain.numbers = 1 := by
  constructor
  · rintro ⟨numeral, hLeaves⟩
    rw [numbers, hLeaves]
    exact ⟨rfl, rfl⟩
  · rintro ⟨hLength, hNumbers⟩
    obtain ⟨leaf, hLeaf⟩ := List.length_eq_one_iff.1 hLength
    rw [numbers, hLeaf] at hNumbers
    cases leaf with
    | text body => simp [Leaf.isNumber] at hNumbers
    | number numeral => exact ⟨numeral, hLeaf⟩

/-! ## The tree of a chain -/

/-- Tokens of a chain and the tree of the same shape. -/
inductive Spelled : Chain → List Token → Expr → Prop where
  | text {body : List Char} {token : Token} :
      token.Denotes (.string (String.ofList body)) →
      Spelled (.single (.text body)) [token] (.literal (.string (String.ofList body)))
  | number {numeral : List Char} {token : Token} :
      token.Denotes (.number (numeralValue numeral)) →
      Spelled (.single (.number numeral)) [token] (.literal (.number (numeralValue numeral)))
  | group {inner : Chain} {opening closing : Token} {tokens : List Token} {tree : Expr} :
      opening.kind = .leftParen → Spelled inner tokens tree → closing.kind = .rightParen →
      Spelled (.group inner) (opening :: tokens ++ [closing]) (.group tree)
  | sum {left right : Chain} {plus : Token} {leftTokens rightTokens : List Token}
      {leftTree rightTree : Expr} :
      Spelled left leftTokens leftTree → plus.kind = .plus → Spelled right rightTokens rightTree →
      Spelled (.sum left right) (leftTokens ++ plus :: rightTokens)
        (.binary leftTree .add plus rightTree)

theorem exists_spelled_single {entry : Entry} {leaf : Leaf} (h : entry.word = leaf.word)
    (line : Nat) : ∃ tree, (Chain.single leaf).Spelled [entry.token line] tree := by
  obtain ⟨gap, kind, text⟩ := entry
  cases leaf with
  | text body =>
      cases h
      refine ⟨_, .text (.string rfl ?_)⟩
      simp [Entry.token, literalValue?]
  | number numeral =>
      cases h
      exact ⟨_, .number (.number rfl rfl)⟩

/-- **The tokens of a chain have a tree of its shape**, however they are laid out. -/
theorem exists_spelled {chain : Chain} {entries : List Entry}
    (h : entries.map Entry.word = chain.words) (line : Nat) :
    ∃ tree, chain.Spelled (tokensFrom line entries) tree := by
  induction chain generalizing entries line with
  | single leaf =>
      rw [words, List.map_eq_singleton_iff] at h
      obtain ⟨entry, rfl, hWord⟩ := h
      exact exists_spelled_single hWord _
  | group inner ih =>
      rw [words, List.cons_append, List.map_eq_cons_iff] at h
      obtain ⟨opening, others, rfl, hOpening, hOthers⟩ := h
      obtain ⟨entries, rest, rfl, hInner, hRest⟩ := List.map_eq_append_iff.1 hOthers
      obtain ⟨closing, rfl, hClosing⟩ := List.map_eq_singleton_iff.1 hRest
      obtain ⟨tree, hTree⟩ := ih hInner (line + lineFeeds opening.written)
      rw [tokensFrom, tokensFrom_append]
      exact ⟨_, .group (congrArg Prod.fst hOpening) hTree (congrArg Prod.fst hClosing)⟩
  | sum left right ihLeft ihRight =>
      rw [words, List.map_eq_append_iff] at h
      obtain ⟨leftEntries, rest, rfl, hLeft, hRest⟩ := h
      obtain ⟨plus, rightEntries, rfl, hPlus, hRight⟩ := List.map_eq_cons_iff.1 hRest
      rw [tokensFrom_append, tokensFrom]
      obtain ⟨leftTree, hLeftTree⟩ := ihLeft hLeft line
      obtain ⟨rightTree, hRightTree⟩ := ihRight hRight _
      exact ⟨_, .sum hLeftTree (congrArg Prod.fst hPlus) hRightTree⟩

namespace Spelled

variable {chain : Chain} {tokens : List Token} {tree : Expr}

theorem length_tokens (h : chain.Spelled tokens tree) : tokens.length = chain.words.length := by
  induction h with
  | text _ => rfl
  | number _ => rfl
  | group _ _ _ ih => simp [words, ih]
  | sum _ _ _ ihLeft ihRight => simp [words, ihLeft, ihRight]

theorem tier_eq (h : chain.Spelled tokens tree) : tree.tier = chain.tier := by
  cases h <;> rfl

/-- **The tree of a chain is the canonical tree of its tokens.** -/
theorem treeOf (h : chain.Spelled tokens tree) (hChain : chain.Bracketed) :
    tree.TreeOf tokens := by
  induction h with
  | text hDenotes => exact ⟨.literal hDenotes, trivial⟩
  | number hDenotes => exact ⟨.literal hDenotes, trivial⟩
  | group hOpening _ hClosing ih =>
      exact ⟨.group hOpening (ih hChain).spells hClosing, (ih hChain).canonical⟩
  | @sum left right plus _ _ leftTree rightTree hLeft hPlus hRight ihLeft ihRight =>
      obtain ⟨hTier, hLeftChain, hRightChain⟩ := hChain
      have hLeftTree := ihLeft hLeftChain
      have hRightTree := ihRight hRightChain
      refine ⟨.binary hLeftTree.spells hPlus hRightTree.spells, ?_, ?_, hLeftTree.canonical,
        hRightTree.canonical⟩
      · rw [hLeft.tier_eq]
        exact left.term_le_tier
      · rw [hRight.tier_eq, hTier]
        decide

/-! ## The value of a chain -/

/-- **Strings are concatenated**, however they are bracketed. -/
theorem evaluate_of_texts (h : chain.Spelled tokens tree) {texts : List (List Char)}
    (hTexts : chain.leaves = texts.map Leaf.text) :
    tree.evaluate = .ok (.string (String.ofList texts.flatten)) := by
  induction h generalizing texts with
  | @text body _ _ =>
      obtain ⟨other, rfl, hOther⟩ := List.map_eq_singleton_iff.1 hTexts.symm
      cases hOther
      simp [Expr.evaluate]
  | number _ =>
      obtain ⟨other, rfl, hOther⟩ := List.map_eq_singleton_iff.1 hTexts.symm
      cases hOther
  | group _ _ _ ih => exact ih hTexts
  | sum _ _ _ ihLeft ihRight =>
      obtain ⟨leftTexts, rightTexts, rfl, hLeft, hRight⟩ := List.map_eq_append_iff.1 hTexts.symm
      rw [Expr.evaluate, ihLeft hLeft.symm, ihRight hRight.symm, List.flatten_append,
        String.ofList_append]
      rfl

theorem evaluate_of_number (h : chain.Spelled tokens tree) {numeral : List Char}
    (hNumber : chain.leaves = [.number numeral]) :
    tree.evaluate = .ok (.number (numeralValue numeral)) := by
  induction h with
  | text _ => cases hNumber
  | number _ =>
      cases hNumber
      rfl
  | group _ _ _ ih => exact ih hNumber
  | @sum left right =>
      have hLength := congrArg List.length hNumber
      have hLeft := left.length_leaves_pos
      have hRight := right.length_leaves_pos
      rw [length_leaves_sum, List.length_singleton] at hLength
      omega

end Spelled

/-! ## The `+` that meets a number -/

/-- The `+` behind some tokens has a number for one of its operands. -/
inductive Meets : Chain → List (Kind × List Char) → Prop where
  | operand {left right : Chain} :
      left.IsNumber ∨ right.IsNumber → Meets (.sum left right) left.words
  | inLeft {left right : Chain} {before : List (Kind × List Char)} :
      Meets left before → Meets (.sum left right) before
  | inRight {left right : Chain} {before : List (Kind × List Char)} :
      Meets right before → Meets (.sum left right) (left.words ++ (.plus, ['+']) :: before)
  | inGroup {inner : Chain} {before : List (Kind × List Char)} :
      Meets inner before → Meets (.group inner) ((.leftParen, ['(']) :: before)

namespace Meets

variable {chain : Chain} {before other : List (Kind × List Char)}

/-- It is a `+` of the chain. -/
theorem exists_after (h : chain.Meets before) :
    ∃ after, chain.words = before ++ (.plus, ['+']) :: after := by
  induction h with
  | operand _ => exact ⟨_, rfl⟩
  | @inLeft _ right _ _ ih =>
      obtain ⟨after, hAfter⟩ := ih
      refine ⟨after ++ (.plus, ['+']) :: right.words, ?_⟩
      rw [words, hAfter, List.append_assoc, List.cons_append]
  | inRight _ ih =>
      obtain ⟨after, hAfter⟩ := ih
      refine ⟨after, ?_⟩
      rw [words, hAfter, List.append_assoc, List.cons_append]
  | inGroup _ ih =>
      obtain ⟨after, hAfter⟩ := ih
      refine ⟨after ++ [(.rightParen, [')'])], ?_⟩
      rw [words, hAfter, List.cons_append, List.append_assoc, List.cons_append, List.cons_append]

theorem numbers_pos (h : chain.Meets before) : 0 < chain.numbers ∧ 2 ≤ chain.leaves.length := by
  induction h with
  | @operand left right hNumber =>
      have hLeft := left.length_leaves_pos
      have hRight := right.length_leaves_pos
      rw [isNumber_iff, isNumber_iff] at hNumber
      rw [numbers_sum, length_leaves_sum]
      omega
  | inLeft _ ih =>
      rw [numbers_sum, length_leaves_sum]
      omega
  | inRight _ ih =>
      rw [numbers_sum, length_leaves_sum]
      omega
  | inGroup _ ih => exact ih

/-- Below a `+` that has the only number for an operand no other meets it. -/
theorem not_of_operand {left right : Chain} (hOne : (sum left right).numbers = 1)
    (hNumber : left.IsNumber ∨ right.IsNumber) : ¬ left.Meets before ∧ ¬ right.Meets before := by
  rw [isNumber_iff, isNumber_iff] at hNumber
  rw [numbers_sum] at hOne
  constructor
  · intro hLeft
    have hPos := hLeft.numbers_pos
    omega
  · intro hRight
    have hPos := hRight.numbers_pos
    omega

/-- **No other `+` meets the number**, if there is only one. -/
theorem unique (h : chain.Meets before) (hOther : chain.Meets other) (hOne : chain.numbers = 1) :
    before = other := by
  induction h generalizing other with
  | operand hNumber =>
      cases hOther with
      | operand _ => rfl
      | inLeft hLeft => exact absurd hLeft (not_of_operand hOne hNumber).1
      | inRight hRight => exact absurd hRight (not_of_operand hOne hNumber).2
  | inLeft hLeft ih =>
      have hPos := hLeft.numbers_pos
      cases hOther with
      | operand hNumber => exact absurd hLeft (not_of_operand hOne hNumber).1
      | inLeft hOther =>
          rw [numbers_sum] at hOne
          exact ih hOther (by omega)
      | inRight hRight =>
          have hRightPos := hRight.numbers_pos
          rw [numbers_sum] at hOne
          omega
  | inRight hRight ih =>
      have hPos := hRight.numbers_pos
      cases hOther with
      | operand hNumber => exact absurd hRight (not_of_operand hOne hNumber).2
      | inLeft hLeft =>
          have hLeftPos := hLeft.numbers_pos
          rw [numbers_sum] at hOne
          omega
      | inRight hOther =>
          rw [numbers_sum] at hOne
          rw [ih hOther (by omega)]
  | inGroup _ ih =>
      cases hOther with
      | inGroup hOther => rw [ih hOther hOne]

end Meets

/-- The evaluation of a tree of a chain ends at the `+` that meets a number. -/
def FailsAtNumber (chain : Chain) (tokens : List Token) (tree : Expr) : Prop :=
  ∃ before front plus back, chain.Meets before ∧ before.length = front.length ∧
    tokens = front ++ plus :: back ∧
    tree.evaluate = .error ⟨.operandsMustBeNumbersOrStrings, plus⟩

namespace FailsAtNumber

variable {left right : Chain} {leftTokens rightTokens : List Token} {leftTree rightTree : Expr}
  {plus : Token}

theorem inGroup {inner : Chain} {tokens : List Token} {tree : Expr} {opening closing : Token}
    (h : inner.FailsAtNumber tokens tree) :
    (group inner).FailsAtNumber (opening :: tokens ++ [closing]) (.group tree) := by
  obtain ⟨before, front, plus, back, hMeets, hLength, rfl, hError⟩ := h
  refine ⟨_, opening :: front, plus, back ++ [closing], .inGroup hMeets, ?_, ?_, hError⟩
  · rw [List.length_cons, List.length_cons, hLength]
  · rw [List.cons_append, List.cons_append, List.append_assoc, List.cons_append]

/-- A failure on the left is one of the sum. -/
theorem inLeft (h : left.FailsAtNumber leftTokens leftTree) :
    (sum left right).FailsAtNumber (leftTokens ++ plus :: rightTokens)
      (.binary leftTree .add plus rightTree) := by
  obtain ⟨before, front, inner, back, hMeets, hLength, rfl, hError⟩ := h
  refine ⟨before, front, inner, back ++ plus :: rightTokens, .inLeft hMeets, hLength, ?_, ?_⟩
  · rw [List.append_assoc, List.cons_append]
  · rw [Expr.evaluate, hError]
    rfl

/-- A failure on the right is one of the sum if the left has a value. -/
theorem inRight (hLeft : left.Spelled leftTokens leftTree) {value : Value}
    (hValue : leftTree.evaluate = .ok value) (h : right.FailsAtNumber rightTokens rightTree) :
    (sum left right).FailsAtNumber (leftTokens ++ plus :: rightTokens)
      (.binary leftTree .add plus rightTree) := by
  obtain ⟨before, front, inner, back, hMeets, hLength, rfl, hError⟩ := h
  refine ⟨_, leftTokens ++ plus :: front, inner, back, .inRight hMeets, ?_, ?_, ?_⟩
  · rw [List.length_append, List.length_append, List.length_cons, List.length_cons, hLength,
      hLeft.length_tokens]
  · rw [List.append_assoc, List.cons_append]
  · rw [Expr.evaluate, hValue, hError]
    rfl

/-- A `+` fails itself where one operand is a number and the other a string. -/
theorem operand (hLeft : left.Spelled leftTokens leftTree) {leftValue rightValue : Value}
    (hLeftValue : leftTree.evaluate = .ok leftValue)
    (hRightValue : rightTree.evaluate = .ok rightValue)
    (hAdd : addition plus leftValue rightValue = .error ⟨.operandsMustBeNumbersOrStrings, plus⟩)
    (hNumber : left.IsNumber ∨ right.IsNumber) :
    (sum left right).FailsAtNumber (leftTokens ++ plus :: rightTokens)
      (.binary leftTree .add plus rightTree) := by
  refine ⟨left.words, leftTokens, plus, rightTokens, .operand hNumber, hLeft.length_tokens.symm,
    rfl, ?_⟩
  rw [Expr.evaluate, hLeftValue, hRightValue]
  exact hAdd

end FailsAtNumber

/-- A chain with one number is this number, or a chain of two leaves or more. -/
theorem isNumber_or {chain : Chain} (hOne : chain.numbers = 1) :
    (∃ numeral, chain.leaves = [.number numeral]) ∨ 2 ≤ chain.leaves.length := by
  have hPos := chain.length_leaves_pos
  by_cases hLength : chain.leaves.length = 1
  · exact .inl (isNumber_iff.2 ⟨hLength, hOne⟩)
  · exact .inr (by omega)

/-- **With one number among two leaves or more the `+` that meets it fails.** -/
theorem Spelled.failsAtNumber {chain : Chain} {tokens : List Token} {tree : Expr}
    (h : chain.Spelled tokens tree) (hOne : chain.numbers = 1) (hTwo : 2 ≤ chain.leaves.length) :
    chain.FailsAtNumber tokens tree := by
  induction h with
  | text _ => exact absurd hTwo (show ¬ 2 ≤ 1 by decide)
  | number _ => exact absurd hTwo (show ¬ 2 ≤ 1 by decide)
  | group _ _ _ ih => exact (ih hOne hTwo).inGroup
  | @sum left right plus leftTokens rightTokens leftTree rightTree hLeft _ hRight ihLeft ihRight =>
      rw [numbers_sum] at hOne
      have hSides : left.numbers = 1 ∧ right.numbers = 0 ∨
          left.numbers = 0 ∧ right.numbers = 1 := by omega
      rcases hSides with ⟨hLeftOne, hNone⟩ | ⟨hNone, hRightOne⟩
      · obtain ⟨texts, hTexts⟩ := Leaf.exists_texts hNone
        rcases isNumber_or hLeftOne with ⟨numeral, hNumber⟩ | hLeftTwo
        · exact .operand hLeft (hLeft.evaluate_of_number hNumber) (hRight.evaluate_of_texts hTexts)
            rfl (.inl ⟨numeral, hNumber⟩)
        · exact (ihLeft hLeftOne hLeftTwo).inLeft
      · obtain ⟨texts, hTexts⟩ := Leaf.exists_texts hNone
        rcases isNumber_or hRightOne with ⟨numeral, hNumber⟩ | hRightTwo
        · exact .operand hLeft (hLeft.evaluate_of_texts hTexts) (hRight.evaluate_of_number hNumber)
            rfl (.inr ⟨numeral, hNumber⟩)
        · exact .inRight hLeft (hLeft.evaluate_of_texts hTexts) (ihRight hRightOne hRightTwo)

end Chain

end ExprLang
