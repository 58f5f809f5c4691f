import ExprLang.Proofs.Grammar

/-!
# What the frames of a phrase stand for

A stack of frames is a phrase that breaks off where an operand is due. `Opens` says which tokens
such a stack stands for, and carries the invariant of the stack: the left operands in it are
canonical trees, and each binary operator stands where its level may stand (`Admits`).

## Main results

* `closeFrames_inside` — closing frames moves tokens from the stack into the operand, keeps the
  invariant, and stops only at a frame that binds less tightly.
* `closeFrames_of_admits` — an operator closes nothing where its own level may stand.
* `Inside.exists_treeOf` — every unfinished phrase can be completed by closing its groups.
-/

namespace ExprLang

/-- A tree whose outermost node is of a level may stand as an operand right inside the frames. -/
def Admits (level : Level) (tier : Tier) : List Frame → Prop
  | [] => level.tier ≤ tier
  | .group :: _ => True
  | .unary _ _ :: _ => .unary ≤ tier
  | .binary _ op _ :: _ => op.level.tier < tier

/-- Unary and primary expressions may stand anywhere. -/
theorem admits_of_unary_le {level : Level} {tier : Tier} (h : .unary ≤ tier)
    (frames : List Frame) : Admits level tier frames := by
  match frames with
  | [] => exact level.tier_lt_unary.le.trans h
  | .group :: _ => trivial
  | .unary _ _ :: _ => exact h
  | .binary _ op _ :: _ => exact op.level.tier_lt_unary.trans_le h

theorem Admits.mono {level : Level} {loose tight : Tier} {frames : List Frame}
    (h : Admits level loose frames) (hTier : loose ≤ tight) : Admits level tight frames := by
  match frames with
  | [] => exact h.trans hTier
  | .group :: _ => trivial
  | .unary _ _ :: _ => exact h.trans hTier
  | .binary _ _ _ :: _ => exact h.trans_le hTier

/-- The tokens that a stack of open frames stands for, outermost first. -/
inductive Opens (level : Level) : List Frame → List Token → Prop where
  | nil : Opens level [] []
  | group {frames : List Frame} {before : List Token} {opening : Token} :
      Opens level frames before → opening.kind = .leftParen →
      Opens level (.group :: frames) (before ++ [opening])
  | unary {frames : List Frame} {before : List Token} {op : UnaryOp} {operator : Token} :
      Opens level frames before → operator.kind = op.kind →
      Opens level (.unary op operator :: frames) (before ++ [operator])
  | binary {frames : List Frame} {before tokens : List Token} {left : Expr} {op : BinaryOp}
      {operator : Token} :
      Opens level frames before → left.TreeOf tokens → op.level.tier ≤ left.tier →
      Admits level op.level.tier frames → operator.kind = op.kind →
      Opens level (.binary left op operator :: frames) (before ++ (tokens ++ [operator]))

/-- An unfinished phrase: open frames, and the canonical tree of an operand right inside them. -/
structure Inside (level : Level) (frames : List Frame) (operand : Expr) (tokens : List Token) :
    Prop where
  split : ∃ before inner, tokens = before ++ inner ∧ Opens level frames before ∧
    operand.TreeOf inner
  admits : Admits level operand.tier frames

/-! ## Closing frames -/

/-- An operator whose level may stand right inside the frames closes none of them. -/
theorem closeFrames_of_admits {level inner : Level} {frames : List Frame}
    (h : Admits level inner.tier frames) (operand : Expr) :
    closeFrames inner operand frames = (operand, frames) := by
  match frames with
  | [] => rfl
  | .group :: _ => rfl
  | .unary _ _ :: _ => exact absurd h (not_le_of_gt inner.tier_lt_unary)
  | .binary _ op _ :: _ =>
      have hRank : op.level.rank < inner.rank := Level.tier_lt_iff.1 h
      have hLoose : ¬ inner.rank ≤ op.level.rank := Nat.not_le_of_lt hRank
      simp only [closeFrames, hLoose, if_false]

/-- A finished operand of a prefix operator joins the frame of the operator. -/
theorem Inside.closeUnary {level : Level} {frames : List Frame} {op : UnaryOp}
    {operator : Token} {operand : Expr} {tokens : List Token}
    (h : Inside level (.unary op operator :: frames) operand tokens) :
    Inside level frames (.unary op operator operand) tokens := by
  obtain ⟨⟨before, inner, rfl, hOpens, hTree⟩, hAdmits⟩ := h
  cases hOpens with
  | @unary _ before _ _ hFrames hKind =>
      refine ⟨⟨before, operator :: inner, by simp, hFrames, ?_⟩, admits_of_unary_le le_rfl _⟩
      exact ⟨.unary hKind hTree.spells, hAdmits, hTree.canonical⟩

/-- A finished right operand of a binary operator joins the frame of the operator. -/
theorem Inside.closeBinary {level : Level} {frames : List Frame} {left : Expr} {op : BinaryOp}
    {operator : Token} {operand : Expr} {tokens : List Token}
    (h : Inside level (.binary left op operator :: frames) operand tokens) :
    Inside level frames (.binary left op operator operand) tokens := by
  obtain ⟨⟨before, inner, rfl, hOpens, hTree⟩, hAdmits⟩ := h
  cases hOpens with
  | @binary _ before leftTokens _ _ _ hFrames hLeft hTier hLevel hKind =>
      refine ⟨⟨before, leftTokens ++ operator :: inner, by simp, hFrames, ?_⟩, hLevel⟩
      exact ⟨.binary hLeft.spells hKind hTree.spells, hTier, hAdmits, hLeft.canonical,
        hTree.canonical⟩

/-- A group around a finished operand is closed by a parenthesis. -/
theorem Inside.closeGroup {level : Level} {frames : List Frame} {operand : Expr}
    {tokens : List Token} {closing : Token} (h : Inside level (.group :: frames) operand tokens)
    (hClosing : closing.kind = .rightParen) :
    Inside level frames (.group operand) (tokens ++ [closing]) := by
  obtain ⟨⟨before, inner, rfl, hOpens, hTree⟩, _⟩ := h
  cases hOpens with
  | @group _ before opening hFrames hOpening =>
      refine ⟨⟨before, opening :: inner ++ [closing], by simp, hFrames, ?_⟩,
        admits_of_unary_le (Tier.le_primary _) _⟩
      exact ⟨.group hOpening hTree.spells hClosing, hTree.canonical⟩

/-- A finished operand becomes the left operand of a binary operator. -/
theorem Inside.openBinary {level : Level} {frames : List Frame} {left : Expr}
    {tokens : List Token} {op : BinaryOp} {operator : Token} (h : Inside level frames left tokens)
    (hTier : op.level.tier ≤ left.tier) (hAdmits : Admits level op.level.tier frames)
    (hKind : operator.kind = op.kind) :
    Opens level (.binary left op operator :: frames) (tokens ++ [operator]) := by
  obtain ⟨⟨before, inner, rfl, hOpens, hTree⟩, _⟩ := h
  rw [List.append_assoc]
  exact .binary hOpens hTree hTier hAdmits hKind

/-- Closing frames keeps the tokens and the invariant. The operand that is left is of the level at
which frames were closed or of a tighter one, and so may become a left operand there. -/
theorem closeFrames_inside {level : Level} (inner : Level) {frames : List Frame} {operand : Expr}
    {tokens : List Token} (h : Inside level frames operand tokens)
    (hTier : inner.tier ≤ operand.tier) :
    Inside level (closeFrames inner operand frames).2 (closeFrames inner operand frames).1 tokens ∧
      inner.tier ≤ (closeFrames inner operand frames).1.tier := by
  fun_induction closeFrames inner operand frames with
  | case1 operand op operator frames ih => exact ih h.closeUnary inner.tier_lt_unary.le
  | case2 operand left op operator frames hTight ih =>
      have hLevel : inner.tier ≤ op.level.tier := Level.tier_le_iff.2 hTight
      exact ih h.closeBinary hLevel
  | case3 => exact ⟨h, hTier⟩
  | case4 => exact ⟨h, hTier⟩

/-- Closing stops at the bottom of the stack or at a frame inside which the level may stand. -/
theorem closeFrames_admits (level inner : Level) (operand : Expr) (frames : List Frame) :
    (closeFrames inner operand frames).2 = [] ∨
      Admits level inner.tier (closeFrames inner operand frames).2 := by
  fun_induction closeFrames inner operand frames with
  | case1 _ _ _ _ ih => exact ih
  | case2 _ _ _ _ _ _ ih => exact ih
  | case3 operand left op operator frames hLoose =>
      right
      show op.level.tier < inner.tier
      rw [Level.tier_lt_iff]
      omega
  | case4 operand frames hUnary hBinary =>
      match frames with
      | [] => exact .inl rfl
      | .group :: _ => exact .inr trivial
      | .unary op operator :: frames => exact absurd rfl (hUnary op operator frames)
      | .binary left op operator :: frames => exact absurd rfl (hBinary left op operator frames)

/-- What is left after closing everything that can be closed is a group or nothing. -/
theorem closeFrames_equality_cases (operand : Expr) (frames : List Frame) :
    (closeFrames .equality operand frames).2 = [] ∨
      ∃ outer, (closeFrames .equality operand frames).2 = .group :: outer := by
  rcases closeFrames_admits .equality .equality operand frames with h | h
  · exact .inl h
  · generalize (closeFrames .equality operand frames).2 = frames at h
    match frames with
    | [] => exact .inl rfl
    | .group :: outer => exact .inr ⟨outer, rfl⟩
    | .unary _ _ :: _ => exact absurd h (not_le_of_gt (Level.tier_lt_unary .equality))
    | .binary _ op _ :: _ => exact absurd h (not_lt_of_ge (Tier.equality_le _))

/-! ## Completing a phrase -/

/-- An unfinished phrase can be completed by closing its groups. -/
theorem Inside.exists_treeOf {level : Level} {frames : List Frame} :
    ∀ {operand : Expr} {tokens : List Token}, Inside level frames operand tokens →
      ∃ (tree : Expr) (after : List Token), tree.TreeOf (tokens ++ after) ∧
        level.tier ≤ tree.tier := by
  induction frames with
  | nil =>
      rintro operand _ ⟨⟨before, inner, rfl, hOpens, hTree⟩, hAdmits⟩
      cases hOpens
      exact ⟨operand, [], by simpa using hTree, hAdmits⟩
  | cons frame frames ih =>
      intro operand tokens h
      cases frame with
      | unary op operator => exact ih h.closeUnary
      | binary left op operator => exact ih h.closeBinary
      | group =>
          let closing := Token.plain .rightParen ")"
          have hGroup : Inside level frames (.group operand) (tokens ++ [closing]) :=
            h.closeGroup rfl
          obtain ⟨tree, after, hTree, hTier⟩ := ih hGroup
          exact ⟨tree, closing :: after, by simpa using hTree, hTier⟩

end ExprLang
