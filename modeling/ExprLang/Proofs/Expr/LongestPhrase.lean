import ExprLang.Proofs.Expr.Reading

/-!
# An expression that is read is the longest phrase of its level

Reading at a level succeeds exactly if the tokens begin with a phrase of the level behind which no
operator of the level or of a tighter one stands, and what is read is then the canonical tree of
this phrase. A phrase never ends early: a reader that could stop takes every operator of its level,
and a reader that comes to the end of some phrase at the front has left nothing of it unread.

A minus behind a phrase is always taken, at the level of terms and at the looser ones, as the
operator between two operands; as a prefix operator it is taken only where an operand is due.

## Main results

* `PhraseReader.EndsBefore.of_stop_ok` — where a phrase that is complete can end.
* `Expr.rest_read_suffix_of_phrase` — no phrase at the front is longer than what is used up.
* `Expr.read_ok_iff_longest_phrase` — when reading succeeds, and with which tree.
-/

namespace ExprLang

open PhraseReader

/-- A reader whose phrase is complete goes on with every operator of the level and of the tighter
ones, so none of them stands where the phrase ends. -/
theorem PhraseReader.EndsBefore.of_stop_ok {level : Level} {reader : PhraseReader}
    {rest : List Token} (h : reader.EndsBefore level rest) {token : Token} {tree : Expr}
    (hStop : reader.stop token = .ok tree) : level.EndsBefore rest := by
  intro operator hOperator op hKind
  by_contra hTight
  have hLevel : level.tier ≤ op.level.tier := not_lt.1 hTight
  obtain ⟨frames, due | operand⟩ := reader
  · -- An operand is due, and the phrase is not complete.
    cases hStop
  · have hStep : (⟨frames, some operand⟩ : PhraseReader).step level operator = some _ :=
      step_eq_some_iff.2 (.binary hKind rfl fun _ => hLevel)
    rw [h operator hOperator] at hStep
    cases hStep

/-- What is left of an expression that is read begins with no operator of its level. -/
theorem Expr.endsBefore_of_read {level : Level} {tree : Expr} {tokens rest : List Token}
    (h : Expr.read level tokens = ⟨.ok tree, rest⟩) : level.EndsBefore rest := by
  obtain ⟨taken, left, reader, rfl, hAdvance, hEnds⟩ := exists_advance level tokens start
  rw [Expr.read, run_of_advance hAdvance, run_of_endsBefore hEnds] at h
  injection h with hStop hRest
  rw [← hRest]
  exact hEnds.of_stop_ok hStop

/-- **No phrase at the front is longer than what is used up**, also if reading ends with an
error. -/
theorem Expr.rest_read_suffix_of_phrase {level : Level} {phrase : List Token}
    (h : Grammar.Phrase level.tier phrase) (behind : List Token) :
    (Expr.read level (phrase ++ behind)).rest <:+ behind := by
  obtain ⟨tree, hTree, hTier⟩ := Grammar.phrase_iff.1 h
  obtain ⟨held, operand, hAdvance, -⟩ := advance_of_spells hTree.spells [] hTree.canonical hTier
  have hStart : start.advance level phrase = some ⟨held, some operand⟩ := hAdvance
  rw [Expr.read, run_of_advance hStart]
  exact rest_run_suffix level _ behind

/-- **Reading an expression finds exactly the longest phrase of its level.** It gives a tree and
leaves some tokens if and only if the tokens before these are the yield of the tree, the levels of
the grammar allow the tree as it stands, its outermost node is of the level or of a tighter one, and
the tokens that are left do not begin with an operator of the level or of a tighter one. All phrases
of the level at the front of the tokens end within what is used up. -/
theorem Expr.read_ok_iff_longest_phrase (level : Level) (tokens : List Token) :
    (∀ tree rest, Expr.read level tokens = ⟨.ok tree, rest⟩ ↔
      ∃ phrase, tokens = phrase ++ rest ∧ tree.TreeOf phrase ∧ level.tier ≤ tree.tier ∧
        level.EndsBefore rest) ∧
    ∀ phrase behind, tokens = phrase ++ behind → Grammar.Phrase level.tier phrase →
      (Expr.read level tokens).rest <:+ behind := by
  refine ⟨fun tree rest => ⟨fun hRead => ?_, ?_⟩, ?_⟩
  · obtain ⟨phrase, hTokens, hTree, hTier⟩ := treeOf_of_read (congrArg Reading.result hRead)
    rw [hRead] at hTokens
    exact ⟨phrase, hTokens, hTree, hTier, endsBefore_of_read hRead⟩
  · rintro ⟨phrase, rfl, hTree, hTier, hRest⟩
    exact read_of_treeOf hTree hTier hRest
  · rintro phrase behind rfl hPhrase
    exact rest_read_suffix_of_phrase hPhrase behind

-- The first minus stands between two operands, the second before one; the comparison is left.
example :
    let (word, minus, less) : Token × Token × Token :=
      (.plain .nilWord "nill", .plain .minus "-", .plain .less "<")
    Expr.read .term [word, minus, minus, word, less, word] =
      ⟨.ok (.binary (.literal .nil) .sub minus (.unary .negate minus (.literal .nil))),
        [less, word]⟩ := rfl

end ExprLang
