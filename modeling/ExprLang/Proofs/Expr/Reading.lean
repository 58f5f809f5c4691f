import ExprLang.Proofs.Expr.Frames

/-!
# Reading expressions agrees with the grammar

The reader of a phrase is related to the grammar in both directions. Going forward, every token
that is taken keeps the invariant `Reached`: the tokens taken so far are those of the open frames
and of the finished operand. Going backward, the yield of a canonical tree is taken to its last
token, wherever its level may stand.

## Main results

* `PhraseReader.step_eq_some_iff` — all that a step can do, as the relation `Takes`.
* `PhraseReader.exists_advance` — a reader takes tokens while it can and stops before the rest.
* `PhraseReader.reached_advance` — the invariant after any tokens.
* `PhraseReader.advance_of_spells` — the yield of a canonical tree is taken as a whole.
* `Expr.read_of_treeOf`, `Expr.treeOf_of_read` — reading an expression finds exactly the canonical
  tree of the tokens that it uses up.
-/

namespace ExprLang

namespace PhraseReader

/-! ## Steps -/

/-- What taking one token does to a reader. -/
inductive Takes (level : Level) (token : Token) : PhraseReader → PhraseReader → Prop where
  | unary {frames : List Frame} {op : UnaryOp} :
      token.kind = op.kind → Takes level token ⟨frames, none⟩ ⟨.unary op token :: frames, none⟩
  | group {frames : List Frame} :
      token.kind = .leftParen → Takes level token ⟨frames, none⟩ ⟨.group :: frames, none⟩
  | literal {frames : List Frame} {value : Value} :
      token.Denotes value → Takes level token ⟨frames, none⟩ ⟨frames, some (.literal value)⟩
  | binary {frames outer : List Frame} {operand left : Expr} {op : BinaryOp} :
      token.kind = op.kind → closeFrames op.level operand frames = (left, outer) →
      (outer = [] → level.tier ≤ op.level.tier) →
      Takes level token ⟨frames, some operand⟩ ⟨.binary left op token :: outer, none⟩
  | closing {frames outer : List Frame} {operand inner : Expr} :
      token.kind = .rightParen → closeFrames .equality operand frames = (inner, .group :: outer) →
      Takes level token ⟨frames, some operand⟩ ⟨outer, some (.group inner)⟩

private theorem takes_of_step {level : Level} {reader next : PhraseReader} {token : Token}
    (h : reader.step level token = some next) : Takes level token reader next := by
  obtain ⟨frames, _ | operand⟩ := reader
  · simp only [step] at h
    split at h
    · rename_i op hOp
      cases h
      exact .unary (UnaryOp.ofKind?_eq_some_iff.1 hOp)
    · split at h
      · rename_i hParen
        cases h
        exact .group hParen
      · obtain ⟨value, hValue, rfl⟩ := Option.map_eq_some_iff.1 h
        exact .literal (Token.constant?_eq_some_iff.1 hValue)
  · simp only [step] at h
    split at h
    · rename_i op hOp
      split at h
      · cases h
      · rename_i hLevel
        cases h
        refine .binary (BinaryOp.ofKind?_eq_some_iff.1 hOp) rfl fun hBottom => ?_
        rw [Level.tier_le_iff]
        simp only [hBottom, List.isEmpty_nil, true_and, Nat.not_lt] at hLevel
        exact hLevel
    · split at h
      · rename_i hParen
        split at h
        · rename_i inner outer hClose
          cases h
          exact .closing hParen hClose
        · cases h
      · cases h

/-- A reader that can take a token does what `Takes` says, and nothing else is taken. -/
theorem step_eq_some_iff {level : Level} {reader next : PhraseReader} {token : Token} :
    reader.step level token = some next ↔ Takes level token reader next := by
  constructor
  · exact takes_of_step
  · intro h
    cases h with
    | unary hKind =>
        simp only [step, UnaryOp.ofKind?_eq_some_iff.2 hKind]
    | group hKind =>
        simp only [step, hKind, UnaryOp.ofKind?, if_true]
    | literal hDenotes =>
        have hConstant := Token.constant?_eq_some_iff.2 hDenotes
        have hKind : UnaryOp.ofKind? token.kind = none ∧ token.kind ≠ .leftParen := by
          cases hDenotes <;> simp_all [UnaryOp.ofKind?]
        simp only [step, hKind.1, hKind.2, if_false, hConstant, Option.map_some]
    | binary hKind hClose hLevel =>
        simp only [step, BinaryOp.ofKind?_eq_some_iff.2 hKind, hClose]
        rw [if_neg]
        rintro ⟨hBottom, hLoose⟩
        have hTier := Level.tier_le_iff.1 (hLevel (List.isEmpty_iff.1 hBottom))
        omega
    | closing hKind hClose =>
        simp only [step, hKind, BinaryOp.ofKind?, if_true, hClose]

/-! ## The invariant of a reader -/

/-- The tokens taken so far are those of the open frames and, if an operand is finished, its own.
An operand is closed into its frames only when the next operator comes, so it is primary. -/
inductive Reached (level : Level) : PhraseReader → List Token → Prop where
  | due {frames : List Frame} {tokens : List Token} :
      Opens level frames tokens → Reached level ⟨frames, none⟩ tokens
  | finished {frames : List Frame} {operand : Expr} {tokens : List Token} :
      Inside level frames operand tokens → operand.tier = .primary →
      Reached level ⟨frames, some operand⟩ tokens

/-- Each token that is taken keeps the invariant. -/
theorem Reached.step {level : Level} {reader next : PhraseReader} {tokens : List Token}
    {token : Token} (h : Reached level reader tokens)
    (hStep : reader.step level token = some next) : Reached level next (tokens ++ [token]) := by
  cases h with
  | due hOpens =>
      cases step_eq_some_iff.1 hStep with
      | unary hKind => exact .due (.unary hOpens hKind)
      | group hKind => exact .due (.group hOpens hKind)
      | literal hDenotes =>
          have hTree : (Expr.literal _).TreeOf [token] := ⟨.literal hDenotes, trivial⟩
          exact .finished ⟨⟨tokens, [token], rfl, hOpens, hTree⟩,
            admits_of_unary_le (Tier.le_primary _) _⟩ rfl
  | @finished frames operand _ hInside hPrimary =>
      have hTight (inner : Level) : inner.tier ≤ operand.tier :=
        hPrimary ▸ Tier.le_primary _
      cases step_eq_some_iff.1 hStep with
      | @binary _ outer _ left op hKind hClose hBottom =>
          obtain ⟨hLeft, hTier⟩ := closeFrames_inside op.level hInside (hTight op.level)
          have hStop := closeFrames_admits level op.level operand frames
          rw [hClose] at hLeft hTier hStop
          refine .due (hLeft.openBinary hTier ?_ hKind)
          rcases hStop with hEmpty | hAdmits
          · cases hEmpty
            exact hBottom rfl
          · exact hAdmits
      | @closing _ outer _ inner hKind hClose =>
          have hInner := (closeFrames_inside .equality hInside (hTight .equality)).1
          rw [hClose] at hInner
          exact .finished (hInner.closeGroup hKind) rfl

/-- A phrase that ends without an error is a canonical tree of the level. -/
theorem Reached.stop_ok {level : Level} {reader : PhraseReader} {tokens : List Token}
    {token : Token} {tree : Expr} (h : Reached level reader tokens)
    (hStop : reader.stop token = .ok tree) : tree.TreeOf tokens ∧ level.tier ≤ tree.tier := by
  cases h with
  | due => cases hStop
  | @finished frames operand _ hInside =>
      have hClosed :=
        (closeFrames_inside .equality hInside (Tier.equality_le operand.tier)).1
      simp only [PhraseReader.stop] at hStop
      split at hStop
      · rename_i phrase hClose
        cases hStop
        rw [hClose] at hClosed
        obtain ⟨⟨before, inner, rfl, hOpens, hTree⟩, hAdmits⟩ := hClosed
        cases hOpens
        exact ⟨hTree, hAdmits⟩
      · cases hStop

/-- What an error at the end of a phrase says: an operand is due, or a group is open and the
phrase inside it is complete. -/
theorem Reached.stop_error {level : Level} {reader : PhraseReader} {tokens : List Token}
    {token : Token} {error : ParseError} (h : Reached level reader tokens)
    (hStop : reader.stop token = .error error) :
    error.token = token ∧
      (error.expected = .expression ∧ reader.operand = none ∨
        error.expected = .closingParen ∧
          ∃ operand inner outer, reader.operand = some operand ∧
            closeFrames .equality operand reader.frames = (inner, .group :: outer)) := by
  cases h with
  | due =>
      cases hStop
      exact ⟨rfl, .inl ⟨rfl, rfl⟩⟩
  | @finished frames operand =>
      simp only [PhraseReader.stop] at hStop
      split at hStop
      · cases hStop
      · rename_i inner frame outer hClose
        cases hStop
        have hGroup := closeFrames_equality_cases operand frames
        rw [hClose] at hGroup
        obtain hEmpty | ⟨outer', hCons⟩ := hGroup
        · cases hEmpty
        · cases hCons
          exact ⟨rfl, .inr ⟨rfl, operand, inner, outer, rfl, hClose⟩⟩

/-- What has been taken of a phrase can be completed to a phrase. -/
theorem Reached.exists_phrase {level : Level} {reader : PhraseReader} {tokens : List Token}
    (h : Reached level reader tokens) :
    ∃ after : List Token, Grammar.Phrase level.tier (tokens ++ after) := by
  cases h with
  | finished hInside =>
      obtain ⟨tree, after, hTree⟩ := hInside.exists_treeOf
      exact ⟨after, Grammar.phrase_iff.2 ⟨tree, hTree⟩⟩
  | due hOpens =>
      -- Any literal will do as the operand that is due.
      let literal := Token.plain .nilWord "nill"
      have hInside : Inside level _ (.literal .nil) (tokens ++ [literal]) :=
        ⟨⟨tokens, [literal], rfl, hOpens, .literal (.nilWord rfl), trivial⟩,
          admits_of_unary_le (Tier.le_primary _) _⟩
      obtain ⟨tree, after, hTree, hTier⟩ := hInside.exists_treeOf
      rw [List.append_assoc] at hTree
      exact ⟨literal :: after, Grammar.phrase_iff.2 ⟨tree, hTree, hTier⟩⟩

/-- What has been taken of a phrase and a token that can be taken next can be completed to a
phrase. -/
theorem Reached.exists_phrase_of_step {level : Level} {reader next : PhraseReader}
    {tokens : List Token} {token : Token} (h : Reached level reader tokens)
    (hStep : reader.step level token = some next) :
    ∃ after : List Token, Grammar.Phrase level.tier (tokens ++ token :: after) := by
  obtain ⟨after, hPhrase⟩ := (h.step hStep).exists_phrase
  rw [List.append_assoc] at hPhrase
  exact ⟨after, hPhrase⟩

/-! ## Runs -/

/-- Takes all of the tokens, if the phrase of a level can go on with each of them. -/
def advance (level : Level) (reader : PhraseReader) (tokens : List Token) : Option PhraseReader :=
  tokens.foldlM (step level) reader

theorem advance_append (level : Level) (reader : PhraseReader) (tokens more : List Token) :
    reader.advance level (tokens ++ more) =
      (reader.advance level tokens).bind fun next => next.advance level more :=
  List.foldlM_append

theorem advance_cons (level : Level) (reader : PhraseReader) (token : Token)
    (tokens : List Token) :
    reader.advance level (token :: tokens) =
      (reader.step level token).bind fun next => next.advance level tokens :=
  List.foldlM_cons

/-- A phrase ends before a token list that is empty or begins with a token that it cannot go on
with. -/
def EndsBefore (level : Level) (reader : PhraseReader) (rest : List Token) : Prop :=
  ∀ token ∈ rest.head?, reader.step level token = none

theorem run_of_advance {level : Level} {reader next : PhraseReader} {tokens : List Token}
    (h : reader.advance level tokens = some next) (rest : List Token) :
    run level reader (tokens ++ rest) = run level next rest := by
  induction tokens generalizing reader with
  | nil =>
      cases h
      rfl
  | cons token tokens ih =>
      rw [advance_cons] at h
      obtain ⟨middle, hStep, hRest⟩ := Option.bind_eq_some_iff.1 h
      rw [List.cons_append, run, hStep]
      exact ih hRest

theorem run_of_endsBefore {level : Level} {reader : PhraseReader} {rest : List Token}
    (h : reader.EndsBefore level rest) :
    run level reader rest = ⟨reader.stop (nextToken rest), rest⟩ := by
  cases rest with
  | nil => rfl
  | cons token rest =>
      rw [run, h token rfl]
      rfl

/-- A reader takes tokens while it can, and stops before the rest. -/
theorem exists_advance (level : Level) (tokens : List Token) :
    ∀ reader : PhraseReader, ∃ taken rest next, tokens = taken ++ rest ∧
      reader.advance level taken = some next ∧ next.EndsBefore level rest := by
  induction tokens with
  | nil =>
      intro reader
      exact ⟨[], [], reader, rfl, rfl, by simp [EndsBefore]⟩
  | cons token tokens ih =>
      intro reader
      cases hStep : reader.step level token with
      | none => exact ⟨[], token :: tokens, reader, rfl, rfl, by simpa [EndsBefore] using hStep⟩
      | some next =>
          obtain ⟨taken, rest, last, rfl, hAdvance, hEnds⟩ := ih next
          refine ⟨token :: taken, rest, last, rfl, ?_, hEnds⟩
          rw [advance_cons, hStep]
          exact hAdvance

theorem reached_advance {level : Level} {reader next : PhraseReader} {before tokens : List Token}
    (h : Reached level reader before) (hAdvance : reader.advance level tokens = some next) :
    Reached level next (before ++ tokens) := by
  induction tokens generalizing reader before with
  | nil =>
      cases hAdvance
      simpa using h
  | cons token tokens ih =>
      rw [advance_cons] at hAdvance
      obtain ⟨middle, hStep, hRest⟩ := Option.bind_eq_some_iff.1 hAdvance
      have hNext := ih (h.step hStep) hRest
      rwa [List.append_assoc] at hNext

theorem reached_start (level : Level) : Reached level start [] := .due .nil

/-! ## Canonical trees are read back -/

/-- **The yield of a canonical tree is taken as a whole**, wherever its level may stand. The reader
may hold operators of the tree in its frames still, but it closes them to the tree as soon as an
operator of the level of the tree or a looser one comes. -/
theorem advance_of_spells {level : Level} {tree : Expr} {tokens : List Token}
    (hSpells : tree.Spells tokens) :
    ∀ frames : List Frame, tree.Canonical → Admits level tree.tier frames →
      ∃ held operand, advance level ⟨frames, none⟩ tokens = some ⟨held, some operand⟩ ∧
        ∀ inner : Level, inner.tier ≤ tree.tier →
          closeFrames inner operand held = closeFrames inner tree frames := by
  induction hSpells with
  | @literal value token hDenotes =>
      intro frames _ _
      refine ⟨frames, .literal value, ?_, fun _ _ => rfl⟩
      rw [advance_cons, step_eq_some_iff.2 (.literal hDenotes)]
      rfl
  | @group inner opening closing tokens hOpening _ hClosing ih =>
      intro frames hCanonical _
      obtain ⟨held, operand, hAdvance, hClose⟩ := ih (.group :: frames) hCanonical trivial
      have hInner : closeFrames .equality operand held = (inner, .group :: frames) :=
        hClose .equality (Tier.equality_le _)
      refine ⟨frames, .group inner, ?_, fun _ _ => rfl⟩
      rw [List.cons_append, advance_cons, step_eq_some_iff.2 (.group hOpening), Option.bind_some,
        advance_append, hAdvance, Option.bind_some, advance_cons,
        step_eq_some_iff.2 (.closing hClosing hInner)]
      rfl
  | @unary op operator right tokens hKind _ ih =>
      intro frames hCanonical _
      obtain ⟨hOperand, hRight⟩ := hCanonical
      obtain ⟨held, operand, hAdvance, hClose⟩ :=
        ih (.unary op operator :: frames) hRight hOperand
      refine ⟨held, operand, ?_, ?_⟩
      · rw [advance_cons, step_eq_some_iff.2 (.unary hKind)]
        exact hAdvance
      · intro inner _
        exact hClose inner (inner.tier_lt_unary.le.trans hOperand)
  | @binary left right op operator leftTokens rightTokens _ hKind _ ihLeft ihRight =>
      intro frames hCanonical hAdmits
      obtain ⟨hLeftTier, hRightTier, hLeft, hRight⟩ := hCanonical
      obtain ⟨heldLeft, operandLeft, hAdvanceLeft, hCloseLeft⟩ :=
        ihLeft frames hLeft (hAdmits.mono hLeftTier)
      have hClosed : closeFrames op.level operandLeft heldLeft = (left, frames) :=
        (hCloseLeft op.level hLeftTier).trans (closeFrames_of_admits hAdmits left)
      have hBottom : frames = [] → level.tier ≤ op.level.tier := by
        rintro rfl
        exact hAdmits
      obtain ⟨held, operand, hAdvance, hClose⟩ :=
        ihRight (.binary left op operator :: frames) hRight hRightTier
      refine ⟨held, operand, ?_, ?_⟩
      · rw [advance_append, hAdvanceLeft, Option.bind_some, advance_cons,
          step_eq_some_iff.2 (.binary hKind hClosed hBottom)]
        exact hAdvance
      · intro inner hInner
        have hTight : inner.rank ≤ op.level.rank := Level.tier_le_iff.1 hInner
        rw [hClose inner (le_trans hInner hRightTier.le)]
        simp only [closeFrames, hTight, if_true]

end PhraseReader

open PhraseReader

/-- No operator of a level or a tighter one is at the front of a token list. -/
def Level.EndsBefore (level : Level) (rest : List Token) : Prop :=
  ∀ token ∈ rest.head?, ∀ op : BinaryOp, token.kind = op.kind → op.level.tier < level.tier

/-- **A canonical tree is read back from its yield**, if the tokens after it do not go on with an
operator of the level. -/
theorem Expr.read_of_treeOf {level : Level} {tree : Expr} {tokens rest : List Token}
    (hTree : tree.TreeOf tokens) (hTier : level.tier ≤ tree.tier) (hRest : level.EndsBefore rest) :
    Expr.read level (tokens ++ rest) = ⟨.ok tree, rest⟩ := by
  obtain ⟨held, operand, hAdvance, hClose⟩ :=
    advance_of_spells hTree.spells [] hTree.canonical hTier
  have hWhole : closeFrames .equality operand held = (tree, []) :=
    hClose .equality (Tier.equality_le _)
  have hEnds : EndsBefore level ⟨held, some operand⟩ rest := by
    intro token hToken
    refine Option.eq_none_iff_forall_ne_some.2 fun next hStep => ?_
    cases step_eq_some_iff.1 hStep with
    | @binary _ outer _ left op hKind hClosed hBottom =>
        have hLoose := hRest token hToken op hKind
        have hOuter := hClose op.level (hLoose.le.trans hTier)
        rw [hClosed] at hOuter
        cases hOuter
        exact absurd (hBottom rfl) (not_le_of_gt hLoose)
    | closing _ hClosed =>
        rw [hWhole] at hClosed
        cases hClosed
  have hStop : PhraseReader.stop ⟨held, some operand⟩ (nextToken rest) = .ok tree := by
    simp only [PhraseReader.stop, hWhole]
  have hStart : start.advance level tokens = some ⟨held, some operand⟩ := hAdvance
  rw [Expr.read, run_of_advance hStart, run_of_endsBefore hEnds, hStop]

/-- No phrase goes on with a semicolon or with the mark at the end. -/
theorem PhraseReader.step_eq_none_of_kind (level : Level) (reader : PhraseReader) {token : Token}
    (h : token.kind ∈ [Kind.semicolon, .eof]) : reader.step level token = none := by
  refine Option.eq_none_iff_forall_ne_some.2 fun next hStep => ?_
  cases step_eq_some_iff.1 hStep with
  | @unary _ op hKind =>
      rw [hKind] at h
      cases op <;> exact absurd h (by decide)
  | group hKind =>
      rw [hKind] at h
      exact absurd h (by decide)
  | literal hDenotes => cases hDenotes <;> simp_all
  | @binary _ _ _ _ op hKind =>
      rw [hKind] at h
      cases op <;> exact absurd h (by decide)
  | closing hKind =>
      rw [hKind] at h
      exact absurd h (by decide)

theorem PhraseReader.EndsBefore.step_nextToken {level : Level} {reader : PhraseReader}
    {rest : List Token} (h : reader.EndsBefore level rest) :
    reader.step level (nextToken rest) = none := by
  cases rest with
  | nil => exact step_eq_none_of_kind level reader (List.mem_cons_of_mem _ List.mem_cons_self)
  | cons token rest => exact h token rfl

/-- Reading an expression, taken apart: the tokens that were used up brought the reader to where it
stopped, and of the tokens after them only the next one was looked at. -/
theorem Expr.exists_taken_read (level : Level) (tokens : List Token) :
    ∃ taken rest reader, tokens = taken ++ rest ∧ Reached level reader taken ∧
      ∀ others, nextToken others = nextToken rest →
        Expr.read level (taken ++ others) = ⟨reader.stop (nextToken others), others⟩ := by
  obtain ⟨taken, rest, reader, hTokens, hAdvance, hEnds⟩ := exists_advance level tokens start
  refine ⟨taken, rest, reader, hTokens, reached_advance (reached_start level) hAdvance, ?_⟩
  intro others hNext
  have hOthers : reader.EndsBefore level others := by
    cases others with
    | nil => simp [EndsBefore]
    | cons token others =>
        intro _ hToken
        cases hToken
        exact (congrArg _ hNext).trans hEnds.step_nextToken
  rw [Expr.read, run_of_advance hAdvance, run_of_endsBefore hOthers]

/-- **An expression that is read is the canonical tree of the tokens that it uses up.** -/
theorem Expr.treeOf_of_read {level : Level} {tree : Expr} {tokens : List Token}
    (h : (Expr.read level tokens).result = .ok tree) :
    ∃ taken, tokens = taken ++ (Expr.read level tokens).rest ∧ tree.TreeOf taken ∧
      level.tier ≤ tree.tier := by
  obtain ⟨taken, rest, reader, rfl, hReached, hRead⟩ := exists_taken_read level tokens
  rw [hRead rest rfl] at h ⊢
  exact ⟨taken, rfl, hReached.stop_ok h⟩

end ExprLang
