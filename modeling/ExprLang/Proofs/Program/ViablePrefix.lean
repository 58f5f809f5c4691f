import ExprLang.Proofs.Program.Sentence

/-!
# Where a syntax error is reported and what it says

Reading a statement breaks off at the earliest possible token. What has been used up by then is the
beginning of some statement, so nothing before the offending token is wrong; and no statement goes
on with the offending token, so nothing can be said later. What the error expects would have been
right.

That the tokens used up can be completed is read off the open frames of the reader. That the
offending token cannot be put right by what comes after it needs no analysis of the grammar: of the
tokens that were not used up only the first was looked at, so the same error comes with any others
behind it, while a statement of the grammar would have been read without an error.

## Main results

* `Statement.exists_taken_of_error` — the reader at the place where a statement breaks off, and that
  only the next token counts.
* `Statement.read_error_at_viable_prefix` — the place and the truth of a syntax error.
-/

namespace ExprLang

open PhraseReader

/-! ## Sentences from what has been used up -/

namespace Statement

theorem Begins.sentence {next semicolon : Token} {lead body : List Token}
    {build : Expr → Statement} {missing : Expectation} (h : Begins next lead build missing)
    (hBody : Grammar.Phrase .equality body) (hSemicolon : semicolon.kind = .semicolon) :
    Grammar.Sentence (lead ++ body ++ [semicolon]) := by
  cases h with
  | print hPrint => exact .print hPrint hBody hSemicolon
  | expr => exact .expr hBody hSemicolon

/-- The beginning of an expression completes to a statement that has more tokens. -/
theorem Begins.exists_sentence {next : Token} {lead taken after : List Token}
    {build : Expr → Statement} {missing : Expectation} (h : Begins next lead build missing)
    (hPhrase : Grammar.Phrase .equality (taken ++ after)) :
    Grammar.Sentence (lead ++ taken ++ (after ++ [Token.plain .semicolon ";"])) := by
  have hSentence : Grammar.Sentence (lead ++ (taken ++ after) ++ [.plain .semicolon ";"]) :=
    h.sentence hPhrase rfl
  simpa only [List.append_assoc] using hSentence

/-! ## The place of an error -/

theorem finish_of_kind_ne {build : Expr → Statement} {missing : Expectation} {body : Expr}
    {rest : List Token} (h : (nextToken rest).kind ≠ .semicolon) :
    finish build missing ⟨.ok body, rest⟩ = ⟨.error ⟨missing, nextToken rest⟩, rest⟩ := by
  cases rest with
  | nil => rfl
  | cons token rest =>
      have hKind : token.kind ≠ .semicolon := h
      simp only [finish, hKind, if_false, nextToken]

theorem nextToken_append {rest others : List Token} (h : nextToken others = nextToken rest)
    (taken : List Token) : nextToken (taken ++ others) = nextToken (taken ++ rest) := by
  cases taken with
  | nil => exact h
  | cons token taken => rfl

/-- **Only the next token counts.** Where a statement breaks off, its expression had led a reader
to some place, and either the phrase could not end there or no semicolon came. The same error comes
with any other tokens that begin with the same one. -/
theorem exists_taken_of_error {tokens : List Token} {error : ParseError}
    (h : (Statement.read tokens).result = .error error) :
    ∃ lead taken reader build missing rest,
      tokens = lead ++ taken ++ rest ∧
      Begins (nextToken (taken ++ rest)) lead build missing ∧ Reached .equality reader taken ∧
      (reader.stop (nextToken rest) = .error error ∨
        (∃ body, reader.stop (nextToken rest) = .ok body) ∧ error = ⟨missing, nextToken rest⟩) ∧
      ∀ others, nextToken others = nextToken rest →
        Statement.read (lead ++ taken ++ others) = ⟨.error error, others⟩ := by
  obtain ⟨lead, body, build, missing, rfl, hBegins⟩ := exists_begins tokens
  obtain ⟨taken, rest, reader, rfl, hReached, hRead⟩ := Expr.exists_taken_read .equality body
  have hStatement : ∀ others, nextToken others = nextToken rest →
      Statement.read (lead ++ taken ++ others) =
        finish build missing ⟨reader.stop (nextToken rest), others⟩ := by
    intro others hNext
    rw [← nextToken_append hNext taken] at hBegins
    rw [List.append_assoc, hBegins.read_append, hRead others hNext, hNext]
  refine ⟨lead, taken, reader, build, missing, rest, by rw [List.append_assoc], hBegins, hReached,
    ?_⟩
  rw [← List.append_assoc, hStatement rest rfl] at h
  cases hStop : reader.stop (nextToken rest) with
  | error stopped =>
      rw [hStop] at h hStatement
      cases h
      exact ⟨.inl rfl, hStatement⟩
  | ok phrase =>
      rw [hStop] at h hStatement
      have hKind : (nextToken rest).kind ≠ .semicolon := by
        intro hSemicolon
        cases rest with
        | nil => cases hSemicolon
        | cons token rest =>
            have hToken : token.kind = .semicolon := hSemicolon
            rw [finish_semicolon _ _ _ hToken] at h
            cases h
      rw [finish_of_kind_ne hKind] at h
      cases h
      refine ⟨.inr ⟨⟨phrase, rfl⟩, rfl⟩, fun others hNext => ?_⟩
      rw [hStatement others hNext, finish_of_kind_ne (hNext ▸ hKind), hNext]

end Statement

/-! ## The truth of an error -/

/-- The tokens are those of a print statement, as far as they go. -/
def BeginsPrint (tokens : List Token) : Prop := ∃ word ∈ tokens.head?, word.kind = .printWord

/-- What a syntax error expects could have come after the tokens that were used up. -/
def Expectation.Truthful (used : List Token) : Expectation → Prop
  | expression =>
    ∀ token : Token, token.IsLiteral → ∃ after, Grammar.Sentence (used ++ token :: after)
  | closingParen =>
    ∀ token : Token, token.kind = .rightParen → ∃ after, Grammar.Sentence (used ++ token :: after)
  | semicolonAfterValue =>
    BeginsPrint used ∧
      ∀ token : Token, token.kind = .semicolon → Grammar.Sentence (used ++ [token])
  | semicolonAfterExpression =>
    ¬ BeginsPrint used ∧
      ∀ token : Token, token.kind = .semicolon → Grammar.Sentence (used ++ [token])

namespace Statement

/-- If the phrase could not end, then what it lacked can be taken next. -/
theorem Begins.truthful_of_stop {next token : Token} {lead taken : List Token}
    {build : Expr → Statement} {missing : Expectation} {reader : PhraseReader}
    {error : ParseError} (h : Begins next lead build missing)
    (hReached : Reached .equality reader taken) (hStop : reader.stop token = .error error) :
    error.expected.Truthful (lead ++ taken) := by
  have hComplete : ∀ {came : Token} {later : PhraseReader},
      reader.step .equality came = some later →
        ∃ after, Grammar.Sentence (lead ++ taken ++ came :: after) := by
    intro came later hStep
    obtain ⟨after, hPhrase⟩ := hReached.exists_phrase_of_step hStep
    exact ⟨_, h.exists_sentence hPhrase⟩
  obtain ⟨frames, due⟩ := reader
  obtain ⟨_, ⟨hExpected, hDue⟩ | ⟨hExpected, operand, inner, outer, hDue, hClose⟩⟩ :=
    hReached.stop_error hStop
  · rw [hExpected]
    intro came hLiteral
    obtain ⟨value, hDenotes⟩ := Token.isLiteral_iff.1 hLiteral
    cases hDue
    exact hComplete (step_eq_some_iff.2 (.literal hDenotes))
  · rw [hExpected]
    intro came hParen
    cases hDue
    exact hComplete (step_eq_some_iff.2 (.closing hParen hClose))

/-- If the phrase could end, then a semicolon would have ended the statement. -/
theorem Begins.truthful_missing {next : Token} {lead taken : List Token}
    {build : Expr → Statement} {missing : Expectation} {body : Expr}
    (h : Begins next lead build missing) (hBody : body.TreeOf taken) :
    missing.Truthful (lead ++ taken) := by
  have hPhrase : Grammar.Phrase .equality taken :=
    Grammar.phrase_iff.2 ⟨body, hBody, Tier.equality_le _⟩
  have hComplete : ∀ token : Token, token.kind = .semicolon →
      Grammar.Sentence (lead ++ taken ++ [token]) := fun _ hSemicolon =>
    h.sentence hPhrase hSemicolon
  cases h with
  | @print word hPrint => exact ⟨⟨word, rfl, hPrint⟩, hComplete⟩
  | expr =>
      refine ⟨?_, hComplete⟩
      rintro ⟨word, hWord, hPrint⟩
      have hMem : word ∈ taken := List.mem_of_mem_head? hWord
      exact hBody.spells.kind_not_mem word hMem (by simp [hPrint])

/-- **A syntax error is reported at the earliest possible token and names a truthful expectation.**
The offending token is the first one that was not used up, or an end mark on line zero if none is
left. The tokens used up are a proper beginning of some statement, no statement goes on with the
offending token, and what the error expects could have come in its place. -/
theorem read_error_at_viable_prefix {tokens : List Token} {error : ParseError}
    (h : (Statement.read tokens).result = .error error) :
    ∃ used, tokens = used ++ (Statement.read tokens).rest ∧
      error.token = (Statement.read tokens).rest.head?.getD (Token.endMark 0) ∧
      (∃ after, after ≠ [] ∧ Grammar.Sentence (used ++ after)) ∧
      (∀ after, ¬ Grammar.Sentence (used ++ error.token :: after)) ∧
      error.expected.Truthful used := by
  obtain ⟨lead, taken, reader, build, missing, rest, rfl, hBegins, hReached, hStop, hAgain⟩ :=
    exists_taken_of_error h
  have hToken : error.token = nextToken rest := by
    rcases hStop with hStop | ⟨_, rfl⟩
    · exact (hReached.stop_error hStop).1
    · rfl
  rw [hAgain rest rfl]
  refine ⟨lead ++ taken, rfl, ?_, ?_, ?_, ?_⟩
  · rw [hToken]
    cases rest <;> rfl
  · obtain ⟨after, hPhrase⟩ := hReached.exists_phrase
    exact ⟨_, by simp, hBegins.exists_sentence hPhrase⟩
  · intro after hSentence
    obtain ⟨tree, hRead⟩ := Grammar.sentence_iff_read.1 hSentence
    rw [hAgain (error.token :: after) hToken] at hRead
    cases hRead
  · rcases hStop with hStop | ⟨⟨body, hStop⟩, rfl⟩
    · exact hBegins.truthful_of_stop hReached hStop
    · exact hBegins.truthful_missing (hReached.stop_ok hStop).1

/-- In `print ( nill ;` the semicolon comes while a group is open. -/
theorem read_error_at_viable_prefix_in_group :
    (Statement.read [.plain .printWord "print", .plain .leftParen "(", .plain .nilWord "nill",
        .plain .semicolon ";"]).result = .error ⟨.closingParen, .plain .semicolon ";"⟩ ∧
      ∃ used, [Token.plain .printWord "print", .plain .leftParen "(", .plain .nilWord "nill",
          .plain .semicolon ";"] = used ++ [.plain .semicolon ";"] ∧
        (∃ after, after ≠ [] ∧ Grammar.Sentence (used ++ after)) ∧
        (∀ after, ¬ Grammar.Sentence (used ++ .plain .semicolon ";" :: after)) ∧
        Expectation.closingParen.Truthful used := by
  have hError : (Statement.read [.plain .printWord "print", .plain .leftParen "(",
      .plain .nilWord "nill", .plain .semicolon ";"]).result =
        .error ⟨.closingParen, .plain .semicolon ";"⟩ := rfl
  obtain ⟨used, hTokens, _, hViable, hStuck, hTruthful⟩ := read_error_at_viable_prefix hError
  exact ⟨hError, used, hTokens, hViable, hStuck, hTruthful⟩

end Statement

end ExprLang
