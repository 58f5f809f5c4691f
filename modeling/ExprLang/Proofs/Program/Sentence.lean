import ExprLang.Proofs.Expr.Reading

/-!
# Reading statements agrees with the grammar

A statement is an expression between an optional `print` and a semicolon. Reading one finds exactly
the canonical tree of the tokens that it uses up.

## Main results

* `Statement.read_of_treeOf` — a canonical statement is read back from its yield.
* `Statement.treeOf_of_read` — a statement that is read is the canonical tree of the tokens that it
  uses up.
* `Grammar.sentence_iff_read` — a token list is a sentence exactly if a statement is read from it.
-/

namespace ExprLang

/-! ## The tokens of a statement -/

/-- No token of an expression ends a statement, begins a print statement or is the end mark. -/
theorem Expr.Spells.kind_not_mem {tree : Expr} {tokens : List Token} (h : tree.Spells tokens) :
    ∀ token ∈ tokens, token.kind ∉ [Kind.semicolon, .printWord, .eof] := by
  induction h with
  | literal hDenotes =>
      intro token hMem
      cases List.mem_singleton.1 hMem
      cases hDenotes <;> simp_all
  | group hOpening _ hClosing ih =>
      intro token hMem
      simp only [List.cons_append, List.mem_cons, List.mem_append, List.not_mem_nil, or_false]
        at hMem
      rcases hMem with rfl | hInner | rfl
      · rw [hOpening]
        decide
      · exact ih token hInner
      · rw [hClosing]
        decide
  | @unary op operator _ _ hKind _ ih =>
      intro token hMem
      rcases List.mem_cons.1 hMem with rfl | hRight
      · rw [hKind]
        cases op <;> decide
      · exact ih token hRight
  | @binary _ _ op operator _ _ _ hKind _ ihLeft ihRight =>
      intro token hMem
      simp only [List.mem_append, List.mem_cons] at hMem
      rcases hMem with hLeft | rfl | hRight
      · exact ihLeft token hLeft
      · rw [hKind]
        cases op <;> decide
      · exact ihRight token hRight

theorem Expr.Spells.ne_nil {tree : Expr} {tokens : List Token} (h : tree.Spells tokens) :
    tokens ≠ [] := by
  cases h <;> simp

/-- No token of a statement is the end mark. -/
theorem Statement.Spells.kind_ne_eof {tree : Statement} {tokens : List Token}
    (h : tree.Spells tokens) : ∀ token ∈ tokens, token.kind ≠ .eof := by
  intro token hMem
  cases h with
  | print hWord hBody hSemicolon =>
      simp only [List.cons_append, List.mem_cons, List.mem_append, List.not_mem_nil, or_false]
        at hMem
      rcases hMem with rfl | hMem | rfl
      · simp [hWord]
      · intro hEof
        exact hBody.kind_not_mem token hMem (by simp [hEof])
      · simp [hSemicolon]
  | expr hBody hSemicolon =>
      simp only [List.mem_append, List.mem_singleton] at hMem
      rcases hMem with hMem | rfl
      · intro hEof
        exact hBody.kind_not_mem token hMem (by simp [hEof])
      · simp [hSemicolon]

theorem Statement.Spells.ne_nil {tree : Statement} {tokens : List Token}
    (h : tree.Spells tokens) : tokens ≠ [] := by
  cases h <;> simp

/-! ## How a statement begins -/

namespace Statement

/-- What stands before the expression of a statement, if the expression begins with `next`: the
sort of statement that it is, and what is missing if no semicolon follows. -/
inductive Begins (next : Token) : List Token → (Expr → Statement) → Expectation → Prop where
  | print {word : Token} :
      word.kind = .printWord → Begins next [word] .print .semicolonAfterValue
  | expr : next.kind ≠ .printWord → Begins next [] .expr .semicolonAfterExpression

theorem exists_begins (tokens : List Token) :
    ∃ lead body build missing, tokens = lead ++ body ∧
      Begins (nextToken body) lead build missing := by
  match tokens with
  | [] => exact ⟨[], [], _, _, rfl, .expr (by decide)⟩
  | token :: tokens =>
      by_cases hPrint : token.kind = .printWord
      · exact ⟨[token], tokens, _, _, rfl, .print hPrint⟩
      · exact ⟨[], token :: tokens, _, _, rfl, .expr hPrint⟩

/-- After its beginning, a statement is its expression and a semicolon. -/
theorem Begins.read_append {body lead : List Token} {build : Expr → Statement}
    {missing : Expectation} (h : Begins (nextToken body) lead build missing) :
    Statement.read (lead ++ body) = finish build missing (Expr.read .equality body) := by
  cases h with
  | print hPrint => simp only [List.singleton_append, Statement.read, hPrint, if_true]
  | expr hPrint =>
      cases body with
      | nil => rfl
      | cons token body =>
          have hKind : token.kind ≠ .printWord := hPrint
          simp only [List.nil_append, Statement.read, hKind, if_false]

theorem Begins.treeOf {next semicolon : Token} {lead tokens : List Token}
    {build : Expr → Statement} {missing : Expectation} {body : Expr}
    (h : Begins next lead build missing) (hBody : body.TreeOf tokens)
    (hSemicolon : semicolon.kind = .semicolon) :
    (build body).TreeOf (lead ++ tokens ++ [semicolon]) := by
  cases h with
  | print hPrint => exact ⟨.print hPrint hBody.spells hSemicolon, hBody.canonical⟩
  | expr => exact ⟨.expr hBody.spells hSemicolon, hBody.canonical⟩

end Statement

/-! ## Statements are read back -/

theorem Statement.finish_semicolon (build : Expr → Statement) (missing : Expectation) (body : Expr)
    {semicolon : Token} (h : semicolon.kind = .semicolon) (rest : List Token) :
    finish build missing ⟨.ok body, semicolon :: rest⟩ = ⟨.ok (build body), rest⟩ := by
  simp only [finish, h, if_true]

/-- No operator is at the front of a token list that begins with a semicolon. -/
theorem endsBefore_semicolon (level : Level) {semicolon : Token}
    (h : semicolon.kind = .semicolon) (rest : List Token) :
    level.EndsBefore (semicolon :: rest) := by
  intro token hToken op hKind
  cases hToken
  rw [h] at hKind
  cases op <;> cases hKind

/-- **A canonical statement is read back from its yield**, whatever comes after it. -/
theorem Statement.read_of_treeOf {tree : Statement} {tokens : List Token}
    (h : tree.TreeOf tokens) (rest : List Token) :
    Statement.read (tokens ++ rest) = ⟨.ok tree, rest⟩ := by
  obtain ⟨hSpells, hCanonical⟩ := h
  cases hSpells with
  | @print body word semicolon inner hWord hBody hSemicolon =>
      have hRead := Expr.read_of_treeOf ⟨hBody, hCanonical⟩ (Tier.equality_le _)
        (endsBefore_semicolon .equality hSemicolon rest)
      have hBegins : Begins (nextToken (inner ++ semicolon :: rest)) [word] .print
          .semicolonAfterValue := .print hWord
      calc
        Statement.read (word :: inner ++ [semicolon] ++ rest)
          = Statement.read ([word] ++ (inner ++ semicolon :: rest)) := by simp
        _ = ⟨.ok (.print body), rest⟩ := by
          rw [hBegins.read_append, hRead, finish_semicolon _ _ _ hSemicolon]
  | @expr body semicolon inner hBody hSemicolon =>
      have hRead := Expr.read_of_treeOf ⟨hBody, hCanonical⟩ (Tier.equality_le _)
        (endsBefore_semicolon .equality hSemicolon rest)
      obtain ⟨first, others, rfl⟩ := List.exists_cons_of_ne_nil hBody.ne_nil
      have hFirst : first.kind ≠ .printWord := by
        intro hPrint
        exact hBody.kind_not_mem first (List.mem_cons_self ..) (by simp [hPrint])
      have hBegins : Begins (nextToken (first :: others ++ semicolon :: rest)) [] .expr
          .semicolonAfterExpression := .expr hFirst
      calc
        Statement.read (first :: others ++ [semicolon] ++ rest)
          = Statement.read ([] ++ (first :: others ++ semicolon :: rest)) := by simp
        _ = ⟨.ok (.expr body), rest⟩ := by
          rw [hBegins.read_append, hRead, finish_semicolon _ _ _ hSemicolon]

/-- A statement that is finished without an error had its expression and a semicolon. -/
theorem Statement.finish_eq_ok {build : Expr → Statement} {missing : Expectation}
    {reading : Reading Expr} {tree : Statement}
    (h : (finish build missing reading).result = .ok tree) :
    ∃ body semicolon, reading.result = .ok body ∧ tree = build body ∧
      semicolon.kind = .semicolon ∧
      reading.rest = semicolon :: (finish build missing reading).rest := by
  unfold finish at h ⊢
  split at h
  · cases h
  · rename_i body semicolon rest hResult hRest
    split at h
    · rename_i hSemicolon
      cases h
      refine ⟨body, semicolon, hResult, rfl, hSemicolon, ?_⟩
      simp only [hSemicolon, if_true, hRest]
    · cases h
  · cases h

/-- **A statement that is read is the canonical tree of the tokens that it uses up.** -/
theorem Statement.treeOf_of_read {tree : Statement} {tokens : List Token}
    (h : (Statement.read tokens).result = .ok tree) :
    ∃ used, tokens = used ++ (Statement.read tokens).rest ∧ tree.TreeOf used := by
  obtain ⟨lead, body, build, missing, rfl, hBegins⟩ := exists_begins tokens
  rw [hBegins.read_append] at h ⊢
  obtain ⟨inner, semicolon, hResult, rfl, hSemicolon, hRest⟩ := finish_eq_ok h
  obtain ⟨taken, hBody, hTree, _⟩ := Expr.treeOf_of_read hResult
  refine ⟨lead ++ taken ++ [semicolon], ?_, hBegins.treeOf hTree hSemicolon⟩
  rw [hRest] at hBody
  rw [List.append_assoc, List.append_assoc, List.singleton_append, ← hBody]

/-- A token list is a sentence exactly if a statement is read from it to the last token. -/
theorem Grammar.sentence_iff_read {tokens : List Token} :
    Sentence tokens ↔ ∃ tree, Statement.read tokens = ⟨.ok tree, []⟩ := by
  rw [sentence_iff]
  constructor
  · rintro ⟨tree, hTree⟩
    have hRead := Statement.read_of_treeOf hTree []
    rw [List.append_nil] at hRead
    exact ⟨tree, hRead⟩
  · rintro ⟨tree, hRead⟩
    obtain ⟨used, hTokens, hTree⟩ := Statement.treeOf_of_read (congrArg Reading.result hRead)
    rw [hRead, List.append_nil] at hTokens
    exact ⟨tree, hTokens ▸ hTree⟩

end ExprLang
