import ExprLang.Proofs.Program.ViablePrefix
import ExprLang.Proofs.Program.Recovery
import ExprLang.Program.Execution

/-!
# The tokens that errors name are tokens of the source

Past the end of its tokens a reader sees an end mark on line zero. Where the tokens end with an end
mark of their own it never comes that far: no statement goes on with an end mark, and going on after
an error does not skip one. So the token of a syntax error is one of the tokens, the first that was
left unread, and since it is dropped after the error the next error names a later one.

The operator of a runtime error is an operator token of the tokens from which the trees were read:
evaluation names operators of its tree only, and these are the operator tokens of its yield.

## Main results

* `Program.map_token_errors_sublist` — the tokens of the syntax errors, in the order of the source.
* `Expr.Spells.filter_isOperator` — the operators of a tree are the operator tokens of its yield.
* `Program.operator_mem_of_interpret` — the operator of a runtime error.
-/

namespace ExprLang

/-! ## Syntax errors -/

/-- Unless the tokens are empty the last one is an end mark. -/
def EndMarked (tokens : List Token) : Prop := ∀ token ∈ tokens.getLast?, token.kind = .eof

theorem EndMarked.of_suffix {rest tokens : List Token} (h : EndMarked tokens)
    (hRest : rest <:+ tokens) : EndMarked rest := by
  obtain ⟨before, rfl⟩ := hRest
  intro token hLast
  apply h
  rw [List.getLast?_append, Option.mem_def.1 hLast]
  rfl

theorem EndMarked.exists_eof {tokens : List Token} (h : EndMarked tokens) (hTokens : tokens ≠ []) :
    ∃ mark ∈ tokens, mark.kind = .eof :=
  ⟨tokens.getLast hTokens, List.getLast_mem hTokens,
    h _ (Option.mem_def.2 (List.getLast?_eq_some_getLast hTokens))⟩

theorem Grammar.Sentence.kind_ne_eof {tokens : List Token} (h : Sentence tokens) :
    ∀ token ∈ tokens, token.kind ≠ .eof := by
  obtain ⟨tree, hTree⟩ := sentence_iff.1 h
  exact hTree.spells.kind_ne_eof

/-- Where a statement breaks off the tokens that it has used up hold no end mark, and the offending
token is the next one. -/
theorem Statement.exists_used_of_error {tokens : List Token} {error : ParseError}
    (h : (Statement.read tokens).result = .error error) :
    ∃ used, tokens = used ++ (Statement.read tokens).rest ∧
      error.token = nextToken (Statement.read tokens).rest ∧
      ∀ token ∈ used, token.kind ≠ .eof := by
  obtain ⟨lead, taken, reader, build, missing, rest, rfl, hBegins, hReached, hStop, hAgain⟩ :=
    exists_taken_of_error h
  rw [hAgain rest rfl]
  refine ⟨lead ++ taken, rfl, ?_, ?_⟩
  · rcases hStop with hStop | ⟨_, rfl⟩
    · exact (hReached.stop_error hStop).1
    · rfl
  · obtain ⟨after, hPhrase⟩ := hReached.exists_phrase
    intro token hToken
    exact (hBegins.exists_sentence hPhrase).kind_ne_eof token (List.mem_append_left _ hToken)

/-- The token of an error is the first one left unread, unless the tokens are used up to the last
one. -/
theorem Statement.rest_read_of_error {tokens : List Token} {error : ParseError}
    (hMark : ∃ mark ∈ tokens, mark.kind = .eof)
    (h : (Statement.read tokens).result = .error error) :
    ∃ rest, (Statement.read tokens).rest = error.token :: rest := by
  obtain ⟨used, hTokens, hToken, hUsed⟩ := exists_used_of_error h
  rw [hToken]
  cases hRest : (Statement.read tokens).rest with
  | cons token rest => exact ⟨rest, rfl⟩
  | nil =>
      obtain ⟨mark, hMem, hKind⟩ := hMark
      rw [hRest, List.append_nil] at hTokens
      exact absurd hKind (hUsed mark (hTokens ▸ hMem))

/-- Going on after an error drops the token of the error, unless it is the end mark. -/
theorem recover_suffix_of_kind_ne {token : Token} (hKind : token.kind ≠ .eof)
    (tokens : List Token) : recover (token :: tokens) <:+ tokens := by
  simp only [recover, hKind, if_false]
  split
  · exact List.suffix_refl _
  · exact skipStatement_suffix tokens

namespace Program

theorem readItems_of_eof {token : Token} (hKind : token.kind = .eof) (tokens : List Token) :
    readItems (token :: tokens) = [] := by
  rw [readItems, if_pos hKind]

/-- **Syntax errors name tokens of the source, each a later one than the error before**, if the
tokens end with an end mark. -/
theorem map_token_errors_sublist {tokens : List Token} (hMarked : EndMarked tokens) :
    ((ofTokens tokens).errors.map ParseError.token).Sublist tokens := by
  unfold ofTokens errors
  fun_induction readItems tokens with
  | case1 => exact List.Sublist.slnil
  | case2 token tokens _ => exact List.nil_sublist _
  | case3 token tokens _ reading ih =>
      have hResume : reading.resume <:+ token :: tokens := Statement.resume_read_suffix _
      have hLater := ih (hMarked.of_suffix hResume)
      cases hResult : reading.result with
      | ok statement => exact hLater.trans hResume.sublist
      | error error =>
          obtain ⟨rest, hRest⟩ :=
            Statement.rest_read_of_error (hMarked.exists_eof (List.cons_ne_nil _ _)) hResult
          have hUnread : error.token :: rest <:+ token :: tokens :=
            hRest ▸ Statement.rest_read_suffix _
          have hRecover : reading.resume = recover (error.token :: rest) := by
            rw [Reading.resume, hResult]
            exact congrArg recover hRest
          refine List.Sublist.trans ?_ hUnread.sublist
          rw [hRecover] at hLater ⊢
          by_cases hKind : error.token.kind = .eof
          · -- At the end mark nothing is dropped, but there is nothing more to read either.
            have hEnd : recover (error.token :: rest) = error.token :: rest := if_pos hKind
            rw [hEnd, readItems_of_eof hKind]
            exact (List.nil_sublist rest).cons_cons _
          · exact (hLater.trans (recover_suffix_of_kind_ne hKind rest).sublist).cons_cons _

theorem token_mem_of_mem_errors {tokens : List Token} {error : ParseError}
    (hMarked : EndMarked tokens) (h : error ∈ (ofTokens tokens).errors) : error.token ∈ tokens :=
  (map_token_errors_sublist hMarked).subset (List.mem_map_of_mem h)

end Program

/-! ## Runtime errors -/

theorem UnaryOp.operator_of_apply {op : UnaryOp} {operator : Token} {operand : Value}
    {error : RuntimeError} (h : op.apply operator operand = .error error) :
    error.operator = operator := by
  cases op <;> cases operand <;> cases h <;> rfl

theorem BinaryOp.operator_of_apply {op : BinaryOp} {operator : Token} {left right : Value}
    {error : RuntimeError} (h : op.apply operator left right = .error error) :
    error.operator = operator := by
  cases op <;> cases left <;> cases right <;> cases h <;> rfl

/-- The tokens of the operator nodes of a tree, from left to right. -/
def Expr.operators : Expr → List Token
  | literal _ => []
  | group inner => inner.operators
  | unary _ operator right => operator :: right.operators
  | binary left _ operator right => left.operators ++ operator :: right.operators

/-- **An error of an evaluation names an operator of the tree.** -/
theorem Expr.operator_mem_operators {tree : Expr} {error : RuntimeError}
    (h : tree.evaluate = .error error) : error.operator ∈ tree.operators := by
  induction tree with
  | literal value => cases h
  | group inner ih => exact ih h
  | unary op operator right ih =>
      rw [evaluate] at h
      cases hRight : right.evaluate with
      | error inner =>
          rw [hRight] at h
          cases h
          exact List.mem_cons_of_mem _ (ih hRight)
      | ok operand =>
          rw [hRight] at h
          rw [UnaryOp.operator_of_apply h]
          exact List.mem_cons_self
  | binary left op operator right ihLeft ihRight =>
      rw [evaluate] at h
      cases hLeft : left.evaluate with
      | error inner =>
          rw [hLeft] at h
          cases h
          exact List.mem_append_left _ (ihLeft hLeft)
      | ok leftValue =>
          cases hRight : right.evaluate with
          | error inner =>
              rw [hLeft, hRight] at h
              cases h
              exact List.mem_append_right _ (List.mem_cons_of_mem _ (ihRight hRight))
          | ok rightValue =>
              rw [hLeft, hRight] at h
              rw [BinaryOp.operator_of_apply h]
              exact List.mem_append_right _ List.mem_cons_self

/-- A token spells an operator. -/
def Token.isOperator (token : Token) : Bool :=
  (UnaryOp.ofKind? token.kind).isSome || (BinaryOp.ofKind? token.kind).isSome

namespace Token

theorem isOperator_of_kind {token : Token} {kind : Kind} (h : token.kind = kind) :
    token.isOperator = ((UnaryOp.ofKind? kind).isSome || (BinaryOp.ofKind? kind).isSome) := by
  rw [isOperator, h]

theorem isOperator_of_unary {token : Token} {op : UnaryOp} (h : token.kind = op.kind) :
    token.isOperator = true := by
  rw [isOperator, UnaryOp.ofKind?_eq_some_iff.2 h]
  rfl

theorem isOperator_of_binary {token : Token} {op : BinaryOp} (h : token.kind = op.kind) :
    token.isOperator = true := by
  rw [isOperator, BinaryOp.ofKind?_eq_some_iff.2 h, Option.isSome_some, Bool.or_true]

theorem isOperator_of_denotes {token : Token} {value : Value} (h : token.Denotes value) :
    token.isOperator = false := by
  cases h with
  | trueWord hKind => exact isOperator_of_kind hKind
  | falseWord hKind => exact isOperator_of_kind hKind
  | nilWord hKind => exact isOperator_of_kind hKind
  | number hKind => exact isOperator_of_kind hKind
  | string hKind => exact isOperator_of_kind hKind

end Token

/-- **The operators of a tree are the operator tokens of its yield.** -/
theorem Expr.Spells.filter_isOperator {tree : Expr} {tokens : List Token}
    (h : tree.Spells tokens) : tokens.filter Token.isOperator = tree.operators := by
  induction h with
  | literal hDenotes => simp [operators, Token.isOperator_of_denotes hDenotes]
  | @group inner opening closing tokens hOpening _ hClosing ih =>
      have hOpen : opening.isOperator = false := Token.isOperator_of_kind hOpening
      have hClose : closing.isOperator = false := Token.isOperator_of_kind hClosing
      simp [operators, hOpen, hClose, ih]
  | unary hKind _ ih => simp [operators, Token.isOperator_of_unary hKind, ih]
  | binary _ hKind _ ihLeft ihRight =>
      simp [operators, Token.isOperator_of_binary hKind, ihLeft, ihRight]

theorem Statement.Spells.filter_isOperator {tree : Statement} {tokens : List Token}
    (h : tree.Spells tokens) : tokens.filter Token.isOperator = tree.body.operators := by
  cases h with
  | @print body word semicolon _ hWord hBody hSemicolon =>
      have hPrint : word.isOperator = false := Token.isOperator_of_kind hWord
      have hEnd : semicolon.isOperator = false := Token.isOperator_of_kind hSemicolon
      simp [Statement.body, hPrint, hEnd, hBody.filter_isOperator]
  | @expr body semicolon _ hBody hSemicolon =>
      have hEnd : semicolon.isOperator = false := Token.isOperator_of_kind hSemicolon
      simp [Statement.body, hEnd, hBody.filter_isOperator]

theorem Statement.TreesOf.filter_isOperator {trees : List Statement} {tokens : List Token}
    (h : TreesOf trees tokens) :
    tokens.filter Token.isOperator = trees.flatMap fun tree => tree.body.operators := by
  induction h with
  | nil => rfl
  | cons hFirst _ ih =>
      rw [List.filter_append, hFirst.spells.filter_isOperator, ih, List.flatMap_cons]

theorem Statement.evaluate_of_execute {stream : Stream} {statement : Statement}
    {error : RuntimeError} (h : (statement.execute stream).runtimeError? = some error) :
    statement.body.evaluate = .error error := by
  cases statement with
  | expr body =>
      rw [execute] at h
      split at h
      · cases h
      · rename_i hBody
        cases h
        exact hBody
  | print body =>
      rw [execute] at h
      split at h
      · simp only [Execution.runtimeError?] at h
        split at h
        · rename_i hFailure
          simp at hFailure
        · cases h
      · rename_i hBody
        cases h
        exact hBody

/-- A runtime error that ends an execution is the error of one of the statements. -/
theorem exists_of_interpret {stream : Stream} {statements : List Statement} {error : RuntimeError}
    (h : (interpret stream statements).runtimeError? = some error) :
    ∃ statement ∈ statements, statement.body.evaluate = .error error := by
  induction statements generalizing stream with
  | nil => cases h
  | cons statement statements ih =>
      rw [interpret] at h
      cases hFirst : (statement.execute stream).failure with
      | some failure =>
          simp only [hFirst] at h
          exact ⟨statement, List.mem_cons_self, Statement.evaluate_of_execute h⟩
      | none =>
          simp only [hFirst] at h
          obtain ⟨later, hLater, hError⟩ := ih h
          exact ⟨later, List.mem_cons_of_mem _ hLater, hError⟩

/-- **The operator of a runtime error is an operator token of the source**, which has no syntax
errors. -/
theorem Program.operator_mem_of_interpret {tokens : List Token} {stream : Stream}
    {error : RuntimeError} (hErrors : (ofTokens tokens).errors = [])
    (h : (interpret stream (ofTokens tokens).statements).runtimeError? = some error) :
    error.operator ∈ tokens.filter Token.isOperator := by
  have hTrees := (treesOf_iff tokens _).2 ⟨hErrors, rfl⟩
  obtain ⟨statement, hStatement, hError⟩ := exists_of_interpret h
  have hBefore : (beforeEnd tokens).Sublist tokens := List.takeWhile_sublist _
  apply (hBefore.filter _).subset
  rw [hTrees.filter_isOperator]
  exact List.mem_flatMap_of_mem hStatement (Expr.operator_mem_operators hError)

end ExprLang
