import ExprLang.Proofs.Program.Sequence

/-!
# Programs on other lines

Tokens are moved to other lines by a map of line numbers. Reading looks at kinds and values only,
so it takes the same steps on the moved tokens, also where it recovers from a syntax error, and
evaluation takes the same steps on the trees that it finds. What is read and what is reported is
the same, on the other lines.

The reader puts an end mark on line zero behind the last token. So its lemmas ask the map to leave
line zero where it is.

## Main results

* `PhraseReader.step_relined`, `PhraseReader.run_relined` — one step, and all steps, of the reader.
* `Program.readItems_relined` — the statements and the syntax errors of a program.
* `Expr.evaluate_relined`, `interpret_relined` — values and executions.
-/

namespace ExprLang

/-! ## Tokens and trees -/

/-- The same token on the line to which its own line is moved. -/
def Token.relined (place : Nat → Nat) (token : Token) : Token :=
  { token with line := place token.line }

/-- The same tree with its operators moved to other lines. -/
def Expr.relined (place : Nat → Nat) : Expr → Expr
  | literal value => literal value
  | group inner => group (inner.relined place)
  | unary op operator right => unary op (operator.relined place) (right.relined place)
  | binary left op operator right =>
    binary (left.relined place) op (operator.relined place) (right.relined place)

/-- The same statement with its operators moved to other lines. -/
def Statement.relined (place : Nat → Nat) : Statement → Statement
  | expr body => expr (body.relined place)
  | print body => print (body.relined place)

/-- The same syntax error at a token on another line. -/
def ParseError.relined (place : Nat → Nat) (error : ParseError) : ParseError :=
  { error with token := error.token.relined place }

/-- The same frame with its operators moved to other lines. -/
def Frame.relined (place : Nat → Nat) : Frame → Frame
  | group => group
  | unary op operator => unary op (operator.relined place)
  | binary left op operator => binary (left.relined place) op (operator.relined place)

/-- The same state of a reader with its operators moved to other lines. -/
def PhraseReader.relined (place : Nat → Nat) (reader : PhraseReader) : PhraseReader :=
  ⟨reader.frames.map (Frame.relined place), reader.operand.map (Expr.relined place)⟩

/-- The same result of reading on other lines, where `tree` moves what has been read. -/
def relinedResult {α : Type} (place : Nat → Nat) (tree : α → α) :
    Except ParseError α → Except ParseError α
  | .ok value => .ok (tree value)
  | .error error => .error (error.relined place)

/-- The same outcome of reading on other lines, where `tree` moves what has been read. -/
def Reading.relined {α : Type} (place : Nat → Nat) (tree : α → α) (reading : Reading α) :
    Reading α :=
  ⟨relinedResult place tree reading.result, reading.rest.map (Token.relined place)⟩

/-- The same program with its statements and syntax errors on other lines. -/
def Program.relined (place : Nat → Nat) (program : Program) : Program :=
  ⟨program.items.map (relinedResult place (Statement.relined place))⟩

section

variable (place : Nat → Nat)

@[simp] theorem Token.kind_relined (token : Token) : (token.relined place).kind = token.kind := rfl

@[simp] theorem Token.constant?_relined (token : Token) :
    (token.relined place).constant? = token.constant? := rfl

/-! ## Reading expressions -/

theorem closeFrames_relined (level : Level) (operand : Expr) (frames : List Frame) :
    closeFrames level (operand.relined place) (frames.map (Frame.relined place)) =
      ((closeFrames level operand frames).1.relined place,
        (closeFrames level operand frames).2.map (Frame.relined place)) := by
  induction frames generalizing operand with
  | nil => rfl
  | cons frame frames ih =>
      cases frame with
      | group => rfl
      | unary op operator => exact ih (.unary op operator operand)
      | binary left op operator =>
          simp only [List.map_cons, Frame.relined, closeFrames]
          split
          · exact ih (.binary left op operator operand)
          · rfl

namespace PhraseReader

/-- **A reader takes the same step on other lines**, or takes none. -/
theorem step_relined (level : Level) (reader : PhraseReader) (token : Token) :
    (reader.relined place).step level (token.relined place) =
      (reader.step level token).map (PhraseReader.relined place) := by
  obtain ⟨frames, operand⟩ := reader
  cases operand with
  | none =>
      simp only [step, relined, Option.map_none, Token.kind_relined, Token.constant?_relined]
      cases UnaryOp.ofKind? token.kind with
      | some op => rfl
      | none =>
          by_cases hParen : token.kind = .leftParen
          · simp only [hParen, if_true]
            rfl
          · simp only [hParen, if_false, Option.map_map]
            rfl
  | some operand =>
      simp only [step, relined, Option.map_some, Token.kind_relined, closeFrames_relined]
      cases BinaryOp.ofKind? token.kind with
      | some op =>
          simp only [List.isEmpty_map]
          split <;> rfl
      | none =>
          by_cases hParen : token.kind = .rightParen
          · simp only [hParen, if_true]
            rcases closeFrames .equality operand frames with ⟨inner, _ | ⟨_ | _ | _, outer⟩⟩ <;> rfl
          · simp only [hParen, if_false]
            rfl

theorem stop_relined (reader : PhraseReader) (token : Token) :
    (reader.relined place).stop (token.relined place) =
      relinedResult place (Expr.relined place) (reader.stop token) := by
  obtain ⟨frames, operand⟩ := reader
  cases operand with
  | none => rfl
  | some operand =>
      simp only [stop, relined, Option.map_some, closeFrames_relined]
      rcases closeFrames .equality operand frames with ⟨phrase, _ | ⟨frame, outer⟩⟩ <;> rfl

end PhraseReader

variable {place}

theorem nextToken_nil_relined (hZero : place 0 = 0) :
    (nextToken []).relined place = nextToken [] := by
  simp only [nextToken, Token.relined, Token.endMark, hZero]

/-- **A reader reads the same phrase on other lines**, or reports the same error there. -/
theorem PhraseReader.run_relined (hZero : place 0 = 0) (level : Level) (reader : PhraseReader)
    (tokens : List Token) :
    (reader.relined place).run level (tokens.map (Token.relined place)) =
      (reader.run level tokens).relined place (Expr.relined place) := by
  fun_induction PhraseReader.run level reader tokens with
  | case1 reader =>
      -- The phrase ends before the end mark behind the last token, which stays on line zero.
      have hStop := reader.stop_relined place (nextToken [])
      rw [nextToken_nil_relined hZero] at hStop
      rw [List.map_nil, run, hStop]
      rfl
  | case2 reader token tokens next hStep ih =>
      have hNext := reader.step_relined place level token
      rw [hStep, Option.map_some] at hNext
      rw [List.map_cons, run, hNext]
      exact ih
  | case3 reader token tokens hStep =>
      have hNext := reader.step_relined place level token
      rw [hStep, Option.map_none] at hNext
      rw [List.map_cons, run, hNext]
      simp only [stop_relined]
      rfl

theorem Expr.read_relined (hZero : place 0 = 0) (level : Level) (tokens : List Token) :
    Expr.read level (tokens.map (Token.relined place)) =
      (Expr.read level tokens).relined place (Expr.relined place) :=
  PhraseReader.run_relined hZero level .start tokens

/-! ## Reading statements -/

namespace Statement

theorem finish_relined (hZero : place 0 = 0) {build : Expr → Statement}
    (hBuild : ∀ body, build (body.relined place) = (build body).relined place)
    (missing : Expectation) (reading : Reading Expr) :
    finish build missing (reading.relined place (Expr.relined place)) =
      (finish build missing reading).relined place (Statement.relined place) := by
  obtain ⟨result, rest⟩ := reading
  cases result with
  | error error => rfl
  | ok body =>
      cases rest with
      | nil =>
          have hEnd := nextToken_nil_relined hZero
          simp only [finish, Reading.relined, relinedResult, List.map_nil, ParseError.relined, hEnd]
      | cons token tokens =>
          by_cases hSemicolon : token.kind = .semicolon
          · simp only [finish, Reading.relined, relinedResult, List.map_cons, Token.kind_relined,
              hSemicolon, if_true, hBuild]
          · simp only [finish, Reading.relined, relinedResult, List.map_cons, Token.kind_relined,
              hSemicolon, if_false]
            rfl

theorem read_relined (hZero : place 0 = 0) (tokens : List Token) :
    Statement.read (tokens.map (Token.relined place)) =
      (Statement.read tokens).relined place (Statement.relined place) := by
  have hExpr : ∀ body : Expr, expr (body.relined place) = (expr body).relined place :=
    fun _ => rfl
  have hPrint : ∀ body : Expr, print (body.relined place) = (print body).relined place :=
    fun _ => rfl
  have hWhole := Expr.read_relined hZero .equality tokens
  cases tokens with
  | nil =>
      have hEmpty := finish_relined hZero hExpr .semicolonAfterExpression (Expr.read .equality [])
      rwa [← hWhole] at hEmpty
  | cons token tokens =>
      rw [List.map_cons] at hWhole ⊢
      by_cases hWord : token.kind = .printWord
      · simp only [read, Token.kind_relined, hWord, if_true, Expr.read_relined hZero,
          finish_relined hZero hPrint]
      · simp only [read, Token.kind_relined, hWord, if_false, hWhole,
          finish_relined hZero hExpr]

end Statement

/-! ## Reading programs -/

theorem skipStatement_relined (tokens : List Token) :
    skipStatement (tokens.map (Token.relined place)) =
      (skipStatement tokens).map (Token.relined place) := by
  fun_induction skipStatement tokens with
  | case1 => rfl
  | case2 token tokens hStop =>
      simp only [List.map_cons, skipStatement, Token.kind_relined, hStop, if_true]
  | case3 token tokens hStop hSemicolon =>
      rw [hSemicolon] at hStop
      simp only [List.map_cons, skipStatement, Token.kind_relined, hSemicolon, hStop, if_true,
        if_false]
  | case4 token tokens hStop hSemicolon ih =>
      simp only [List.map_cons, skipStatement, Token.kind_relined, hStop, hSemicolon, if_false]
      exact ih

theorem recover_relined (tokens : List Token) :
    recover (tokens.map (Token.relined place)) = (recover tokens).map (Token.relined place) := by
  cases tokens with
  | nil => rfl
  | cons token tokens =>
      simp only [List.map_cons, recover, Token.kind_relined, skipStatement_relined]
      split
      · rfl
      · split <;> rfl

/-- Reading goes on at the same token after a statement, and after a syntax error. -/
theorem Reading.resume_relined (reading : Reading Statement) :
    (reading.relined place (Statement.relined place)).resume =
      reading.resume.map (Token.relined place) := by
  obtain ⟨result, rest⟩ := reading
  cases result with
  | ok statement => rfl
  | error error => exact recover_relined rest

namespace Program

/-- **A program on other lines has the same items there.** -/
theorem readItems_relined (hZero : place 0 = 0) (tokens : List Token) :
    readItems (tokens.map (Token.relined place)) =
      (readItems tokens).map (relinedResult place (Statement.relined place)) := by
  fun_induction readItems tokens with
  | case1 => simp only [List.map_nil, readItems]
  | case2 token tokens hEnd =>
      simp only [List.map_cons, readItems, Token.kind_relined, hEnd, if_true, List.map_nil]
  | case3 token tokens hMore reading ih =>
      -- The items after the first are those of the tokens with which reading goes on.
      have hReading := Statement.read_relined hZero (token :: tokens)
      rw [List.map_cons] at hReading
      rw [List.map_cons, readItems]
      simp only [Token.kind_relined, hMore, if_false, hReading, Reading.resume_relined,
        List.map_cons]
      exact congrArg (List.cons _) ih

theorem ofTokens_relined (hZero : place 0 = 0) (tokens : List Token) :
    ofTokens (tokens.map (Token.relined place)) = (ofTokens tokens).relined place :=
  congrArg Program.mk (readItems_relined hZero tokens)

theorem statements_relined (program : Program) :
    (program.relined place).statements = program.statements.map (Statement.relined place) := by
  rw [statements, statements, relined, List.filterMap_map, List.map_filterMap]
  refine congrFun (congrArg List.filterMap (funext fun item => ?_)) program.items
  cases item <;> rfl

theorem errors_relined (program : Program) :
    (program.relined place).errors = program.errors.map (ParseError.relined place) := by
  rw [errors, errors, relined, List.filterMap_map, List.map_filterMap]
  refine congrFun (congrArg List.filterMap (funext fun item => ?_)) program.items
  cases item <;> rfl

end Program

end

/-! ## Values -/

/-- The same error with its operator on another line. -/
def RuntimeError.relined (place : Nat → Nat) (error : RuntimeError) : RuntimeError :=
  { error with operator := error.operator.relined place }

/-- The same failure, a runtime error with its operator on another line. -/
def Failure.relined (place : Nat → Nat) : Failure → Failure
  | runtime error => runtime (error.relined place)
  | output fault => output fault

/-- The same execution with its failure on another line. -/
def Execution.relined (place : Nat → Nat) (execution : Execution) : Execution :=
  { execution with failure := execution.failure.map (Failure.relined place) }

section

variable (place : Nat → Nat)

theorem UnaryOp.apply_relined (op : UnaryOp) (operator : Token) (operand : Value) :
    op.apply (operator.relined place) operand =
      (op.apply operator operand).mapError (RuntimeError.relined place) := by
  cases op <;> cases operand <;> rfl

theorem BinaryOp.apply_relined (op : BinaryOp) (operator : Token) (left right : Value) :
    op.apply (operator.relined place) left right =
      (op.apply operator left right).mapError (RuntimeError.relined place) := by
  cases op <;> cases left <;> cases right <;> rfl

/-- **A tree has the same value on other lines**, or the same error there. -/
theorem Expr.evaluate_relined (tree : Expr) :
    (tree.relined place).evaluate = tree.evaluate.mapError (RuntimeError.relined place) := by
  induction tree with
  | literal value => rfl
  | group inner ih => exact ih
  | unary op operator right ih =>
      rw [relined, evaluate, evaluate, ih]
      cases right.evaluate with
      | error error => rfl
      | ok operand => exact op.apply_relined place operator operand
  | binary left op operator right ihLeft ihRight =>
      rw [relined, evaluate, evaluate, ihLeft, ihRight]
      cases left.evaluate with
      | error error => rfl
      | ok leftValue =>
          cases right.evaluate with
          | error error => rfl
          | ok rightValue => exact op.apply_relined place operator leftValue rightValue

/-! ## Executions -/

namespace Execution

theorem andThen_relined (first : Execution) (next : Stream → Execution) :
    (first.andThen next).relined place =
      (first.relined place).andThen fun stream => (next stream).relined place := by
  obtain ⟨written, stream, failure⟩ := first
  cases failure <;> rfl

@[simp] theorem fault?_relined (execution : Execution) :
    (execution.relined place).fault? = execution.fault? := by
  obtain ⟨written, stream, failure⟩ := execution
  rcases failure with _ | _ | _ <;> rfl

@[simp] theorem runtimeError?_relined (execution : Execution) :
    (execution.relined place).runtimeError? =
      execution.runtimeError?.map (RuntimeError.relined place) := by
  obtain ⟨written, stream, failure⟩ := execution
  rcases failure with _ | _ | _ <;> rfl

end Execution

theorem Statement.execute_relined (stream : Stream) (statement : Statement) :
    (statement.relined place).execute stream = (statement.execute stream).relined place := by
  cases statement with
  | expr body =>
      rw [relined, execute, execute, Expr.evaluate_relined]
      cases body.evaluate <;> rfl
  | print body =>
      rw [relined, execute, execute, Expr.evaluate_relined]
      cases body.evaluate with
      | error error => rfl
      | ok value =>
          have hFault : ∀ fault? : Option Fault, fault?.map Failure.output =
              (fault?.map Failure.output).map (Failure.relined place) := by
            rintro (_ | fault) <;> rfl
          exact congrArg (Execution.mk _ _) (hFault _)

/-- **Statements on other lines do the same**, and a runtime error names its line there. -/
theorem interpret_relined (stream : Stream) (statements : List Statement) :
    interpret stream (statements.map (Statement.relined place)) =
      (interpret stream statements).relined place := by
  induction statements generalizing stream with
  | nil => rfl
  | cons statement statements ih =>
      simp only [List.map_cons, interpret_cons, Statement.execute_relined,
        Execution.andThen_relined, ih]

end

end ExprLang
