import ExprLang.Program.Statement

/-!
# Programs

A program is read statement by statement up to the end mark. A statement with a syntax error is
dropped, and reading goes on at the next place where a statement is likely to begin, so that one
pass finds all errors.
-/

namespace ExprLang

/-- Skips to just after the next semicolon, or to just before a token that begins a statement or
marks the end. -/
def skipStatement : List Token → List Token
  | [] => []
  | token :: tokens =>
    if token.kind = .eof ∨ token.kind.beginsStatement then token :: tokens
    else if token.kind = .semicolon then tokens
    else skipStatement tokens

/-- Goes on after a syntax error. The offending token, if it is not the end mark, is dropped in
any case, also when it begins a statement. -/
def recover : List Token → List Token
  | [] => []
  | token :: tokens =>
    if token.kind = .eof then token :: tokens
    else if token.kind = .semicolon then tokens
    else skipStatement tokens

theorem skipStatement_suffix (tokens : List Token) : skipStatement tokens <:+ tokens := by
  fun_induction skipStatement tokens with
  | case1 => exact List.suffix_refl _
  | case2 => exact List.suffix_refl _
  | case3 token tokens => exact List.suffix_cons _ _
  | case4 token tokens _ _ ih => exact ih.trans (List.suffix_cons _ _)

theorem recover_suffix (tokens : List Token) : recover tokens <:+ tokens := by
  fun_cases recover tokens with
  | case1 => exact List.suffix_refl _
  | case2 => exact List.suffix_refl _
  | case3 => exact List.suffix_cons _ _
  | case4 token tokens => exact (skipStatement_suffix tokens).trans (List.suffix_cons _ _)

/-- Going on after an error drops a token unless the end is reached. -/
theorem length_recover_lt {token : Token} (tokens : List Token) (more : token.kind ≠ .eof) :
    (recover (token :: tokens)).length < (token :: tokens).length := by
  simp only [recover, more, if_false, List.length_cons]
  split
  · exact Nat.lt_add_one _
  · exact Nat.lt_add_one_of_le (skipStatement_suffix tokens).length_le

/-- The tokens with which reading goes on after a statement or a syntax error. -/
def Reading.resume (reading : Reading Statement) : List Token :=
  match reading.result with
  | .ok _ => reading.rest
  | .error _ => recover reading.rest

/-- Each statement or syntax error uses up a token. -/
theorem length_resume_read_lt {token : Token} (tokens : List Token) (more : token.kind ≠ .eof) :
    (Statement.read (token :: tokens)).resume.length < (token :: tokens).length := by
  unfold Reading.resume
  split
  · rename_i done
    exact Statement.length_rest_read_lt done
  · have rest := Statement.rest_read_suffix (token :: tokens)
    rcases Nat.lt_or_eq_of_le rest.length_le with fewer | same
    · exact Nat.lt_of_le_of_lt (recover_suffix _).length_le fewer
    · rw [rest.eq_of_length same]
      exact length_recover_lt tokens more

/-- The statements and the syntax errors of a program, in the order of the source. -/
structure Program where
  items : List (Except ParseError Statement)

namespace Program

/-- The statements and syntax errors of tokens up to the first end mark, or to the last token. -/
def readItems : List Token → List (Except ParseError Statement)
  | [] => []
  | token :: tokens =>
    if token.kind = .eof then []
    else
      let reading := Statement.read (token :: tokens)
      reading.result :: readItems reading.resume
termination_by tokens => tokens.length
decreasing_by exact length_resume_read_lt tokens ‹_›

/-- The program that tokens are read as. -/
def ofTokens (tokens : List Token) : Program := ⟨readItems tokens⟩

/-- The statements that have no syntax error. -/
def statements (program : Program) : List Statement :=
  program.items.filterMap Except.toOption

/-- The syntax errors. -/
def errors (program : Program) : List ParseError :=
  program.items.filterMap fun
    | .error error => some error
    | .ok _ => none

end Program

end ExprLang
