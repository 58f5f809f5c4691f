import ExprLang.Proofs.Program.Acceptance

/-!
# A semicolon separates what stands before it from what stands after it

Whatever the tokens up to a semicolon are, reading stands at the beginning of a statement right
after them: a statement that is read ends with a semicolon or breaks off at one at the latest, and
going on after an error skips no further than to the next one. So tokens that end with a semicolon
and tokens after them are read as if each stood alone.

Every function that reads from the front of the tokens is shown to look at nothing behind the
semicolon; the rest that it leaves is again empty or ends with the semicolon, which is the invariant
`Closed` of the loop over the statements.

## Main results

* `Statement.read_append_of_closed`, `recover_append_of_closed` — one statement, one recovery.
* `Program.readItems_append_of_closed` — the items of the whole.
* `Program.ofTokens_append_semicolon` — the statements and errors of a program that is cut after a
  semicolon.
-/

namespace ExprLang

/-- The tokens hold no end mark, and unless they are empty the last one is a semicolon. -/
structure Closed (tokens : List Token) : Prop where
  kind_ne_eof : ∀ token ∈ tokens, token.kind ≠ .eof
  last : ∀ token ∈ tokens.getLast?, token.kind = .semicolon

namespace Closed

theorem of_suffix {rest tokens : List Token} (h : Closed tokens) (hRest : rest <:+ tokens) :
    Closed rest := by
  obtain ⟨before, rfl⟩ := hRest
  refine ⟨fun token hMem => h.kind_ne_eof token (List.mem_append_right _ hMem), ?_⟩
  intro token hLast
  apply h.last
  rw [List.getLast?_append, Option.mem_def.1 hLast]
  rfl

theorem tail {token : Token} {tokens : List Token} (h : Closed (token :: tokens)) :
    Closed tokens :=
  h.of_suffix (List.suffix_cons _ _)

/-- After a token that is no semicolon there is another token. -/
theorem tail_ne_nil {token : Token} {tokens : List Token} (h : Closed (token :: tokens))
    (hKind : token.kind ≠ .semicolon) : tokens ≠ [] := by
  rintro rfl
  exact hKind (h.last token rfl)

theorem append_semicolon {tokens : List Token} {semicolon : Token}
    (hTokens : ∀ token ∈ tokens, token.kind ≠ .eof) (hSemicolon : semicolon.kind = .semicolon) :
    Closed (tokens ++ [semicolon]) := by
  refine ⟨?_, ?_⟩
  · intro token hMem
    rcases List.mem_append.1 hMem with hMem | hMem
    · exact hTokens token hMem
    · rw [List.mem_singleton.1 hMem, hSemicolon]
      decide
  · intro token hLast
    rw [List.getLast?_append] at hLast
    cases hLast
    exact hSemicolon

end Closed

/-- The same outcome with more tokens behind the ones that were not read. -/
def Reading.followedBy {α : Type} (reading : Reading α) (behind : List Token) : Reading α :=
  ⟨reading.result, reading.rest ++ behind⟩

/-! ## One statement -/

theorem PhraseReader.run_append_of_closed {level : Level} {tokens : List Token}
    (behind : List Token) :
    ∀ reader : PhraseReader, Closed tokens → tokens ≠ [] →
      run level reader (tokens ++ behind) = (run level reader tokens).followedBy behind ∧
        (run level reader tokens).rest ≠ [] := by
  induction tokens with
  | nil =>
      intro reader _ hNil
      exact absurd rfl hNil
  | cons token tokens ih =>
      intro reader hClosed _
      cases hStep : reader.step level token with
      | none =>
          simp only [List.cons_append, run, hStep]
          exact ⟨rfl, List.cons_ne_nil _ _⟩
      | some next =>
          have hKind : token.kind ≠ .semicolon := by
            intro hSemicolon
            rw [step_eq_none_of_kind level reader (by simp [hSemicolon])] at hStep
            cases hStep
          simp only [List.cons_append, run, hStep]
          exact ih next hClosed.tail (hClosed.tail_ne_nil hKind)

theorem Statement.finish_followedBy (build : Expr → Statement) (missing : Expectation)
    {reading : Reading Expr} (h : reading.rest ≠ []) (behind : List Token) :
    finish build missing (reading.followedBy behind) =
        (finish build missing reading).followedBy behind ∧
      ∀ error, (finish build missing reading).result = .error error →
        (finish build missing reading).rest ≠ [] := by
  obtain ⟨result, rest⟩ := reading
  obtain ⟨first, rest, rfl⟩ := List.exists_cons_of_ne_nil h
  cases result with
  | error error => exact ⟨rfl, fun _ _ => List.cons_ne_nil _ _⟩
  | ok body =>
      simp only [Reading.followedBy, finish, List.cons_append]
      split
      · exact ⟨rfl, fun _ hError => by cases hError⟩
      · exact ⟨rfl, fun _ _ => List.cons_ne_nil _ _⟩

/-- Reading a statement looks at nothing behind a semicolon. -/
theorem Statement.read_append_of_closed {tokens : List Token} (hClosed : Closed tokens)
    (hTokens : tokens ≠ []) (behind : List Token) :
    Statement.read (tokens ++ behind) = (Statement.read tokens).followedBy behind ∧
      ∀ error, (Statement.read tokens).result = .error error →
        (Statement.read tokens).rest ≠ [] := by
  obtain ⟨first, tokens, rfl⟩ := List.exists_cons_of_ne_nil hTokens
  simp only [List.cons_append, Statement.read]
  split
  · rename_i hPrint
    have hRest := hClosed.tail_ne_nil (by simp [hPrint])
    obtain ⟨hRun, hLeft⟩ := PhraseReader.run_append_of_closed behind .start hClosed.tail hRest
    rw [Expr.read, Expr.read, hRun]
    exact finish_followedBy _ _ hLeft behind
  · obtain ⟨hRun, hLeft⟩ := PhraseReader.run_append_of_closed behind .start hClosed hTokens
    rw [Expr.read, Expr.read, ← List.cons_append, hRun]
    exact finish_followedBy _ _ hLeft behind

/-! ## One recovery -/

theorem skipStatement_append_of_closed {tokens : List Token} (hClosed : Closed tokens)
    (hTokens : tokens ≠ []) (behind : List Token) :
    skipStatement (tokens ++ behind) = skipStatement tokens ++ behind := by
  induction tokens with
  | nil => exact absurd rfl hTokens
  | cons token tokens ih =>
      simp only [List.cons_append, skipStatement]
      split
      · rfl
      · split
        · rfl
        · rename_i hKind
          exact ih hClosed.tail (hClosed.tail_ne_nil hKind)

/-- Going on after an error skips nothing behind a semicolon. -/
theorem recover_append_of_closed {tokens : List Token} (hClosed : Closed tokens)
    (hTokens : tokens ≠ []) (behind : List Token) :
    recover (tokens ++ behind) = recover tokens ++ behind := by
  obtain ⟨first, tokens, rfl⟩ := List.exists_cons_of_ne_nil hTokens
  simp only [List.cons_append, recover]
  split
  · rfl
  · split
    · rfl
    · rename_i hKind
      exact skipStatement_append_of_closed hClosed.tail (hClosed.tail_ne_nil hKind) behind

theorem Statement.resume_read_suffix (tokens : List Token) :
    (Statement.read tokens).resume <:+ tokens := by
  unfold Reading.resume
  split
  · exact rest_read_suffix tokens
  · exact (recover_suffix _).trans (rest_read_suffix tokens)

theorem Statement.resume_append_of_closed {tokens : List Token} (hClosed : Closed tokens)
    (hTokens : tokens ≠ []) (behind : List Token) :
    (Statement.read (tokens ++ behind)).resume = (Statement.read tokens).resume ++ behind := by
  obtain ⟨hRead, hError⟩ := read_append_of_closed hClosed hTokens behind
  rw [hRead]
  cases hResult : (Statement.read tokens).result with
  | ok tree => simp only [Reading.resume, Reading.followedBy, hResult]
  | error error =>
      have hRest := hClosed.of_suffix (rest_read_suffix tokens)
      simp only [Reading.resume, Reading.followedBy, hResult]
      exact recover_append_of_closed hRest (hError error hResult) behind

/-! ## The whole program -/

namespace Program

/-- **Tokens that end with a semicolon and tokens behind them are read as if each stood alone.** -/
theorem readItems_append_of_closed {tokens : List Token} (behind : List Token) :
    Closed tokens → readItems (tokens ++ behind) = readItems tokens ++ readItems behind := by
  fun_induction readItems tokens with
  | case1 =>
      intro _
      rfl
  | case2 token tokens hEof =>
      intro hClosed
      exact absurd hEof (hClosed.kind_ne_eof token (List.mem_cons_self ..))
  | case3 token tokens hKind reading =>
      rename_i ih
      intro hClosed
      have hNonempty := List.cons_ne_nil token tokens
      have hRead := (Statement.read_append_of_closed hClosed hNonempty behind).1
      have hResume := Statement.resume_append_of_closed hClosed hNonempty behind
      have hRest := hClosed.of_suffix (Statement.resume_read_suffix (token :: tokens))
      rw [List.cons_append] at hRead hResume ⊢
      rw [readItems_cons hKind, hResume, ih hRest, hRead]
      rfl

/-- **Syntax errors never leak across a semicolon.** If the tokens up to a semicolon hold no end
mark, then a program has the statements and the errors of the part up to the semicolon, and after
them those of the part behind it. -/
theorem ofTokens_append_semicolon {before behind : List Token} {semicolon : Token}
    (hBefore : ∀ token ∈ before, token.kind ≠ .eof) (hSemicolon : semicolon.kind = .semicolon) :
    (ofTokens (before ++ semicolon :: behind)).statements =
        (ofTokens (before ++ [semicolon])).statements ++ (ofTokens behind).statements ∧
      (ofTokens (before ++ semicolon :: behind)).errors =
        (ofTokens (before ++ [semicolon])).errors ++ (ofTokens behind).errors := by
  have hItems := readItems_append_of_closed behind
    (Closed.append_semicolon hBefore hSemicolon)
  rw [List.append_assoc, List.singleton_append] at hItems
  simp only [ofTokens, statements, errors, hItems, List.filterMap_append, and_self]

/-- The first part breaks off inside a group, at a word that begins a statement. Going on after this
error skips to the semicolon and no further. -/
theorem ofTokens_append_semicolon_in_group :
    (∀ token ∈ [Token.plain .leftParen "(", .plain .printWord "print"], token.kind ≠ .eof) ∧
      (Token.plain .semicolon ";").kind = .semicolon ∧
      (ofTokens ([.plain .leftParen "(", .plain .printWord "print"] ++ .plain .semicolon ";" ::
        [.plain .nilWord "nill", .plain .semicolon ";"])).statements = [.expr (.literal .nil)] ∧
      (ofTokens ([.plain .leftParen "(", .plain .printWord "print"] ++ .plain .semicolon ";" ::
        [.plain .nilWord "nill", .plain .semicolon ";"])).errors =
          [⟨.expression, .plain .printWord "print"⟩] := by
  have h := @ofTokens_append_semicolon [.plain .leftParen "(", .plain .printWord "print"]
    [.plain .nilWord "nill", .plain .semicolon ";"] (.plain .semicolon ";") (by decide) rfl
  refine ⟨by decide, rfl, ?_, ?_⟩
  · rw [h.1]
    cbv
  · rw [h.2]
    cbv

end Program

end ExprLang
