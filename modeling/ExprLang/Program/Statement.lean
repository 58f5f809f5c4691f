import ExprLang.Expr.Phrase

/-!
# Statements

A statement evaluates an expression; a print statement also shows the value. Both end with a
semicolon.
-/

namespace ExprLang

/-- A statement. -/
inductive Statement where
  | expr (body : Expr)
  | print (body : Expr)
deriving BEq, Repr

namespace Statement

/-- A statement in listings. -/
def text : Statement → String
  | expr body => "(expr " ++ body.text ++ ")"
  | print body => "(print " ++ body.text ++ ")"

/-- Ends a statement whose expression has been read with the semicolon that is to follow. -/
def finish (build : Expr → Statement) (missing : Expectation) (reading : Reading Expr) :
    Reading Statement :=
  match reading.result, reading.rest with
  | .error error, rest => ⟨.error error, rest⟩
  | .ok body, token :: tokens =>
    if token.kind = .semicolon then ⟨.ok (build body), tokens⟩
    else ⟨.error ⟨missing, token⟩, token :: tokens⟩
  | .ok _, [] => ⟨.error ⟨missing, nextToken []⟩, []⟩

/-- Reads a statement: `print`, an expression and a semicolon, or an expression and a semicolon. -/
def read : List Token → Reading Statement
  | token :: tokens =>
    if token.kind = .printWord then
      finish print .semicolonAfterValue (Expr.read .equality tokens)
    else finish expr .semicolonAfterExpression (Expr.read .equality (token :: tokens))
  | [] => finish expr .semicolonAfterExpression (Expr.read .equality [])

/-- Ending a statement reads at most the semicolon. -/
theorem rest_finish_suffix (build : Expr → Statement) (missing : Expectation)
    (reading : Reading Expr) : (finish build missing reading).rest <:+ reading.rest := by
  unfold finish
  split
  · exact List.suffix_refl _
  · rename_i token tokens _ rest
    rw [rest]
    split
    · exact List.suffix_cons _ _
    · exact List.suffix_refl _
  · exact List.nil_suffix

/-- Ending a statement without an error reads the semicolon. -/
theorem length_rest_finish_lt {build : Expr → Statement} {missing : Expectation}
    {reading : Reading Expr} {statement : Statement}
    (done : (finish build missing reading).result = .ok statement) :
    (finish build missing reading).rest.length < reading.rest.length := by
  unfold finish at done ⊢
  split at done
  · cases done
  · rename_i token tokens _ rest
    split at done
    · rename_i semicolon
      simp only [rest, semicolon, if_true, List.length_cons, Nat.lt_add_one]
    · cases done
  · cases done

end Statement

/-- The tokens that an expression leaves unread are an end part of its tokens. -/
theorem Expr.rest_read_suffix (level : Level) (tokens : List Token) :
    (Expr.read level tokens).rest <:+ tokens :=
  PhraseReader.rest_run_suffix level _ tokens

/-- The tokens that a statement leaves unread are an end part of its tokens. -/
theorem Statement.rest_read_suffix (tokens : List Token) :
    (Statement.read tokens).rest <:+ tokens := by
  unfold Statement.read
  split
  · split
    · exact ((rest_finish_suffix _ _ _).trans (Expr.rest_read_suffix _ _)).trans
        (List.suffix_cons _ _)
    · exact (rest_finish_suffix _ _ _).trans (Expr.rest_read_suffix _ _)
  · exact (rest_finish_suffix _ _ _).trans (Expr.rest_read_suffix _ _)

/-- A statement without an error has at least one token. -/
theorem Statement.length_rest_read_lt {tokens : List Token} {statement : Statement}
    (done : (Statement.read tokens).result = .ok statement) :
    (Statement.read tokens).rest.length < tokens.length := by
  unfold Statement.read at done ⊢
  split at done
  · rename_i token tokens
    split at done
    · rename_i print
      have shorter := length_rest_finish_lt done
      have fewer := (Expr.rest_read_suffix .equality tokens).length_le
      simp only [print, if_true, List.length_cons]
      omega
    · rename_i print
      have shorter := length_rest_finish_lt done
      have fewer := (Expr.rest_read_suffix .equality (token :: tokens)).length_le
      simp only [print, if_false]
      omega
  · have shorter := length_rest_finish_lt done
    have fewer := (Expr.rest_read_suffix .equality []).length_le
    omega

end ExprLang
