import ExprLang.Expr.Basic

/-!
# Reading expressions

An expression is read from the front of a token list by a reader that takes one token at a time.
What is still open around the place that it has come to is a stack of frames: groups whose closing
parenthesis is to come, prefix operators and binary operators whose right operand is to come. A
token that cannot go on with what has been read ends the phrase. Then either an operand is missing,
or a group is still open, or the phrase is complete.

Operators of one level associate to the left: before a binary operator is put on the stack, every
frame that binds at least as tightly is closed.
-/

namespace ExprLang

/-- What a syntax error says should have come. -/
inductive Expectation where
  | expression
  | closingParen
  | semicolonAfterValue
  | semicolonAfterExpression
deriving DecidableEq, Repr

/-- A syntax error: what should have come, and the token that came. -/
structure ParseError where
  expected : Expectation
  token : Token
deriving BEq, Repr

namespace ParseError

/-- The line on which an error is reported. -/
def line (error : ParseError) : Nat := error.token.line

/-- The description of an error. -/
def message (error : ParseError) : String :=
  match error.expected with
  | .expression => "Expect expression."
  | .closingParen => "Expect ')' after expression."
  | .semicolonAfterValue => "Expect ';' after value."
  | .semicolonAfterExpression => "Expect ';' after expression."

/-- The place of an error on its line. -/
def location (error : ParseError) : String :=
  if error.token.kind = .eof then " at end" else " at '" ++ error.token.lexemeText ++ "'"

end ParseError

/-- The outcome of reading from the front of a token list, and the tokens that were not read.
After an error these begin with the offending token, unless there was none left. -/
structure Reading (α : Type) where
  result : Except ParseError α
  rest : List Token

/-- The token at the front; past the end of the tokens stands an end mark on line zero. -/
def nextToken : List Token → Token
  | [] => Token.endMark 0
  | token :: _ => token

/-- Something begun around the operand that is being read. -/
inductive Frame where
  /-- A group whose closing parenthesis is to come. -/
  | group
  /-- A prefix operator that waits for its operand. -/
  | unary (op : UnaryOp) (operator : Token)
  /-- A binary operator that waits for its right operand. -/
  | binary (left : Expr) (op : BinaryOp) (operator : Token)
deriving Repr

/-- Closes the operators around a finished operand that bind at least as tightly as a level, from
the inside out, up to the next open group. -/
def closeFrames (level : Level) (operand : Expr) : List Frame → Expr × List Frame
  | .unary op operator :: frames => closeFrames level (.unary op operator operand) frames
  | .binary left op operator :: frames =>
    if level.rank ≤ op.level.rank then closeFrames level (.binary left op operator operand) frames
    else (operand, .binary left op operator :: frames)
  | frames => (operand, frames)

/-- How far the reading of an expression has come: what is open, innermost first, and the operand
that was finished last, if no other operand is due. -/
structure PhraseReader where
  frames : List Frame
  operand : Option Expr
deriving Repr

namespace PhraseReader

/-- Nothing read yet. -/
def start : PhraseReader := ⟨[], none⟩

/-- Takes one more token, if the phrase of a level can go on with it. -/
def step (level : Level) (reader : PhraseReader) (token : Token) : Option PhraseReader :=
  match reader.operand with
  | none =>
    match UnaryOp.ofKind? token.kind with
    | some op => some ⟨.unary op token :: reader.frames, none⟩
    | none =>
      if token.kind = .leftParen then some ⟨.group :: reader.frames, none⟩
      else token.constant?.map fun value => ⟨reader.frames, some (.literal value)⟩
  | some operand =>
    match BinaryOp.ofKind? token.kind with
    | some op =>
      let (left, frames) := closeFrames op.level operand reader.frames
      if frames.isEmpty ∧ op.level.rank < level.rank then none
      else some ⟨.binary left op token :: frames, none⟩
    | none =>
      if token.kind = .rightParen then
        match closeFrames .equality operand reader.frames with
        | (inner, .group :: frames) => some ⟨frames, some (.group inner)⟩
        | _ => none
      else none

/-- The outcome when the phrase ends before a token. -/
def stop (reader : PhraseReader) (token : Token) : Except ParseError Expr :=
  match reader.operand with
  | none => .error ⟨.expression, token⟩
  | some operand =>
    match closeFrames .equality operand reader.frames with
    | (phrase, []) => .ok phrase
    | (_, _ :: _) => .error ⟨.closingParen, token⟩

/-- Takes tokens as long as the phrase of a level can go on with them. -/
def run (level : Level) (reader : PhraseReader) : List Token → Reading Expr
  | [] => ⟨reader.stop (nextToken []), []⟩
  | token :: tokens =>
    match reader.step level token with
    | some next => run level next tokens
    | none => ⟨reader.stop token, token :: tokens⟩

/-- The tokens that are left unread are an end part of the tokens. -/
theorem rest_run_suffix (level : Level) (reader : PhraseReader) (tokens : List Token) :
    (run level reader tokens).rest <:+ tokens := by
  fun_induction run level reader tokens with
  | case1 => exact List.suffix_refl _
  | case2 reader token tokens next _ ih => exact ih.trans (List.suffix_cons _ _)
  | case3 => exact List.suffix_refl _

end PhraseReader

/-- Reads an expression whose binary operators, outside of groups, are of a level or tighter. -/
def Expr.read (level : Level) (tokens : List Token) : Reading Expr :=
  PhraseReader.start.run level tokens

end ExprLang
