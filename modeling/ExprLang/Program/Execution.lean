import ExprLang.Expr.Evaluation
import ExprLang.Program.Basic
import ExprLang.Stream

/-!
# Executing statements

Statements are executed in order. A print statement writes the text of its value and a line
feed; all other statements write nothing. The first failure ends the execution.
-/

namespace ExprLang

/-- Why an execution ended before its end. -/
inductive Failure where
  /-- An operator had operands of the wrong type. -/
  | runtime (error : RuntimeError)
  /-- The output stream failed. -/
  | output (fault : Fault)
deriving BEq, Repr

/-- The description of a failure. -/
def Failure.message : Failure → String
  | runtime error => error.message
  | output fault => "failed to write output: " ++ fault.message

/-- What an execution did: the bytes written, the stream after it, and the failure, if any. -/
structure Execution where
  written : List UInt8
  stream : Stream
  failure : Option Failure

namespace Execution

/-- Nothing is executed. -/
def idle (stream : Stream) : Execution := ⟨[], stream, none⟩

/-- The runtime error that ended an execution. -/
def runtimeError? (execution : Execution) : Option RuntimeError :=
  match execution.failure with
  | some (.runtime error) => some error
  | _ => none

/-- The failure of the output stream that ended an execution. -/
def fault? (execution : Execution) : Option Fault :=
  match execution.failure with
  | some (.output fault) => some fault
  | _ => none

end Execution

/-- Executes a statement. -/
def Statement.execute [NaNRule] (stream : Stream) : Statement → Execution
  | expr body =>
    match body.evaluate with
    | .ok _ => .idle stream
    | .error error => ⟨[], stream, some (.runtime error)⟩
  | print body =>
    match body.evaluate with
    | .ok value =>
      let writing := stream.write (utf8 (value.text ++ "\n"))
      ⟨writing.taken, writing.stream, writing.fault.map .output⟩
    | .error error => ⟨[], stream, some (.runtime error)⟩

/-- Executes statements up to the first failure. -/
def interpret [NaNRule] (stream : Stream) : List Statement → Execution
  | [] => .idle stream
  | statement :: statements =>
    let first := statement.execute stream
    match first.failure with
    | some _ => first
    | none =>
      let later := interpret first.stream statements
      ⟨first.written ++ later.written, later.stream, later.failure⟩

end ExprLang
