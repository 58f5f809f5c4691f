import ExprLang.Session.Dialogue

/-!
# Sessions

A session is a sequence of calls. Each call runs a script or holds a dialogue, on streams of its
own, and the log goes from one call to the next. A failing call does not end the session.
-/

namespace ExprLang

/-- A call of a session, with the streams that it writes to. -/
inductive Call where
  /-- Run a source text. -/
  | script (output : Stream) (source : String)
  /-- Hold a dialogue over the lines of some input. -/
  | dialogue (output prompt : Stream) (input : List UInt8)

/-- What a call did. -/
structure Effect where
  /-- The bytes written to the output. -/
  output : List UInt8
  /-- The bytes written to the prompt. -/
  prompt : List UInt8
  /-- The diagnostics reported. -/
  diagnostics : List Diagnostic
  /-- The failure with which the call ended, if it failed. -/
  fault : Option Fault
  /-- The log after the call. -/
  log : Log

namespace Log

/-- Performs a call after what a log already holds. -/
def perform (log : Log) : Call → Effect
  | .script output source =>
    let run := Run.ofText log output source
    ⟨run.output, [], run.diagnostics, run.fault?, log.reportAll run.diagnostics⟩
  | .dialogue output prompt input =>
    let dialogue := converse log output prompt (inputLines input)
    ⟨dialogue.output, dialogue.prompt, dialogue.diagnostics, dialogue.fault?, dialogue.log⟩

/-- The effects of calls one after the other. -/
def performAll (log : Log) : List Call → List Effect
  | [] => []
  | call :: calls =>
    let effect := log.perform call
    effect :: effect.log.performAll calls

end Log

end ExprLang
