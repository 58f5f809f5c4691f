import ExprLang.Program.Execution
import ExprLang.Session.Log

/-!
# Running source text

One run scans a source text, reads its program and executes it, unless a static error blocks the
execution. The record of a run holds everything that the run found and did.
-/

namespace ExprLang

/-- All that a run of a source text found and did. -/
structure Run where
  scan : Scan
  program : Program
  execution : Execution

namespace Run

/-- The reports of the lexical errors, then of the syntax errors. -/
def staticDiagnostics (scan : Scan) (program : Program) : List Diagnostic :=
  scan.errors.map .ofScanError ++ program.errors.map .ofParseError

/--
Runs a source text after what a log already holds. The static errors of the source are added to
the log first; then nothing is executed if the log counts as blocked.
-/
def ofSource (isBlocked : Log → Bool) (log : Log) (stream : Stream) (source : String) : Run :=
  let scan := Scan.ofSource source
  let program := Program.ofTokens scan.tokens
  let blocked := isBlocked (log.reportAll (staticDiagnostics scan program))
  ⟨scan, program, if blocked then .idle stream else interpret stream program.statements⟩

/-- The bytes that were written. -/
def output (run : Run) : List UInt8 := run.execution.written

/-- The failure of the output stream, if it failed. -/
def fault? (run : Run) : Option Fault := run.execution.fault?

/-- The report of the runtime error, if there was one. -/
def runtimeDiagnostics (run : Run) : List Diagnostic :=
  (run.execution.runtimeError?.map Diagnostic.ofRuntimeError).toList

/-- The diagnostics of a run in the order of the reports. -/
def diagnostics (run : Run) : List Diagnostic :=
  staticDiagnostics run.scan run.program ++ run.runtimeDiagnostics

/--
The lines that a run shows beside its output: lexical errors, the tokens if they are asked for,
syntax errors, the statements if they are asked for, and the runtime error.
-/
def listing (showTokens showStatements : Bool) (run : Run) : List String :=
  run.scan.errors.map (fun error => (Diagnostic.ofScanError error).text) ++
    (if showTokens then run.scan.tokens.map Token.text else []) ++
    run.program.errors.map (fun error => (Diagnostic.ofParseError error).text) ++
    (if showStatements then run.program.statements.map Statement.text else []) ++
    run.runtimeDiagnostics.map Diagnostic.text

end Run

end ExprLang
