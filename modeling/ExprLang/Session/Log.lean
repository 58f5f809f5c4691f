import ExprLang.Expr.Evaluation
import ExprLang.Program.Basic
import ExprLang.Source.Scan

/-!
# Diagnostics and the log

A diagnostic is what a user is told about an error. The log keeps every diagnostic in the order
of the reports. It also remembers whether a static error is pending, that is, was reported since
the last time static errors were forgotten, and whether there ever was a runtime error.
-/

namespace ExprLang

/-- A reported problem. -/
inductive Diagnostic where
  /-- A lexical or syntax error. -/
  | static (line : Nat) (location message : String)
  /-- A runtime error, on the line of the operator. -/
  | runtime (line : Nat) (message : String)
deriving DecidableEq, Repr

namespace Diagnostic

/-- Whether a diagnostic reports a lexical or syntax error. -/
def isStatic : Diagnostic → Bool
  | static .. => true
  | runtime .. => false

/-- Whether a diagnostic reports a runtime error. -/
def isRuntime : Diagnostic → Bool
  | static .. => false
  | runtime .. => true

/-- The report of a lexical error, which names no place on the line. -/
def ofScanError (error : ScanError) : Diagnostic := static error.line "" error.message

/-- The report of a syntax error. -/
def ofParseError (error : ParseError) : Diagnostic :=
  static error.line error.location error.message

/-- The report of a runtime error. -/
def ofRuntimeError (error : RuntimeError) : Diagnostic := runtime error.line error.message

/-- The text of a diagnostic. -/
def text : Diagnostic → String
  | static line location message => s!"[line {line}] Error{location}: {message}"
  | runtime line message => s!"{message}\n[line {line}]"

end Diagnostic

/-- The exit code of a clean session. -/
def exitSuccess : Nat := 0

/-- The exit code when a static error is pending. -/
def exitDataError : Nat := 65

/-- The exit code after a runtime error. -/
def exitSoftware : Nat := 70

/-- The exit code when a script cannot be read or output cannot be written. -/
def exitIOError : Nat := 74

/-- The diagnostics of a session and what is remembered of them. -/
structure Log where
  /-- All diagnostics, the oldest first. -/
  reported : List Diagnostic
  /-- Whether a static error was reported since static errors were last forgotten. -/
  hasStaticError : Bool
  /-- Whether a runtime error was ever reported. -/
  hasRuntimeError : Bool
deriving DecidableEq, Repr

namespace Log

/-- Nothing reported yet. -/
def empty : Log := ⟨[], false, false⟩

/-- Records diagnostics in their order. -/
def reportAll (log : Log) (diagnostics : List Diagnostic) : Log :=
  ⟨log.reported ++ diagnostics, log.hasStaticError || diagnostics.any Diagnostic.isStatic,
    log.hasRuntimeError || diagnostics.any Diagnostic.isRuntime⟩

/-- Records a diagnostic. -/
def report (log : Log) (diagnostic : Diagnostic) : Log := log.reportAll [diagnostic]

/-- Forgets that static errors were reported; the diagnostics themselves stay. -/
def forgetStaticErrors (log : Log) : Log := { log with hasStaticError := false }

/-- The exit code for what has happened so far. A pending static error hides a runtime error. -/
def exitCode (log : Log) : Nat :=
  if log.hasStaticError then exitDataError
  else if log.hasRuntimeError then exitSoftware
  else exitSuccess

end Log

end ExprLang
