import ExprLang.Process.Basic

/-!
# The command line program

Connects the process to the real arguments, files and standard streams. A dialogue is held line by
line, so that the prompt is seen before a line is typed.
-/

namespace ExprLang

/-- The failure of a stream as the system reports it. -/
def faultOfSystem : IO.Error → Fault
  | .resourceExhausted .. => deviceFull
  | error => ⟨.brokenPipe, toString error⟩

/-- Writes to standard output at once. -/
def putOutput (bytes : List UInt8) : IO Unit := do
  let output ← IO.getStdout
  output.write ⟨bytes.toArray⟩
  output.flush

/-- Writes to standard error. -/
def putErrors (text : String) : IO Unit := do (← IO.getStderr).putStr text

/-- Shows what a process does and ends with its exit code. If standard output fails, the process is
the one whose output refuses every byte. -/
def present (outcome : Option Fault → Outcome) : IO UInt32 := do
  let shown ← try
      putOutput (outcome none).output
      pure (outcome none)
    catch error => pure (outcome (some (faultOfSystem error)))
  putErrors shown.errors
  return shown.code.toUInt32

/-- The bytes of a file, if it can be read. -/
def fileBytes (path : String) : IO (Option (List UInt8)) := do
  try return some (← IO.FS.readBinFile path).data.toList
  catch _ => return none

/-- The bytes of the next line of standard input, with its line feed; empty at the end. -/
partial def nextLine (input : IO.FS.Stream) (line : List UInt8) : IO (List UInt8) := do
  match (← input.read 1).data.toList with
  | [] => return line.reverse
  | byte :: _ =>
    if byte = lineFeed then return (byte :: line).reverse else nextLine input (byte :: line)

/-- Ends a process whose output and listings are already shown. -/
def concludeShown (log : Log) (fault : Option Fault) : IO UInt32 := do
  let outcome := Outcome.conclude log [] "" fault
  putErrors outcome.errors
  return outcome.code.toUInt32

/-- Holds a dialogue on the standard streams. A turn is taken when its line has been read; the
prompt that it begins with is shown before that. A failure of standard output ends the dialogue. -/
partial def hold (options : Options) (log : Log) : IO UInt32 := do
  let asked := utf8 promptText
  let taken ← try
      putOutput asked
      let line ← nextLine (← IO.getStdin) []
      let step := takeTurn log .endless .endless (if line.isEmpty then none else some line)
      putErrors (step.turn.errorText options)
      putOutput ((step.turn.prompt ++ step.turn.output).drop asked.length)
      pure (Except.ok step)
    catch error => pure (Except.error (faultOfSystem error))
  match taken with
  | .error fault => concludeShown log fault
  | .ok step =>
    match step.next with
    | some _ => hold options step.log
    | none => concludeShown step.log step.turn.fault

end ExprLang

open ExprLang in
/-- Runs the program with its arguments. -/
def main (arguments : List String) : IO UInt32 := do
  match Options.ofArguments arguments with
  | .ok ⟨_, tokens, ast, none⟩ => hold ⟨false, tokens, ast, none⟩ .empty
  | .ok ⟨file, tokens, ast, some contents⟩ =>
    let script ← if file then fileBytes contents else pure none
    present fun fault =>
      runOptions ⟨[], fun _ => script, fault⟩ ⟨file, tokens, ast, some contents⟩
  | .error _ =>
    match runProcess ⟨[], fun _ => none, none⟩ arguments with
    | .ok outcome => present fun _ => outcome
    | .error error =>
      putErrors ("error: " ++ error.message ++ "\n")
      return 2
