import ExprLang.Process.Options
import ExprLang.Session.Basic

/-!
# The process

A process reads its arguments and runs a script, given as an argument or in a file, or else a
dialogue at a prompt on its standard input. Prompt and output share the standard output; all
diagnostics and listings go to the standard error.
-/

namespace ExprLang

/-- What a process finds around it. -/
structure Environment where
  /-- The bytes of the standard input. -/
  input : List UInt8
  /-- The bytes of a file that can be read. -/
  readFile : String → Option (List UInt8)
  /-- The failure with which the standard output refuses every byte, if it does so. -/
  outputFault : Option Fault

/-- The standard output of a process. -/
def Environment.output (environment : Environment) : Stream :=
  ⟨environment.outputFault.map fun fault => ⟨0, fault⟩, none⟩

/-- The result of a process. -/
structure Outcome where
  code : Nat
  output : List UInt8
  errors : String
deriving DecidableEq, Repr

/-- The failure of a device without space. -/
def deviceFull : Fault := ⟨.storageFull, "No space left on device (os error 28)"⟩

/-- The name and version of the program. -/
def versionText : String := "treelox 0.1.0\n"

/-- The description of the program's command line. -/
def helpText : String :=
  "A scanner and tree-walking interpreter for a small Lox-style expression language\n\n" ++
  "Usage: treelox [OPTIONS] [CONTENTS]\n\n" ++
  "Arguments:\n" ++
  "  [CONTENTS]  \n\n" ++
  "Options:\n" ++
  "  -f, --file     Tells treelox to read the script from a file instead of the argument\n" ++
  "      --tokens   Prints every scanned token to standard error before running\n" ++
  "      --ast      Prints every parsed statement to standard error before running\n" ++
  "  -h, --help     Print help\n" ++
  "  -V, --version  Print version\n"

/-- The text for standard error when a script file cannot be read. -/
def unreadableText (path : String) : String :=
  "Failed to read the input file '" ++ path ++ "'. Perhaps this file does not exist?\n"

/-- The text for standard error when a stream failed. -/
def faultText (fault : Fault) : String := "Failed to write output: " ++ fault.message ++ "\n"

/-- Lines, each ended by a line feed. -/
def unlines (lines : List String) : String := String.join (lines.map (· ++ "\n"))

/-- The text that a run leaves on standard error. -/
def Run.errorText (options : Options) (run : Run) : String :=
  unlines (run.listing options.tokens options.ast)

/-- The text that a turn of a dialogue leaves on standard error. -/
def Turn.errorText (options : Options) (turn : Turn) : String :=
  (turn.run.map (Run.errorText options)).getD ""

/-- Ends a process: a failure of a stream is shown, and decides the exit code. -/
def Outcome.conclude (log : Log) (output : List UInt8) (errors : String) :
    Option Fault → Outcome
  | none => ⟨log.exitCode, output, errors⟩
  | some fault => ⟨exitIOError, output, errors ++ faultText fault⟩

/-- The process that runs a script. -/
def runScript (options : Options) (output : Stream) (source : String) : Outcome :=
  let run := Run.ofText .empty output source
  .conclude (Log.empty.reportAll run.diagnostics) run.output (run.errorText options) run.fault?

/-- The process that runs a dialogue. -/
def runPrompt (options : Options) (output : Stream) (input : List UInt8) : Outcome :=
  let dialogue := converse .empty output output (inputLines input)
  let errors := String.join (dialogue.turns.map (Turn.errorText options))
  .conclude dialogue.log dialogue.transcript errors dialogue.fault?

/-- The process with these options. -/
def runOptions (environment : Environment) (options : Options) : Outcome :=
  match options.contents with
  | none => runPrompt options environment.output environment.input
  | some contents =>
    if options.file then
      match environment.readFile contents >>= decodeUtf8? with
      | some source => runScript options environment.output source
      | none => ⟨exitIOError, [], unreadableText contents⟩
    else runScript options environment.output contents

/-- The process with these arguments, unless they are rejected. -/
def runProcess (environment : Environment) (arguments : List String) :
    Except UsageError Outcome :=
  match Options.ofArguments arguments with
  | .ok options => .ok (runOptions environment options)
  | .error .help => .ok ⟨exitSuccess, (environment.output.write (utf8 helpText)).taken, ""⟩
  | .error .version => .ok ⟨exitSuccess, (environment.output.write (utf8 versionText)).taken, ""⟩
  | .error (.rejected error) => .error error

end ExprLang
