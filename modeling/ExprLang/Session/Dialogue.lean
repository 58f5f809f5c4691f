import ExprLang.Session.Line
import ExprLang.Session.Run

/-!
# Dialogues at a prompt

A dialogue reads lines and runs each of them by itself. Before a line is read the prompt is
written and flushed; after a line was run the output is flushed and its static errors are
forgotten. At the end of the input a line feed ends the prompt. The first failure of a stream,
and a line that is not valid UTF-8, end the dialogue at once.
-/

namespace ExprLang

/-- The text that asks for a line. -/
def promptText : String := "> "

/-- The text that ends the prompt at the end of the input. -/
def farewellText : String := "\n"

/-- The failure when a line is not valid UTF-8. -/
def invalidLine : Fault := ⟨.invalidData, "stream did not contain valid UTF-8"⟩

/-- One turn of a dialogue: what was written to the prompt, the run of the line that was read, if
one was read, and the failure that ended the dialogue in this turn, if one did. -/
structure Turn where
  prompt : List UInt8
  run : Option Run
  fault : Option Fault

namespace Turn

/-- The bytes written to the output in a turn. -/
def output (turn : Turn) : List UInt8 := (turn.run.map Run.output).getD []

/-- The diagnostics of a turn. -/
def diagnostics (turn : Turn) : List Diagnostic := (turn.run.map Run.diagnostics).getD []

end Turn

/-- A dialogue: its turns, and the log after it. -/
structure Dialogue where
  turns : List Turn
  log : Log

namespace Dialogue

/-- The bytes written to the prompt. -/
def prompt (dialogue : Dialogue) : List UInt8 := dialogue.turns.flatMap Turn.prompt

/-- The bytes written to the output. -/
def output (dialogue : Dialogue) : List UInt8 := dialogue.turns.flatMap Turn.output

/-- The diagnostics reported in a dialogue. -/
def diagnostics (dialogue : Dialogue) : List Diagnostic := dialogue.turns.flatMap Turn.diagnostics

/-- The bytes of prompt and output together, where both go to one place. -/
def transcript (dialogue : Dialogue) : List UInt8 :=
  dialogue.turns.flatMap fun turn => turn.prompt ++ turn.output

/-- The failure that ended a dialogue, if one did. -/
def fault? (dialogue : Dialogue) : Option Fault := dialogue.turns.findSome? Turn.fault

end Dialogue

/-- Asks for a line: writes the prompt and flushes it. -/
def askForLine (prompt : Stream) : Writing := (prompt.write (utf8 promptText)).andThen Stream.flush

/-- Runs a text after what a log already holds; a pending static error blocks the execution. -/
def Run.ofText (log : Log) (stream : Stream) (text : String) : Run :=
  Run.ofSource Log.hasStaticError log stream text

/-- A turn of a dialogue with what it leaves: the log, and the streams for output and prompt if the
dialogue goes on. -/
structure Step where
  turn : Turn
  log : Log
  next : Option (Stream × Stream)

/-- Goes on with the rest of a dialogue, unless it has ended. -/
def Step.andThen (step : Step) (rest : Log → Stream → Stream → Dialogue) : Dialogue :=
  match step.next with
  | none => ⟨[step.turn], step.log⟩
  | some (output, prompt) =>
    let later := rest step.log output prompt
    ⟨step.turn :: later.turns, later.log⟩

/-- Takes one turn after what a log already holds: asks for a line, and runs the line that is read.
No line is read at the end of the input. -/
def takeTurn (log : Log) (output prompt : Stream) : Option (List UInt8) → Step
  | none =>
    let asked := (askForLine prompt).andThen fun prompt => prompt.write (utf8 farewellText)
    ⟨⟨asked.taken, none, asked.fault⟩, log, none⟩
  | some line =>
    let asked := askForLine prompt
    match asked.fault, lineText? line with
    | some fault, _ => ⟨⟨asked.taken, none, some fault⟩, log, none⟩
    | none, none => ⟨⟨asked.taken, none, some invalidLine⟩, log, none⟩
    | none, some text =>
      let run := Run.ofText log output text
      let log := log.reportAll run.diagnostics
      let flushed := run.execution.stream.flush
      match run.fault?.or flushed.fault with
      | some fault => ⟨⟨asked.taken, some run, some fault⟩, log, none⟩
      | none =>
        ⟨⟨asked.taken, some run, none⟩, log.forgetStaticErrors, some (flushed.stream, asked.stream)⟩

/-- The dialogue over lines of input, after what a log already holds. -/
def converse (log : Log) (output prompt : Stream) : List (List UInt8) → Dialogue
  | [] => (takeTurn log output prompt none).andThen fun log _ _ => ⟨[], log⟩
  | line :: lines =>
    (takeTurn log output prompt (some line)).andThen fun log output prompt =>
      converse log output prompt lines

end ExprLang
