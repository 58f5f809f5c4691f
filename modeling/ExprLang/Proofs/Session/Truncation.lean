import ExprLang.Proofs.Program.Sequence
import ExprLang.Proofs.Session.Independence
import ExprLang.Session.Basic
import Mathlib.Data.List.Infix

/-!
# Failing streams only cut a dialogue short

A stream that fails has taken a front part of the bytes, and the failure ends the dialogue at once.
So a dialogue on streams that may fail at any byte and at any flush does a front part of what the
dialogue does on streams that never fail: at no time does it write, ask or report anything else, and
unless it ends with a failure nothing is missing.

Each layer has its own notion of doing a front part: a write, an execution, a turn, a dialogue. In
each the first step that fails is the last, and the steps before it are complete.

## Main results

* `interpret_truncates` — executions.
* `takeTurn_truncates`, `converse_truncates` — turns, and dialogues.
* `perform_dialogue_truncates` — the effects of a dialogue in a session.
-/

namespace ExprLang

/-! ## Writing -/

/-- A write took a front part of some bytes, and all of them unless it failed. -/
structure Writing.Truncates (writing : Writing) (bytes : List UInt8) : Prop where
  taken : writing.taken <+: bytes
  complete : writing.fault = none → writing.taken = bytes

theorem Stream.write_truncates (stream : Stream) (bytes : List UInt8) :
    (stream.write bytes).Truncates bytes := by
  rw [write]
  cases stream.room with
  | none => exact ⟨List.prefix_refl _, fun _ => rfl⟩
  | some room =>
      refine ⟨List.take_prefix _ _, fun hFault => ?_⟩
      simp only [ite_eq_left_iff, reduceCtorEq, imp_false, Decidable.not_not] at hFault
      exact List.take_of_length_le hFault

theorem Stream.flush_truncates (stream : Stream) : stream.flush.Truncates [] := by
  rw [flush]
  cases stream.flushes <;> exact ⟨List.prefix_refl _, fun _ => rfl⟩

theorem Writing.Truncates.andThen {first : Writing} {bytes others : List UInt8}
    (h : first.Truncates bytes) {next : Stream → Writing}
    (hNext : ∀ stream, (next stream).Truncates others) :
    (first.andThen next).Truncates (bytes ++ others) := by
  rw [Writing.andThen]
  split
  · rename_i fault hFault
    exact ⟨h.taken.trans (List.prefix_append _ _), fun hNone => by simp [hFault] at hNone⟩
  · rename_i hFault
    have hSecond := hNext first.stream
    rw [h.complete hFault]
    exact ⟨(List.prefix_append_right_inj _).2 hSecond.taken,
      fun hNone => congrArg (bytes ++ ·) (hSecond.complete hNone)⟩

theorem askForLine_truncates (prompt : Stream) :
    (askForLine prompt).Truncates (utf8 promptText) := by
  have hAsked := (prompt.write_truncates (utf8 promptText)).andThen Stream.flush_truncates
  rwa [List.append_nil] at hAsked

/-! ## Executing -/

/-- An execution does a front part of what another one does, and all of it unless its output
failed. -/
structure Execution.Truncates (cut whole : Execution) : Prop where
  written : cut.written <+: whole.written
  complete : cut.fault? = none → cut.written = whole.written ∧ cut.failure = whole.failure

namespace Execution

theorem written_prefix_andThen (first : Execution) (next : Stream → Execution) :
    first.written <+: (first.andThen next).written := by
  cases hFailure : first.failure with
  | some failure =>
      rw [andThen_of_failure hFailure]
  | none =>
      rw [andThen_of_none hFailure]
      exact List.prefix_append _ _

theorem Truncates.andThen {cut whole : Execution} (h : cut.Truncates whole)
    {next wholeNext : Stream → Execution}
    (hNext : (next cut.stream).Truncates (wholeNext whole.stream)) :
    (cut.andThen next).Truncates (whole.andThen wholeNext) := by
  cases hFailure : cut.failure with
  | some failure =>
      rw [andThen_of_failure hFailure]
      refine ⟨h.written.trans (written_prefix_andThen _ _), fun hFault => ?_⟩
      obtain ⟨hWritten, hSame⟩ := h.complete hFault
      rw [andThen_of_failure (hSame ▸ hFailure)]
      exact ⟨hWritten, hSame⟩
  | none =>
      obtain ⟨hWritten, hSame⟩ := h.complete (failure_eq_none_iff.1 hFailure).2
      rw [andThen_of_none hFailure, andThen_of_none (hSame ▸ hFailure), hWritten]
      refine ⟨(List.prefix_append_right_inj _).2 hNext.written, fun hFault => ?_⟩
      obtain ⟨hSecond, hFailures⟩ := hNext.complete hFault
      exact ⟨congrArg (whole.written ++ ·) hSecond, hFailures⟩

/-- What ends an execution is reported as well where nothing is cut off, or not at all. -/
theorem Truncates.runtimeError? {cut whole : Execution} (h : cut.Truncates whole) :
    cut.runtimeError? = none ∨ cut.runtimeError? = whole.runtimeError? := by
  cases hFault : cut.fault? with
  | some fault => exact .inl (runtimeError?_of_fault? hFault)
  | none =>
      right
      rw [Execution.runtimeError?, Execution.runtimeError?, (h.complete hFault).2]

end Execution

theorem Statement.execute_truncates (stream : Stream) (statement : Statement) :
    (statement.execute stream).Truncates (statement.execute .endless) := by
  cases statement with
  | expr body =>
      simp only [execute]
      cases body.evaluate <;> exact ⟨List.prefix_refl _, fun _ => ⟨rfl, rfl⟩⟩
  | print body =>
      simp only [execute]
      cases body.evaluate with
      | error error => exact ⟨List.prefix_refl _, fun _ => ⟨rfl, rfl⟩⟩
      | ok value =>
          have hWriting := stream.write_truncates (utf8 (value.text ++ "\n"))
          refine ⟨hWriting.taken, fun hFault => ?_⟩
          have hNone : (stream.write (utf8 (value.text ++ "\n"))).fault = none := by
            cases hWritten : (stream.write (utf8 (value.text ++ "\n"))).fault with
            | none => rfl
            | some fault => simp [Execution.fault?, hWritten] at hFault
          exact ⟨hWriting.complete hNone, congrArg (Option.map Failure.output) hNone⟩

/-- **An execution on a stream that fails does a front part of what it does on one that never
fails.** -/
theorem interpret_truncates (stream : Stream) (statements : List Statement) :
    (interpret stream statements).Truncates (interpret .endless statements) := by
  induction statements generalizing stream with
  | nil => exact ⟨List.prefix_refl _, fun _ => ⟨rfl, rfl⟩⟩
  | cons statement statements ih =>
      have hEndless : (statement.execute .endless).stream = .endless :=
        (statement.execute_of_room rfl).1
      rw [interpret_cons, interpret_cons]
      refine (statement.execute_truncates stream).andThen ?_
      rw [hEndless]
      exact ih _

namespace Run

theorem ofText_truncates (log : Log) (stream : Stream) (text : String) :
    (Run.ofText log stream text).execution.Truncates
      (Run.ofText log .endless text).execution := by
  simp only [ofText, ofSource]
  split
  · exact ⟨List.prefix_refl _, fun _ => ⟨rfl, rfl⟩⟩
  · exact interpret_truncates stream _

theorem diagnostics_ofText (log : Log) (stream : Stream) (text : String) :
    (Run.ofText log stream text).diagnostics =
      staticDiagnostics (Scan.ofSource text) (Program.ofTokens (Scan.ofSource text).tokens) ++
        (Run.ofText log stream text).runtimeDiagnostics := rfl

theorem diagnostics_ofText_prefix (log : Log) (stream : Stream) (text : String) :
    (Run.ofText log stream text).diagnostics <+: (Run.ofText log .endless text).diagnostics := by
  rw [diagnostics_ofText, diagnostics_ofText, List.prefix_append_right_inj, runtimeDiagnostics,
    runtimeDiagnostics]
  rcases (ofText_truncates log stream text).runtimeError? with hNone | hSame
  · rw [hNone]
    exact List.nil_prefix
  · rw [hSame]

/-- A run whose output did not fail writes and reports all. -/
theorem ofText_complete {log : Log} {stream : Stream} {text : String}
    (h : (Run.ofText log stream text).fault? = none) :
    (Run.ofText log stream text).output = (Run.ofText log .endless text).output ∧
      (Run.ofText log stream text).diagnostics = (Run.ofText log .endless text).diagnostics := by
  obtain ⟨hWritten, hFailure⟩ := (ofText_truncates log stream text).complete h
  refine ⟨hWritten, ?_⟩
  rw [diagnostics_ofText, diagnostics_ofText, runtimeDiagnostics, runtimeDiagnostics,
    Execution.runtimeError?, Execution.runtimeError?, hFailure]

end Run

/-! ## Turns and dialogues -/

/-- A turn does a front part of what another one does, and all of it unless it failed. -/
structure Turn.Truncates (cut whole : Turn) : Prop where
  prompt : cut.prompt <+: whole.prompt
  output : cut.output <+: whole.output
  diagnostics : cut.diagnostics <+: whole.diagnostics
  complete : cut.fault = none → cut.prompt = whole.prompt ∧ cut.output = whole.output ∧
    cut.diagnostics = whole.diagnostics

/-- A dialogue does a front part of what another one does, and all of it unless it ended with a
failure. -/
structure Dialogue.Truncates (cut whole : Dialogue) : Prop where
  prompt : cut.prompt <+: whole.prompt
  output : cut.output <+: whole.output
  diagnostics : cut.diagnostics <+: whole.diagnostics
  complete : cut.fault? = none → cut.prompt = whole.prompt ∧ cut.output = whole.output ∧
    cut.diagnostics = whole.diagnostics ∧ cut.log = whole.log

namespace Dialogue

theorem Truncates.refl (dialogue : Dialogue) : Truncates dialogue dialogue :=
  ⟨List.prefix_refl _, List.prefix_refl _, List.prefix_refl _, fun _ => ⟨rfl, rfl, rfl, rfl⟩⟩

/-- The turn in which a dialogue fails is its last one. -/
theorem truncates_of_fault {turn first : Turn} {fault : Fault} (h : turn.Truncates first)
    (hFault : turn.fault = some fault) (log otherLog : Log) (later : List Turn) :
    Truncates ⟨[turn], log⟩ ⟨first :: later, otherLog⟩ where
  prompt := by
    simp only [prompt, List.flatMap_cons, List.flatMap_nil, List.append_nil]
    exact h.prompt.trans (List.prefix_append _ _)
  output := by
    simp only [output, List.flatMap_cons, List.flatMap_nil, List.append_nil]
    exact h.output.trans (List.prefix_append _ _)
  diagnostics := by
    simp only [diagnostics, List.flatMap_cons, List.flatMap_nil, List.append_nil]
    exact h.diagnostics.trans (List.prefix_append _ _)
  complete := by
    intro hNone
    simp [fault?, hFault] at hNone

/-- After a turn that does not fail both dialogues go on. -/
theorem Truncates.cons {turn first : Turn} (hTurn : turn.Truncates first)
    (hFault : turn.fault = none) {cut whole : Dialogue} (h : cut.Truncates whole) :
    Truncates ⟨turn :: cut.turns, cut.log⟩ ⟨first :: whole.turns, whole.log⟩ := by
  obtain ⟨hPrompt, hOutput, hDiagnostics⟩ := hTurn.complete hFault
  refine ⟨?_, ?_, ?_, fun hNone => ?_⟩
  · simp only [Dialogue.prompt, List.flatMap_cons, hPrompt, List.prefix_append_right_inj]
    exact h.prompt
  · simp only [Dialogue.output, List.flatMap_cons, hOutput, List.prefix_append_right_inj]
    exact h.output
  · simp only [Dialogue.diagnostics, List.flatMap_cons, hDiagnostics,
      List.prefix_append_right_inj]
    exact h.diagnostics
  · have hLater : cut.fault? = none := by
      simpa [fault?, hFault] using hNone
    obtain ⟨hPrompts, hOutputs, hReports, hLog⟩ := h.complete hLater
    simp only [Dialogue.prompt, Dialogue.output, Dialogue.diagnostics, List.flatMap_cons] at *
    rw [hPrompt, hOutput, hDiagnostics, hPrompts, hOutputs, hReports]
    exact ⟨rfl, rfl, rfl, hLog⟩

end Dialogue

/-- A turn in which no line was run does no more than ask. -/
theorem Turn.truncates_of_asked {asked : Writing} (hAsked : asked.Truncates (utf8 promptText))
    (fault : Fault) (run : Option Run) (wholeFault : Option Fault) :
    Turn.Truncates ⟨asked.taken, none, some fault⟩ ⟨utf8 promptText, run, wholeFault⟩ :=
  ⟨hAsked.taken, List.nil_prefix, List.nil_prefix, fun hNone => (Option.some_ne_none _ hNone).elim⟩

/-- A turn in which a line was run, on a prompt that was written in full. -/
theorem Turn.truncates_of_run (log : Log) (output : Stream) (text : String) (fault : Option Fault)
    (hFault : fault = none → (Run.ofText log output text).fault? = none) :
    Turn.Truncates ⟨utf8 promptText, some (Run.ofText log output text), fault⟩
      ⟨utf8 promptText, some (Run.ofText log .endless text), none⟩ where
  prompt := List.prefix_refl _
  output := (Run.ofText_truncates log output text).written
  diagnostics := Run.diagnostics_ofText_prefix log output text
  complete := fun hNone => ⟨rfl, Run.ofText_complete (hFault hNone)⟩

/-! ## Steps -/

/-- A step does a front part of what another one does. Unless it failed nothing is missing, and one
goes on if the other does. -/
structure Step.Truncates (cut whole : Step) : Prop where
  turn : cut.turn.Truncates whole.turn
  ended : cut.turn.fault ≠ none → cut.next = none
  log : cut.turn.fault = none → cut.log = whole.log
  next : cut.turn.fault = none → whole.next = cut.next.map fun _ => (.endless, .endless)

/-- A dialogue begins with the turn of its first step. -/
theorem Step.exists_andThen (step : Step) (rest : Log → Stream → Stream → Dialogue) :
    ∃ later log, step.andThen rest = ⟨step.turn :: later, log⟩ := by
  rw [andThen]
  cases step.next <;> exact ⟨_, _, rfl⟩

/-- If the steps behind a step only do a front part too, so does the dialogue. -/
theorem Step.Truncates.andThen {cut whole : Step} (h : cut.Truncates whole)
    {rest : Log → Stream → Stream → Dialogue}
    (hRest : ∀ log output prompt, (rest log output prompt).Truncates (rest log .endless .endless)) :
    (cut.andThen rest).Truncates (whole.andThen rest) := by
  cases hFault : cut.turn.fault with
  | some fault =>
      obtain ⟨later, log, hWhole⟩ := whole.exists_andThen rest
      rw [hWhole, Step.andThen, h.ended (hFault ▸ Option.some_ne_none fault)]
      exact Dialogue.truncates_of_fault h.turn hFault _ _ _
  | none =>
      rw [Step.andThen, Step.andThen, h.next hFault, ← h.log hFault]
      cases cut.next with
      | none => exact Dialogue.Truncates.cons h.turn hFault (.refl ⟨[], cut.log⟩)
      | some streams => exact Dialogue.Truncates.cons h.turn hFault (hRest cut.log _ _)

/-- At the end of the input a turn ends the prompt. -/
theorem takeTurn_end_truncates (log : Log) (output prompt : Stream) :
    (takeTurn log output prompt none).Truncates (takeTurn log .endless .endless none) := by
  have hAsked := (askForLine_truncates prompt).andThen fun prompt =>
    prompt.write_truncates (utf8 farewellText)
  rw [takeTurn_endless_end]
  exact
    { turn := ⟨hAsked.taken, List.prefix_refl _, List.prefix_refl _,
        fun hNone => ⟨hAsked.complete hNone, rfl, rfl⟩⟩
      ended := fun _ => rfl
      log := fun _ => rfl
      next := fun _ => rfl }

/-- Where the prompt never fails, a turn with a line begins with asking for it. -/
theorem exists_turn_endless (log : Log) (line : List UInt8) :
    ∃ run fault,
      (takeTurn log .endless .endless (some line)).turn = ⟨utf8 promptText, run, fault⟩ := by
  cases hText : lineText? line with
  | none => exact ⟨_, _, congrArg Step.turn (takeTurn_endless_invalid log hText)⟩
  | some text => exact ⟨_, _, congrArg Step.turn (takeTurn_endless_valid log hText)⟩

/-- **A turn on streams that fail does a front part of what it does on streams that never fail.** -/
theorem takeTurn_truncates (log : Log) (output prompt : Stream) (line? : Option (List UInt8)) :
    (takeTurn log output prompt line?).Truncates (takeTurn log .endless .endless line?) := by
  have hAsked := askForLine_truncates prompt
  -- The cases are the end of the input, a failure of the prompt, an invalid line, a line at which
  -- the run or the flush fails, and a line after which the dialogue goes on.
  fun_cases takeTurn log output prompt line? with
  | case1 => exact takeTurn_end_truncates log output prompt
  | case2 line asked fault hFault =>
      obtain ⟨run, wholeFault, hWhole⟩ := exists_turn_endless log line
      have hTurn := Turn.truncates_of_asked hAsked fault run wholeFault
      exact ⟨hWhole ▸ hTurn, fun _ => rfl, nofun, nofun⟩
  | case3 line asked hText hNone =>
      rw [takeTurn_endless_invalid log hText]
      exact ⟨Turn.truncates_of_asked hAsked invalidLine none (some invalidLine), fun _ => rfl,
        nofun, nofun⟩
  | case4 line asked text hText hNone run after flushed fault hFault =>
      have hPrompt : asked.taken = utf8 promptText := hAsked.complete hNone
      have hTurn := Turn.truncates_of_run log output text (some fault) nofun
      rw [takeTurn_endless_valid log hText, hPrompt]
      exact ⟨hTurn, fun _ => rfl, nofun, nofun⟩
  | case5 line asked text hText hNone run after flushed hFault =>
      have hPrompt : asked.taken = utf8 promptText := hAsked.complete hNone
      have hRun : run.fault? = none := (Option.or_eq_none_iff.1 hFault).1
      have hReports := (Run.ofText_complete hRun).2
      have hTurn := Turn.truncates_of_run log output text none fun _ => hRun
      rw [takeTurn_endless_valid log hText, hPrompt, ← hReports]
      exact ⟨hTurn, fun hSome => absurd rfl hSome, fun _ => rfl, fun _ => rfl⟩

/-- **A dialogue on streams that fail does a front part of what it does on streams that never
fail.** -/
theorem converse_truncates (log : Log) (output prompt : Stream) (lines : List (List UInt8)) :
    (converse log output prompt lines).Truncates (converse log .endless .endless lines) := by
  induction lines generalizing log output prompt with
  | nil => exact (takeTurn_truncates log output prompt none).andThen fun log _ _ => .refl ⟨[], log⟩
  | cons line lines ih => exact (takeTurn_truncates log output prompt (some line)).andThen ih

/-! ## The log after turns -/

/-- What each turn does to a log, and no turn as well, a dialogue does with all of its turns. -/
theorem converse_of_takeTurn {Leads : Log → List Turn → Log → Prop}
    (hNil : ∀ log, Leads log [] log)
    (hCons : ∀ log output prompt line? later last,
      Leads (takeTurn log output prompt line?).log later last →
      Leads log ((takeTurn log output prompt line?).turn :: later) last)
    (log : Log) (output prompt : Stream) (lines : List (List UInt8)) :
    Leads log (converse log output prompt lines).turns (converse log output prompt lines).log := by
  have hStep : ∀ log output prompt line? (rest : Log → Stream → Stream → Dialogue),
      (∀ log output prompt, Leads log (rest log output prompt).turns (rest log output prompt).log) →
      Leads log ((takeTurn log output prompt line?).andThen rest).turns
        ((takeTurn log output prompt line?).andThen rest).log := by
    intro log output prompt line? rest hRest
    rw [Step.andThen]
    cases (takeTurn log output prompt line?).next with
    | none => exact hCons log output prompt line? [] _ (hNil _)
    | some streams => exact hCons log output prompt line? _ _ (hRest _ _ _)
  induction lines generalizing log output prompt with
  | nil => exact hStep log output prompt none _ fun log _ _ => hNil log
  | cons line lines ih => exact hStep log output prompt (some line) _ ih

theorem reported_takeTurn (log : Log) (output prompt : Stream) (line? : Option (List UInt8)) :
    (takeTurn log output prompt line?).log.reported =
      log.reported ++ (takeTurn log output prompt line?).turn.diagnostics := by
  fun_cases takeTurn log output prompt line? with
  | case1 => exact (List.append_nil _).symm
  | case2 => exact (List.append_nil _).symm
  | case3 => exact (List.append_nil _).symm
  | case4 => rfl
  | case5 => rfl

/-- Whatever the streams do, a dialogue adds its diagnostics to those of the log. -/
theorem reported_converse (log : Log) (output prompt : Stream) (lines : List (List UInt8)) :
    (converse log output prompt lines).log.reported =
      log.reported ++ (converse log output prompt lines).diagnostics := by
  refine @converse_of_takeTurn
    (fun log turns last => last.reported = log.reported ++ turns.flatMap Turn.diagnostics)
    ?_ ?_ log output prompt lines
  · exact fun log => (List.append_nil _).symm
  · intro log output prompt line? later last hLater
    rw [hLater, reported_takeTurn, List.flatMap_cons, List.append_assoc]

/-- **Failing streams only cut a dialogue short.** After whatever a log holds and over any input,
what a dialogue on any two streams writes to them and what it reports is a front part of what it
does on streams that never fail. If it does not fail then nothing is missing, and the log goes on as
if no stream could fail. -/
theorem perform_dialogue_truncates (log : Log) (output prompt : Stream) (input : List UInt8) :
    let cut := log.perform (.dialogue output prompt input)
    let whole := log.perform (.dialogue .endless .endless input)
    cut.output <+: whole.output ∧ cut.prompt <+: whole.prompt ∧
      cut.diagnostics <+: whole.diagnostics ∧ cut.log.reported <+: whole.log.reported ∧
      (cut.fault = none → cut.output = whole.output ∧ cut.prompt = whole.prompt ∧
        cut.diagnostics = whole.diagnostics ∧ cut.log = whole.log) := by
  have hCut := converse_truncates log output prompt (inputLines input)
  refine ⟨hCut.output, hCut.prompt, hCut.diagnostics, ?_, fun hNone => ?_⟩
  · simp only [Log.perform, reported_converse, List.prefix_append_right_inj]
    exact hCut.diagnostics
  · obtain ⟨hPrompt, hOutput, hDiagnostics, hLog⟩ := hCut.complete hNone
    exact ⟨hOutput, hPrompt, hDiagnostics, hLog⟩

-- With room for one byte the first line fails, and the error of the second is never found.
example :
    let full : Stream := ⟨some ⟨1, ⟨.storageFull, "full"⟩⟩, none⟩
    let effect := Log.empty.perform (.dialogue full .endless (utf8 "print true;\n1 +\n"))
    effect.output = utf8 "t" ∧ effect.prompt = utf8 "> " ∧ effect.diagnostics = [] := by
  decide +kernel

end ExprLang
