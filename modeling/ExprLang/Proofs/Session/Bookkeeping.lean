import ExprLang.Proofs.Session.Truncation

/-!
# What a log remembers of a session

For its log a session is a sequence of events: diagnostics are recorded, and lines of a dialogue are
done. The log after the calls of a session is the empty log after these events, so that its flags
can be read off the events: a runtime error is never forgotten, a static error is forgotten when a
line is done. A line is done when both its run and the flush of the output after it succeeded; a
failure on the way leaves the errors of the line pending. A pending static error, also one of an
earlier call, keeps a script from being executed. Input that cannot be read on ends a dialogue as an
invalid line does, before anything of the line is recorded.

## Main results

* `after_eq_replay` — the log after calls is the log after their events.
* `hasStaticError_replay_iff` — when a static error is pending.
* `session_bookkeeping` — the log of a session, and what a script does after it.
-/

namespace ExprLang

/-! ## Events -/

/-- What happens in a session, as far as its log is concerned. -/
inductive Event where
  /-- A diagnostic is recorded. -/
  | record (diagnostic : Diagnostic)
  /-- A line of a dialogue was run, and the output was flushed after it, both without a failure. -/
  | lineDone
deriving DecidableEq

namespace Event

/-- The diagnostic that an event records. -/
def diagnostic? : Event → Option Diagnostic
  | record diagnostic => some diagnostic
  | lineDone => none

/-- A static error was recorded, and no line was done since. -/
def StaticPending (events : List Event) : Prop :=
  ∃ before diagnostic after, events = before ++ record diagnostic :: after ∧
    diagnostic.isStatic = true ∧ lineDone ∉ after

end Event

/-- A line was run in a turn, and neither the run nor the flush of the output after it failed. -/
def Turn.isDone (turn : Turn) : Bool :=
  turn.run.any fun run => run.fault?.isNone && run.execution.stream.flush.fault.isNone

theorem Turn.isDone_of_run (prompt : List UInt8) (run : Run) (fault : Option Fault) :
    Turn.isDone ⟨prompt, some run, fault⟩ =
      (run.fault?.or run.execution.stream.flush.fault).isNone := by
  rw [isDone, Option.any_some]
  cases run.fault? <;> rfl

/-- The events of a turn. -/
def Turn.events (turn : Turn) : List Event :=
  turn.diagnostics.map .record ++ if turn.isDone then [.lineDone] else []

/-- The events of a call after what a log already holds. -/
def Call.events (log : Log) : Call → List Event
  | script output source => (Run.ofText log output source).diagnostics.map .record
  | dialogue output prompt input =>
    (converse log output prompt (inputLines input)).turns.flatMap Turn.events

namespace Log

/-- The log after calls one after the other. -/
def after (log : Log) (calls : List Call) : Log :=
  calls.foldl (fun log call => (log.perform call).log) log

/-- The events of calls one after the other. -/
def history (log : Log) : List Call → List Event
  | [] => []
  | call :: calls => call.events log ++ (log.perform call).log.history calls

/-- The log after an event. -/
def note (log : Log) : Event → Log
  | .record diagnostic => log.report diagnostic
  | .lineDone => log.forgetStaticErrors

/-- The log after events. -/
def replay (log : Log) (events : List Event) : Log := events.foldl note log

theorem replay_append (log : Log) (events others : List Event) :
    log.replay (events ++ others) = (log.replay events).replay others :=
  List.foldl_append

/-- A call after others is performed on the log that they leave. -/
theorem performAll_concat (log : Log) (calls : List Call) (call : Call) :
    log.performAll (calls ++ [call]) =
      log.performAll calls ++ [(log.after calls).perform call] := by
  induction calls generalizing log with
  | nil => rfl
  | cons first calls ih => exact congrArg _ (ih _)

theorem after_concat (log : Log) (calls : List Call) (call : Call) :
    log.after (calls ++ [call]) = ((log.after calls).perform call).log := by
  rw [after, List.foldl_concat]
  rfl

/-! ## The log after events -/

theorem reportAll_eq_replay (log : Log) (diagnostics : List Diagnostic) :
    log.reportAll diagnostics = log.replay (diagnostics.map .record) := by
  induction diagnostics generalizing log with
  | nil => simp [reportAll, replay]
  | cons diagnostic diagnostics ih =>
      rw [List.map_cons, replay, List.foldl_cons]
      show _ = (log.report diagnostic).replay _
      rw [← ih]
      simp [report, reportAll, Bool.or_assoc]

theorem replay_events_turn (log : Log) (turn : Turn) :
    log.replay turn.events =
      if turn.isDone then (log.reportAll turn.diagnostics).forgetStaticErrors
      else log.reportAll turn.diagnostics := by
  rw [Turn.events, replay_append, ← reportAll_eq_replay]
  split <;> rfl

theorem takeTurn_eq_replay (log : Log) (output prompt : Stream) (line? : Option (List UInt8)) :
    (takeTurn log output prompt line?).log =
      log.replay (takeTurn log output prompt line?).turn.events := by
  fun_cases takeTurn log output prompt line? with
  | case1 => rfl
  | case2 => rfl
  | case3 => rfl
  | case4 line asked text hText hNone run after flushed fault hFault =>
      rw [replay_events_turn, Turn.isDone_of_run, hFault]
      rfl
  | case5 line asked text hText hNone run after flushed hFault =>
      rw [replay_events_turn, Turn.isDone_of_run, hFault]
      rfl

theorem converse_eq_replay (log : Log) (output prompt : Stream) (lines : List (List UInt8)) :
    (converse log output prompt lines).log =
      log.replay ((converse log output prompt lines).turns.flatMap Turn.events) := by
  refine @converse_of_takeTurn
    (fun log turns last => last = log.replay (turns.flatMap Turn.events))
    ?_ ?_ log output prompt lines
  · exact fun log => rfl
  · intro log output prompt line? later last hLater
    rw [hLater, takeTurn_eq_replay, List.flatMap_cons, replay_append]

theorem perform_eq_replay (log : Log) (call : Call) :
    (log.perform call).log = log.replay (call.events log) := by
  cases call with
  | script output source => exact log.reportAll_eq_replay _
  | dialogue output prompt input => exact log.converse_eq_replay output prompt _

/-- **The log after calls is the log after their events.** -/
theorem after_eq_replay (log : Log) (calls : List Call) :
    log.after calls = log.replay (log.history calls) := by
  induction calls generalizing log with
  | nil => rfl
  | cons call calls ih =>
      rw [history, replay_append, ← perform_eq_replay, ← ih]
      rfl

theorem reported_replay (log : Log) (events : List Event) :
    (log.replay events).reported = log.reported ++ events.filterMap Event.diagnostic? := by
  induction events generalizing log with
  | nil => exact (List.append_nil _).symm
  | cons event events ih =>
      refine (ih (log.note event)).trans ?_
      cases event with
      | record diagnostic => simp [note, report, reportAll, Event.diagnostic?]
      | lineDone => rfl

theorem any_isRuntime_iff {diagnostics : List Diagnostic} :
    diagnostics.any Diagnostic.isRuntime = true ↔
      ∃ line message, Diagnostic.runtime line message ∈ diagnostics := by
  rw [List.any_eq_true]
  constructor
  · rintro ⟨diagnostic, hMem, hRuntime⟩
    cases diagnostic with
    | static => cases hRuntime
    | runtime line message => exact ⟨line, message, hMem⟩
  · rintro ⟨line, message, hMem⟩
    exact ⟨_, hMem, rfl⟩

/-- Events keep it so that a runtime error is remembered if and only if one was recorded. -/
theorem hasRuntimeError_replay (log : Log)
    (hLog : log.hasRuntimeError = log.reported.any Diagnostic.isRuntime) (events : List Event) :
    (log.replay events).hasRuntimeError =
      (log.replay events).reported.any Diagnostic.isRuntime := by
  induction events generalizing log with
  | nil => exact hLog
  | cons event events ih =>
      refine ih (log.note event) ?_
      cases event with
      | record diagnostic => simp [note, report, reportAll, hLog]
      | lineDone => exact hLog

end Log

namespace Event

theorem not_staticPending_nil : ¬ StaticPending [] := by
  rintro ⟨before, diagnostic, after, hEvents, -⟩
  exact absurd hEvents (by simp)

theorem staticPending_cons_iff (event : Event) (events : List Event) :
    StaticPending (event :: events) ↔
      (∃ diagnostic, event = record diagnostic ∧ diagnostic.isStatic = true ∧ lineDone ∉ events) ∨
        StaticPending events := by
  constructor
  · rintro ⟨before, diagnostic, after, hEvents, hStatic, hAfter⟩
    cases before with
    | nil =>
        cases hEvents
        exact .inl ⟨diagnostic, rfl, hStatic, hAfter⟩
    | cons first before =>
        cases hEvents
        exact .inr ⟨before, diagnostic, after, rfl, hStatic, hAfter⟩
  · rintro (⟨diagnostic, rfl, hStatic, hAfter⟩ | ⟨before, diagnostic, after, rfl, hPending⟩)
    · exact ⟨[], diagnostic, events, rfl, hStatic, hAfter⟩
    · exact ⟨event :: before, diagnostic, after, rfl, hPending⟩

end Event

namespace Log

/-- **A static error is pending** if one was recorded since the last line that was done, or if one
was pending before and no line was done. -/
theorem hasStaticError_replay_iff (log : Log) (events : List Event) :
    (log.replay events).hasStaticError = true ↔
      (log.hasStaticError = true ∧ .lineDone ∉ events) ∨ Event.StaticPending events := by
  induction events generalizing log with
  | nil => simp [replay, Event.not_staticPending_nil]
  | cons event events ih =>
      rw [Event.staticPending_cons_iff]
      refine (ih (log.note event)).trans ?_
      cases event with
      | record diagnostic =>
          simp [note, report, reportAll]
          tauto
      | lineDone => simp [note, forgetStaticErrors]

end Log

/-! ## Calls after a session -/

theorem Log.reported_perform (log : Log) (call : Call) :
    (log.perform call).log.reported = log.reported ++ (log.perform call).diagnostics := by
  cases call with
  | script output source => rfl
  | dialogue output prompt input => exact reported_converse log output prompt _

namespace Run

variable {log : Log} {output : Stream} {source : String}

/-- A run that is not blocked, on an output that does not fail, is the run of the text by itself. -/
theorem ofText_of_free (hFault : (Run.ofText log output source).fault? = none)
    (hLog : log.hasStaticError = false) :
    (Run.ofText log output source).output = (fresh source).output ∧
      (Run.ofText log output source).diagnostics =
        staticReports source ++ (fresh source).runtimeDiagnostics := by
  obtain ⟨hOutput, hDiagnostics⟩ := ofText_complete hFault
  rw [ofText_eq_fresh hLog] at hOutput hDiagnostics
  exact ⟨hOutput, hDiagnostics⟩

/-- A blocked run writes nothing, and reports the static errors of the text and nothing else. -/
theorem effect_of_blocked (h : log.hasStaticError = true ∨ ¬ Clean source) :
    (Run.ofText log output source).output = [] ∧
      (Run.ofText log output source).diagnostics = staticReports source := by
  rw [ofText_of_blocked h]
  exact ⟨rfl, List.append_nil _⟩

end Run

/-! ## The whole of a session -/

/-- **What a log remembers of a session.** After any calls, on any streams, the log holds the
diagnostics that were recorded, in their order; each call only adds its own. A runtime error is
remembered if one was ever recorded, a static error is pending if one was recorded since the last
line that was done, and both decide the exit code. A script adds the static errors of its source
first. If its output does not fail then it does what the source does by itself and reports its
runtime error, provided that no static error was pending and the source has none; otherwise it
writes nothing and reports no runtime error. -/
theorem session_bookkeeping (calls : List Call) :
    let log := Log.empty.after calls
    let history := Log.empty.history calls
    log.reported = history.filterMap Event.diagnostic? ∧
    (∀ call, Log.empty.performAll (calls ++ [call]) =
        Log.empty.performAll calls ++ [log.perform call] ∧
      (log.perform call).log = Log.empty.after (calls ++ [call]) ∧
      (log.perform call).log.reported = log.reported ++ (log.perform call).diagnostics) ∧
    (log.hasRuntimeError = true ↔ ∃ line message, .runtime line message ∈ log.reported) ∧
    (log.hasStaticError = true ↔ Event.StaticPending history) ∧
    log.exitCode = (if log.hasStaticError then 65 else if log.hasRuntimeError then 70 else 0) ∧
    (∀ output source,
      let effect := log.perform (.script output source)
      Run.staticReports source <+: effect.diagnostics ∧
      (output.room = none → effect.fault = none) ∧
      (effect.fault = none → log.hasStaticError = false → Run.Clean source →
        effect.output = (Run.fresh source).output ∧
        effect.diagnostics =
          Run.staticReports source ++ (Run.fresh source).runtimeDiagnostics) ∧
      (log.hasStaticError = true ∨ ¬ Run.Clean source →
        effect.output = [] ∧ effect.diagnostics = Run.staticReports source)) := by
  intro log history
  have hReplay : log = Log.empty.replay history := Log.after_eq_replay _ calls
  have hReported := Log.reported_replay .empty history
  have hRuntime := Log.hasRuntimeError_replay .empty rfl history
  have hStatic := Log.hasStaticError_replay_iff .empty history
  rw [← hReplay] at hReported hRuntime hStatic
  refine ⟨hReported, fun call => ?_, ?_, ?_, rfl, fun output source => ?_⟩
  · exact ⟨Log.performAll_concat _ calls call, (Log.after_concat _ calls call).symm,
      log.reported_perform call⟩
  · rw [hRuntime, Log.any_isRuntime_iff]
  · rw [hStatic]
    exact or_iff_right fun h => Bool.false_ne_true h.1
  · have hWorks : output.room = none → (Run.ofText log output source).fault? = none := fun hRoom =>
      (Run.ofText_of_room hRoom log source).2
    exact ⟨List.prefix_append _ _, hWorks, fun hFault hLog _ => Run.ofText_of_free hFault hLog,
      Run.effect_of_blocked⟩

-- The output cannot be flushed, so the error of the line stays pending and blocks the script.
example :
    let full : Stream := ⟨none, some ⟨0, ⟨.storageFull, "full"⟩⟩⟩
    let calls : List Call :=
      [.dialogue full .endless (utf8 "1 +\n"), .script .endless "print true;"]
    (Log.empty.performAll calls).map Effect.output = [[], []] ∧
      (Log.empty.after calls).exitCode = 65 := by decide +kernel

end ExprLang
