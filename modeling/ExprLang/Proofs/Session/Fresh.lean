import ExprLang.Proofs.Program.Origin
import ExprLang.Proofs.Source.Lines
import ExprLang.Session.Dialogue

/-!
# A source text by itself

The run of a source text when nothing was reported before it, on an output that never fails. A run
on such an output is the same after any log without a pending static error. Either the text has
static errors and nothing is executed, or it has none and its statements are executed.

## Main results

* `Run.ofText_eq_fresh` — what was reported before does not matter.
* `Run.fresh_of_clean`, `Run.fresh_of_not_clean` — the two sorts of runs.
* `Run.line_of_mem_diagnostics` — every diagnostic names a line of the text.
-/

namespace ExprLang

/-! ## Output without an end -/

theorem Stream.write_of_room {stream : Stream} (h : stream.room = none) (bytes : List UInt8) :
    stream.write bytes = ⟨bytes, stream, none⟩ := by
  rw [write, h]

theorem Statement.execute_of_room {stream : Stream} (h : stream.room = none)
    (statement : Statement) :
    (statement.execute stream).stream = stream ∧ (statement.execute stream).fault? = none := by
  cases statement with
  | expr body =>
      rw [execute]
      split <;> exact ⟨rfl, rfl⟩
  | print body =>
      rw [execute]
      split
      · rw [Stream.write_of_room h]
        exact ⟨rfl, rfl⟩
      · exact ⟨rfl, rfl⟩

theorem interpret_of_room {stream : Stream} (h : stream.room = none)
    (statements : List Statement) :
    (interpret stream statements).stream = stream ∧
      (interpret stream statements).fault? = none := by
  induction statements with
  | nil => exact ⟨rfl, rfl⟩
  | cons statement statements ih =>
      have hFirst := statement.execute_of_room h
      simp only [interpret]
      split
      · exact hFirst
      · rw [hFirst.1]
        exact ih

/-- The run of a source text by itself: nothing was reported before it, and its output never
fails. -/
def Run.fresh (source : String) : Run := Run.ofText .empty .endless source

namespace Run

/-- An output without an end does not fail, and a run leaves it as it is. -/
theorem ofText_of_room {stream : Stream} (h : stream.room = none) (log : Log) (source : String) :
    (Run.ofText log stream source).execution.stream = stream ∧
      (Run.ofText log stream source).fault? = none := by
  simp only [ofText, ofSource, fault?]
  split
  · exact ⟨rfl, rfl⟩
  · exact interpret_of_room h _

theorem ofText_endless (log : Log) (source : String) :
    (Run.ofText log .endless source).execution.stream = .endless ∧
      (Run.ofText log .endless source).fault? = none :=
  ofText_of_room rfl log source

/-- **What was reported before a run does not matter**, if no static error is pending. -/
theorem ofText_eq_fresh {log : Log} (hLog : log.hasStaticError = false) (source : String) :
    Run.ofText log .endless source = fresh source := by
  simp [fresh, ofText, ofSource, Log.reportAll, hLog, Log.empty]

/-! ## Static errors -/

theorem isStatic_of_mem_staticDiagnostics {scan : Scan} {program : Program}
    {diagnostic : Diagnostic} (h : diagnostic ∈ staticDiagnostics scan program) :
    diagnostic.isStatic = true := by
  rw [staticDiagnostics, List.mem_append, List.mem_map, List.mem_map] at h
  rcases h with ⟨error, _, rfl⟩ | ⟨error, _, rfl⟩ <;> rfl

theorem staticDiagnostics_eq_nil_iff {scan : Scan} {program : Program} :
    staticDiagnostics scan program = [] ↔ scan.errors = [] ∧ program.errors = [] := by
  rw [staticDiagnostics, List.append_eq_nil_iff, List.map_eq_nil_iff, List.map_eq_nil_iff]

/-- The reports of the lexical errors of a source text. -/
def scanReports (source : String) : List Diagnostic :=
  (Scan.ofSource source).errors.map .ofScanError

/-- The reports of the syntax errors of a source text. -/
def syntaxReports (source : String) : List Diagnostic :=
  (Program.ofTokens (Scan.ofSource source).tokens).errors.map .ofParseError

/-- The reports of all static errors of a source text. -/
def staticReports (source : String) : List Diagnostic := scanReports source ++ syntaxReports source

/-- The text of a run has no static error. -/
def Clean (source : String) : Prop :=
  (Scan.ofSource source).errors = [] ∧
    (Program.ofTokens (Scan.ofSource source).tokens).errors = []

theorem any_isStatic_of_not_clean {source : String} (h : ¬ Clean source) :
    (staticReports source).any Diagnostic.isStatic = true := by
  obtain ⟨diagnostic, hMem⟩ := List.exists_mem_of_ne_nil _ (mt staticDiagnostics_eq_nil_iff.1 h)
  exact List.any_eq_true.2 ⟨diagnostic, hMem, isStatic_of_mem_staticDiagnostics hMem⟩

/-- A text without static errors is executed if no static error is pending. -/
theorem ofText_of_clean {log : Log} (hLog : log.hasStaticError = false) {source : String}
    (h : Clean source) (stream : Stream) :
    Run.ofText log stream source =
      ⟨Scan.ofSource source, Program.ofTokens (Scan.ofSource source).tokens,
        interpret stream (Program.ofTokens (Scan.ofSource source).tokens).statements⟩ := by
  have hStatic := staticDiagnostics_eq_nil_iff.2 h
  simp [ofText, ofSource, hStatic, Log.reportAll, hLog]

/-- A static error, of the text or pending before, keeps a text from being executed. -/
theorem ofText_of_blocked {log : Log} {source : String}
    (h : log.hasStaticError = true ∨ ¬ Clean source) (stream : Stream) :
    Run.ofText log stream source =
      ⟨Scan.ofSource source, Program.ofTokens (Scan.ofSource source).tokens, .idle stream⟩ := by
  rcases h with hLog | hClean
  · simp [ofText, ofSource, hLog, Log.reportAll]
  · have hStatic : (staticDiagnostics (Scan.ofSource source)
        (Program.ofTokens (Scan.ofSource source).tokens)).any Diagnostic.isStatic = true :=
      any_isStatic_of_not_clean hClean
    simp [ofText, ofSource, hStatic, Log.reportAll]

theorem fresh_of_clean {source : String} (h : Clean source) :
    fresh source = ⟨Scan.ofSource source, Program.ofTokens (Scan.ofSource source).tokens,
      interpret .endless (Program.ofTokens (Scan.ofSource source).tokens).statements⟩ :=
  ofText_of_clean rfl h .endless

theorem fresh_of_not_clean {source : String} (h : ¬ Clean source) :
    fresh source = ⟨Scan.ofSource source, Program.ofTokens (Scan.ofSource source).tokens,
      .idle .endless⟩ :=
  ofText_of_blocked (.inr h) .endless

/-- A run on an output that never fails is ended by a runtime error only. -/
theorem failure_fresh (source : String) :
    (fresh source).execution.failure =
      (fresh source).execution.runtimeError?.map Failure.runtime := by
  have hFault : (fresh source).execution.fault? = none := (ofText_endless .empty source).2
  rw [Execution.fault?] at hFault
  rw [Execution.runtimeError?]
  cases hFailure : (fresh source).execution.failure with
  | none => rfl
  | some failure =>
      cases failure with
      | runtime error => rfl
      | output fault => simp [hFailure] at hFault

/-- A runtime error is raised only where there is no static error. -/
theorem clean_of_runtimeError? {source : String} {error : RuntimeError}
    (h : (fresh source).execution.runtimeError? = some error) : Clean source := by
  by_contra hClean
  rw [fresh_of_not_clean hClean] at h
  cases h

/-- The diagnostics of a text without static errors are its runtime error, if it raises one. -/
theorem diagnostics_fresh_of_clean {source : String} (h : Clean source) :
    (fresh source).diagnostics =
      ((fresh source).execution.runtimeError?.map Diagnostic.ofRuntimeError).toList := by
  rw [diagnostics, fresh_of_clean h, staticDiagnostics_eq_nil_iff.2 h]
  rfl

theorem diagnostics_fresh_of_error {source : String} {error : RuntimeError}
    (h : (fresh source).execution.runtimeError? = some error) :
    (fresh source).diagnostics = [.runtime error.line error.message] := by
  rw [diagnostics_fresh_of_clean (clean_of_runtimeError? h), h]
  rfl

theorem diagnostics_fresh_of_not_clean {source : String} (h : ¬ Clean source) :
    (fresh source).diagnostics = staticReports source := by
  rw [diagnostics, fresh_of_not_clean h]
  exact List.append_nil _

/-- A text has no static error exactly if none is reported. -/
theorem clean_iff {source : String} :
    Clean source ↔ (fresh source).diagnostics.any Diagnostic.isStatic = false := by
  constructor
  · intro hClean
    rw [diagnostics_fresh_of_clean hClean]
    cases (fresh source).execution.runtimeError? <;> rfl
  · intro hNone
    by_contra hClean
    rw [diagnostics_fresh_of_not_clean hClean, any_isStatic_of_not_clean hClean] at hNone
    cases hNone

/-- Where there is no static error only a runtime error is reported. -/
theorem any_isRuntime_fresh {source : String} (h : Clean source) :
    (fresh source).diagnostics.any Diagnostic.isRuntime =
      (fresh source).execution.runtimeError?.isSome := by
  rw [diagnostics_fresh_of_clean h]
  cases (fresh source).execution.runtimeError? <;> rfl

theorem runtimeError?_eq_none {source : String} (h : Clean source)
    (hCalm : (fresh source).diagnostics.any Diagnostic.isRuntime = false) :
    (fresh source).execution.runtimeError? = none := by
  rwa [any_isRuntime_fresh h, Option.isSome_eq_false_iff, Option.isNone_iff_eq_none] at hCalm

theorem exists_runtimeError? {source : String} (h : Clean source)
    (hRuntime : (fresh source).diagnostics.any Diagnostic.isRuntime = true) :
    ∃ error, (fresh source).execution.runtimeError? = some error := by
  rwa [any_isRuntime_fresh h, Option.isSome_iff_exists] at hRuntime

end Run

/-! ## Lines of diagnostics -/

/-- The line that a diagnostic names. -/
def Diagnostic.line : Diagnostic → Nat
  | static line _ _ => line
  | runtime line _ => line

theorem Scan.endMarked_tokens (source : String) : EndMarked (Scan.ofSource source).tokens := by
  intro token hLast
  rw [Scan.ofSource_eq, List.getLast?_concat] at hLast
  cases hLast
  rfl

namespace Run

theorem scan_fresh (source : String) : (fresh source).scan = Scan.ofSource source := rfl

theorem program_fresh (source : String) :
    (fresh source).program = Program.ofTokens (Scan.ofSource source).tokens := rfl

theorem operator_mem_of_runtimeError? {source : String} {error : RuntimeError}
    (h : (fresh source).execution.runtimeError? = some error) :
    error.operator ∈ (Scan.ofSource source).tokens.filter Token.isOperator := by
  have hClean := clean_of_runtimeError? h
  rw [fresh_of_clean hClean] at h
  exact Program.operator_mem_of_interpret hClean.2 h

/-- **Every diagnostic names a line of the text.** -/
theorem line_of_mem_diagnostics {source : String} {diagnostic : Diagnostic}
    (h : diagnostic ∈ (fresh source).diagnostics) :
    1 ≤ diagnostic.line ∧ diagnostic.line ≤ 1 + lineFeeds source.toList := by
  rw [diagnostics, staticDiagnostics, scan_fresh, program_fresh, List.mem_append, List.mem_append,
    List.mem_map, List.mem_map] at h
  rcases h with (⟨error, hError, rfl⟩ | ⟨error, hError, rfl⟩) | hRuntime
  · exact Scan.line_of_mem_errors hError
  · have hMarked := Scan.endMarked_tokens source
    exact Scan.line_of_mem_tokens (Program.token_mem_of_mem_errors hMarked hError)
  · rw [runtimeDiagnostics, Option.mem_toList, Option.map_eq_some_iff] at hRuntime
    obtain ⟨error, hError, rfl⟩ := hRuntime
    have hOperator := operator_mem_of_runtimeError? hError
    exact Scan.line_of_mem_tokens (List.mem_filter.1 hOperator).1

/-- The diagnostics of a text of one line name its line. -/
theorem line_eq_one_of_mem_diagnostics {source : String} (hSource : '\n' ∉ source.toList)
    {diagnostic : Diagnostic} (h : diagnostic ∈ (fresh source).diagnostics) :
    diagnostic.line = 1 := by
  have hLine := line_of_mem_diagnostics h
  rw [lineFeeds, List.count_eq_zero_of_not_mem hSource] at hLine
  omega

end Run

end ExprLang
