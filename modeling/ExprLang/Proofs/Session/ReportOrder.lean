import ExprLang.Proofs.Session.Fresh
import Mathlib.Logic.Basic

/-!
# The reports of a source text by itself

A run either reports static errors and executes nothing, or executes the text and reports at most
one runtime error. The static errors come in the order of the source, first those of the scan and
then those of the reading of statements, and every report names a line of the text.

Nothing of this is decided by the run itself. Lines of lexical errors never go back because pieces
follow one another; lines of syntax errors do not because errors name tokens in the order of the
source; and only the last token is an end mark, so only the last error can stand at the end.

## Main results

* `Run.pairwise_syntax_errors` — the tokens of syntax errors, their lines and their kinds.
* `Run.fresh_rejected_xor_accepted` — the two sorts of runs exclude each other.
* `Run.fresh_reports_in_order` — all of the above.
-/

namespace ExprLang

namespace Diagnostic

theorem isRuntime_eq_not_isStatic (diagnostic : Diagnostic) :
    diagnostic.isRuntime = !diagnostic.isStatic := by
  cases diagnostic <;> rfl

/-- The place on its line that a static error names; a runtime error names none. -/
def location? : Diagnostic → Option String
  | static _ location _ => some location
  | runtime _ _ => none

/-- A diagnostic names the end of the source text as its place. -/
def AtEnd (diagnostic : Diagnostic) : Prop := diagnostic.location? = some " at end"

theorem not_atEnd_ofScanError (error : ScanError) : ¬ (ofScanError error).AtEnd := by
  intro h
  exact absurd (Option.some.inj h) (by decide)

/-- A syntax error names the end only if its token is the end mark: the texts of all other tokens
are quoted. -/
theorem not_atEnd_ofParseError {error : ParseError} (hKind : error.token.kind ≠ .eof) :
    ¬ (ofParseError error).AtEnd := by
  intro h
  have hLocation : error.location = " at end" := Option.some.inj h
  rw [ParseError.location, if_neg hKind] at hLocation
  have hChars := congrArg (fun text : String => text.toList[4]?) hLocation
  simp at hChars

/-- The lines of diagnostics never go back. -/
def LinesInOrder (diagnostics : List Diagnostic) : Prop :=
  diagnostics.Pairwise fun one other => one.line ≤ other.line

end Diagnostic

namespace Run

/-- A run that reported static errors, reported no runtime error and wrote nothing. -/
def Rejected (run : Run) : Prop :=
  run.diagnostics.any Diagnostic.isStatic = true ∧
    run.diagnostics.any Diagnostic.isRuntime = false ∧ run.output = []

/-- A run that reported no static error and at most one runtime error. -/
def Accepted (run : Run) : Prop :=
  run.diagnostics.any Diagnostic.isStatic = false ∧
    (run.diagnostics.filter Diagnostic.isRuntime).length ≤ 1

/-! ## Static errors or execution -/

theorem filter_isStatic_diagnostics (run : Run) :
    run.diagnostics.filter Diagnostic.isStatic = staticDiagnostics run.scan run.program := by
  have hStatic : (staticDiagnostics run.scan run.program).filter Diagnostic.isStatic =
      staticDiagnostics run.scan run.program :=
    List.filter_eq_self.2 fun _ hMem => isStatic_of_mem_staticDiagnostics hMem
  have hRuntime : run.runtimeDiagnostics.filter Diagnostic.isStatic = [] := by
    rw [runtimeDiagnostics]
    cases run.execution.runtimeError? <;> rfl
  rw [diagnostics, List.filter_append, hStatic, hRuntime, List.append_nil]

theorem length_runtimeDiagnostics_le (run : Run) : run.runtimeDiagnostics.length ≤ 1 := by
  rw [runtimeDiagnostics]
  cases run.execution.runtimeError? <;> simp

theorem accepted_of_clean {source : String} (h : Clean source) : (fresh source).Accepted := by
  refine ⟨clean_iff.1 h, ?_⟩
  rw [diagnostics_fresh_of_clean h]
  exact (List.length_filter_le _ _).trans (length_runtimeDiagnostics_le _)

theorem rejected_of_not_clean {source : String} (h : ¬ Clean source) :
    (fresh source).Rejected := by
  have hOutput : (fresh source).output = [] := by
    rw [fresh_of_not_clean h]
    rfl
  refine ⟨?_, ?_, hOutput⟩
  · rw [diagnostics_fresh_of_not_clean h]
    exact any_isStatic_of_not_clean h
  · rw [diagnostics_fresh_of_not_clean h, List.any_eq_false]
    intro report hReport
    rw [report.isRuntime_eq_not_isStatic, isStatic_of_mem_staticDiagnostics hReport]
    exact Bool.false_ne_true

/-- **Static and runtime errors never mix.** A run either reports static errors and executes
nothing, or reports none and at most one runtime error. -/
theorem fresh_rejected_xor_accepted (source : String) :
    Xor (fresh source).Rejected (fresh source).Accepted := by
  by_cases hClean : Clean source
  · refine .inr ⟨accepted_of_clean hClean, fun hRejected => ?_⟩
    exact Bool.false_ne_true ((clean_iff.1 hClean).symm.trans hRejected.1)
  · refine .inl ⟨rejected_of_not_clean hClean, fun hAccepted => ?_⟩
    exact hClean (clean_iff.2 hAccepted.1)

/-! ## The order of the reports -/

/-- **Syntax errors name tokens in the order of the source**: their lines never go back, and none
but the last stands at the end mark. -/
theorem pairwise_syntax_errors (source : String) :
    (Program.ofTokens (Scan.ofSource source).tokens).errors.Pairwise fun one other =>
      one.line ≤ other.line ∧ one.token.kind ≠ .eof := by
  have hNamed := Program.map_token_errors_sublist (Scan.endMarked_tokens source)
  exact List.pairwise_map.1 ((Scan.pairwise_tokens source).sublist hNamed)

theorem linesInOrder_scanReports (source : String) :
    Diagnostic.LinesInOrder (scanReports source) :=
  List.pairwise_map.2 (Scan.pairwise_errors source)

theorem linesInOrder_syntaxReports (source : String) :
    Diagnostic.LinesInOrder (syntaxReports source) :=
  List.pairwise_map.2 ((pairwise_syntax_errors source).imp And.left)

/-- Only the last report can stand at the end of the source text. -/
theorem pairwise_not_atEnd (source : String) :
    (fresh source).diagnostics.Pairwise fun one _ => ¬ one.AtEnd := by
  have hScan : ∀ report ∈ scanReports source, ¬ report.AtEnd := by
    intro report hReport
    obtain ⟨error, _, rfl⟩ := List.mem_map.1 hReport
    exact Diagnostic.not_atEnd_ofScanError error
  have hSyntax : (syntaxReports source).Pairwise fun one _ => ¬ one.AtEnd :=
    List.pairwise_map.2 ((pairwise_syntax_errors source).imp fun hOrder =>
      Diagnostic.not_atEnd_ofParseError hOrder.2)
  by_cases hClean : Clean source
  · rw [diagnostics_fresh_of_clean hClean]
    cases (fresh source).execution.runtimeError? with
    | none => exact List.Pairwise.nil
    | some error => exact List.pairwise_singleton _ _
  · rw [diagnostics_fresh_of_not_clean hClean, staticReports, List.pairwise_append]
    exact ⟨List.pairwise_of_forall_mem_list fun one hOne _ _ => hScan one hOne, hSyntax,
      fun one hOne _ _ => hScan one hOne⟩

/-- A runtime error is reported on the line of an operator of the source text. -/
theorem exists_operator_of_isRuntime {source : String} {report : Diagnostic}
    (h : report ∈ (fresh source).diagnostics) (hRuntime : report.isRuntime = true) :
    ∃ operator ∈ (Scan.ofSource source).tokens,
      operator.isOperator = true ∧ report.line = operator.line := by
  rcases List.mem_append.1 h with hStatic | hReport
  · rw [report.isRuntime_eq_not_isStatic, isStatic_of_mem_staticDiagnostics hStatic] at hRuntime
    cases hRuntime
  · obtain ⟨error, hError, rfl⟩ := Option.map_eq_some_iff.1 (Option.mem_toList.1 hReport)
    obtain ⟨hToken, hOperator⟩ := List.mem_filter.1 (operator_mem_of_runtimeError? hError)
    exact ⟨error.operator, hToken, hOperator, rfl⟩

/-- **The reports of a source text by itself**, when nothing was reported before it and its output
never fails. Static and runtime errors never mix. The static errors are all lexical errors and then
all syntax errors, the lines of neither go back, and every report names a line of the text. No
report but the last stands at the end of the text, and a runtime error is reported on the line of an
operator. -/
theorem fresh_reports_in_order (source : String) :
    Xor (fresh source).Rejected (fresh source).Accepted ∧
      (fresh source).diagnostics.filter Diagnostic.isStatic =
        scanReports source ++ syntaxReports source ∧
      Diagnostic.LinesInOrder (scanReports source) ∧
      Diagnostic.LinesInOrder (syntaxReports source) ∧
      (∀ report ∈ (fresh source).diagnostics,
        1 ≤ report.line ∧ report.line ≤ 1 + lineFeeds source.toList) ∧
      (fresh source).diagnostics.Pairwise (fun one _ => ¬ one.AtEnd) ∧
      ∀ report ∈ (fresh source).diagnostics, report.isRuntime = true →
        ∃ operator ∈ (Scan.ofSource source).tokens,
          operator.isOperator = true ∧ report.line = operator.line := by
  refine ⟨fresh_rejected_xor_accepted source, filter_isStatic_diagnostics _,
    linesInOrder_scanReports source, linesInOrder_syntaxReports source, ?_,
    pairwise_not_atEnd source, ?_⟩
  · intro report hReport
    exact line_of_mem_diagnostics hReport
  · intro report hReport hRuntime
    exact exists_operator_of_isRuntime hReport hRuntime

-- An error of the scan, one at a token and one at the end of the text.
example : (fresh "@ true +;\n!(true").diagnostics =
    [.static 1 "" "Unexpected character.", .static 1 " at ';'" "Expect expression.",
      .static 2 " at end" "Expect ')' after expression."] := by decide +kernel

end Run

end ExprLang
