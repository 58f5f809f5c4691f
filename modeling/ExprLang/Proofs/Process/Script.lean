import ExprLang.Process.Basic
import ExprLang.Proofs.Program.Sequence
import ExprLang.Proofs.Session.Fresh
import ExprLang.Proofs.Session.TextLines

/-!
# The process of a script

A process that is given a source text, as an argument or in a file, does what the run of the text by
itself does. The listings that are asked for stand on the standard error between the diagnostics and
change nothing else.

A standard output that refuses every byte makes a script fail at the first print statement that is
executed, since a print statement writes at least a line feed. Where none is executed the process is
the one on an output that never fails.

## Main results

* `interpret_refusing` — statements on an output that refuses every byte.
* `Options.ofArguments_switches` — every text can be given, with and without listings.
* `runProcess_script` — what the process of a script does.
-/

namespace ExprLang

/-! ## Executing on an output that refuses every byte -/

/-- A stream that refuses every byte. -/
def Stream.refusing (fault : Fault) : Stream := ⟨some ⟨0, fault⟩, none⟩

theorem Stream.write_refusing (fault : Fault) (text : String) :
    (Stream.refusing fault).write (utf8 (text ++ "\n")) = ⟨[], .refusing fault, some fault⟩ := by
  have hMore : ¬ (utf8 (text ++ "\n")).length ≤ 0 := by simp [utf8]
  simp only [write, refusing, List.take_zero, Nat.zero_sub, hMore, if_false]

/-- Whether a statement is a print statement. -/
def Statement.isPrint : Statement → Bool
  | expr _ => false
  | print _ => true

/-- Whether a print statement stands before the first statement whose expression has no value. -/
def printsBeforeFault (statements : List Statement) : Bool :=
  (statements.takeWhile fun statement => statement.body.evaluate.isOk).any Statement.isPrint

theorem printsBeforeFault_cons (statement : Statement) (statements : List Statement) :
    printsBeforeFault (statement :: statements) =
      (statement.body.evaluate.isOk && (statement.isPrint || printsBeforeFault statements)) := by
  rw [printsBeforeFault, List.takeWhile_cons]
  cases statement.body.evaluate.isOk <;> rfl

theorem Statement.execute_of_error {statement : Statement} {error : RuntimeError}
    (h : statement.body.evaluate = .error error) (stream : Stream) :
    statement.execute stream = ⟨[], stream, some (.runtime error)⟩ := by
  cases statement with
  | expr body => rw [execute, show body.evaluate = .error error from h]
  | print body => rw [execute, show body.evaluate = .error error from h]

/-- **On an output that refuses every byte** the first print statement that is executed fails.
If none is executed, nothing is missing. -/
theorem interpret_refusing (fault : Fault) (statements : List Statement) :
    interpret (.refusing fault) statements =
      ⟨[], .refusing fault, if printsBeforeFault statements then some (.output fault)
        else (interpret .endless statements).failure⟩ := by
  induction statements with
  | nil => rfl
  | cons statement statements ih =>
      rw [interpret_cons, interpret_cons, printsBeforeFault_cons]
      cases hValue : statement.body.evaluate with
      | error error =>
          -- Both executions end here, with the same error.
          rw [statement.execute_of_error hValue, statement.execute_of_error hValue]
          rfl
      | ok value =>
          cases statement with
          | expr body =>
              have hIdle : ∀ stream, (Statement.expr body).execute stream = .idle stream := by
                intro stream
                rw [Statement.execute, show body.evaluate = .ok value from hValue]
              rw [hIdle, hIdle]
              simp only [Execution.andThen, Execution.idle, ih, List.nil_append]
              rfl
          | print body =>
              rw [Statement.execute, show body.evaluate = .ok value from hValue]
              simp only [Stream.write_refusing]
              rfl

/-! ## Options and source texts -/

/-- The options of a process lead it to a source text: the positional argument is the text, or it
names a file that holds the text. -/
inductive Environment.Delivers (environment : Environment) : Options → String → Prop where
  | inline {tokens ast : Bool} {source : String} :
      Delivers environment ⟨false, tokens, ast, some source⟩ source
  | file {tokens ast : Bool} {path source : String} :
      environment.readFile path = some (utf8 source) →
      Delivers environment ⟨true, tokens, ast, some path⟩ source

/-- **Every text can be the positional argument**, behind the switches and two dashes. -/
theorem Options.ofArguments_switches (file tokens ast : Bool) (contents : String) :
    Options.ofArguments
        ((if file then ["--file"] else []) ++ (if tokens then ["--tokens"] else []) ++
          (if ast then ["--ast"] else []) ++ ["--", contents]) =
      .ok ⟨file, tokens, ast, some contents⟩ := by
  cases file <;> cases tokens <;> cases ast <;> rfl

namespace Environment.Delivers

variable {environment : Environment} {options : Options} {source : String}

/-- The listings that are asked for do not decide which text is run. -/
theorem withListings (h : environment.Delivers options source) (tokens ast : Bool) :
    environment.Delivers { options with tokens := tokens, ast := ast } source := by
  cases h with
  | inline => exact .inline
  | file hFile => exact .file hFile

theorem runOptions_eq (h : environment.Delivers options source) :
    runOptions environment options = runScript options environment.output source := by
  cases h with
  | inline => rfl
  | @file tokens ast path _ hFile =>
      have hText : (environment.readFile path >>= decodeUtf8?) = some source := by
        rw [hFile]
        exact decodeUtf8?_eq_some_iff.2 rfl
      simp only [runOptions, if_true, hText]

end Environment.Delivers

/-! ## Runs of a source text -/

namespace Run

theorem runtimeDiagnostics_eq_filter (run : Run) :
    run.runtimeDiagnostics = run.diagnostics.filter Diagnostic.isRuntime := by
  have hStatic : (staticDiagnostics run.scan run.program).filter Diagnostic.isRuntime = [] := by
    refine List.filter_eq_nil_iff.2 fun diagnostic hMem hRuntime => ?_
    have hNot := isStatic_of_mem_staticDiagnostics hMem
    cases diagnostic with
    | static => cases hRuntime
    | runtime => cases hNot
  rw [diagnostics, List.filter_append, hStatic, List.nil_append, runtimeDiagnostics]
  cases run.execution.runtimeError? <;> rfl

/-- Runs that end alike report the same. -/
theorem diagnostics_ofText_eq_fresh {stream : Stream} {source : String}
    (h : (ofText .empty stream source).execution.failure = (fresh source).execution.failure) :
    (ofText .empty stream source).diagnostics = (fresh source).diagnostics := by
  simp only [diagnostics, runtimeDiagnostics, Execution.runtimeError?, h]
  rfl

/-- The run on an output that refuses every byte writes nothing. It fails exactly if a print
statement is executed, and else it ends like the run on an output that never fails. -/
theorem execution_refusing (fault : Fault) (source : String) :
    (ofText .empty (.refusing fault) source).execution =
      ⟨[], .refusing fault,
        if (fresh source).diagnostics.any Diagnostic.isStatic = false ∧
            printsBeforeFault (fresh source).program.statements = true then some (.output fault)
        else (fresh source).execution.failure⟩ := by
  by_cases hClean : Clean source
  · rw [ofText_of_clean rfl hClean, interpret_refusing, fresh_of_clean hClean]
    simp only [← fresh_of_clean hClean, clean_iff.1 hClean, true_and]
  · have hStatic := mt clean_iff.2 hClean
    rw [ofText_of_blocked (.inr hClean), if_neg fun h => hStatic h.1, fresh_of_not_clean hClean]
    rfl

end Run

/-! ## The process -/

/-- The lines on the standard error before anything is executed: lexical errors, the tokens if they
are asked for, syntax errors, and the statements without one if they are asked for. -/
def linesBefore (options : Options) (source : String) : List String :=
  (Run.scanReports source).map Diagnostic.text ++
    (if options.tokens then (Run.fresh source).scan.tokens.map Token.text else []) ++
    (Run.syntaxReports source).map Diagnostic.text ++
    (if options.ast then (Run.fresh source).program.statements.map Statement.text else [])

/-- The lines on the standard error that report a runtime error, if the text raises one. -/
def linesAfter (source : String) : List String :=
  ((Run.fresh source).diagnostics.filter Diagnostic.isRuntime).map Diagnostic.text

theorem unlines_append (lines others : List String) :
    unlines (lines ++ others) = unlines lines ++ unlines others := by
  rw [unlines, List.map_append, String.join_append]
  rfl

theorem Run.errorText_ofText (options : Options) (stream : Stream) (source : String) :
    (Run.ofText .empty stream source).errorText options =
      unlines (linesBefore options source) ++
        unlines ((Run.ofText .empty stream source).runtimeDiagnostics.map Diagnostic.text) := by
  rw [errorText, listing, unlines_append]
  simp only [linesBefore, scanReports, syntaxReports, List.map_map]
  rfl

theorem Log.exitCode_empty (diagnostics : List Diagnostic) :
    (Log.empty.reportAll diagnostics).exitCode =
      if diagnostics.any Diagnostic.isStatic then 65
      else if diagnostics.any Diagnostic.isRuntime then 70 else 0 := rfl

/-- A script on an output that never fails. -/
theorem runScript_endless (options : Options) (source : String) :
    runScript options .endless source =
      ⟨if (Run.fresh source).diagnostics.any Diagnostic.isStatic then 65
        else if (Run.fresh source).diagnostics.any Diagnostic.isRuntime then 70 else 0,
        (Run.fresh source).output, unlines (linesBefore options source ++ linesAfter source)⟩ := by
  rw [runScript, (Run.ofText_endless _ _).2, Outcome.conclude, Log.exitCode_empty,
    Run.errorText_ofText, Run.runtimeDiagnostics_eq_filter, ← unlines_append]
  rfl

/-- A script on an output that refuses every byte. -/
theorem runScript_refusing (options : Options) (fault : Fault) (source : String) :
    runScript options (.refusing fault) source =
      if (Run.fresh source).diagnostics.any Diagnostic.isStatic = false ∧
          printsBeforeFault (Run.fresh source).program.statements = true then
        ⟨74, [], unlines (linesBefore options source) ++ faultText fault⟩
      else { runScript options .endless source with output := [] } := by
  have hExecution := Run.execution_refusing fault source
  split
  · rename_i hPrints
    rw [if_pos hPrints] at hExecution
    rw [runScript, Run.errorText_ofText, Run.fault?, Run.output, Run.runtimeDiagnostics, hExecution]
    simp only [Execution.fault?, Execution.runtimeError?, Outcome.conclude, Option.map_none,
      Option.toList_none, List.map_nil]
    rw [show unlines [] = "" from rfl, String.append_empty]
    rfl
  · rename_i hSilent
    rw [if_neg hSilent] at hExecution
    have hFailure : (Run.ofText .empty (.refusing fault) source).execution.failure =
        (Run.fresh source).execution.failure := by rw [hExecution]
    have hDiagnostics := Run.diagnostics_ofText_eq_fresh hFailure
    have hFault : (Run.ofText .empty (.refusing fault) source).fault? = none := by
      rw [← (Run.ofText_endless .empty source).2, Run.fault?, hExecution]
      rfl
    rw [runScript_endless, runScript, hFault, hDiagnostics, Outcome.conclude, Log.exitCode_empty,
      Run.errorText_ofText, Run.runtimeDiagnostics_eq_filter, hDiagnostics, ← unlines_append,
      Run.output, hExecution]
    rfl

/--
**What the process of a script does.** It does so for every text that is delivered, with every
choice of listings, which change neither the output nor the exit code.

On an output that does not fail it writes what the run of the text by itself writes. Its exit code
tells static errors from a runtime error, and the standard error shows the diagnostics in order with
the listings between them, each on a line of its own. On an output that refuses every byte a print
statement that is executed decides the exit code, and a message about the output stands in the place
of a runtime error.
-/
theorem runProcess_script {environment : Environment} {arguments : List String}
    {options : Options} {source : String}
    (hOptions : Options.ofArguments arguments = .ok options)
    (hSource : environment.Delivers options source) :
    ∃ outcome, runProcess environment arguments = .ok outcome ∧
      (∀ tokens ast : Bool,
        let other := runOptions environment { options with tokens := tokens, ast := ast }
        other.output = outcome.output ∧ other.code = outcome.code) ∧
      (environment.outputFault = none →
        outcome.output = (Run.fresh source).output ∧
        outcome.code =
          (if (Run.fresh source).diagnostics.any Diagnostic.isStatic then 65
          else if (Run.fresh source).diagnostics.any Diagnostic.isRuntime then 70 else 0) ∧
        outcome.errors =
          String.join ((linesBefore options source ++ linesAfter source).map (· ++ "\n"))) ∧
      ∀ fault, environment.outputFault = some fault →
        outcome.output = [] ∧
        outcome.code =
          (if (Run.fresh source).diagnostics.any Diagnostic.isStatic then 65
          else if printsBeforeFault (Run.fresh source).program.statements then 74
          else if (Run.fresh source).diagnostics.any Diagnostic.isRuntime then 70 else 0) ∧
        outcome.errors = String.join ((linesBefore options source).map (· ++ "\n")) ++
          (if outcome.code = 74 then "Failed to write output: " ++ fault.message ++ "\n"
          else String.join ((linesAfter source).map (· ++ "\n"))) := by
  refine ⟨runScript options environment.output source, ?_, ?_, ?_, ?_⟩
  · rw [runProcess, hOptions, ← hSource.runOptions_eq]
  · intro tokens ast
    rw [(hSource.withListings tokens ast).runOptions_eq, runScript, runScript]
    cases (Run.ofText .empty environment.output source).fault? <;> exact ⟨rfl, rfl⟩
  · intro hFault
    rw [Environment.output, hFault]
    exact (runScript_endless options source) ▸ ⟨rfl, rfl, rfl⟩
  · intro fault hFault
    have hOutput : environment.output = .refusing fault := by
      rw [Environment.output, hFault]
      rfl
    rw [hOutput, runScript_refusing, runScript_endless]
    cases (Run.fresh source).diagnostics.any Diagnostic.isStatic with
    | true => exact ⟨rfl, rfl, unlines_append _ _⟩
    | false =>
        cases printsBeforeFault (Run.fresh source).program.statements with
        | true => exact ⟨rfl, rfl, rfl⟩
        | false =>
            cases (Run.fresh source).diagnostics.any Diagnostic.isRuntime <;>
              exact ⟨rfl, rfl, unlines_append _ _⟩

/-- A file with a runtime error behind a print statement, on an output that works and on one that
refuses every byte, and a text with a lexical and a syntax error as the argument. -/
theorem runProcess_script_of_file :
    let contents := utf8 "print true;\n-nill;"
    let fileArguments := ["--tokens", "-f", "demo", "--ast"]
    let inlineArguments := ["--tokens", "--ast", "@print 1 +; 2.5;"]
    Options.ofArguments fileArguments = .ok ⟨true, true, true, some "demo"⟩ ∧
      Options.ofArguments inlineArguments = .ok ⟨false, true, true, some "@print 1 +; 2.5;"⟩ ∧
      (∃ outcome,
        runProcess ⟨[], fun _ => some contents, none⟩ fileArguments = .ok outcome ∧
          outcome.output = utf8 "true\n" ∧ outcome.code = 70 ∧
          outcome.errors = "PRINT print\nTRUE true\nSEMICOLON ;\nMINUS -\nNIL nill\n" ++
            "SEMICOLON ;\nEOF \n(print true)\n(expr (- nil))\n" ++
            "Operand must be a number.\n[line 2]\n") ∧
      (∃ outcome,
        runProcess ⟨[], fun _ => some contents, some deviceFull⟩ fileArguments = .ok outcome ∧
          outcome.output = [] ∧ outcome.code = 74 ∧
          outcome.errors = "PRINT print\nTRUE true\nSEMICOLON ;\nMINUS -\nNIL nill\n" ++
            "SEMICOLON ;\nEOF \n(print true)\n(expr (- nil))\n" ++
            "Failed to write output: No space left on device (os error 28)\n") ∧
      ∃ outcome,
        runProcess ⟨[], fun _ => none, none⟩ inlineArguments = .ok outcome ∧
          outcome.output = [] ∧ outcome.code = 65 ∧
          outcome.errors = "[line 1] Error: Unexpected character.\nPRINT print\nNUMBER 1 1\n" ++
            "PLUS +\nSEMICOLON ;\nNUMBER 2.5 2.5\nSEMICOLON ;\nEOF \n" ++
            "[line 1] Error at ';': Expect expression.\n(expr 2.5)\n" := by
  intro contents fileArguments inlineArguments
  have hFile : Options.ofArguments fileArguments = .ok ⟨true, true, true, some "demo"⟩ := by
    decide +kernel
  have hInline : Options.ofArguments inlineArguments =
      .ok ⟨false, true, true, some "@print 1 +; 2.5;"⟩ := by decide +kernel
  have hContents : ∀ fault : Option Fault,
      (Environment.mk [] (fun _ => some contents) fault).Delivers
        ⟨true, true, true, some "demo"⟩ "print true;\n-nill;" := fun _ => .file rfl
  refine ⟨hFile, hInline, ?_, ?_, ?_⟩
  · obtain ⟨outcome, hProcess, _, hWorking, _⟩ := runProcess_script hFile (hContents none)
    obtain ⟨hOutput, hCode, hErrors⟩ := hWorking rfl
    refine ⟨outcome, hProcess, hOutput.trans ?_, hCode.trans ?_, hErrors.trans ?_⟩
    · decide +kernel
    · decide +kernel
    · decide +kernel
  · obtain ⟨outcome, hProcess, _, _, hRefusing⟩ :=
      runProcess_script hFile (hContents (some deviceFull))
    obtain ⟨hOutput, hCode, hErrors⟩ := hRefusing deviceFull rfl
    have hFails : outcome.code = 74 := hCode.trans (by decide +kernel)
    rw [if_pos hFails] at hErrors
    refine ⟨outcome, hProcess, hOutput, hFails, hErrors.trans ?_⟩
    decide +kernel
  · obtain ⟨outcome, hProcess, _, hWorking, _⟩ :=
      @runProcess_script ⟨[], fun _ => none, none⟩ _ _ _ hInline .inline
    obtain ⟨hOutput, hCode, hErrors⟩ := hWorking rfl
    refine ⟨outcome, hProcess, hOutput.trans ?_, hCode.trans ?_, hErrors.trans ?_⟩
    · decide +kernel
    · decide +kernel
    · decide +kernel

end ExprLang
