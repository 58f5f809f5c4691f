import ExprLang.Proofs.Program.Later
import ExprLang.Proofs.Session.Independence
import ExprLang.Proofs.Source.LineBreak
import ExprLang.Session.Basic

/-!
# A script agrees with the dialogue over its lines

A text whose lines have no static error when each is run by itself is scanned and read line by line:
no token and no statement goes on over a line feed, and a carriage return before it changes nothing.
So its statements are those of the lines, each on its line, and running it runs the lines one after
the other up to the first runtime error. A dialogue over the same lines does not stop there.

## Main results

* `reads_lines` — the statements of a text are those of its lines.
* `interpret_lineStatements` — they are executed line by line.
* `script_agrees_with_dialogue` — output, diagnostics and exit codes of the script and the dialogue.
-/

namespace ExprLang

/-! ## Reading line by line -/

/-- A text without static errors that is read as some statements. -/
structure Reads (source : List Char) (trees : List Statement) : Prop where
  defects : Scan.defects 1 (pieces source) = []
  trees : Statement.TreesOf trees (Scan.spelled 1 (pieces source))

theorem beforeEnd_tokens (source : String) :
    beforeEnd (Scan.ofSource source).tokens = Scan.spelled 1 (pieces source.toList) := by
  rw [Scan.ofSource_eq]
  refine beforeEnd_append (fun token hMem => Scan.kind_ne_eof_of_mem_spelled hMem) ?_
  intro token hMark
  cases hMark
  rfl

theorem reads_iff {source : String} {trees : List Statement} :
    Reads source.toList trees ↔
      Run.Clean source ∧ (Run.fresh source).program.statements = trees := by
  have hErrors : (Scan.ofSource source).errors = Scan.defects 1 (pieces source.toList) := by
    rw [Scan.ofSource_eq]
  have hTrees := Program.treesOf_iff (Scan.ofSource source).tokens trees
  rw [beforeEnd_tokens] at hTrees
  rw [Run.Clean, hErrors, Run.program_fresh]
  constructor
  · rintro ⟨hDefects, hSpelled⟩
    obtain ⟨hProgram, hStatements⟩ := hTrees.1 hSpelled
    exact ⟨⟨hDefects, hProgram⟩, hStatements⟩
  · rintro ⟨⟨hDefects, hProgram⟩, hStatements⟩
    exact ⟨hDefects, hTrees.2 ⟨hProgram, hStatements⟩⟩

namespace Reads

variable {source : List Char} {trees : List Statement}

theorem nil : Reads [] [] := by
  constructor
  · rw [pieces]
    rfl
  · rw [pieces]
    exact .nil

theorem closes (h : Reads source trees) : Closes source := by
  apply Scan.closes_of_defects
  intro line hMem
  rw [h.defects] at hMem
  cases hMem

/-- A carriage return that is dropped changes nothing. -/
theorem of_withoutReturn (h : Reads (withoutReturn source) trees) : Reads source trees := by
  rw [withoutReturn] at h
  split at h
  · rename_i hReturn
    obtain ⟨front, rfl⟩ := List.getLast?_eq_some_iff.1 hReturn
    rw [List.dropLast_concat] at h
    obtain ⟨hTokens, hErrors⟩ := Scan.spelled_append_return 1 h.closes
    exact ⟨hErrors.trans h.defects, hTokens ▸ h.trees⟩
  · exact h

/-- What follows a line feed is read by itself, on its lines. -/
theorem append (h : Reads source trees) {rest : List Char} {others : List Statement}
    (hRest : Reads rest others) :
    Reads (source ++ '\n' :: rest)
      (trees ++ others.map (Statement.later (1 + lineFeeds source))) := by
  constructor
  · rw [Scan.defects_append_lineFeed h.closes, h.defects, hRest.defects]
    rfl
  · rw [Scan.spelled_append_lineFeed h.closes]
    exact h.trees.append (hRest.trees.later _)

end Reads

/-- The statements of lines, each on its line. -/
def lineStatements : List String → List Statement
  | [] => []
  | line :: lines =>
    (Run.fresh line).program.statements ++ (lineStatements lines).map (Statement.later 1)

/-- **The statements of a text are those of its lines**, if no line has a static error. -/
theorem reads_lines (text : List Char) :
    (∀ line ∈ charLines text, Run.Clean (String.ofList line)) →
      Reads text (lineStatements ((charLines text).map String.ofList)) := by
  have hLineReads : ∀ line, Run.Clean (String.ofList line) →
      Reads line (Run.fresh (String.ofList line)).program.statements := by
    intro line hClean
    have hReads := reads_iff.2 ⟨hClean, rfl⟩
    rwa [String.toList_ofList] at hReads
  induction text using induction_on_mark '\n' with
  | last line hLine =>
      intro hClean
      by_cases hNil : line = []
      · rw [hNil]
        exact .nil
      · rw [charLines_last hLine hNil] at hClean ⊢
        simp only [List.map_singleton, lineStatements, List.map_nil, List.append_nil]
        exact hLineReads line (hClean line List.mem_cons_self)
  | line line rest hLine ih =>
      intro hClean
      rw [charLines_append hLine] at hClean ⊢
      -- The line alone lacks its carriage return, which the text still has.
      have hFirst := hLineReads _ (hClean _ List.mem_cons_self)
      have hRest := ih fun other hOther => hClean other (List.mem_cons_of_mem _ hOther)
      have hFeeds : lineFeeds line = 0 := List.count_eq_zero_of_not_mem hLine
      have hReads := hFirst.of_withoutReturn.append hRest
      rwa [hFeeds] at hReads

/-! ## Executing line by line -/

theorem Run.execution_fresh {line : String} (hClean : Run.Clean line) :
    (Run.fresh line).execution = interpret .endless (Run.fresh line).program.statements := by
  rw [Run.fresh_of_clean hClean]

theorem Run.execution_fresh_eq (line : String) :
    (Run.fresh line).execution = ⟨(Run.fresh line).output, .endless,
      (Run.fresh line).execution.runtimeError?.map Failure.runtime⟩ := by
  have hStream : (Run.fresh line).execution.stream = .endless := (Run.ofText_endless .empty line).1
  rw [← Run.failure_fresh, ← hStream]
  rfl

theorem interpret_lineStatements_cons {line : String} (hClean : Run.Clean line)
    (lines : List String) :
    interpret .endless (lineStatements (line :: lines)) =
      (Run.fresh line).execution.andThen fun stream =>
        (interpret stream (lineStatements lines)).later 1 := by
  simp only [lineStatements, interpret_append, interpret_later, Run.execution_fresh hClean]

/-- The same execution with bytes written before it. -/
def Execution.after (written : List UInt8) (execution : Execution) : Execution :=
  { execution with written := written ++ execution.written }

/-- **Lines are executed one after the other**, as long as none raises a runtime error. -/
theorem interpret_lineStatements {lines : List String} (hClean : ∀ line ∈ lines, Run.Clean line)
    (hCalm : ∀ line ∈ lines, (Run.fresh line).execution.runtimeError? = none)
    (others : List String) :
    interpret .endless (lineStatements (lines ++ others)) =
      ((interpret .endless (lineStatements others)).later lines.length).after
        (lines.flatMap fun line => (Run.fresh line).output) := by
  induction lines with
  | nil =>
      rw [List.length_nil, Execution.later_zero]
      rfl
  | cons line lines ih =>
      have hRest := ih (fun other hOther => hClean other (List.mem_cons_of_mem _ hOther))
        (fun other hOther => hCalm other (List.mem_cons_of_mem _ hOther))
      rw [List.cons_append, interpret_lineStatements_cons (hClean line List.mem_cons_self),
        Run.execution_fresh_eq line, hCalm line List.mem_cons_self, List.length_cons,
        ← Execution.later_later, List.flatMap_cons]
      simp only [Option.map_none, Execution.andThen, hRest, Execution.after, Execution.later,
        List.append_assoc]

/-- The first line that raises a runtime error is the last that is executed. -/
theorem interpret_lineStatements_error {line : String} (hClean : Run.Clean line)
    {error : RuntimeError} (hError : (Run.fresh line).execution.runtimeError? = some error)
    (lines : List String) :
    interpret .endless (lineStatements (line :: lines)) =
      ⟨(Run.fresh line).output, .endless, some (.runtime error)⟩ := by
  rw [interpret_lineStatements_cons hClean, Run.execution_fresh_eq line, hError]
  rfl

/-! ## Script and dialogue -/

/-- A text run as a script of a new session, on an output that never fails. -/
def asScript (text : String) : Effect := Log.empty.perform (.script .endless text)

/-- A text typed in as the lines of a dialogue of a new session, on streams that never fail. -/
def asDialogue (text : String) : Effect :=
  Log.empty.perform (.dialogue .endless .endless (utf8 text))

theorem not_mem_of_mem_textLines {text line : String} (h : line ∈ textLines text) :
    '\n' ∉ line.toList :=
  not_mem_of_map_lineText? (List.Subset.refl _) (map_lineText?_inputLines text) line h

/-- If no line has a static error then the text has none, and its lines are executed. -/
theorem execution_of_lines {text : String} (hClean : ∀ line ∈ textLines text, Run.Clean line) :
    Run.Clean text ∧
      (Run.fresh text).execution = interpret .endless (lineStatements (textLines text)) := by
  have hReads := reads_lines text.toList fun line hLine => hClean _ (List.mem_map_of_mem hLine)
  obtain ⟨hText, hStatements⟩ := reads_iff.1 hReads
  rw [Run.execution_fresh hText, hStatements]
  exact ⟨hText, rfl⟩

/-- The text does what its lines do, if none of them raises a runtime error. -/
theorem execution_of_calm_lines {text : String}
    (hClean : ∀ line ∈ textLines text, Run.Clean line)
    (hCalm : ∀ line ∈ textLines text, (Run.fresh line).execution.runtimeError? = none) :
    (Run.fresh text).execution =
      ⟨(textLines text).flatMap fun line => (Run.fresh line).output, .endless, none⟩ := by
  have hLines := interpret_lineStatements hClean hCalm []
  rw [List.append_nil] at hLines
  rw [(execution_of_lines hClean).2, hLines]
  simp [lineStatements, interpret, Execution.idle, Execution.later, Execution.after]

/-- The text does what its lines do up to the first that raises a runtime error, which is reported
on the line where it stands. -/
theorem execution_of_failing_line {text : String}
    (hClean : ∀ line ∈ textLines text, Run.Clean line) {before after : List String} {line : String}
    (hText : textLines text = before ++ line :: after)
    (hCalm : ∀ earlier ∈ before, (Run.fresh earlier).execution.runtimeError? = none)
    {error : RuntimeError} (hError : (Run.fresh line).execution.runtimeError? = some error) :
    (Run.fresh text).execution =
      ⟨(before ++ [line]).flatMap fun line => (Run.fresh line).output, .endless,
        some (.runtime (error.later before.length))⟩ := by
  have hExecution := (execution_of_lines hClean).2
  rw [hText] at hClean hExecution
  have hBefore : ∀ earlier ∈ before, Run.Clean earlier := fun earlier hEarlier =>
    hClean earlier (List.mem_append_left _ hEarlier)
  have hLine : Run.Clean line :=
    hClean line (List.mem_append_right _ List.mem_cons_self)
  rw [hExecution, interpret_lineStatements hBefore hCalm,
    interpret_lineStatements_error hLine hError, List.flatMap_append, List.flatMap_singleton]
  rfl

/-- A text of one line reports its runtime error on line one, and the whole text reports it on the
line where that line stands. -/
theorem diagnostics_of_failing_line {text : String}
    (hClean : ∀ line ∈ textLines text, Run.Clean line) {before after : List String} {line : String}
    (hText : textLines text = before ++ line :: after)
    (hCalm : ∀ earlier ∈ before, (Run.fresh earlier).execution.runtimeError? = none)
    {error : RuntimeError} (hError : (Run.fresh line).execution.runtimeError? = some error) :
    (asScript line).diagnostics = [.runtime 1 error.message] ∧
      (asScript text).diagnostics = [.runtime (before.length + 1) error.message] := by
  have hMem : line ∈ textLines text := hText ▸ List.mem_append_right _ List.mem_cons_self
  have hLine := Run.diagnostics_fresh_of_error hError
  have hReported : Diagnostic.runtime error.line error.message ∈ (Run.fresh line).diagnostics :=
    hLine ▸ List.mem_cons_self
  have hOne : error.line = 1 :=
    Run.line_eq_one_of_mem_diagnostics (not_mem_of_mem_textLines hMem) hReported
  have hRun := execution_of_failing_line hClean hText hCalm hError
  have hWhole := Run.diagnostics_fresh_of_error (congrArg Execution.runtimeError? hRun)
  have hLater : (error.later before.length).line = before.length + 1 := by
    rw [Nat.add_comm, ← hOne]
    rfl
  rw [hOne] at hLine
  rw [hLater] at hWhole
  exact ⟨hLine, hWhole⟩

theorem exitCode_asScript {text : String} (hClean : Run.Clean text) :
    (asScript text).log.exitCode =
      if (asScript text).diagnostics.any Diagnostic.isRuntime then exitSoftware
      else exitSuccess := by
  have hLog : (asScript text).log.hasStaticError = false := Run.clean_iff.1 hClean
  rw [Log.exitCode_of_not_static hLog]
  rfl

theorem output_asDialogue (text : String) :
    (asDialogue text).output = (textLines text).flatMap fun line => (asScript line).output :=
  (runsAlone_of_valid rfl (map_lineText?_inputLines text)).output

theorem exitCode_asDialogue (text : String) :
    (asDialogue text).log.exitCode =
      if (textLines text).any fun line => (asScript line).diagnostics.any Diagnostic.isRuntime then
        exitSoftware
      else exitSuccess := by
  have hEmpty : Log.empty.hasStaticError = false := rfl
  have hDialogue := converse_of_valid hEmpty (map_lineText?_inputLines text)
  have hLog : (asDialogue text).log = Log.empty.afterLines (textLines text) := by
    rw [asDialogue, Log.perform, hDialogue]
  rw [hLog, Log.exitCode_of_not_static (hasStaticError_afterLines hEmpty _),
    Log.afterLines_eq hEmpty]
  rfl

/-- **A script agrees with the dialogue over its lines**, if no line by itself has a static error.
The script has none either. If no line raises a runtime error both write the same and end well.
Otherwise the script writes what the lines up to the first such line write and reports its error on
its line; the dialogue writes that and then what the other lines write; both end with the exit code
of a runtime error. -/
theorem script_agrees_with_dialogue {text : String}
    (hStatic : ∀ line ∈ textLines text,
      (asScript line).diagnostics.any Diagnostic.isStatic = false) :
    (inputLines (utf8 text)).map lineText? = (textLines text).map some ∧
      (asScript text).fault = none ∧ (asDialogue text).fault = none ∧
      (asScript text).diagnostics.any Diagnostic.isStatic = false ∧
      ((∀ line ∈ textLines text, (asScript line).diagnostics.any Diagnostic.isRuntime = false) →
        (asScript text).output = (asDialogue text).output ∧
        (asScript text).log.exitCode = 0 ∧
        (asDialogue text).log.exitCode = 0) ∧
      (∀ before line after, textLines text = before ++ line :: after →
        (∀ earlier ∈ before, (asScript earlier).diagnostics.any Diagnostic.isRuntime = false) →
        (asScript line).diagnostics.any Diagnostic.isRuntime = true →
        (asScript text).output = (before ++ [line]).flatMap (fun line => (asScript line).output) ∧
        (∃ message, (asScript line).diagnostics = [.runtime 1 message] ∧
          (asScript text).diagnostics = [.runtime (before.length + 1) message]) ∧
        (asDialogue text).output =
          (asScript text).output ++ after.flatMap (fun line => (asScript line).output) ∧
        (asScript text).log.exitCode = 70 ∧
        (asDialogue text).log.exitCode = 70) := by
  have hClean : ∀ line ∈ textLines text, Run.Clean line := fun line hLine =>
    Run.clean_iff.2 (hStatic line hLine)
  have hText := (execution_of_lines hClean).1
  refine ⟨map_lineText?_inputLines text, ?_, ?_, Run.clean_iff.1 hText, ?_, ?_⟩
  · exact (Run.ofText_endless .empty text).2
  · have hEmpty : Log.empty.hasStaticError = false := rfl
    exact fault?_of_valid hEmpty (map_lineText?_inputLines text)
  · intro hCalm
    have hRun := execution_of_calm_lines hClean fun line hLine =>
      Run.runtimeError?_eq_none (hClean line hLine) (hCalm line hLine)
    have hScript : (asScript text).diagnostics.any Diagnostic.isRuntime = false := by
      refine (Run.any_isRuntime_fresh hText).trans ?_
      rw [hRun]
      rfl
    have hDialogue : ((textLines text).any fun line =>
        (asScript line).diagnostics.any Diagnostic.isRuntime) = false :=
      List.any_eq_false.2 fun line hLine => by simp [hCalm line hLine]
    rw [output_asDialogue, exitCode_asScript hText, exitCode_asDialogue, hScript, hDialogue]
    exact ⟨congrArg Execution.written hRun, rfl, rfl⟩
  · intro before line after hLines hBefore hRuntime
    have hMem : line ∈ textLines text := hLines ▸ List.mem_append_right _ List.mem_cons_self
    obtain ⟨error, hError⟩ := Run.exists_runtimeError? (hClean line hMem) hRuntime
    have hCalm : ∀ earlier ∈ before, (Run.fresh earlier).execution.runtimeError? = none := by
      intro earlier hEarlier
      have hEarlierMem : earlier ∈ textLines text := hLines ▸ List.mem_append_left _ hEarlier
      exact Run.runtimeError?_eq_none (hClean earlier hEarlierMem) (hBefore earlier hEarlier)
    have hOutput : (asScript text).output =
        (before ++ [line]).flatMap fun line => (asScript line).output :=
      congrArg Execution.written (execution_of_failing_line hClean hLines hCalm hError)
    obtain ⟨hLine, hScript⟩ := diagnostics_of_failing_line hClean hLines hCalm hError
    have hDialogue : ((textLines text).any fun line =>
        (asScript line).diagnostics.any Diagnostic.isRuntime) = true :=
      List.any_eq_true.2 ⟨line, hMem, hRuntime⟩
    refine ⟨hOutput, ⟨error.message, hLine, hScript⟩, ?_, ?_, ?_⟩
    · rw [output_asDialogue, hOutput, hLines, List.append_cons, List.flatMap_append]
    · rw [exitCode_asScript hText, hScript]
      rfl
    · rw [exitCode_asDialogue, hDialogue]
      rfl

/-- A comment ends with its line, and the dialogue goes on after the line that fails. -/
theorem script_agrees_with_dialogue_at_second_line :
    ∃ text, text = "print \"a\"; // \"\r\nprint -\"b\";\nprint \"c\";" ∧
      (∀ line ∈ textLines text, (asScript line).diagnostics.any Diagnostic.isStatic = false) ∧
      (asScript text).output = utf8 "a\n" ∧
      (asScript text).diagnostics = [.runtime 2 "Operand must be a number."] ∧
      (asDialogue text).output = utf8 "a\nc\n" ∧
      (asScript text).log.exitCode = 70 ∧
      (asDialogue text).log.exitCode = 70 := by
  have hLines : textLines "print \"a\"; // \"\r\nprint -\"b\";\nprint \"c\";" =
      ["print \"a\"; // \""] ++ "print -\"b\";" :: ["print \"c\";"] := by decide +kernel
  have hStatic : ∀ line ∈ textLines "print \"a\"; // \"\r\nprint -\"b\";\nprint \"c\";",
      (asScript line).diagnostics.any Diagnostic.isStatic = false := by
    rw [hLines]
    decide +kernel
  obtain ⟨-, -, -, -, -, hFailing⟩ := script_agrees_with_dialogue hStatic
  obtain ⟨hOutput, ⟨message, hLine, hReport⟩, hDialogue, hExit, hLast⟩ :=
    hFailing _ _ _ hLines (by decide +kernel) (by decide +kernel)
  have hWritten : (["print \"a\"; // \""] ++ ["print -\"b\";"]).flatMap
      (fun line => (asScript line).output) = utf8 "a\n" := by decide +kernel
  have hMessage : message = "Operand must be a number." := by
    have hAlone : (asScript "print -\"b\";").diagnostics =
        [.runtime 1 "Operand must be a number."] := by decide +kernel
    simpa using hLine.symm.trans hAlone
  rw [hWritten] at hOutput
  rw [hOutput] at hDialogue
  refine ⟨_, rfl, hStatic, hOutput, hMessage ▸ hReport, hDialogue.trans ?_, hExit, hLast⟩
  decide +kernel

end ExprLang
