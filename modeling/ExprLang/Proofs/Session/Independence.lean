import ExprLang.Proofs.Session.Fresh
import ExprLang.Proofs.Session.TextLines

/-!
# The lines of a dialogue are independent

On streams that never fail a dialogue runs each line as if there were no other. Before every line no
static error is pending, because those of a line are forgotten after it; a runtime error is
remembered, but it blocks nothing. The first line that is not valid UTF-8 ends the dialogue.

## Main results

* `converse_cons`, `converse_append` — one turn, and the turns of all valid lines at the front.
* `Log.afterLines_eq` — the log after these turns.
* `converse_lines_independent` — prompt, output, diagnostics and log of a dialogue.
-/

namespace ExprLang

/-! ## Turns -/

/-- The turn in which a line with some text is run by itself. -/
def Turn.alone (text : String) : Turn := ⟨utf8 promptText, some (Run.fresh text), none⟩

/-- The log after lines with some texts: each adds its diagnostics and leaves no static error
pending. -/
def Log.afterLines (log : Log) : List String → Log
  | [] => log
  | text :: texts =>
    (log.reportAll (Run.fresh text).diagnostics).forgetStaticErrors.afterLines texts

theorem askForLine_endless : askForLine .endless = ⟨utf8 promptText, .endless, none⟩ := by
  simp [askForLine, Writing.andThen, Stream.write, Stream.flush, Stream.endless]

theorem takeTurn_endless_end (log : Log) :
    takeTurn log .endless .endless none =
      ⟨⟨utf8 promptText ++ utf8 farewellText, none, none⟩, log, none⟩ := by
  rw [takeTurn, askForLine_endless]
  rfl

theorem takeTurn_endless_invalid (log : Log) {line : List UInt8} (hLine : lineText? line = none) :
    takeTurn log .endless .endless (some line) =
      ⟨⟨utf8 promptText, none, some invalidLine⟩, log, none⟩ := by
  rw [takeTurn, askForLine_endless]
  simp only [hLine]

/-- A valid line is run after what the log holds, and the dialogue goes on. -/
theorem takeTurn_endless_valid (log : Log) {line : List UInt8} {text : String}
    (hText : lineText? line = some text) :
    let run := Run.ofText log .endless text
    takeTurn log .endless .endless (some line) =
      ⟨⟨utf8 promptText, some run, none⟩, (log.reportAll run.diagnostics).forgetStaticErrors,
        some (.endless, .endless)⟩ := by
  obtain ⟨hStream, hFault⟩ := Run.ofText_endless log text
  rw [takeTurn, askForLine_endless]
  simp only [hText, hFault, hStream]
  rfl

theorem converse_nil (log : Log) :
    converse log .endless .endless [] =
      ⟨[⟨utf8 promptText ++ utf8 farewellText, none, none⟩], log⟩ := by
  rw [converse, takeTurn_endless_end]
  rfl

theorem converse_invalid (log : Log) {line : List UInt8} (hLine : lineText? line = none)
    (lines : List (List UInt8)) :
    converse log .endless .endless (line :: lines) =
      ⟨[⟨utf8 promptText, none, some invalidLine⟩], log⟩ := by
  rw [converse, takeTurn_endless_invalid log hLine]
  rfl

/-- One line is run by itself, and the dialogue goes on with the others. -/
theorem converse_cons {log : Log} (hLog : log.hasStaticError = false) {line : List UInt8}
    {text : String} (hText : lineText? line = some text) (lines : List (List UInt8)) :
    converse log .endless .endless (line :: lines) =
      ⟨.alone text :: (converse (log.afterLines [text]) .endless .endless lines).turns,
        (converse (log.afterLines [text]) .endless .endless lines).log⟩ := by
  rw [converse, takeTurn_endless_valid log hText, Run.ofText_eq_fresh hLog]
  rfl

theorem hasStaticError_afterLines {log : Log} (hLog : log.hasStaticError = false)
    (texts : List String) : (log.afterLines texts).hasStaticError = false := by
  induction texts generalizing log with
  | nil => exact hLog
  | cons text texts ih => exact ih rfl

/-- **The valid lines at the front are run by themselves, one after the other.** -/
theorem converse_append {log : Log} (hLog : log.hasStaticError = false)
    {lines : List (List UInt8)} {texts : List String}
    (hTexts : lines.map lineText? = texts.map some) (rest : List (List UInt8)) :
    converse log .endless .endless (lines ++ rest) =
      ⟨texts.map .alone ++ (converse (log.afterLines texts) .endless .endless rest).turns,
        (converse (log.afterLines texts) .endless .endless rest).log⟩ := by
  induction lines generalizing log texts with
  | nil =>
      cases List.map_eq_nil_iff.1 hTexts.symm
      rfl
  | cons line lines ih =>
      obtain ⟨text, others, rfl, hText, hOthers⟩ := List.map_eq_cons_iff.1 hTexts.symm
      rw [List.cons_append, converse_cons hLog hText.symm,
        ih (hasStaticError_afterLines hLog [text]) hOthers.symm]
      rfl

/-! ## The log -/

theorem Log.afterLines_eq {log : Log} (hLog : log.hasStaticError = false) (texts : List String) :
    log.afterLines texts =
      ⟨log.reported ++ texts.flatMap fun text => (Run.fresh text).diagnostics, false,
        log.hasRuntimeError ||
          texts.any fun text => (Run.fresh text).diagnostics.any Diagnostic.isRuntime⟩ := by
  induction texts generalizing log with
  | nil =>
      obtain ⟨reported, hasStaticError, hasRuntimeError⟩ := log
      cases hLog
      simp [afterLines]
  | cons text texts ih =>
      rw [afterLines, ih rfl]
      simp [forgetStaticErrors, reportAll, List.append_assoc, Bool.or_assoc]

/-- Where no static error is pending only a runtime error is told by the exit code. -/
theorem Log.exitCode_of_not_static {log : Log} (hLog : log.hasStaticError = false) :
    log.exitCode = if log.hasRuntimeError then exitSoftware else exitSuccess := by
  rw [exitCode, hLog]
  rfl

theorem Log.exitCode_ne_of_not_static {log : Log} (hLog : log.hasStaticError = false) :
    log.exitCode ≠ exitDataError := by
  rw [exitCode_of_not_static hLog]
  split <;> decide

/-! ## Independence -/

/-- A dialogue that began after a log runs lines with these texts and no others, each by itself: it
shows and reports what their runs alone do, always about line one, leaves no static error pending
and remembers the runtime errors. -/
structure Dialogue.RunsAlone (dialogue : Dialogue) (log : Log) (texts : List String) : Prop where
  runs : dialogue.turns.filterMap Turn.run = texts.map Run.fresh
  output : dialogue.output = texts.flatMap fun text => (Run.fresh text).output
  diagnostics : dialogue.diagnostics = texts.flatMap fun text => (Run.fresh text).diagnostics
  line_eq_one : ∀ diagnostic ∈ dialogue.diagnostics, diagnostic.line = 1
  reported : dialogue.log.reported = log.reported ++ dialogue.diagnostics
  not_static : dialogue.log.hasStaticError = false
  exitCode_ne : dialogue.log.exitCode ≠ 65
  runtime_iff : dialogue.log.hasRuntimeError = true ↔ log.hasRuntimeError = true ∨
    ∃ text ∈ texts, ∃ diagnostic ∈ (Run.fresh text).diagnostics, diagnostic.isRuntime = true

theorem Dialogue.runsAlone {log : Log} (hLog : log.hasStaticError = false) {texts : List String}
    (hTexts : ∀ text ∈ texts, '\n' ∉ text.toList) {last : Turn} (hLast : last.run = none) :
    RunsAlone ⟨texts.map .alone ++ [last], log.afterLines texts⟩ log texts := by
  have hDiagnostics : (⟨texts.map .alone ++ [last], log.afterLines texts⟩ : Dialogue).diagnostics =
      texts.flatMap fun text => (Run.fresh text).diagnostics := by
    simp [Dialogue.diagnostics, List.flatMap_map, Turn.diagnostics, Turn.alone, hLast]
  refine
    { runs := by simp [List.filterMap_map, Function.comp_def, Turn.alone, hLast]
      output := by
        simp [Dialogue.output, List.flatMap_map, Turn.output, Turn.alone, hLast]
      diagnostics := hDiagnostics
      line_eq_one := ?_
      reported := by rw [hDiagnostics, Log.afterLines_eq hLog]
      not_static := hasStaticError_afterLines hLog texts
      exitCode_ne := Log.exitCode_ne_of_not_static (hasStaticError_afterLines hLog texts)
      runtime_iff := by simp [Log.afterLines_eq hLog] }
  intro diagnostic hMem
  rw [hDiagnostics] at hMem
  obtain ⟨text, hText, hReported⟩ := List.mem_flatMap.1 hMem
  exact Run.line_eq_one_of_mem_diagnostics (hTexts text hText) hReported

theorem not_mem_of_map_lineText? {input : List UInt8} {lines : List (List UInt8)}
    (hLines : lines ⊆ inputLines input) {texts : List String}
    (hTexts : lines.map lineText? = texts.map some) : ∀ text ∈ texts, '\n' ∉ text.toList := by
  intro text hText
  have hMem : some text ∈ lines.map lineText? := hTexts ▸ List.mem_map_of_mem hText
  obtain ⟨line, hLine, hDecoded⟩ := List.mem_map.1 hMem
  exact not_mem_of_lineText? (hLines hLine) hDecoded

/-- The prompts of a number of turns. -/
def prompts (count : Nat) : List UInt8 := (List.replicate count (utf8 "> ")).flatten

theorem prompts_succ (count : Nat) : prompts (count + 1) = prompts count ++ utf8 "> " := by
  simp [prompts, List.replicate_succ']

theorem prompt_alone (texts : List String) (last : Turn) (log : Log) :
    (⟨texts.map .alone ++ [last], log⟩ : Dialogue).prompt =
      prompts texts.length ++ last.prompt := by
  have hPrompts : Turn.prompt ∘ Turn.alone = fun _ => utf8 "> " := rfl
  simp [Dialogue.prompt, prompts, List.flatMap_def, hPrompts, List.map_const']

theorem fault?_alone (texts : List String) (last : Turn) (log : Log) :
    (⟨texts.map .alone ++ [last], log⟩ : Dialogue).fault? = last.fault := by
  have hFaults : (texts.map Turn.alone).findSome? Turn.fault = none := by
    simp [List.findSome?_eq_none_iff, Turn.alone]
  simp [Dialogue.fault?, List.findSome?_append, hFaults]

/-- The dialogue over lines that are all valid. -/
theorem converse_of_valid {log : Log} (hLog : log.hasStaticError = false)
    {lines : List (List UInt8)} {texts : List String}
    (hTexts : lines.map lineText? = texts.map some) :
    converse log .endless .endless lines =
      ⟨texts.map .alone ++ [⟨utf8 promptText ++ utf8 farewellText, none, none⟩],
        log.afterLines texts⟩ := by
  have hRun := converse_append hLog hTexts []
  rwa [List.append_nil, converse_nil] at hRun

theorem runsAlone_of_valid {log : Log} (hLog : log.hasStaticError = false) {input : List UInt8}
    {texts : List String} (hTexts : (inputLines input).map lineText? = texts.map some) :
    (converse log .endless .endless (inputLines input)).RunsAlone log texts := by
  rw [converse_of_valid hLog hTexts]
  exact Dialogue.runsAlone hLog (not_mem_of_map_lineText? (List.Subset.refl _) hTexts) rfl

theorem fault?_of_valid {log : Log} (hLog : log.hasStaticError = false)
    {lines : List (List UInt8)} {texts : List String}
    (hTexts : lines.map lineText? = texts.map some) :
    (converse log .endless .endless lines).fault? = none := by
  rw [converse_of_valid hLog hTexts, fault?_alone]

/-- **Lines of a dialogue are independent.** On streams that never fail and with no static error
pending: if all lines are valid UTF-8, each is run by itself and the prompt is written once more
than there are lines, and ended; otherwise the lines before the first invalid one are, the prompt
is written once more than that, and the dialogue fails. -/
theorem converse_lines_independent {log : Log} (hLog : log.hasStaticError = false)
    (input : List UInt8) :
    (∀ texts, (inputLines input).map lineText? = texts.map some →
      (converse log .endless .endless (inputLines input)).RunsAlone log texts ∧
      (converse log .endless .endless (inputLines input)).fault? = none ∧
      (converse log .endless .endless (inputLines input)).prompt =
        prompts (texts.length + 1) ++ utf8 "\n") ∧
    (∀ valid invalid later texts, inputLines input = valid ++ invalid :: later →
      valid.map lineText? = texts.map some → lineText? invalid = none →
      (converse log .endless .endless (inputLines input)).RunsAlone log texts ∧
      (converse log .endless .endless (inputLines input)).fault? =
        some ⟨.invalidData, "stream did not contain valid UTF-8"⟩ ∧
      (converse log .endless .endless (inputLines input)).prompt = prompts (texts.length + 1)) := by
  constructor
  · intro texts hTexts
    refine ⟨runsAlone_of_valid hLog hTexts, fault?_of_valid hLog hTexts, ?_⟩
    rw [converse_of_valid hLog hTexts, prompt_alone, prompts_succ, List.append_assoc]
    rfl
  · intro valid invalid later texts hLines hTexts hInvalid
    have hSubset : valid ⊆ inputLines input := hLines ▸ List.subset_append_left ..
    rw [hLines, converse_append hLog hTexts, converse_invalid _ hInvalid, prompt_alone,
      fault?_alone, prompts_succ]
    exact ⟨Dialogue.runsAlone hLog (not_mem_of_map_lineText? hSubset hTexts) rfl, rfl, rfl⟩

/-- A runtime error and a syntax error block no later line, but an invalid line does. Without it the
last line is run too, and the prompt is ended. -/
theorem converse_lines_independent_until_invalid_line :
    (∃ dialogue, dialogue = converse .empty .endless .endless (inputLines
        (utf8 "print -\"a\";\n)\r\nprint \"b\";\n" ++ [255] ++ utf8 "\nprint \"c\";")) ∧
      dialogue.RunsAlone .empty ["print -\"a\";", ")", "print \"b\";"] ∧
      dialogue.fault? = some ⟨.invalidData, "stream did not contain valid UTF-8"⟩ ∧
      dialogue.prompt = utf8 "> > > > " ∧
      dialogue.output = utf8 "b\n" ∧
      dialogue.diagnostics =
        [.runtime 1 "Operand must be a number.", .static 1 " at ')'" "Expect expression."] ∧
      dialogue.log.exitCode = 70) ∧
    ∃ dialogue, dialogue = converse .empty .endless .endless (inputLines
        (utf8 "print -\"a\";\n)\r\nprint \"b\";\nprint \"c\";")) ∧
      dialogue.RunsAlone .empty ["print -\"a\";", ")", "print \"b\";", "print \"c\";"] ∧
      dialogue.fault? = none ∧
      dialogue.prompt = utf8 "> > > > > \n" ∧
      dialogue.output = utf8 "b\nc\n" ∧
      dialogue.diagnostics =
        [.runtime 1 "Operand must be a number.", .static 1 " at ')'" "Expect expression."] ∧
      dialogue.log.exitCode = 70 := by
  have hLog : Log.empty.hasStaticError = false := rfl
  constructor
  · obtain ⟨hAlone, hFault, hPrompt⟩ := (converse_lines_independent hLog
        (utf8 "print -\"a\";\n)\r\nprint \"b\";\n" ++ [255] ++ utf8 "\nprint \"c\";")).2
      [utf8 "print -\"a\";\n", utf8 ")\r\n", utf8 "print \"b\";\n"] (255 :: utf8 "\n")
      [utf8 "print \"c\";"] ["print -\"a\";", ")", "print \"b\";"]
      (by decide +kernel) (by decide +kernel) (by decide +kernel)
    refine ⟨_, rfl, hAlone, hFault, hPrompt.trans (by decide +kernel),
      hAlone.output.trans (by decide +kernel), hAlone.diagnostics.trans (by decide +kernel), ?_⟩
    decide +kernel
  · obtain ⟨hAlone, hFault, hPrompt⟩ := (converse_lines_independent hLog
        (utf8 "print -\"a\";\n)\r\nprint \"b\";\nprint \"c\";")).1
      ["print -\"a\";", ")", "print \"b\";", "print \"c\";"] (by decide +kernel)
    refine ⟨_, rfl, hAlone, hFault, hPrompt.trans (by decide +kernel),
      hAlone.output.trans (by decide +kernel), hAlone.diagnostics.trans (by decide +kernel), ?_⟩
    decide +kernel

end ExprLang
