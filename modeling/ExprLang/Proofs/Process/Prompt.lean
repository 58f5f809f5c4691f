import ExprLang.Proofs.Process.Script
import ExprLang.Proofs.Session.Independence

/-!
# The process of a prompt

Without a positional argument the process holds a dialogue, in which prompt and output share one
stream. On a standard output that never fails each line shows its prompt and then what its run by
itself writes; the standard error has the listings and diagnostics of these runs and nothing else.
No static error is pending at the end, so the exit code tells only whether a runtime error was
raised, unless a line that is not valid UTF-8 ends the process. On a standard output that refuses
every byte no line is read.

## Main results

* `runPrompt_of_valid`, `runPrompt_of_invalid` — dialogues on an output that never fails.
* `runPrompt_refusing` — dialogues on an output that refuses every byte.
* `runProcess_prompt` — what the process of a prompt does.
-/

namespace ExprLang

/-- The standard output after lines with some texts: each prompt and what the line writes. -/
def promptedOutput (texts : List String) : List UInt8 :=
  texts.flatMap fun text => utf8 "> " ++ (Run.fresh text).output

/-- The standard error after lines with some texts: the listings and diagnostics of each, with a
line feed behind every one of them. -/
def promptedErrors (options : Options) (texts : List String) : String :=
  let lines := texts.flatMap fun text => linesBefore options text ++ linesAfter text
  String.join (lines.map (· ++ "\n"))

/-- Some text raises a runtime error when it is run. -/
def raisesRuntimeError (texts : List String) : Bool :=
  texts.any fun text => (Run.fresh text).diagnostics.any Diagnostic.isRuntime

/-! ## Lines run by themselves -/

theorem runs_alone (texts : List String) {last : Turn} (hLast : last.run = none) :
    (texts.map Turn.alone ++ [last]).filterMap Turn.run = texts.map Run.fresh := by
  simp [List.filterMap_map, Function.comp_def, Turn.alone, hLast]

theorem transcript_alone (texts : List String) (last : Turn) (log : Log) :
    (⟨texts.map .alone ++ [last], log⟩ : Dialogue).transcript =
      promptedOutput texts ++ (last.prompt ++ last.output) := by
  simp [Dialogue.transcript, promptedOutput, List.flatMap_map, Turn.alone, Turn.output, promptText]

theorem Run.errorText_fresh (options : Options) (text : String) :
    (Run.fresh text).errorText options = unlines (linesBefore options text ++ linesAfter text) := by
  have hText := errorText_ofText options .endless text
  rwa [runtimeDiagnostics_eq_filter, ← unlines_append] at hText

theorem promptedErrors_eq_join (options : Options) (texts : List String) :
    promptedErrors options texts = String.join
      (texts.map fun text => unlines (linesBefore options text ++ linesAfter text)) := by
  induction texts with
  | nil => rfl
  | cons text texts ih =>
      rw [promptedErrors, List.flatMap_cons, List.map_append, String.join_append, List.map_cons,
        String.join_cons, ← ih]
      rfl

/-- A turn in which no line is run leaves nothing on the standard error. -/
theorem errors_alone (options : Options) (texts : List String) {last : Turn}
    (hLast : last.run = none) :
    String.join ((texts.map Turn.alone ++ [last]).map (Turn.errorText options)) =
      promptedErrors options texts := by
  have hTurns : ∀ text, (Turn.alone text).errorText options =
      unlines (linesBefore options text ++ linesAfter text) := Run.errorText_fresh options
  have hEnd : last.errorText options = "" := by
    rw [Turn.errorText, hLast]
    rfl
  rw [promptedErrors_eq_join, List.map_append, String.join_append, List.map_map]
  simp [Function.comp_def, hTurns, hEnd]

theorem exitCode_afterLines (texts : List String) :
    (Log.empty.afterLines texts).exitCode = if raisesRuntimeError texts then 70 else 0 := by
  rw [Log.exitCode_of_not_static (hasStaticError_afterLines rfl texts), Log.afterLines_eq rfl]
  rfl

/-! ## Dialogues of a process -/

theorem runPrompt_of_valid (options : Options) {input : List UInt8} {texts : List String}
    (hTexts : (inputLines input).map lineText? = texts.map some) :
    runPrompt options .endless input =
      ⟨if raisesRuntimeError texts then 70 else 0, promptedOutput texts ++ utf8 "> \n",
        promptedErrors options texts⟩ := by
  rw [runPrompt, converse_of_valid rfl hTexts, errors_alone options texts rfl, transcript_alone,
    fault?_alone, Outcome.conclude, exitCode_afterLines]
  rfl

theorem runPrompt_of_invalid (options : Options) {input : List UInt8}
    {valid later : List (List UInt8)} {invalid : List UInt8} {texts : List String}
    (hLines : inputLines input = valid ++ invalid :: later)
    (hTexts : valid.map lineText? = texts.map some) (hInvalid : lineText? invalid = none) :
    runPrompt options .endless input =
      ⟨74, promptedOutput texts ++ utf8 "> ", promptedErrors options texts ++
        "Failed to write output: stream did not contain valid UTF-8\n"⟩ := by
  rw [runPrompt, hLines, converse_append rfl hTexts, converse_invalid _ hInvalid]
  simp only [@errors_alone options texts ⟨utf8 promptText, none, some invalidLine⟩ rfl,
    transcript_alone, fault?_alone, Outcome.conclude]
  rfl

theorem takeTurn_refusing (log : Log) (fault : Fault) (line? : Option (List UInt8)) :
    takeTurn log (.refusing fault) (.refusing fault) line? =
      ⟨⟨[], none, some fault⟩, log, none⟩ := by
  have hAsked : askForLine (.refusing fault) = ⟨[], .refusing fault, some fault⟩ := rfl
  cases line? with
  | none =>
      rw [takeTurn, hAsked]
      rfl
  | some line => rw [takeTurn, hAsked]

/-- On an output that refuses every byte a dialogue ends with the first prompt. -/
theorem converse_refusing (log : Log) (fault : Fault) (lines : List (List UInt8)) :
    converse log (.refusing fault) (.refusing fault) lines = ⟨[⟨[], none, some fault⟩], log⟩ := by
  cases lines <;> rw [converse, takeTurn_refusing] <;> rfl

theorem runPrompt_refusing (options : Options) (fault : Fault) (input : List UInt8) :
    runPrompt options (.refusing fault) input =
      ⟨74, [], "Failed to write output: " ++ fault.message ++ "\n"⟩ := by
  rw [runPrompt, converse_refusing]
  rfl

/-! ## The process -/

/--
**What the process of a prompt does.** It does so for every standard input and with every choice of
listings, and the switch for files changes nothing.

On an output that does not fail every line that is valid UTF-8 is run by itself, and an invalid line
ends the process with an exit code of its own, whatever happened before. The other exit codes tell
whether a line raised a runtime error. On an output that refuses every byte no line is run.
-/
theorem runProcess_prompt {environment : Environment} {arguments : List String} {options : Options}
    (hOptions : Options.ofArguments arguments = .ok options) (hContents : options.contents = none) :
    let dialogue :=
      converse .empty environment.output environment.output (inputLines environment.input)
    ∃ outcome, runProcess environment arguments = .ok outcome ∧
      (∀ others file, Options.ofArguments others = .ok { options with file := file } →
        runProcess environment others = .ok outcome) ∧
      (environment.outputFault = none →
        (∀ texts, (inputLines environment.input).map lineText? = texts.map some →
          dialogue.turns.filterMap Turn.run = texts.map Run.fresh ∧
          outcome.output = promptedOutput texts ++ utf8 "> \n" ∧
          outcome.errors = promptedErrors options texts ∧
          outcome.code = if raisesRuntimeError texts then 70 else 0) ∧
        ∀ valid invalid later texts, inputLines environment.input = valid ++ invalid :: later →
          valid.map lineText? = texts.map some → lineText? invalid = none →
          dialogue.turns.filterMap Turn.run = texts.map Run.fresh ∧
          outcome.output = promptedOutput texts ++ utf8 "> " ∧
          outcome.errors = promptedErrors options texts ++
            "Failed to write output: stream did not contain valid UTF-8\n" ∧
          outcome.code = 74) ∧
      ∀ fault, environment.outputFault = some fault →
        dialogue.turns.filterMap Turn.run = [] ∧
        outcome.output = [] ∧
        outcome.errors = "Failed to write output: " ++ fault.message ++ "\n" ∧
        outcome.code = 74 := by
  have hPrompt : ∀ others file, Options.ofArguments others = .ok { options with file := file } →
      runProcess environment others =
        .ok (runPrompt options environment.output environment.input) := by
    intro others file hOthers
    rw [runProcess, hOthers]
    simp only [runOptions, hContents]
    rfl
  refine ⟨_, hPrompt arguments options.file hOptions, hPrompt, ?_, ?_⟩
  · intro hFault
    have hOutput : environment.output = .endless := by
      rw [Environment.output, hFault]
      rfl
    rw [hOutput]
    constructor
    · intro texts hTexts
      rw [runPrompt_of_valid options hTexts, converse_of_valid rfl hTexts]
      exact ⟨runs_alone texts rfl, rfl, rfl, rfl⟩
    · intro valid invalid later texts hLines hTexts hInvalid
      rw [runPrompt_of_invalid options hLines hTexts hInvalid, hLines, converse_append rfl hTexts,
        converse_invalid _ hInvalid]
      exact ⟨runs_alone texts rfl, rfl, rfl, rfl⟩
  · intro fault hFault
    have hOutput : environment.output = .refusing fault := by
      rw [Environment.output, hFault]
      rfl
    rw [hOutput, runPrompt_refusing, converse_refusing]
    exact ⟨rfl, rfl, rfl, rfl⟩

/-- The exit code does not tell a lexical or syntax error but a runtime error, and an invalid line
hides it. -/
theorem runProcess_prompt_until_invalid_line :
    let arguments := ["--file", "--tokens", "--ast"]
    Options.ofArguments arguments = .ok ⟨true, true, true, none⟩ ∧
      (∃ outcome,
        runProcess ⟨utf8 "print \"b\"; -nill;\r\n)@\n", fun _ => none, none⟩ arguments =
            .ok outcome ∧
          outcome.output = utf8 "> b\n> > \n" ∧
          outcome.errors = "PRINT print\nSTRING \"b\" \"b\"\nSEMICOLON ;\nMINUS -\nNIL nill\n" ++
            "SEMICOLON ;\nEOF \n(print \"b\")\n(expr (- nil))\n" ++
            "Operand must be a number.\n[line 1]\n" ++
            "[line 1] Error: Unexpected character.\nRIGHT_PAREN )\nEOF \n" ++
            "[line 1] Error at ')': Expect expression.\n" ∧
          outcome.code = 70) ∧
      (∃ outcome,
        runProcess ⟨utf8 "-nill;\n" ++ [255] ++ utf8 "\nprint \"c\";", fun _ => none, none⟩
            arguments = .ok outcome ∧
          outcome.output = utf8 "> > " ∧
          outcome.errors = "MINUS -\nNIL nill\nSEMICOLON ;\nEOF \n(expr (- nil))\n" ++
            "Operand must be a number.\n[line 1]\n" ++
            "Failed to write output: stream did not contain valid UTF-8\n" ∧
          outcome.code = 74) ∧
      ∃ outcome,
        runProcess ⟨utf8 "print \"b\";", fun _ => none, some deviceFull⟩ arguments =
            .ok outcome ∧
          outcome.output = [] ∧
          outcome.errors = "Failed to write output: No space left on device (os error 28)\n" ∧
          outcome.code = 74 := by
  intro arguments
  have hOptions : Options.ofArguments arguments = .ok ⟨true, true, true, none⟩ := by
    decide +kernel
  refine ⟨hOptions, ?_, ?_, ?_⟩
  · obtain ⟨outcome, hProcess, _, hWorking, _⟩ := @runProcess_prompt
      ⟨utf8 "print \"b\"; -nill;\r\n)@\n", fun _ => none, none⟩ _ _ hOptions rfl
    obtain ⟨_, hOutput, hErrors, hCode⟩ :=
      (hWorking rfl).1 ["print \"b\"; -nill;", ")@"] (by decide +kernel)
    refine ⟨outcome, hProcess, hOutput.trans ?_, hErrors.trans ?_, hCode.trans ?_⟩
    · decide +kernel
    · decide +kernel
    · decide +kernel
  · obtain ⟨outcome, hProcess, _, hWorking, _⟩ := @runProcess_prompt
      ⟨utf8 "-nill;\n" ++ [255] ++ utf8 "\nprint \"c\";", fun _ => none, none⟩ _ _ hOptions rfl
    obtain ⟨_, hOutput, hErrors, hCode⟩ := (hWorking rfl).2 [utf8 "-nill;\n"] (255 :: utf8 "\n")
      [utf8 "print \"c\";"] ["-nill;"] (by decide +kernel) (by decide +kernel) (by decide +kernel)
    exact ⟨outcome, hProcess, hOutput.trans (by decide +kernel),
      hErrors.trans (by decide +kernel), hCode⟩
  · obtain ⟨outcome, hProcess, _, _, hRefusing⟩ := @runProcess_prompt
      ⟨utf8 "print \"b\";", fun _ => none, some deviceFull⟩ _ _ hOptions rfl
    obtain ⟨_, hOutput, hErrors, hCode⟩ := hRefusing deviceFull rfl
    exact ⟨outcome, hProcess, hOutput, hErrors.trans (by decide +kernel), hCode⟩

end ExprLang
