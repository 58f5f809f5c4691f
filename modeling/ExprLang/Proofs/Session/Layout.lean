import ExprLang.Proofs.Program.Relined
import ExprLang.Proofs.Session.Fresh

/-!
# Layout

Blanks, comments and line breaks between the tokens of a source text decide on which lines the
tokens stand, and nothing else. The kind and the text of a token decide its value. So two source
texts whose tokens are spelled alike have the same tokens once lines are forgotten, and then the
same program, which does the same.

## Main results

* `sameButLayout_iff` — texts that differ in their layout only have the same pieces, apart from
  blanks and comments.
* `Run.relined_ofText` — their runs are the same once lines are forgotten.
* `Run.layout_irrelevant` — they write the same, fail alike and report the same, on other lines.
-/

namespace ExprLang

/-- Every line is moved to line zero, so that lines are forgotten. -/
def noLine (_ : Nat) : Nat := 0

/-- Two source texts that differ in their layout only: their tokens are spelled alike and their
lexical errors are alike, but they may stand on other lines. -/
structure SameButLayout (source other : String) : Prop where
  spellings : (Scan.ofSource source).tokens.map Token.spelling =
    (Scan.ofSource other).tokens.map Token.spelling
  defects : (Scan.ofSource source).errors.map ScanError.defect =
    (Scan.ofSource other).errors.map ScanError.defect

/-! ## Tokens without lines -/

/-- A spelling as a token on line zero, with the value that the spelling stands for. -/
def Token.ofSpelling (spelling : Kind × Option String) : Token :=
  ⟨spelling.1, spelling.2, spelling.2.bind fun text => literalValue? spelling.1 text.toList, 0⟩

/-- The same error reported on another line. -/
def ScanError.relined (place : Nat → Nat) : ScanError → ScanError
  | unterminatedString line => unterminatedString (place line)
  | unexpectedCharacter char line => unexpectedCharacter char (place line)

/-- A defect as a lexical error on line zero. -/
def Defect.error : Defect → ScanError
  | unterminated => .unterminatedString 0
  | unexpected char => .unexpectedCharacter char 0

theorem ScanError.relined_noLine (error : ScanError) :
    error.relined noLine = error.defect.error := by
  cases error <;> rfl

namespace Scan

/-- The same scan with its tokens and errors on other lines. -/
def relined (place : Nat → Nat) (scan : Scan) : Scan :=
  ⟨scan.tokens.map (Token.relined place), scan.errors.map (ScanError.relined place)⟩

/-- The value of a token is the one that its kind and its text stand for. -/
theorem literal_of_mem_tokens {source : String} {token : Token}
    (h : token ∈ (ofSource source).tokens) :
    token.literal = token.lexeme.bind fun text => literalValue? token.kind text.toList := by
  rw [ofSource_eq] at h
  rcases List.mem_append.1 h with hSpelled | hLast
  · obtain ⟨⟨line, piece⟩, _, hToken⟩ := List.mem_filterMap.1 hSpelled
    cases piece with
    | lexeme kind text =>
        cases hToken
        rw [Option.bind_some, String.toList_ofList]
    | _ => cases hToken
  · rw [List.mem_singleton.1 hLast]
    rfl

/-- **A token without its line is decided by its spelling.** -/
theorem relined_noLine_of_mem_tokens {source : String} {token : Token}
    (h : token ∈ (ofSource source).tokens) :
    token.relined noLine = .ofSpelling token.spelling := by
  have hLiteral := literal_of_mem_tokens h
  obtain ⟨kind, lexeme, literal, line⟩ := token
  exact congrArg (Token.mk kind lexeme · 0) hLiteral

theorem relined_ofSource (source : String) :
    (ofSource source).relined noLine =
      ⟨((ofSource source).tokens.map Token.spelling).map .ofSpelling,
        ((ofSource source).errors.map ScanError.defect).map Defect.error⟩ := by
  have hTokens : (ofSource source).tokens.map (Token.relined noLine) =
      (ofSource source).tokens.map (Token.ofSpelling ∘ Token.spelling) :=
    List.map_congr_left fun _ hToken => relined_noLine_of_mem_tokens hToken
  have hErrors : (ofSource source).errors.map (ScanError.relined noLine) =
      (ofSource source).errors.map (Defect.error ∘ ScanError.defect) :=
    List.map_congr_left fun error _ => error.relined_noLine
  rw [relined, hTokens, hErrors, List.map_map, List.map_map]

end Scan

/-- Source texts differ in their layout only if they have the same pieces with tokens and the same
pieces with errors. The other pieces are blanks and comments. -/
theorem sameButLayout_iff {source other : String} :
    SameButLayout source other ↔
      (pieces source.toList).filterMap Piece.spelling? =
          (pieces other.toList).filterMap Piece.spelling? ∧
        (pieces source.toList).filterMap Piece.defect? =
          (pieces other.toList).filterMap Piece.defect? := by
  have hTokens : ∀ text : String, (Scan.ofSource text).tokens.map Token.spelling =
      (pieces text.toList).filterMap Piece.spelling? ++ [(.eof, none)] := by
    intro text
    rw [Scan.ofSource_eq, List.map_append, Scan.spelled,
      Scan.map_filterMap_withLines Scan.spelling_token?]
    rfl
  have hErrors : ∀ text : String, (Scan.ofSource text).errors.map ScanError.defect =
      (pieces text.toList).filterMap Piece.defect? :=
    fun text => Scan.map_filterMap_withLines Scan.defect_error? 1 _
  constructor
  · rintro ⟨hSpellings, hDefects⟩
    rw [hTokens, hTokens] at hSpellings
    rw [hErrors, hErrors] at hDefects
    exact ⟨List.append_cancel_right hSpellings, hDefects⟩
  · rintro ⟨hSpellings, hDefects⟩
    refine ⟨?_, ?_⟩
    · rw [hTokens, hTokens, hSpellings]
    · rw [hErrors, hErrors, hDefects]

/-! ## Diagnostics -/

namespace Diagnostic

/-- The same diagnostic naming another line. -/
def relined (place : Nat → Nat) : Diagnostic → Diagnostic
  | static line location message => static (place line) location message
  | runtime line message => runtime (place line) message

theorem ofScanError_relined (place : Nat → Nat) (error : ScanError) :
    ofScanError (error.relined place) = (ofScanError error).relined place := by
  cases error <;> rfl

end Diagnostic

/-! ## Runs -/

namespace Run

/-- The same run on other lines. -/
def relined (place : Nat → Nat) (run : Run) : Run :=
  ⟨run.scan.relined place, run.program.relined place, run.execution.relined place⟩

/-- The diagnostics of a run on other lines are its diagnostics there. -/
theorem diagnostics_relined (place : Nat → Nat) (run : Run) :
    (run.relined place).diagnostics = run.diagnostics.map (Diagnostic.relined place) := by
  have hRuntime : (run.relined place).runtimeDiagnostics =
      run.runtimeDiagnostics.map (Diagnostic.relined place) := by
    simp only [runtimeDiagnostics, relined, Execution.runtimeError?_relined]
    cases run.execution.runtimeError? <;> rfl
  have hStatic : staticDiagnostics (run.scan.relined place) (run.program.relined place) =
      (staticDiagnostics run.scan run.program).map (Diagnostic.relined place) := by
    simp only [staticDiagnostics, Scan.relined, Program.errors_relined, List.map_append,
      List.map_map]
    exact congrArg₂ (· ++ ·)
      (List.map_congr_left fun error _ => Diagnostic.ofScanError_relined place error) rfl
  rw [diagnostics, diagnostics, hRuntime, List.map_append, ← hStatic]
  rfl

end Run

namespace SameButLayout

variable {source other : String}

theorem symm (h : SameButLayout source other) : SameButLayout other source :=
  ⟨h.spellings.symm, h.defects.symm⟩

theorem scan (h : SameButLayout source other) :
    (Scan.ofSource source).relined noLine = (Scan.ofSource other).relined noLine := by
  rw [Scan.relined_ofSource, Scan.relined_ofSource, h.spellings, h.defects]

theorem program (h : SameButLayout source other) :
    (Program.ofTokens (Scan.ofSource source).tokens).relined noLine =
      (Program.ofTokens (Scan.ofSource other).tokens).relined noLine := by
  have hTokens := congrArg Scan.tokens h.scan
  simp only [Scan.relined] at hTokens
  rw [← Program.ofTokens_relined rfl, ← Program.ofTokens_relined rfl, hTokens]

theorem clean (h : SameButLayout source other) (hClean : Run.Clean source) :
    Run.Clean other := by
  obtain ⟨hScan, hProgram⟩ := hClean
  have hDefects := h.defects
  have hErrors := congrArg Program.errors h.program
  rw [hScan] at hDefects
  rw [Program.errors_relined, Program.errors_relined, hProgram] at hErrors
  exact ⟨List.map_eq_nil_iff.1 hDefects.symm, List.map_eq_nil_iff.1 hErrors.symm⟩

theorem clean_iff (h : SameButLayout source other) : Run.Clean source ↔ Run.Clean other :=
  ⟨h.clean, h.symm.clean⟩

end SameButLayout

namespace Run

/-- **Runs of texts that differ in their layout only are the same once lines are forgotten.** -/
theorem relined_ofText {source other : String} (h : SameButLayout source other) (log : Log)
    (stream : Stream) :
    (Run.ofText log stream source).relined noLine =
      (Run.ofText log stream other).relined noLine := by
  by_cases hBlocked : log.hasStaticError = true ∨ ¬ Clean source
  · have hOther : log.hasStaticError = true ∨ ¬ Clean other := by rwa [← h.clean_iff]
    rw [ofText_of_blocked hBlocked, ofText_of_blocked hOther, relined, relined, h.scan, h.program]
  · obtain ⟨hLog, hClean⟩ := not_or.1 hBlocked
    rw [Bool.not_eq_true] at hLog
    rw [not_not] at hClean
    rw [ofText_of_clean hLog hClean, ofText_of_clean hLog (h.clean hClean), relined, relined,
      h.scan, h.program, ← interpret_relined, ← interpret_relined, ← Program.statements_relined,
      ← Program.statements_relined, h.program]

/--
**Layout does not matter.** Two source texts that differ in their layout only write the same bytes
to every stream, leave it in the same state and fail alike. Their statements are the same up to the
lines of operators, and their diagnostics are the same, one by one, up to their lines.
-/
theorem layout_irrelevant {source other : String} (h : SameButLayout source other) (log : Log)
    (stream : Stream) :
    (Run.ofText log stream source).output = (Run.ofText log stream other).output ∧
      (Run.ofText log stream source).fault? = (Run.ofText log stream other).fault? ∧
      (Run.ofText log stream source).execution.stream =
        (Run.ofText log stream other).execution.stream ∧
      (Run.ofText log stream source).program.statements.map (Statement.relined noLine) =
        (Run.ofText log stream other).program.statements.map (Statement.relined noLine) ∧
      (Run.ofText log stream source).diagnostics.map (Diagnostic.relined noLine) =
        (Run.ofText log stream other).diagnostics.map (Diagnostic.relined noLine) := by
  have hRun := relined_ofText h log stream
  have hWritten := congrArg (fun run => run.execution.written) hRun
  have hStream := congrArg (fun run => run.execution.stream) hRun
  have hFault := congrArg (fun run => run.execution.fault?) hRun
  simp only [relined, Execution.fault?_relined] at hFault
  refine ⟨hWritten, hFault, hStream, ?_, ?_⟩
  · have hProgram := congrArg (fun run => run.program.statements) hRun
    simpa only [relined, Program.statements_relined] using hProgram
  · rw [← diagnostics_relined, ← diagnostics_relined, hRun]

/-- Line breaks, blanks and a comment in a text that raises a runtime error, and in one with a
lexical and a syntax error, move the reports to other lines and change nothing else. -/
theorem layout_irrelevant_of_line_breaks :
    (SameButLayout "print true;-nill;" "print // a line\n true;\n\n- nill ;" ∧
      (Run.fresh "print true;-nill;").output =
        (Run.fresh "print // a line\n true;\n\n- nill ;").output ∧
      (Run.fresh "print true;-nill;").diagnostics.map (Diagnostic.relined noLine) =
        (Run.fresh "print // a line\n true;\n\n- nill ;").diagnostics.map
          (Diagnostic.relined noLine) ∧
      (Run.fresh "print true;-nill;").output = utf8 "true\n" ∧
      (Run.fresh "print true;-nill;").diagnostics = [.runtime 1 "Operand must be a number."] ∧
      (Run.fresh "print // a line\n true;\n\n- nill ;").diagnostics =
        [.runtime 4 "Operand must be a number."]) ∧
    SameButLayout "1 +;@" "1\n+ ;\n@" ∧
      (Run.fresh "1 +;@").diagnostics.map (Diagnostic.relined noLine) =
        (Run.fresh "1\n+ ;\n@").diagnostics.map (Diagnostic.relined noLine) ∧
      (Run.fresh "1 +;@").diagnostics =
        [.static 1 "" "Unexpected character.", .static 1 " at ';'" "Expect expression."] ∧
      (Run.fresh "1\n+ ;\n@").diagnostics =
        [.static 3 "" "Unexpected character.", .static 2 " at ';'" "Expect expression."] := by
  have hSame : SameButLayout "print true;-nill;" "print // a line\n true;\n\n- nill ;" :=
    ⟨by decide +kernel, by decide +kernel⟩
  have hErrors : SameButLayout "1 +;@" "1\n+ ;\n@" := ⟨by decide +kernel, by decide +kernel⟩
  obtain ⟨hOutput, _, _, _, hDiagnostics⟩ := layout_irrelevant hSame .empty .endless
  obtain ⟨_, _, _, _, hReports⟩ := layout_irrelevant hErrors .empty .endless
  refine ⟨⟨hSame, hOutput, hDiagnostics, ?_, ?_, ?_⟩, hErrors, hReports, ?_, ?_⟩
  · decide +kernel
  · decide +kernel
  · decide +kernel
  · decide +kernel
  · decide +kernel

end Run

end ExprLang
