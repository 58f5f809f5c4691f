import ExprLang.Proofs.Session.Fresh
import ExprLang.Proofs.Source.Writing

/-!
# A text that is one print statement

Where the tokens of a source text are a print statement and the end mark, the run of the text prints
the value of the expression, or reports its error and prints nothing.

## Main results

* `PrintsTree.program` — the program is the print statement.
* `PrintsTree.fresh_of_ok`, `PrintsTree.fresh_of_error` — what the run prints and reports.
* `ofSource_printText`, `printsTree_of_fits` — a print statement that is written out.
-/

namespace ExprLang

/-- The tokens of a source text are a print statement with a tree for its expression, and it has no
lexical error. -/
structure PrintsTree (source : String) (tree : Expr) : Prop where
  noErrors : (Scan.ofSource source).errors = []
  tokens : ∃ tokens word semicolon mark, (Scan.ofSource source).tokens =
      word :: tokens ++ [semicolon] ++ [mark] ∧ word.kind = .printWord ∧
    semicolon.kind = .semicolon ∧ mark.kind = .eof ∧ tree.TreeOf tokens

namespace PrintsTree

variable {source : String} {tree : Expr}

theorem program (h : PrintsTree source tree) :
    (Program.ofTokens (Scan.ofSource source).tokens).errors = [] ∧
      (Program.ofTokens (Scan.ofSource source).tokens).statements = [.print tree] := by
  obtain ⟨tokens, word, semicolon, mark, hTokens, hWord, hSemicolon, hMark, hTree⟩ := h.tokens
  have hStatement : Statement.TreeOf (.print tree) (word :: tokens ++ [semicolon]) :=
    ⟨.print hWord hTree.spells hSemicolon, hTree.canonical⟩
  have hTrees : Statement.TreesOf [.print tree] (word :: tokens ++ [semicolon]) := by
    simpa using Statement.TreesOf.cons hStatement .nil
  have hEnd : AtEnd [mark] := by simpa [AtEnd] using hMark
  rw [← Program.treesOf_iff, hTokens, beforeEnd_append hTrees.kind_ne_eof hEnd]
  exact hTrees

theorem clean (h : PrintsTree source tree) : Run.Clean source := ⟨h.noErrors, h.program.1⟩

theorem execution_eq (h : PrintsTree source tree) :
    (Run.fresh source).execution = interpret .endless [.print tree] := by
  rw [Run.fresh_of_clean h.clean, h.program.2]

theorem fresh_of_ok (h : PrintsTree source tree) {value : Value}
    (hValue : tree.evaluate = .ok value) :
    (Run.fresh source).diagnostics = [] ∧
      (Run.fresh source).output = utf8 (value.text ++ "\n") := by
  have hExecution : (Run.fresh source).execution = ⟨utf8 (value.text ++ "\n"), .endless, none⟩ := by
    rw [h.execution_eq, interpret, Statement.execute, hValue]
    simp [Stream.write_of_room, Stream.endless, interpret, Execution.idle]
  rw [Run.diagnostics_fresh_of_clean h.clean, Run.output, hExecution]
  exact ⟨rfl, rfl⟩

theorem fresh_of_error (h : PrintsTree source tree) {error : RuntimeError}
    (hError : tree.evaluate = .error error) :
    (Run.fresh source).diagnostics = [.runtime error.line error.message] ∧
      (Run.fresh source).output = [] := by
  have hExecution : (Run.fresh source).execution = ⟨[], .endless, some (.runtime error)⟩ := by
    rw [h.execution_eq, interpret, Statement.execute, hError]
  refine ⟨Run.diagnostics_fresh_of_error ?_, ?_⟩
  · rw [hExecution]
    rfl
  · rw [Run.output, hExecution]

end PrintsTree

/-- The entries of a print statement: the word behind a gap, those of an expression, and the
semicolon behind a gap. -/
def printEntries (lead : List Char) (entries : List Entry) (trail : List Char) : List Entry :=
  ⟨lead, .printWord, "print".toList⟩ :: entries ++ [⟨trail, .semicolon, [';']⟩]

theorem forall_mem_printEntries {p : Entry → Prop} {lead trail : List Char} {entries : List Entry} :
    (∀ entry ∈ printEntries lead entries trail, p entry) ↔
      p ⟨lead, .printWord, "print".toList⟩ ∧ (∀ entry ∈ entries, p entry) ∧
        p ⟨trail, .semicolon, [';']⟩ := by
  rw [printEntries, List.forall_mem_append, List.forall_mem_cons, List.forall_mem_singleton,
    and_assoc]

theorem lexeme_printWord : Kind.Lexeme .printWord "print".toList := .reserved (by decide)

theorem lexeme_semicolon : Kind.Lexeme .semicolon [';'] := @Kind.Lexeme.fixed .semicolon ";" rfl

/-- The text of a print statement with its entries and a gap at its end. -/
def printText (lead : List Char) (entries : List Entry) (trail last : List Char) : String :=
  String.ofList (written (printEntries lead entries trail) last)

theorem ofSource_printText {lead trail last : List Char} {entries : List Entry}
    (h : Fits (printEntries lead entries trail) last) :
    Scan.ofSource (printText lead entries trail last) =
      ⟨tokensFrom 1 (printEntries lead entries trail) ++
        [.endMark (1 + lineFeeds (written (printEntries lead entries trail) last))], []⟩ := by
  rw [Scan.ofSource, printText, String.toList_ofList, ← scanFrom, h.scanFrom_written]

/-- A print statement that is written out so that no token goes on behind its text. -/
theorem printsTree_of_fits {lead trail last : List Char} {entries : List Entry}
    (hFits : Fits (printEntries lead entries trail) last) {tree : Expr}
    (hTree : tree.TreeOf (tokensFrom (1 + lineFeeds (lead ++ "print".toList)) entries)) :
    PrintsTree (printText lead entries trail last) tree := by
  have hScan := ofSource_printText hFits
  rw [printEntries, tokensFrom_append] at hScan
  exact ⟨by rw [hScan], _, _, _, _, congrArg Scan.tokens hScan, rfl, rfl, rfl, hTree⟩

end ExprLang
