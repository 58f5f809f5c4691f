import ExprLang.Proofs.Program.Sentence

/-!
# Programs without syntax errors

A program is read without an error exactly if its tokens up to the first end mark are statements of
the grammar one after the other, and then the statements that are read are the only canonical trees
with that yield. Both directions follow the statements from left to right: a canonical statement is
read back wherever it stands, and a statement that was read is the tree of what it used up.

## Main results

* `Program.readItems_of_treesOf` — canonical statements are read back from their yields.
* `Program.exists_treesOf` — items without an error are the canonical trees of the tokens.
* `Program.errors_eq_nil_iff_text` — a program is accepted exactly if it is a text of the grammar,
  and its statements are then its one and only canonical trees.
-/

namespace ExprLang

/-! ## The end of the tokens -/

/-- The tokens before the first end mark, or all tokens if there is none. -/
def beforeEnd (tokens : List Token) : List Token :=
  tokens.takeWhile fun token => token.kind ≠ .eof

/-- A token list is empty or begins with an end mark. -/
def AtEnd (rest : List Token) : Prop := ∀ token ∈ rest.head?, token.kind = .eof

theorem beforeEnd_append {tokens rest : List Token} (h : ∀ token ∈ tokens, token.kind ≠ .eof)
    (hEnd : AtEnd rest) : beforeEnd (tokens ++ rest) = tokens := by
  unfold beforeEnd
  rw [List.takeWhile_append_of_pos (by simpa using h)]
  cases rest with
  | nil => simp
  | cons token rest => simp [hEnd token rfl]

theorem atEnd_dropWhile (tokens : List Token) :
    AtEnd (tokens.dropWhile fun token => token.kind ≠ .eof) := by
  intro token hToken
  by_contra hKind
  have hHead := List.head?_dropWhile_not (fun token : Token => token.kind ≠ .eof) tokens
  rw [Option.mem_def.1 hToken] at hHead
  simp [hKind] at hHead

theorem Statement.TreesOf.kind_ne_eof {trees : List Statement} {tokens : List Token}
    (h : TreesOf trees tokens) : ∀ token ∈ tokens, token.kind ≠ .eof := by
  induction h with
  | nil => simp
  | cons hTree _ ih =>
      intro token hMem
      rcases List.mem_append.1 hMem with hMem | hMem
      · exact hTree.spells.kind_ne_eof token hMem
      · exact ih token hMem

namespace Program

/-! ## Items -/

theorem readItems_cons {token : Token} (h : token.kind ≠ .eof) (tokens : List Token) :
    readItems (token :: tokens) =
      (Statement.read (token :: tokens)).result ::
        readItems (Statement.read (token :: tokens)).resume := by
  rw [readItems, if_neg h]

theorem readItems_of_atEnd {rest : List Token} (h : AtEnd rest) : readItems rest = [] := by
  cases rest with
  | nil => rw [readItems]
  | cons token rest => rw [readItems, if_pos (h token rfl)]

/-- A canonical statement is one item, and reading goes on after it. -/
theorem readItems_of_treeOf {tree : Statement} {tokens : List Token} (h : tree.TreeOf tokens)
    (rest : List Token) : readItems (tokens ++ rest) = .ok tree :: readItems rest := by
  obtain ⟨first, others, rfl⟩ := List.exists_cons_of_ne_nil h.spells.ne_nil
  have hFirst : first.kind ≠ .eof := h.spells.kind_ne_eof first (List.mem_cons_self ..)
  have hRead : Statement.read (first :: (others ++ rest)) = ⟨.ok tree, rest⟩ :=
    Statement.read_of_treeOf h rest
  rw [List.cons_append, readItems_cons hFirst, hRead]
  rfl

/-- **Canonical statements are read back from their yields.** -/
theorem readItems_of_treesOf {trees : List Statement} {tokens rest : List Token}
    (h : Statement.TreesOf trees tokens) (hEnd : AtEnd rest) :
    readItems (tokens ++ rest) = trees.map .ok := by
  induction h with
  | nil => exact readItems_of_atEnd hEnd
  | cons hTree _ ih => rw [List.append_assoc, readItems_of_treeOf hTree, ih, List.map_cons]

/-- **Items without an error are the canonical trees of the tokens before the end.** -/
theorem exists_treesOf {tokens : List Token} :
    ∀ {trees : List Statement}, readItems tokens = trees.map .ok →
      ∃ taken rest, tokens = taken ++ rest ∧ AtEnd rest ∧ Statement.TreesOf trees taken := by
  fun_induction readItems tokens with
  | case1 =>
      intro trees h
      cases List.map_eq_nil_iff.1 h.symm
      exact ⟨[], [], rfl, by simp [AtEnd], .nil⟩
  | case2 token tokens hEof =>
      intro trees h
      cases List.map_eq_nil_iff.1 h.symm
      exact ⟨[], token :: tokens, rfl, by simpa [AtEnd] using hEof, .nil⟩
  | case3 token tokens _ reading =>
      rename_i ih
      intro trees h
      obtain ⟨tree, others, rfl, hResult, hOthers⟩ := List.map_eq_cons_iff.1 h.symm
      have hRead : reading.result = .ok tree := hResult.symm
      have hResume : reading.resume = reading.rest := by simp only [Reading.resume, hRead]
      obtain ⟨used, hTokens, hTree⟩ := Statement.treeOf_of_read hRead
      obtain ⟨taken, rest, hRest, hEnd, hTrees⟩ := ih hOthers.symm
      refine ⟨used ++ taken, rest, ?_, hEnd, .cons hTree hTrees⟩
      rw [List.append_assoc, ← hRest, hResume]
      exact hTokens

/-! ## Acceptance -/

/-- A program without errors has its statements for items. -/
theorem items_eq_of_errors_eq_nil {program : Program} (h : program.errors = []) :
    program.items = program.statements.map .ok := by
  obtain ⟨items⟩ := program
  simp only [errors, statements] at h ⊢
  induction items with
  | nil => rfl
  | cons item items ih =>
      cases item with
      | error error => simp at h
      | ok statement =>
          simp only [List.filterMap_cons, Except.toOption, List.map_cons] at h ⊢
          exact congrArg _ (ih h)

theorem errors_of_items_eq {program : Program} {trees : List Statement}
    (h : program.items = trees.map .ok) : program.errors = [] ∧ program.statements = trees := by
  constructor
  · simp [errors, h]
  · simp [statements, h, Except.toOption, Function.comp_def]

/-- The canonical trees of the tokens before the end are the statements of a program without
errors. -/
theorem treesOf_iff (tokens : List Token) (trees : List Statement) :
    Statement.TreesOf trees (beforeEnd tokens) ↔
      (ofTokens tokens).errors = [] ∧ (ofTokens tokens).statements = trees := by
  constructor
  · intro h
    have hItems := readItems_of_treesOf h (atEnd_dropWhile tokens)
    rw [beforeEnd, List.takeWhile_append_dropWhile] at hItems
    exact errors_of_items_eq hItems
  · rintro ⟨hErrors, rfl⟩
    obtain ⟨taken, rest, hTokens, hEnd, hTrees⟩ :=
      exists_treesOf (items_eq_of_errors_eq_nil hErrors)
    rw [hTokens, beforeEnd_append hTrees.kind_ne_eof hEnd, ← hTokens]
    exact hTrees

/-- **A program is accepted exactly if it is a text of the grammar.** It has no error if and only
if the tokens before the end are statements one after the other. Its statements are then trees
with these tokens as their yield that the levels of the grammar allow, and there are no others. -/
theorem errors_eq_nil_iff_text (tokens : List Token) :
    ((ofTokens tokens).errors = [] ↔ Grammar.Text (beforeEnd tokens)) ∧
      ∀ trees : List Statement, Statement.TreesOf trees (beforeEnd tokens) ↔
        (ofTokens tokens).errors = [] ∧ trees = (ofTokens tokens).statements := by
  refine ⟨?_, fun trees => ?_⟩
  · rw [Grammar.text_iff]
    constructor
    · intro hErrors
      exact ⟨_, (treesOf_iff tokens _).2 ⟨hErrors, rfl⟩⟩
    · rintro ⟨trees, hTrees⟩
      exact ((treesOf_iff tokens trees).1 hTrees).1
  · rw [treesOf_iff, @eq_comm _ trees]

end Program

end ExprLang
