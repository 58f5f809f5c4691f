import ExprLang.Proofs.Expr.Chain
import ExprLang.Proofs.Number.Notation
import ExprLang.Proofs.Session.PrintStatement
import Mathlib.Data.List.Chain

/-!
# Printing chains of `+`

A print statement for a chain of string literals prints their concatenation, whatever the strings
hold and however they are bracketed; if one of the leaves is a number it prints nothing and reports
the `+` that has the number for an operand. Gaps may be left out between any two of the tokens, but
a number may not stand directly behind `print`.

## Main results

* `Chain.Laid.fits` — no token of a chain goes on behind its text.
* `concatenation_printed` — what a print statement for a chain prints and reports.
-/

namespace ExprLang

/-! ## Gaps that may be left out -/

/-- A token does not go on with the text of another if no gap stands between them. -/
def Entry.FitsBefore (entry next : Entry) : Prop :=
  next.gap = [] → entry.kind.EndsBefore next.text

theorem Entry.FitsBefore.endsBefore {entry next : Entry} (h : entry.FitsBefore next)
    (hKind : entry.kind ≠ .slash) (hGap : Gap next.gap) (hText : next.text ≠ [])
    (rest : List Char) : entry.kind.EndsBefore (next.written ++ rest) := by
  rw [written, List.append_assoc]
  by_cases hNil : next.gap = []
  · rw [hNil, List.nil_append, Kind.endsBefore_append hText]
    exact h hNil
  · rw [Kind.endsBefore_append hNil]
    exact hGap.endsBefore hKind

theorem Kind.Lexeme.ne_nil {kind : Kind} {text : List Char} (h : kind.Lexeme text) :
    text ≠ [] := by
  obtain ⟨char, tail, hText, _⟩ := (show (Piece.lexeme kind text).InClass from h).shape.opening
  rw [show text = char :: tail from hText]
  exact List.cons_ne_nil _ _

theorem fits_of_isChain {entries : List Entry} {last : List Char}
    (hGap : ∀ entry ∈ entries, Gap entry.gap)
    (hText : ∀ entry ∈ entries, entry.kind.Lexeme entry.text)
    (hKind : ∀ entry ∈ entries, entry.kind ≠ .slash)
    (hFits : entries.IsChain Entry.FitsBefore) (hLast : LastGap last) : Fits entries last := by
  induction entries with
  | nil => exact hLast
  | cons entry entries ih =>
      rw [List.forall_mem_cons] at hGap hText hKind
      refine ⟨hGap.1, hText.1, ?_, ih hGap.2 hText.2 hKind.2 hFits.tail⟩
      cases entries with
      | nil => exact hLast.endsBefore hKind.1
      | cons next entries =>
          rw [List.isChain_cons_cons] at hFits
          have hNextText := (hText.2 next List.mem_cons_self).ne_nil
          have hEnds := hFits.1.endsBefore hKind.1 (hGap.2 next List.mem_cons_self) hNextText
          rw [written, List.flatMap_cons, List.append_assoc]
          exact hEnds _

/-! ## The tokens of a chain -/

namespace Chain

/-- The text of a token does not begin with what could belong to the token before it, a number
apart. -/
def Opens (text : List Char) : Prop :=
  ∀ char ∈ text.head?, char = '"' ∨ char = '(' ∨ IsDigit char

/-- The kinds of tokens with which a chain ends. -/
def closers : List Kind := [.string, .number, .rightParen]

/-- The tokens of a chain may stand side by side, and so may the chain and tokens around it. -/
structure Borders (words : List (Kind × List Char)) : Prop where
  ne_nil : words ≠ []
  inside : words.IsChain fun word next => word.1.EndsBefore next.2
  opens : ∀ word ∈ words.head?, Opens word.2
  closes : ∀ word ∈ words.getLast?, word.1 ∈ closers
  kind : ∀ word ∈ words, word.1 ≠ .slash ∧ word.1.Lexeme word.2

theorem Opens.endsBefore {text : List Char} (h : Opens text) {kind : Kind}
    (hKind : kind ∈ [Kind.leftParen, .plus]) : kind.EndsBefore text := by
  have hEqual : ∀ char ∈ text.head?, char ≠ '=' := by
    rintro char hChar rfl
    exact absurd (h '=' hChar) (by decide)
  simp only [List.mem_cons, List.not_mem_nil, or_false] at hKind
  rcases hKind with rfl | rfl
  · exact Kind.endsBefore_of_fixed rfl (by decide) hEqual
  · exact Kind.endsBefore_of_fixed rfl (by decide) hEqual

/-- What a chain ends with ends before the tokens that may stand behind it. -/
theorem endsBefore_of_closer {kind : Kind} (hKind : kind ∈ closers) {mark : Char}
    (hMark : mark ∈ ['+', ')', ';']) (rest : List Char) : kind.EndsBefore (mark :: rest) := by
  have hEqual : mark ≠ '=' ∧ ¬ IsDigit mark ∧ mark ≠ '.' := by
    simp only [List.mem_cons, List.not_mem_nil, or_false] at hMark
    rcases hMark with rfl | rfl | rfl <;> decide
  simp only [closers, List.mem_cons, List.not_mem_nil, or_false] at hKind
  rcases hKind with rfl | rfl | rfl
  · exact Kind.endsBefore_of_string _
  · refine Kind.endsBefore_of_number ?_
    rintro char ⟨rfl⟩
    exact hEqual.2
  · refine Kind.endsBefore_of_fixed rfl (by decide) ?_
    rintro char ⟨rfl⟩
    exact hEqual.1

theorem borders_single {leaf : Leaf} (h : leaf.WellFormed) : Borders [leaf.word] := by
  have hWord : leaf.word.1.Lexeme leaf.word.2 ∧ leaf.word.1 ≠ .slash ∧ leaf.word.1 ∈ closers ∧
      Opens leaf.word.2 := by
    cases leaf with
    | text body =>
        refine ⟨.string h, show Kind.string ≠ .slash by decide, List.mem_cons_self, ?_⟩
        rintro char ⟨rfl⟩
        exact .inl rfl
    | number numeral =>
        obtain ⟨first, tail, rfl, hDigit⟩ := Kind.Lexeme.exists_digit_cons h
        refine ⟨h, show Kind.number ≠ .slash by decide,
          List.mem_cons_of_mem _ List.mem_cons_self, ?_⟩
        rintro char ⟨rfl⟩
        exact .inr (.inr hDigit)
  obtain ⟨hLexeme, hSlash, hCloses, hOpens⟩ := hWord
  refine ⟨List.cons_ne_nil _ _, List.isChain_singleton _, ?_, ?_, ?_⟩
  · rintro word ⟨rfl⟩
    exact hOpens
  · rintro word ⟨rfl⟩
    exact hCloses
  · exact List.forall_mem_singleton.2 ⟨hSlash, hLexeme⟩

theorem Borders.group {words : List (Kind × List Char)} (h : Borders words) :
    Borders ((.leftParen, ['(']) :: words ++ [(.rightParen, [')'])]) := by
  refine ⟨List.cons_ne_nil _ _, ?_, ?_, ?_, ?_⟩
  · rw [List.cons_append, List.isChain_cons, List.isChain_append]
    refine ⟨?_, h.inside, List.isChain_singleton _, ?_⟩
    · intro word hWord
      rw [List.head?_append_of_ne_nil _ h.ne_nil] at hWord
      exact (h.opens word hWord).endsBefore (by decide)
    · rintro word hWord _ ⟨rfl⟩
      exact endsBefore_of_closer (h.closes word hWord) (by decide) []
  · rintro word ⟨rfl⟩ char ⟨rfl⟩
    exact .inr (.inl rfl)
  · intro word hWord
    rw [List.getLast?_concat] at hWord
    cases hWord
    decide
  · simp only [List.cons_append, List.forall_mem_cons, List.forall_mem_append]
    exact ⟨⟨by decide, @Kind.Lexeme.fixed .leftParen "(" rfl⟩, h.kind,
      ⟨by decide, @Kind.Lexeme.fixed .rightParen ")" rfl⟩, List.forall_mem_nil _⟩

theorem Borders.sum {left right : List (Kind × List Char)} (hLeft : Borders left)
    (hRight : Borders right) : Borders (left ++ (.plus, ['+']) :: right) := by
  refine ⟨by simp, ?_, ?_, ?_, ?_⟩
  · rw [List.isChain_append, List.isChain_cons]
    refine ⟨hLeft.inside, ⟨?_, hRight.inside⟩, ?_⟩
    · intro word hWord
      exact (hRight.opens word hWord).endsBefore (by decide)
    · rintro word hWord _ ⟨rfl⟩
      exact endsBefore_of_closer (hLeft.closes word hWord) (by decide) []
  · intro word hWord
    rw [List.head?_append_of_ne_nil _ hLeft.ne_nil] at hWord
    exact hLeft.opens word hWord
  · intro word hWord
    rw [List.getLast?_append_of_ne_nil _ (List.cons_ne_nil _ _),
      List.getLast?_cons_of_ne_nil hRight.ne_nil] at hWord
    exact hRight.closes word hWord
  · simp only [List.forall_mem_cons, List.forall_mem_append]
    exact ⟨hLeft.kind, ⟨by decide, @Kind.Lexeme.fixed .plus "+" rfl⟩, hRight.kind⟩

theorem borders {chain : Chain} (h : ∀ leaf ∈ chain.leaves, leaf.WellFormed) :
    Borders chain.words := by
  induction chain with
  | single leaf => exact borders_single (h leaf List.mem_cons_self)
  | group inner ih => exact (ih h).group
  | sum left right ihLeft ihRight =>
      rw [leaves, List.forall_mem_append] at h
      exact (ihLeft h.1).sum (ihRight h.2)

/-- A print statement for a chain: the tokens of the chain are laid out with gaps, and no digit
stands directly behind `print`. -/
structure Laid (chain : Chain) (lead : List Char) (entries : List Entry) (trail last : List Char) :
    Prop where
  words : entries.map Entry.word = chain.words
  lead : Gap lead
  gap : ∀ entry ∈ entries, Gap entry.gap
  trail : Gap trail
  last : LastGap last
  apart : ∀ char ∈ (entries.flatMap Entry.written).head?, ¬ IsDigit char

variable {chain : Chain} {lead trail last : List Char} {entries : List Entry}

/-- The word `print` does not go on with the first token of a chain. -/
theorem Laid.fitsBefore_head (h : chain.Laid lead entries trail last)
    (hBorders : Borders (entries.map Entry.word)) :
    ∀ next ∈ (entries ++ [(⟨trail, .semicolon, [';']⟩ : Entry)]).head?,
      Entry.FitsBefore ⟨lead, .printWord, "print".toList⟩ next := by
  intro next hNext hGap char hChar hGoesOn
  have hNonempty : entries ≠ [] := mt List.map_eq_nil_iff.2 hBorders.ne_nil
  obtain ⟨first, others, rfl⟩ := List.exists_cons_of_ne_nil hNonempty
  cases hNext
  have hOpens := hBorders.opens next.word rfl char hChar
  have hApart : ¬ IsDigit char := by
    refine h.apart char ?_
    rw [List.flatMap_cons, Entry.written, hGap, List.nil_append, List.head?_append,
      Option.mem_def.1 hChar]
    rfl
  have hWord : IsLetter char ∨ IsDigit char := by
    cases hGoesOn with
    | sign hKind => cases hKind
    | word _ _ _ hPart => exact hPart
  rcases hOpens with rfl | rfl | hDigit
  · exact absurd hWord (by decide)
  · exact absurd hWord (by decide)
  · exact hApart hDigit

/-- **No token of a print statement for a chain goes on behind its text.** -/
theorem Laid.fits (h : chain.Laid lead entries trail last)
    (hLeaves : ∀ leaf ∈ chain.leaves, leaf.WellFormed) :
    Fits (printEntries lead entries trail) last := by
  have hBorders := borders hLeaves
  rw [← h.words] at hBorders
  have hEntries : ∀ entry ∈ entries, entry.kind ≠ .slash ∧ entry.kind.Lexeme entry.text :=
    fun entry hMem => hBorders.kind entry.word (List.mem_map_of_mem hMem)
  have hInside : entries.IsChain Entry.FitsBefore :=
    ((List.isChain_map _).1 hBorders.inside).imp fun _ _ hEnds _ => hEnds
  refine fits_of_isChain ?_ ?_ ?_ ?_ h.last
  · exact forall_mem_printEntries.2 ⟨h.lead, h.gap, h.trail⟩
  · exact forall_mem_printEntries.2 ⟨lexeme_printWord, fun entry hMem => (hEntries entry hMem).2,
      lexeme_semicolon⟩
  · exact forall_mem_printEntries.2 ⟨show Kind.printWord ≠ .slash by decide,
      fun entry hMem => (hEntries entry hMem).1, show Kind.semicolon ≠ .slash by decide⟩
  · rw [printEntries, List.cons_append, List.isChain_cons, List.isChain_append]
    refine ⟨h.fitsBefore_head hBorders, hInside, List.isChain_singleton _, ?_⟩
    intro entry hEntry next hNext _
    cases hNext
    refine endsBefore_of_closer (hBorders.closes entry.word ?_) (by decide) []
    rw [List.getLast?_map, Option.mem_def.1 hEntry]
    rfl

/-- A chain with single spaces around every `+` and no other gaps but one before it. -/
def plain (gap : List Char) : Chain → List Entry
  | single leaf => [⟨gap, leaf.word.1, leaf.word.2⟩]
  | group inner => ⟨gap, .leftParen, ['(']⟩ :: inner.plain [] ++ [⟨[], .rightParen, [')']⟩]
  | sum left right => left.plain gap ++ ⟨[' '], .plus, ['+']⟩ :: right.plain [' ']

theorem words_plain (gap : List Char) (chain : Chain) :
    (chain.plain gap).map Entry.word = chain.words := by
  induction chain generalizing gap with
  | single leaf => rfl
  | group inner ih => simp [plain, words, ih, Entry.word]
  | sum left right ihLeft ihRight => simp [plain, words, ihLeft, ihRight, Entry.word]

theorem gap_of_mem_plain {gap : List Char} (hGap : Gap gap) {chain : Chain} :
    ∀ entry ∈ chain.plain gap, Gap entry.gap := by
  have hSpace : Gap [' '] := .blank (by decide) .nil
  induction chain generalizing gap with
  | single leaf => exact List.forall_mem_singleton.2 hGap
  | group inner ih =>
      simp only [plain, List.cons_append, List.forall_mem_cons, List.forall_mem_append]
      exact ⟨hGap, ih .nil, .nil, List.forall_mem_nil _⟩
  | sum left right ihLeft ihRight =>
      simp only [plain, List.forall_mem_cons, List.forall_mem_append]
      exact ⟨ihLeft hGap, hSpace, ihRight hSpace⟩

theorem head?_written_plain (char : Char) (gap : List Char) (chain : Chain) :
    ((chain.plain (char :: gap)).flatMap Entry.written).head? = some char := by
  induction chain with
  | single leaf => rfl
  | group inner _ => rfl
  | sum left right ihLeft _ => rw [plain, List.flatMap_append, List.head?_append, ihLeft]; rfl

/-- Every chain can be printed in this way. -/
theorem laid_plain (chain : Chain) : chain.Laid [] (chain.plain [' ']) [] [] where
  words := words_plain [' '] chain
  lead := .nil
  gap := gap_of_mem_plain (.blank (by decide) .nil)
  trail := .nil
  last := .closed .nil
  apart := by
    rw [head?_written_plain]
    rintro _ ⟨rfl⟩
    decide

end Chain

/-! ## Tokens and the entries that they are written as -/

theorem exists_of_tokensFrom {line : Nat} {entries : List Entry} {front back : List Token}
    {token : Token} (h : tokensFrom line entries = front ++ token :: back) :
    ∃ before entry after, entries = before ++ entry :: after ∧ before.length = front.length ∧
      token = entry.token (line + lineFeeds (before.flatMap Entry.written ++ entry.gap)) := by
  induction entries generalizing line front with
  | nil => simp [tokensFrom] at h
  | cons first entries ih =>
      cases front with
      | nil =>
          rw [tokensFrom, List.nil_append, List.cons.injEq] at h
          exact ⟨[], first, entries, rfl, rfl, h.1.symm⟩
      | cons other front =>
          rw [tokensFrom, List.cons_append, List.cons.injEq] at h
          obtain ⟨before, entry, after, rfl, hLength, hToken⟩ := ih h.2
          refine ⟨first :: before, entry, after, rfl, by rw [List.length_cons, hLength]; rfl, ?_⟩
          rw [hToken, List.flatMap_cons, List.append_assoc, Scan.lineFeeds_append first.written,
            Nat.add_assoc]

/-! ## Printing -/

/-- **Chains of `+` are printed as one string.** A print statement for a chain of strings reports
nothing and prints them one after the other, however they are bracketed and laid out. With one
number among two leaves or more it prints nothing and reports one runtime error, on the line of the
one `+` that has the number for an operand: the line that the line feeds before it lead to, those in
strings and in gaps. -/
theorem concatenation_printed {chain : Chain} {lead trail last : List Char} {entries : List Entry}
    (hLeaves : ∀ leaf ∈ chain.leaves, leaf.WellFormed) (hChain : chain.Bracketed)
    (hLaid : chain.Laid lead entries trail last) :
    (∀ texts : List (List Char), chain.leaves = texts.map .text →
      (Run.fresh (printText lead entries trail last)).diagnostics = [] ∧
      (Run.fresh (printText lead entries trail last)).output =
        utf8 (String.ofList texts.flatten ++ "\n")) ∧
    (chain.numbers = 1 → 2 ≤ chain.leaves.length →
      (Run.fresh (printText lead entries trail last)).output = [] ∧
      ∃ front plus back, entries = front ++ plus :: back ∧
        (∀ before, chain.Meets before ↔ before = front.map Entry.word) ∧
        plus.word = (.plus, ['+']) ∧
        (Run.fresh (printText lead entries trail last)).diagnostics =
          [.runtime (1 + lineFeeds (lead ++ "print".toList ++ written front plus.gap))
            "Operands must be two numbers or to strings."]) := by
  obtain ⟨tree, hTree⟩ := Chain.exists_spelled hLaid.words (1 + lineFeeds (lead ++ "print".toList))
  have hPrints := printsTree_of_fits (hLaid.fits hLeaves) (hTree.treeOf hChain)
  constructor
  · intro texts hTexts
    exact hPrints.fresh_of_ok (hTree.evaluate_of_texts hTexts)
  · intro hOne hTwo
    obtain ⟨before, front, token, back, hMeets, hLength, hTokens, hError⟩ :=
      hTree.failsAtNumber hOne hTwo
    obtain ⟨frontEntries, plus, backEntries, rfl, hFront, rfl⟩ := exists_of_tokensFrom hTokens
    obtain ⟨after, hAfter⟩ := hMeets.exists_after
    -- The words before the `+` are as many as the entries before it, so they are their words.
    have hWords := hLaid.words.trans hAfter
    rw [List.map_append, List.map_cons] at hWords
    obtain ⟨hBefore, hPlus⟩ := List.append_inj hWords (by rw [List.length_map, hFront, hLength])
    obtain ⟨hDiagnostics, hOutput⟩ := hPrints.fresh_of_error hError
    refine ⟨hOutput, frontEntries, plus, backEntries, rfl, fun other => ⟨?_, ?_⟩,
      (List.cons.inj hPlus).1, ?_⟩
    · intro hOther
      exact (hOther.unique hMeets hOne).trans hBefore.symm
    · rintro rfl
      exact hBefore ▸ hMeets
    · rw [hDiagnostics, written, Scan.lineFeeds_append _ (_ ++ _), ← Nat.add_assoc]
      rfl

/-- Strings that look like a comment, like the end of a group and like a sum, over several lines;
with a number in a group of its own the second `+` fails. -/
theorem concatenation_printed_over_lines :
    let strings : Chain := .sum (.single (.text "//\n".toList))
      (.group (.sum (.single (.text ") + ".toList)) (.single (.text "nill".toList))))
    let mixed : Chain := .sum (.single (.text "//\n".toList))
      (.group (.sum (.group (.single (.number ['1']))) (.single (.text ") + ".toList))))
    (∀ leaf ∈ strings.leaves, leaf.WellFormed) ∧ strings.Bracketed ∧
      strings.Laid [] (strings.plain [' ']) [] [] ∧
      (∀ leaf ∈ mixed.leaves, leaf.WellFormed) ∧ mixed.Bracketed ∧
      mixed.Laid [] (mixed.plain [' ']) [] [] ∧ mixed.numbers = 1 ∧ 2 ≤ mixed.leaves.length ∧
      (Run.fresh "print \"//\n\" + (\") + \" + \"nill\");").diagnostics = [] ∧
      (Run.fresh "print \"//\n\" + (\") + \" + \"nill\");").output = utf8 "//\n) + nill\n" ∧
      (Run.fresh "print \"//\n\" + ((1) + \") + \");").output = [] ∧
      (Run.fresh "print \"//\n\" + ((1) + \") + \");").diagnostics =
        [.runtime 2 "Operands must be two numbers or to strings."] := by
  intro strings mixed
  have hStrings : ∀ leaf ∈ strings.leaves, leaf.WellFormed := by
    simp only [strings, Chain.leaves, List.cons_append, List.nil_append, List.forall_mem_cons]
    exact ⟨show '"' ∉ _ by decide, show '"' ∉ _ by decide, show '"' ∉ _ by decide,
      List.forall_mem_nil _⟩
  have hMixed : ∀ leaf ∈ mixed.leaves, leaf.WellFormed := by
    simp only [mixed, Chain.leaves, List.cons_append, List.nil_append, List.forall_mem_cons]
    exact ⟨show '"' ∉ _ by decide, .whole ⟨List.cons_ne_nil _ _, List.forall_mem_singleton.2
      (by decide)⟩, show '"' ∉ _ by decide, List.forall_mem_nil _⟩
  obtain ⟨hCalm, hOutput⟩ :=
    (concatenation_printed hStrings ⟨rfl, trivial, rfl, trivial, trivial⟩ strings.laid_plain).1
      ["//\n".toList, ") + ".toList, "nill".toList] rfl
  obtain ⟨hNothing, front, plus, back, hEntries, hMeets, _, hReport⟩ :=
    (concatenation_printed hMixed ⟨rfl, trivial, rfl, trivial, trivial⟩ mixed.laid_plain).2 rfl
      (by decide)
  have hWords := (hMeets _).1 (.inRight (.inGroup (.operand (.inl ⟨['1'], rfl⟩))))
  have hLength : 6 = front.length := (congrArg List.length hWords).trans (List.length_map _)
  have hFront : (mixed.plain [' ']).take 6 = front := by rw [hEntries, hLength, List.take_left]
  have hPlus : (mixed.plain [' ']).drop 6 = plus :: back := by
    rw [hEntries, hLength, List.drop_left]
  cases hFront
  obtain ⟨rfl, -⟩ := List.cons.inj hPlus
  exact ⟨hStrings, ⟨rfl, trivial, rfl, trivial, trivial⟩, strings.laid_plain, hMixed,
    ⟨rfl, trivial, rfl, trivial, trivial⟩, mixed.laid_plain, rfl, by decide, hCalm, hOutput,
    hNothing, hReport⟩

end ExprLang
