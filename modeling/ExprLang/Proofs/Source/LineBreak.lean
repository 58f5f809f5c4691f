import ExprLang.Proofs.Source.Lines

/-!
# Line breaks separate what is scanned before them from what is scanned after them

No piece but a string goes on over a line feed. So a source text whose strings are all closed is
cut into the same pieces whatever comes behind a line feed after it, and what comes behind is cut as
if it stood alone. Only the lines are counted on.

A carriage return at the end of a text is a blank or belongs to a comment, so it changes neither
tokens nor errors.

## Main results

* `pieces_append_lineFeed` — the pieces of two texts with a line feed between them.
* `Scan.ofSource_append_lineFeed` — the tokens and the errors of such a text.
* `Scan.spelled_append_return` — a carriage return at the end changes nothing.
-/

namespace ExprLang

/-! ## Pieces before a blank -/

/-- What is taken from the front of a text stays the same if more text comes behind it, unless all
of it is taken and the text behind goes on. -/
theorem takeWhile_append_stop {test : Char → Bool} {chars behind : List Char}
    (hStop : chars.dropWhile test = [] → ∀ next ∈ behind.head?, test next = false) :
    (chars ++ behind).takeWhile test = chars.takeWhile test ∧
      (chars ++ behind).dropWhile test = chars.dropWhile test ++ behind := by
  induction chars with
  | nil =>
      cases behind with
      | nil => exact ⟨rfl, rfl⟩
      | cons next behind => simp [hStop rfl next rfl]
  | cons char chars ih =>
      rw [List.dropWhile_cons] at hStop
      rw [List.cons_append, List.takeWhile_cons, List.takeWhile_cons, List.dropWhile_cons,
        List.dropWhile_cons]
      split
      · rename_i hTest
        rw [if_pos hTest] at hStop
        exact ⟨congrArg _ (ih hStop).1, (ih hStop).2⟩
      · exact ⟨rfl, rfl⟩

theorem takeWhile_append_cons {test : Char → Bool} {mark : Char} (hMark : test mark = false)
    (chars rest : List Char) :
    (chars ++ mark :: rest).takeWhile test = chars.takeWhile test ∧
      (chars ++ mark :: rest).dropWhile test = chars.dropWhile test ++ mark :: rest := by
  refine takeWhile_append_stop fun _ next hNext => ?_
  cases hNext
  exact hMark

namespace Piece

/-- The same piece with more text behind it. -/
def followedBy (cut : Piece × List Char) (behind : List Char) : Piece × List Char :=
  (cut.1, cut.2 ++ behind)

theorem not_part_of_blank {mark : Char} (h : mark ∈ blanks) :
    isWordPart mark = false ∧ mark.isDigit = false ∧ mark ≠ '.' ∧ mark ≠ '=' ∧ mark ≠ '/' := by
  simp only [blanks, List.mem_cons, List.not_mem_nil, or_false] at h
  rcases h with rfl | rfl | rfl | rfl <;> decide

theorem word_append_blank {mark : Char} (h : mark ∈ blanks) (chars rest : List Char) :
    word (chars ++ mark :: rest) = followedBy (word chars) (mark :: rest) := by
  obtain ⟨hTaken, hDropped⟩ := takeWhile_append_cons (not_part_of_blank h).1 chars rest
  simp only [word, hTaken, hDropped, followedBy]

theorem numeral_append_blank {mark : Char} (h : mark ∈ blanks) (chars rest : List Char) :
    numeral (chars ++ mark :: rest) = followedBy (numeral chars) (mark :: rest) := by
  obtain ⟨-, hDigit, hPoint, -, -⟩ := not_part_of_blank h
  obtain ⟨hTaken, hDropped⟩ := takeWhile_append_cons hDigit chars rest
  simp only [numeral, hTaken, hDropped]
  cases chars.dropWhile Char.isDigit with
  | nil => simp [hPoint, followedBy]
  | cons next tail =>
      obtain ⟨hFraction, hRest⟩ := takeWhile_append_cons hDigit tail rest
      by_cases hNext : next = '.'
      · subst hNext
        simp only [List.cons_append, hFraction, hRest]
        split <;> rfl
      · simp [hNext, followedBy]

/-- A string that is closed ends at its second quote, whatever comes behind. -/
theorem quotation_append {chars : List Char} (h : ∀ body, (quotation chars).1 ≠ unterminated body)
    (behind : List Char) :
    quotation (chars ++ behind) = followedBy (quotation chars) behind := by
  cases hDropped : chars.dropWhile (· ≠ '"') with
  | nil =>
      refine absurd ?_ (h (chars.takeWhile (· ≠ '"')))
      simp only [quotation, hDropped]
  | cons quote tail =>
      obtain ⟨hTaken, hRest⟩ := @takeWhile_append_stop (· ≠ '"') chars behind
        fun hNil => absurd (hDropped.symm.trans hNil) (List.cons_ne_nil _ _)
      simp only [quotation, hTaken, hRest, hDropped, List.cons_append, followedBy]

/-- A comment that does not end with a line feed goes on up to the end of the text. -/
theorem punctuation_append_blank {mark : Char} (hMark : mark ∈ blanks) {char : Char} {kind : Kind}
    {chars : List Char}
    (hEnds : mark = '\n' ∨ ∀ body, punctuation char kind chars ≠ (comment body, []))
    (rest : List Char) :
    punctuation char kind (chars ++ mark :: rest) =
      followedBy (punctuation char kind chars) (mark :: rest) := by
  obtain ⟨-, -, -, hEqual, hSlash⟩ := not_part_of_blank hMark
  cases chars with
  | nil => simp [punctuation, hEqual, hSlash, followedBy]
  | cons next tail =>
      by_cases hComment : next = '/' ∧ kind = .slash
      · obtain ⟨rfl, rfl⟩ := hComment
        obtain ⟨hBody, hRest⟩ := @takeWhile_append_stop (· ≠ '\n') tail (mark :: rest) <| by
          intro hNil next hNext
          cases hNext
          rcases hEnds with rfl | hOpen
          · rfl
          · refine absurd ?_ (hOpen (tail.takeWhile (· ≠ '\n')))
            simp only [punctuation, hNil, if_true]
        simp only [punctuation, List.cons_append, if_true, hBody, hRest, followedBy]
      by_cases hNext : next = '='
      · subst hNext
        simp only [punctuation, List.cons_append]
        split <;> rfl
      by_cases hSlashed : next = '/'
      · have hKind : kind ≠ .slash := fun hKind => hComment ⟨hSlashed, hKind⟩
        simp [hSlashed, punctuation, hKind, followedBy]
      · simp [punctuation, hNext, hSlashed, followedBy]

/-- A blank behind a text changes nothing about its first piece, unless this is a string that is not
closed, or a comment that goes on with the blank. -/
theorem first_append_blank {mark : Char} (hMark : mark ∈ blanks) {char : Char} {chars : List Char}
    (hClosed : ∀ body, (first char chars).1 ≠ unterminated body)
    (hEnds : mark = '\n' ∨ ∀ body, first char chars ≠ (comment body, [])) (rest : List Char) :
    first char (chars ++ mark :: rest) = followedBy (first char chars) (mark :: rest) := by
  by_cases hOpening : Opening char
  · rcases hOpening with hBlank | hDigit | hLetter | rfl | ⟨kind, hKind⟩
    · rw [first_of_blank hBlank, first_of_blank hBlank, followedBy]
    · rw [first_of_digit hDigit, first_of_digit hDigit, ← List.cons_append,
        numeral_append_blank hMark]
    · rw [first_of_letter hLetter, first_of_letter hLetter, ← List.cons_append,
        word_append_blank hMark]
    · rw [first_quote] at hClosed ⊢
      exact quotation_append hClosed _
    · rw [first_of_ofChar? hKind] at hEnds ⊢
      rw [first_of_ofChar? hKind]
      exact punctuation_append_blank hMark hEnds rest
  · rw [first_of_not_opening hOpening, first_of_not_opening hOpening, followedBy]

/-- A comment up to the end of a text goes on with what comes behind on the same line. -/
theorem first_append_comment {char : Char} {chars body : List Char}
    (hComment : first char chars = (comment body, [])) {more : List Char} (hMore : '\n' ∉ more) :
    first char (chars ++ more) = (comment (body ++ more), []) := by
  have hText := text_first char chars
  rw [hComment, List.append_nil] at hText
  cases hText
  have hBody : '\n' ∉ body := by
    have hSlash : Opening '/' := .inr (.inr (.inr (.inr ⟨.slash, rfl⟩)))
    have hInClass := (inClass_first hSlash ('/' :: body)).1
    rwa [hComment] at hInClass
  have hMoreBody : (comment (body ++ more)).InClass := by simp [InClass, hBody, hMore]
  exact first_of_inClass hMoreBody rfl

end Piece

/-! ## Pieces on both sides of a line feed -/

theorem pieces_cons (char : Char) (rest : List Char) :
    pieces (char :: rest) = (Piece.first char rest).1 :: pieces (Piece.first char rest).2 := by
  rw [pieces]

/-- Whether all strings of a text are closed. -/
def Closes (source : List Char) : Prop := ∀ body, .unterminated body ∉ pieces source

theorem Closes.first {char : Char} {rest : List Char} (h : Closes (char :: rest)) :
    ∀ body, (Piece.first char rest).1 ≠ .unterminated body := by
  intro body hFirst
  apply h body
  rw [pieces_cons, hFirst]
  exact List.mem_cons_self

theorem Closes.rest {char : Char} {rest : List Char} (h : Closes (char :: rest)) :
    Closes (Piece.first char rest).2 := by
  intro body hMem
  apply h body
  rw [pieces_cons]
  exact List.mem_cons_of_mem _ hMem

/-- **A text is cut into the same pieces whatever comes behind a line feed after it.** -/
theorem pieces_append_lineFeed {source : List Char} (behind : List Char) :
    Closes source →
      pieces (source ++ '\n' :: behind) = pieces source ++ .blank '\n' :: pieces behind := by
  fun_induction pieces source with
  | case1 =>
      intro _
      rw [List.nil_append, pieces_cons, Piece.first_of_blank (by decide), List.nil_append]
  | case2 char rest ih =>
      intro hClosed
      have hFirst := Piece.first_append_blank (by decide) hClosed.first (.inl rfl) behind
      rw [List.cons_append, pieces_cons, hFirst]
      exact congrArg _ (ih hClosed.rest)

namespace Scan

/-! ## A carriage return at the end -/

/-- **A carriage return at the end of a text changes nothing**, if all strings are closed. It is a
piece of its own, or it belongs to a comment. -/
theorem spelled_append_return {source : List Char} (line : Nat) :
    Closes source →
      spelled line (pieces (source ++ ['\r'])) = spelled line (pieces source) ∧
        defects line (pieces (source ++ ['\r'])) = defects line (pieces source) := by
  fun_induction pieces source generalizing line with
  | case1 =>
      intro _
      rw [List.nil_append, pieces_cons, Piece.first_of_blank (by decide), pieces]
      exact ⟨rfl, rfl⟩
  | case2 char rest ih =>
      intro hClosed
      rw [List.cons_append, pieces_cons]
      by_cases hComment : ∃ body, Piece.first char rest = (.comment body, [])
      · obtain ⟨body, hFirst⟩ := hComment
        rw [Piece.first_append_comment hFirst (by decide), hFirst, pieces]
        exact ⟨rfl, rfl⟩
      · have hEnds : ∀ body, Piece.first char rest ≠ (.comment body, []) := not_exists.1 hComment
        obtain ⟨hTokens, hErrors⟩ :=
          ih (line + lineFeeds (Piece.first char rest).1.text) hClosed.rest
        rw [Piece.first_append_blank (by decide) hClosed.first (.inr hEnds), spelled_cons,
          spelled_cons, defects_cons, defects_cons, Piece.followedBy, hTokens, hErrors]
        exact ⟨rfl, rfl⟩

/-! ## Scans on both sides of a line feed -/

/-- An unclosed string is reported. -/
theorem closes_of_defects {source : List Char}
    (h : ∀ line, .unterminatedString line ∉ defects 1 (pieces source)) : Closes source := by
  intro body hMem
  have hDefect : Defect.unterminated ∈ (pieces source).filterMap Piece.defect? :=
    List.mem_filterMap.2 ⟨_, hMem, rfl⟩
  rw [← map_filterMap_withLines defect_error? 1] at hDefect
  obtain ⟨error, hError, hKind⟩ := List.mem_map.1 hDefect
  cases error with
  | unterminatedString line => exact h line hError
  | unexpectedCharacter char line => cases hKind

theorem lineFeeds_append_lineFeed (text behind : List Char) :
    lineFeeds (text ++ '\n' :: behind) = lineFeeds behind + (1 + lineFeeds text) := by
  rw [lineFeeds_append, lineFeeds, lineFeeds, lineFeeds, List.count_cons_self]
  omega

theorem spelled_append_lineFeed {source : List Char} (hClosed : Closes source)
    (behind : List Char) :
    spelled 1 (pieces (source ++ '\n' :: behind)) = spelled 1 (pieces source) ++
      (spelled 1 (pieces behind)).map (Token.later (1 + lineFeeds source)) := by
  rw [pieces_append_lineFeed behind hClosed, spelled_append, flatMap_text_pieces, ← spelled_add,
    Nat.add_comm 1 (1 + _)]
  rfl

theorem defects_append_lineFeed {source : List Char} (hClosed : Closes source)
    (behind : List Char) :
    defects 1 (pieces (source ++ '\n' :: behind)) = defects 1 (pieces source) ++
      (defects 1 (pieces behind)).map (ScanError.later (1 + lineFeeds source)) := by
  rw [pieces_append_lineFeed behind hClosed, defects_append, flatMap_text_pieces, ← defects_add,
    Nat.add_comm 1 (1 + _)]
  rfl

/-- **Scanning is compositional at line breaks.** If all strings of a text are closed, then the text
with a line feed and another text behind it has the tokens of the first without the end mark, and
after them those of the second, as many lines later as there are line feeds before it. The same
holds of the errors. -/
theorem ofSource_append_lineFeed {source : String} (behind : String)
    (hClosed : ∀ line, .unterminatedString line ∉ (ofSource source).errors) :
    ∃ scanned last, (ofSource source).tokens = scanned ++ [Token.endMark last] ∧
      (ofSource (source ++ "\n" ++ behind)).tokens =
        scanned ++ (ofSource behind).tokens.map (Token.later (1 + lineFeeds source.toList)) ∧
      (ofSource (source ++ "\n" ++ behind)).errors = (ofSource source).errors ++
        (ofSource behind).errors.map (ScanError.later (1 + lineFeeds source.toList)) := by
  have hSource : (source ++ "\n" ++ behind).toList = source.toList ++ '\n' :: behind.toList := by
    simp
  have hClosed : Closes source.toList :=
    closes_of_defects (by simpa only [ofSource_eq] using hClosed)
  refine ⟨spelled 1 (pieces source.toList), 1 + lineFeeds source.toList, ?_, ?_, ?_⟩
  · rw [ofSource_eq]
  · rw [ofSource_eq, ofSource_eq, hSource, spelled_append_lineFeed hClosed,
      lineFeeds_append_lineFeed, List.map_append, List.append_assoc, ← Nat.add_assoc]
    rfl
  · rw [ofSource_eq, ofSource_eq, ofSource_eq, hSource, defects_append_lineFeed hClosed]

/-- The comment before the line feed holds a quote, and the string before it a line feed; a string
behind it is never closed. -/
theorem ofSource_append_lineFeed_in_comment :
    (∀ line, .unterminatedString line ∉ (ofSource "\"\n\" @ // \"").errors) ∧
      ((ofSource ("\"\n\" @ // \"" ++ "\n" ++ "! #\"")).tokens.map fun token =>
        (token.kind, token.line)) = [(.string, 1), (.bang, 3), (.eof, 3)] ∧
      (ofSource ("\"\n\" @ // \"" ++ "\n" ++ "! #\"")).errors =
        [.unexpectedCharacter '@' 2, .unexpectedCharacter '#' 3, .unterminatedString 3] := by
  have hErrors : (ofSource "\"\n\" @ // \"").errors = [.unexpectedCharacter '@' 2] := by
    decide +kernel
  have hClosed : ∀ line, .unterminatedString line ∉ (ofSource "\"\n\" @ // \"").errors := by
    simp [hErrors]
  obtain ⟨scanned, last, hTokens, hAll, hReported⟩ := ofSource_append_lineFeed "! #\"" hClosed
  have hFirst : (ofSource "\"\n\" @ // \"").tokens.map (fun token => (token.kind, token.line)) =
      [(.string, 1)] ++ [(.eof, 2)] := by decide +kernel
  rw [hTokens, List.map_append] at hFirst
  refine ⟨hClosed, ?_, ?_⟩
  · rw [hAll, List.map_append, (List.append_inj' hFirst rfl).1]
    decide +kernel
  · rw [hReported]
    decide +kernel

end Scan

end ExprLang
