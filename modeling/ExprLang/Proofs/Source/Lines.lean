import ExprLang.Proofs.Source.Tiling

/-!
# Lines of tokens and errors

A piece starts on the line that the line feeds before it lead to. So the tokens and the errors of
pieces that start on a later line are the same ones, as many lines later, and no line is below the
first or above the last line of the source text.

## Main results

* `Scan.spelled_append`, `Scan.defects_append` — the scan of pieces and others after them.
* `Scan.spelled_add`, `Scan.defects_add` — the scan of pieces on later lines.
* `Scan.line_of_mem_tokens`, `Scan.line_of_mem_errors` — the lines lie in the source text.
* `Scan.pairwise_tokens`, `Scan.pairwise_errors` — the lines never go back.
-/

namespace ExprLang

/-! ## Counting lines on -/

/-- The same token a number of lines later. -/
def Token.later (lines : Nat) (token : Token) : Token := { token with line := token.line + lines }

/-- The same error a number of lines later. -/
def ScanError.later (lines : Nat) : ScanError → ScanError
  | unterminatedString line => unterminatedString (line + lines)
  | unexpectedCharacter char line => unexpectedCharacter char (line + lines)

namespace Scan

/-- The tokens of pieces that start on a line, without the end mark. -/
def spelled (line : Nat) (tiles : List Piece) : List Token :=
  (withLines line tiles).filterMap fun (line, piece) => token? line piece

/-- The errors of pieces that start on a line. -/
def defects (line : Nat) (tiles : List Piece) : List ScanError :=
  (withLines line tiles).filterMap fun (line, piece) => error? line piece

theorem ofPieces_eq (line : Nat) (tiles : List Piece) :
    ofPieces line tiles =
      ⟨spelled line tiles ++ [.endMark (line + lineFeeds (tiles.flatMap Piece.text))],
        defects line tiles⟩ := rfl

theorem ofSource_eq (source : String) :
    ofSource source =
      ⟨spelled 1 (pieces source.toList) ++ [.endMark (1 + lineFeeds source.toList)],
        defects 1 (pieces source.toList)⟩ := by
  rw [ofSource, ofPieces_eq, flatMap_text_pieces]

theorem lineFeeds_append (text behind : List Char) :
    lineFeeds (text ++ behind) = lineFeeds text + lineFeeds behind :=
  List.count_append

theorem withLines_append (line : Nat) (tiles others : List Piece) :
    withLines line (tiles ++ others) =
      withLines line tiles ++ withLines (line + lineFeeds (tiles.flatMap Piece.text)) others := by
  induction tiles generalizing line with
  | nil => rfl
  | cons piece tiles ih =>
      rw [List.cons_append, withLines, withLines, ih, List.flatMap_cons, lineFeeds_append,
        Nat.add_assoc, List.cons_append]

theorem withLines_add (line lines : Nat) (tiles : List Piece) :
    withLines (line + lines) tiles =
      (withLines line tiles).map fun (line, piece) => (line + lines, piece) := by
  induction tiles generalizing line with
  | nil => rfl
  | cons piece tiles ih =>
      rw [withLines, withLines, Nat.add_right_comm, ih, List.map_cons]

theorem spelled_append (line : Nat) (tiles others : List Piece) :
    spelled line (tiles ++ others) =
      spelled line tiles ++ spelled (line + lineFeeds (tiles.flatMap Piece.text)) others := by
  rw [spelled, withLines_append, List.filterMap_append]
  rfl

theorem defects_append (line : Nat) (tiles others : List Piece) :
    defects line (tiles ++ others) =
      defects line tiles ++ defects (line + lineFeeds (tiles.flatMap Piece.text)) others := by
  rw [defects, withLines_append, List.filterMap_append]
  rfl

theorem token?_add (line lines : Nat) (piece : Piece) :
    token? (line + lines) piece = (token? line piece).map (Token.later lines) := by
  cases piece <;> rfl

theorem error?_add (line lines : Nat) (piece : Piece) :
    error? (line + lines) piece = (error? line piece).map (ScanError.later lines) := by
  cases piece with
  | unterminated body =>
      rw [error?, Nat.add_right_comm]
      rfl
  | _ => rfl

theorem spelled_add (line lines : Nat) (tiles : List Piece) :
    spelled (line + lines) tiles = (spelled line tiles).map (Token.later lines) := by
  rw [spelled, withLines_add, List.filterMap_map, spelled, List.map_filterMap]
  exact congrArg₂ _ (funext fun _ => token?_add _ _ _) rfl

theorem defects_add (line lines : Nat) (tiles : List Piece) :
    defects (line + lines) tiles = (defects line tiles).map (ScanError.later lines) := by
  rw [defects, withLines_add, List.filterMap_map, defects, List.map_filterMap]
  exact congrArg₂ _ (funext fun _ => error?_add _ _ _) rfl

theorem spelled_cons (line : Nat) (piece : Piece) (tiles : List Piece) :
    spelled line (piece :: tiles) =
      (token? line piece).toList ++ spelled (line + lineFeeds piece.text) tiles := by
  rw [spelled, withLines, List.filterMap_cons]
  cases piece <;> rfl

theorem defects_cons (line : Nat) (piece : Piece) (tiles : List Piece) :
    defects line (piece :: tiles) =
      (error? line piece).toList ++ defects (line + lineFeeds piece.text) tiles := by
  rw [defects, withLines, List.filterMap_cons]
  cases piece <;> rfl

/-- No token of a piece is an end mark. -/
theorem kind_ne_eof_of_mem_spelled {line : Nat} {source : List Char} {token : Token}
    (h : token ∈ spelled line (pieces source)) : token.kind ≠ .eof := by
  obtain ⟨⟨line, piece⟩, hLined, hToken⟩ := List.mem_filterMap.1 h
  have hPiece := (tiles_pieces source).inClass_or_rejected piece (mem_of_mem_withLines hLined)
  obtain ⟨text, hWellFormed⟩ := wellFormed_of_token? hToken hPiece
  exact hWellFormed.kind.kind_ne_eof

/-! ## The lines of a source text -/

theorem line_of_mem_withLines {start line : Nat} {piece : Piece} {tiles : List Piece}
    (h : (line, piece) ∈ withLines start tiles) :
    start ≤ line ∧
      line + lineFeeds piece.text ≤ start + lineFeeds (tiles.flatMap Piece.text) := by
  induction tiles generalizing start with
  | nil => cases h
  | cons front tiles ih =>
      rw [List.flatMap_cons, lineFeeds_append]
      rcases List.mem_cons.1 h with hFront | hTiles
      · cases hFront
        omega
      · have hLine := ih hTiles
        omega

theorem line_of_token? {line : Nat} {piece : Piece} {token : Token}
    (h : token? line piece = some token) : token.line = line := by
  cases piece with
  | lexeme kind text =>
      cases h
      rfl
  | _ => cases h

/-- An error is reported on a line of its piece. -/
theorem line_of_error? {line : Nat} {piece : Piece} {error : ScanError}
    (h : error? line piece = some error) :
    line ≤ error.line ∧ error.line ≤ line + lineFeeds piece.text := by
  cases piece with
  | rejected char =>
      cases h
      exact ⟨Nat.le_refl _, Nat.le_add_right _ _⟩
  | unterminated body =>
      cases h
      have hBody : lineFeeds (Piece.unterminated body).text = lineFeeds body := by
        simp [Piece.text, lineFeeds]
      rw [hBody]
      exact ⟨Nat.le_add_right _ _, Nat.le_refl _⟩
  | _ => cases h

theorem line_of_mem_tokens {source : String} {token : Token}
    (h : token ∈ (ofSource source).tokens) :
    1 ≤ token.line ∧ token.line ≤ 1 + lineFeeds source.toList := by
  rw [ofSource_eq] at h
  rcases List.mem_append.1 h with hSpelled | hLast
  · obtain ⟨⟨line, piece⟩, hPiece, hToken⟩ := List.mem_filterMap.1 hSpelled
    have hLine := line_of_mem_withLines hPiece
    rw [flatMap_text_pieces] at hLine
    rw [line_of_token? hToken]
    omega
  · rw [List.mem_singleton.1 hLast]
    exact ⟨Nat.le_add_right _ _, Nat.le_refl _⟩

theorem line_of_mem_errors {source : String} {error : ScanError}
    (h : error ∈ (ofSource source).errors) :
    1 ≤ error.line ∧ error.line ≤ 1 + lineFeeds source.toList := by
  rw [ofSource_eq] at h
  obtain ⟨⟨line, piece⟩, hPiece, hError⟩ := List.mem_filterMap.1 h
  have hLine := line_of_mem_withLines hPiece
  rw [flatMap_text_pieces] at hLine
  have hPlace := line_of_error? hError
  omega

/-! ## The order of lines -/

/-- A piece begins where those before it have ended, or later. -/
theorem pairwise_withLines (start : Nat) (tiles : List Piece) :
    (withLines start tiles).Pairwise fun one other =>
      one.1 + lineFeeds one.2.text ≤ other.1 := by
  induction tiles generalizing start with
  | nil => exact List.Pairwise.nil
  | cons piece tiles ih =>
      refine List.Pairwise.cons ?_ (ih _)
      rintro ⟨line, other⟩ hOther
      exact (line_of_mem_withLines hOther).1

/-- **The lines of tokens never go back**, and only the last token is an end mark. -/
theorem pairwise_tokens (source : String) :
    (ofSource source).tokens.Pairwise fun one other =>
      one.line ≤ other.line ∧ one.kind ≠ .eof := by
  have hBefore : ∀ token ∈ spelled 1 (pieces source.toList),
      ∀ mark ∈ [Token.endMark (1 + lineFeeds source.toList)],
        token.line ≤ mark.line ∧ token.kind ≠ .eof := by
    intro token hToken mark hMark
    have hMem : token ∈ (ofSource source).tokens := by
      rw [ofSource_eq]
      exact List.mem_append_left _ hToken
    rw [List.mem_singleton.1 hMark]
    exact ⟨(line_of_mem_tokens hMem).2, kind_ne_eof_of_mem_spelled hToken⟩
  have hLines : (spelled 1 (pieces source.toList)).Pairwise fun one other =>
      one.line ≤ other.line := by
    refine (pairwise_withLines 1 (pieces source.toList)).filterMap _ ?_
    intro one other hOrder token hToken later hLater
    rw [line_of_token? hToken, line_of_token? hLater]
    omega
  rw [ofSource_eq, List.pairwise_append]
  refine ⟨?_, List.pairwise_singleton _ _, hBefore⟩
  exact hLines.imp_of_mem fun hOne _ hOrder => ⟨hOrder, kind_ne_eof_of_mem_spelled hOne⟩

/-- **The lines of lexical errors never go back.** -/
theorem pairwise_errors (source : String) :
    (ofSource source).errors.Pairwise fun one other => one.line ≤ other.line := by
  rw [ofSource_eq]
  refine (pairwise_withLines 1 (pieces source.toList)).filterMap _ ?_
  intro one other hOrder error hError later hLater
  have hPlace := line_of_error? hError
  have hLaterPlace := line_of_error? hLater
  omega

end Scan

end ExprLang
