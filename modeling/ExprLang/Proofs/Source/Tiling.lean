import ExprLang.Proofs.Number.Numeral

/-!
# Scanning tiles the source text

A source text is cut in exactly one way into pieces such that each is the longest match where it
stands. The tokens and the lexical errors of a scan are those of these pieces, one for one and in
order, so nothing of the source text is lost and nothing is reported that is not in it.

## Main results

* `tiles_iff` — the pieces of a source text are its only tiling by longest match.
* `Kind.Lexeme.reserved_iff` — a word has the kind of a reserved word exactly when it is one.
* `Scan.ofSource_tiling` — a scan is the tokens and the defects of the tiling.
-/

namespace ExprLang

/-! ## The tiling of a source text -/

/-- Pieces that make up a source text, each the longest match where it stands. A character is
rejected only where nothing matches. -/
inductive Tiles : List Piece → List Char → Prop where
  | nil : Tiles [] []
  | matched {piece : Piece} {tiles : List Piece} {rest : List Char} :
      piece.InClass → piece.EndsBefore rest → piece.Longest rest → Tiles tiles rest →
      Tiles (piece :: tiles) (piece.text ++ rest)
  | rejected {char : Char} {tiles : List Piece} {rest : List Char} :
      (∀ other : Piece, other.InClass → ¬ other.text <+: char :: rest) → Tiles tiles rest →
      Tiles (.rejected char :: tiles) (char :: rest)

theorem tiles_pieces (source : List Char) : Tiles (pieces source) source := by
  fun_induction pieces source with
  | case1 => exact .nil
  | case2 char rest ih =>
      by_cases hOpening : Piece.Opening char
      · have hFirst := Piece.inClass_first hOpening rest
        have hLongest := Piece.longest_first char rest
        have hTiles := Tiles.matched hFirst.1 hFirst.2 hLongest ih
        rwa [Piece.text_first] at hTiles
      · rw [Piece.first_of_not_opening hOpening] at ih ⊢
        exact .rejected (fun _ hOther hPrefix =>
          hOpening (Piece.opening_of_isPrefix hOther hPrefix)) ih

theorem Tiles.eq_pieces {tiles : List Piece} {source : List Char} (h : Tiles tiles source) :
    tiles = pieces source := by
  induction h with
  | nil => rw [pieces]
  | @matched piece tiles rest hInClass _ hLongest _ ih =>
      obtain ⟨char, tail, hText, _⟩ := hInClass.shape.opening
      have hSource : piece.text ++ rest = char :: (tail ++ rest) := by
        rw [hText, List.cons_append]
      have hFirst := Piece.first_eq_of_longest hInClass hLongest hSource
      rw [hSource, pieces, hFirst, ih]
  | @rejected char tiles rest hNone _ ih =>
      have hNot : ¬ Piece.Opening char := by
        intro hOpening
        refine hNone _ (Piece.inClass_first hOpening rest).1 ⟨_, Piece.text_first char rest⟩
      rw [pieces, Piece.first_of_not_opening hNot, ih]

theorem tiles_iff {tiles : List Piece} {source : List Char} :
    Tiles tiles source ↔ tiles = pieces source := by
  constructor
  · exact Tiles.eq_pieces
  · rintro rfl
    exact tiles_pieces source

-- A point before something other than a digit ends the number, and a comment takes in a quote.
example : pieces "1.5.7//\"".toList =
    [.lexeme .number ['1', '.', '5'], .lexeme .dot ['.'], .lexeme .number ['7'],
      .comment ['"']] := by
  cbv

theorem Tiles.flatMap_text {tiles : List Piece} {source : List Char} (h : Tiles tiles source) :
    tiles.flatMap Piece.text = source := by
  rw [h.eq_pieces, flatMap_text_pieces]

theorem Tiles.inClass_or_rejected {tiles : List Piece} {source : List Char}
    (h : Tiles tiles source) : ∀ piece ∈ tiles, piece.InClass ∨ ∃ char, piece = .rejected char := by
  induction h with
  | nil =>
      intro piece hMem
      cases hMem
  | matched hInClass _ _ _ ih =>
      intro piece hMem
      rcases List.mem_cons.1 hMem with rfl | hMem
      · exact .inl hInClass
      · exact ih piece hMem
  | rejected _ _ ih =>
      intro piece hMem
      rcases List.mem_cons.1 hMem with rfl | hMem
      · exact .inr ⟨_, rfl⟩
      · exact ih piece hMem

theorem Tiles.text_ne_nil {tiles : List Piece} {source : List Char} (h : Tiles tiles source) :
    ∀ piece ∈ tiles, piece.text ≠ [] := by
  intro piece hMem
  rcases h.inClass_or_rejected piece hMem with hInClass | ⟨char, rfl⟩
  · obtain ⟨char, tail, hText, _⟩ := hInClass.shape.opening
    rw [hText]
    exact List.cons_ne_nil _ _
  · exact List.cons_ne_nil _ _

/-- Only the last piece can be a string without a closing quote. -/
theorem Tiles.eq_nil_of_unterminated {front back : List Piece} {body source : List Char}
    (h : Tiles (front ++ .unterminated body :: back) source) : back = [] := by
  induction front generalizing source with
  | nil =>
      cases h with
      | matched _ hEnds _ hBack =>
          rw [show _ = [] from hEnds] at hBack
          cases hTiles : back with
          | nil => rfl
          | cons piece back =>
              have hText := hBack.flatMap_text
              have hPiece := hBack.text_ne_nil piece (hTiles ▸ List.mem_cons_self)
              rw [hTiles, List.flatMap_cons, List.append_eq_nil_iff] at hText
              exact absurd hText.1 hPiece
  | cons piece front ih =>
      cases h with
      | matched _ _ _ hTiles => exact ih hTiles
      | rejected _ hTiles => exact ih hTiles

/-! ## Well-formed tokens -/

/-- The value that a token of a kind carries, for its text: the double nearest to what a numeral
stands for, and what is between the quotes of a string. -/
inductive Kind.Carries : Kind → List Char → Option Value → Prop where
  | number {text : List Char} {value : ℚ} {x : Binary64} :
      StandsFor text value → x.IsNearest value → Carries .number text (some (.number x))
  | string {body : List Char} :
      Carries .string ('"' :: body ++ ['"']) (some (.string (String.ofList body)))
  | nothing {kind : Kind} {text : List Char} :
      kind ≠ .number → kind ≠ .string → Carries kind text none

/-- There is at most one value for a text. -/
theorem Kind.Carries.eq_literalValue? {kind : Kind} {text : List Char} {value : Option Value}
    (h : kind.Carries text value) : value = literalValue? kind text := by
  cases h with
  | number hValue hNearest =>
      rw [hValue.isNearest_iff.1 hNearest]
      rfl
  | string => simp [literalValue?]
  | nothing hNumber hString =>
      unfold literalValue?
      split
      · exact absurd rfl hNumber
      · exact absurd rfl hString
      · rfl

theorem Kind.Lexeme.exists_carries {kind : Kind} {text : List Char} (h : kind.Lexeme text) :
    ∃ value, kind.Carries text value := by
  by_cases hNumber : kind = .number
  · subst hNumber
    obtain ⟨value, hValue⟩ := h.exists_standsFor
    exact ⟨_, .number hValue (hValue.isNearest_iff.2 rfl)⟩
  by_cases hString : kind = .string
  · subst hString
    cases h with
    | fixed hText => cases hText
    | reserved hMem => simp [Kind.reservedWords] at hMem
    | string _ => exact ⟨_, .string⟩
  · exact ⟨none, .nothing hNumber hString⟩

theorem Kind.Lexeme.carries {kind : Kind} {text : List Char} (h : kind.Lexeme text) :
    kind.Carries text (literalValue? kind text) := by
  obtain ⟨value, hCarries⟩ := h.exists_carries
  rwa [← hCarries.eq_literalValue?]

/-- A word has the kind of a reserved word exactly when it is that reserved word. -/
theorem Kind.Lexeme.reserved_iff {kind : Kind} {text : String} (h : kind.Lexeme text.toList)
    (hWord : IsWord text.toList) (word : Kind) :
    (text, word) ∈ Kind.reservedWords ↔ kind = word ∧ kind ≠ .identifier := by
  have hUnique : ∀ other : Kind, other.Lexeme text.toList → kind = other := by
    intro other hOther
    have hSame := @Piece.InClass.eq_of_text_eq (.lexeme kind text.toList)
      (.lexeme other text.toList) h hOther rfl
    cases hSame
    rfl
  constructor
  · intro hMem
    obtain rfl := hUnique word (.reserved hMem)
    refine ⟨rfl, ?_⟩
    rintro rfl
    simp [Kind.reservedWords] at hMem
  · rintro ⟨rfl, hName⟩
    have hKind := hUnique _ (Kind.lexeme_wordKind hWord)
    rw [Piece.wordKind, String.ofList_toList] at hKind
    cases hFound : Kind.keyword? text with
    | some found =>
        rw [hFound] at hKind
        cases hKind
        exact Kind.keyword?_eq_some_iff.1 hFound
    | none =>
        rw [hFound] at hKind
        exact absurd hKind hName

/-- What makes a token with this text well formed. -/
structure Token.WellFormed (token : Token) (text : String) : Prop where
  lexeme : token.lexeme = some text
  kind : token.kind.Lexeme text.toList
  /-- A word that is reserved has the kind of its own, and every other word is a name. -/
  reserved : IsWord text.toList → ∀ word : Kind,
    (text, word) ∈ Kind.reservedWords ↔ token.kind = word ∧ token.kind ≠ .identifier
  literal : token.kind.Carries text.toList token.literal

/-- A text of a kind, with the value that it stands for, makes a well-formed token. -/
theorem Kind.Lexeme.wellFormed {kind : Kind} {text : List Char} (h : kind.Lexeme text)
    (line : Nat) :
    Token.WellFormed ⟨kind, some (String.ofList text), literalValue? kind text, line⟩
      (String.ofList text) := by
  have hKind : kind.Lexeme (String.ofList text).toList := by
    rwa [String.toList_ofList]
  refine ⟨rfl, hKind, hKind.reserved_iff, ?_⟩
  rw [String.toList_ofList]
  exact h.carries

/-! ## The scan of a tiling -/

/-- A lexical error without the line on which it is reported. -/
inductive Defect where
  | unterminated
  | unexpected (char : Char)
deriving DecidableEq, Repr

/-- What a lexical error says is wrong. -/
def ScanError.defect : ScanError → Defect
  | unterminatedString _ => .unterminated
  | unexpectedCharacter char _ => .unexpected char

/-- What is wrong with a piece, if anything is. -/
def Piece.defect? : Piece → Option Defect
  | rejected char => some (.unexpected char)
  | unterminated _ => some .unterminated
  | _ => none

/-- A token without its value and the line on which it starts. -/
def Token.spelling (token : Token) : Kind × Option String := (token.kind, token.lexeme)

/-- The token that a piece spells, if it is the text of one. -/
def Piece.spelling? : Piece → Option (Kind × Option String)
  | lexeme kind text => some (kind, some (String.ofList text))
  | _ => none

namespace Scan

theorem mem_of_mem_withLines {piece : Piece} {line start : Nat} {tiles : List Piece}
    (h : (line, piece) ∈ withLines start tiles) : piece ∈ tiles := by
  induction tiles generalizing start with
  | nil => cases h
  | cons front tiles ih =>
      rcases List.mem_cons.1 h with hFront | hTiles
      · cases hFront
        exact List.mem_cons_self
      · exact List.mem_cons_of_mem _ (ih hTiles)

/-- What is the same on every line can be told from the pieces alone. -/
theorem map_filterMap_withLines {α β : Type} {report : Nat → Piece → Option α} {view : α → β}
    {expected : Piece → Option β}
    (h : ∀ line piece, (report line piece).map view = expected piece) (start : Nat)
    (tiles : List Piece) :
    ((withLines start tiles).filterMap fun (line, piece) => report line piece).map view =
      tiles.filterMap expected := by
  induction tiles generalizing start with
  | nil => rfl
  | cons piece tiles ih =>
      have hPiece := h start piece
      rw [withLines, List.filterMap_cons, List.filterMap_cons, ← hPiece]
      cases hReport : report start piece with
      | none =>
          simp only [hReport, Option.map_none]
          exact ih _
      | some value =>
          simp only [hReport, Option.map_some, List.map_cons, ih]

theorem spelling_token? (line : Nat) (piece : Piece) :
    (token? line piece).map Token.spelling = piece.spelling? := by
  cases piece <;> rfl

theorem defect_error? (line : Nat) (piece : Piece) :
    (error? line piece).map ScanError.defect = piece.defect? := by
  cases piece <;> rfl

theorem wellFormed_of_token? {line : Nat} {piece : Piece} {token : Token}
    (h : token? line piece = some token)
    (hPiece : piece.InClass ∨ ∃ char, piece = .rejected char) :
    ∃ text, token.WellFormed text := by
  cases piece with
  | lexeme kind text =>
      obtain hLexeme | ⟨char, hChar⟩ := hPiece
      · cases h
        exact ⟨String.ofList text, hLexeme.wellFormed line⟩
      · cases hChar
  | _ => cases h

/-- Every source text has exactly one tiling by longest match. Its pieces are not empty and make
up the source text, and only the last can be a string without a closing quote. The tokens of the
scan are those of the pieces and one end mark, every token is well formed, and the errors are the
defects of the pieces. -/
theorem ofSource_tiling (source : String) :
    ∃ tiles : List Piece, (∀ others, Tiles others source.toList ↔ others = tiles) ∧
      tiles.flatMap Piece.text = source.toList ∧ (∀ piece ∈ tiles, piece.text ≠ []) ∧
      (∀ front body back, tiles = front ++ .unterminated body :: back → back = []) ∧
      (∃ scanned last, (ofSource source).tokens = scanned ++ [Token.endMark last] ∧
        scanned.map Token.spelling = tiles.filterMap Piece.spelling? ∧
        ∀ token ∈ scanned, token.kind ≠ .eof ∧ ∃ text, token.WellFormed text) ∧
      (ofSource source).errors.map ScanError.defect = tiles.filterMap Piece.defect? := by
  have hTiles := tiles_pieces source.toList
  refine ⟨pieces source.toList, fun _ => tiles_iff, hTiles.flatMap_text, hTiles.text_ne_nil,
    ?_, ⟨_, _, rfl, map_filterMap_withLines spelling_token? 1 _, ?_⟩,
    map_filterMap_withLines defect_error? 1 _⟩
  · intro front body back hSplit
    exact Tiles.eq_nil_of_unterminated (hSplit ▸ hTiles)
  · intro token hMem
    obtain ⟨⟨line, piece⟩, hLined, hToken⟩ := List.mem_filterMap.1 hMem
    have hPiece := hTiles.inClass_or_rejected piece (mem_of_mem_withLines hLined)
    obtain ⟨text, hWellFormed⟩ := wellFormed_of_token? hToken hPiece
    exact ⟨hWellFormed.kind.kind_ne_eof, text, hWellFormed⟩

end Scan

end ExprLang
