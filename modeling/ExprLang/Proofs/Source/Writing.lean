import ExprLang.Proofs.Source.Adjacent
import ExprLang.Proofs.Source.LineBreak

/-!
# Scanning undoes writing

Tokens are written out as their texts with gaps between them. A gap is made of blanks and of
comments, each closed by a line feed; between two tokens it begins with a blank, so that no longer
match crosses the border. Then every text is cut off as it was written, whatever kinds stand side by
side and whatever stands inside of strings and comments, and the scan is the tokens that were
written.

## Main results

* `pieces_text_append` — a piece is cut off as it is, if it does not go on with what comes behind.
* `Gap.scanFrom_append`, `Entry.scanFrom_append` — what a gap and a token do to the scan.
* `Fits.scanFrom_written`, `Spaced.scanFrom_written` — the scan of tokens that are written out.
* `Scan.ofSource_written` — scanning undoes writing, also with single spaces in every gap.
-/

namespace ExprLang

/-! ## Pieces with text behind them -/

/-- The first character of a text is a blank. -/
def BeginsBlank (text : List Char) : Prop := ∃ char ∈ text.head?, char ∈ blanks

/-- A piece does not go on with what comes behind it. -/
def Piece.StopsBefore : Piece → List Char → Prop
  | blank _, _ | rejected _, _ => True
  | comment _, rest => ∀ char ∈ rest.head?, char = '\n'
  | lexeme kind _, rest => kind.EndsBefore rest
  | unterminated _, rest => rest = []

theorem Piece.first_append_of_stops {piece : Piece} (h : piece.InClass) {char : Char}
    {tail : List Char} (hText : piece.text = char :: tail) {rest : List Char}
    (hStops : piece.StopsBefore rest) : first char (tail ++ rest) = (piece, rest) := by
  cases piece with
  | blank blank =>
      cases hText
      exact first_of_blank h _
  | comment body =>
      have hAlone := first_of_inClass h hText
      cases rest with
      | nil => rwa [List.append_nil]
      | cons mark rest =>
          have hMark : mark = '\n' := hStops mark rfl
          rw [first_append_blank (hMark ▸ by decide) (by simp [hAlone]) (.inl hMark), hAlone]
          rfl
  | lexeme kind text =>
      have hLexeme : kind.Lexeme text := h
      rw [show text = char :: tail from hText] at hLexeme ⊢
      exact first_append_of_endsBefore hLexeme hStops
  | rejected _ => exact h.elim
  | unterminated body =>
      have hAlone := first_of_inClass h hText
      rwa [show rest = [] from hStops, List.append_nil]

/-- **A piece is cut off as it is**, if it does not go on with what comes behind it. -/
theorem pieces_text_append {piece : Piece} (h : piece.InClass) {rest : List Char}
    (hStops : piece.StopsBefore rest) : pieces (piece.text ++ rest) = piece :: pieces rest := by
  obtain ⟨char, tail, hText, _⟩ := h.shape.opening
  rw [hText, List.cons_append, pieces_cons, Piece.first_append_of_stops h hText hStops]

/-- The scan of a text that begins on a line. -/
def scanFrom (line : Nat) (source : List Char) : Scan := .ofPieces line (pieces source)

theorem scanFrom_nil (line : Nat) : scanFrom line [] = ⟨[.endMark line], []⟩ := by
  rw [scanFrom, pieces]
  rfl

/-- A piece adds its token or its error to the scan of what comes behind it. -/
theorem scanFrom_text_append {piece : Piece} (h : piece.InClass) {rest : List Char}
    (hStops : piece.StopsBefore rest) (line : Nat) :
    scanFrom line (piece.text ++ rest) =
      ⟨(Scan.token? line piece).toList ++ (scanFrom (line + lineFeeds piece.text) rest).tokens,
        (Scan.error? line piece).toList ++
          (scanFrom (line + lineFeeds piece.text) rest).errors⟩ := by
  rw [scanFrom, pieces_text_append h hStops, Scan.ofPieces_eq, Scan.spelled_cons,
    Scan.defects_cons, List.flatMap_cons, Scan.lineFeeds_append, ← Nat.add_assoc,
    List.append_assoc]
  rfl

/-! ## Gaps -/

/-- Blanks and comments, each comment closed by a line feed. -/
inductive Gap : List Char → Prop where
  | nil : Gap []
  | blank {char : Char} {rest : List Char} : char ∈ blanks → Gap rest → Gap (char :: rest)
  | comment {body rest : List Char} :
      '\n' ∉ body → Gap rest → Gap ('/' :: '/' :: body ++ '\n' :: rest)

/-- A gap, or a gap and behind it a comment that is not closed. -/
inductive LastGap : List Char → Prop where
  | closed {text : List Char} : Gap text → LastGap text
  | unclosed {text body : List Char} :
      Gap text → '\n' ∉ body → LastGap (text ++ '/' :: '/' :: body)

/-- **A gap only counts lines on.** -/
theorem Gap.scanFrom_append {gap : List Char} (h : Gap gap) (line : Nat) (rest : List Char) :
    scanFrom line (gap ++ rest) = scanFrom (line + lineFeeds gap) rest := by
  have hBlank : ∀ (char : Char) (line : Nat) (behind : List Char), char ∈ blanks →
      scanFrom line (char :: behind) = scanFrom (line + lineFeeds [char]) behind :=
    fun char line behind hChar => @scanFrom_text_append (.blank char) hChar behind trivial line
  induction h generalizing line with
  | nil => rfl
  | @blank char gap hChar _ ih =>
      rw [List.cons_append, hBlank char _ _ hChar, ih, Nat.add_assoc, ← Scan.lineFeeds_append]
      rfl
  | @comment body gap hBody _ ih =>
      -- The comment, and then the line feed that closes it as a blank of its own.
      have hComment : scanFrom line ('/' :: '/' :: body ++ '\n' :: (gap ++ rest)) =
          scanFrom (line + lineFeeds ('/' :: '/' :: body)) ('\n' :: (gap ++ rest)) :=
        @scanFrom_text_append (.comment body) hBody _
          (fun char hChar => (Option.mem_some_iff.1 hChar).symm) line
      have hSplit : '/' :: '/' :: body ++ '\n' :: gap ++ rest =
          '/' :: '/' :: body ++ '\n' :: (gap ++ rest) := List.append_assoc _ _ _
      rw [hSplit, hComment, hBlank '\n' _ _ (by decide), ih,
        Nat.add_assoc, Nat.add_assoc, ← Scan.lineFeeds_append, ← Scan.lineFeeds_append]
      rfl

theorem LastGap.scanFrom_eq {gap : List Char} (h : LastGap gap) (line : Nat) :
    scanFrom line gap = ⟨[.endMark (line + lineFeeds gap)], []⟩ := by
  cases h with
  | closed hGap =>
      have hScan := hGap.scanFrom_append line []
      rwa [List.append_nil, scanFrom_nil] at hScan
  | @unclosed gap body hGap hBody =>
      have hComment := @scanFrom_text_append (.comment body) hBody [] (by simp [Piece.StopsBefore])
        (line + lineFeeds gap)
      rw [List.append_nil, scanFrom_nil, Nat.add_assoc, ← Scan.lineFeeds_append] at hComment
      exact (hGap.scanFrom_append line _).trans hComment

/-- Only a slash goes on with what a gap begins with. -/
theorem Gap.endsBefore {gap : List Char} (h : Gap gap) {kind : Kind} (hKind : kind ≠ .slash) :
    kind.EndsBefore gap := by
  cases h with
  | nil => exact nofun
  | blank hChar _ =>
      rintro char ⟨rfl⟩
      exact Kind.not_goesOn_of_blank hChar
  | comment _ _ =>
      rintro char ⟨rfl⟩
      exact Kind.not_goesOn_slash hKind

theorem LastGap.endsBefore {gap : List Char} (h : LastGap gap) {kind : Kind}
    (hKind : kind ≠ .slash) : kind.EndsBefore gap := by
  cases h with
  | closed hGap => exact hGap.endsBefore hKind
  | @unclosed gap body hGap _ =>
      by_cases hNil : gap = []
      · subst hNil
        rintro char ⟨rfl⟩
        exact Kind.not_goesOn_slash hKind
      · rw [Kind.endsBefore_append hNil]
        exact hGap.endsBefore hKind

/-! ## Tokens that are written out -/

/-- A token that is to be written: its kind, its text, and the gap that is put before it. -/
structure Entry where
  gap : List Char
  kind : Kind
  text : List Char

namespace Entry

/-- What is written for a token. -/
def written (entry : Entry) : List Char := entry.gap ++ entry.text

/-- The token that is to be read on a line. -/
def token (entry : Entry) (line : Nat) : Token :=
  ⟨entry.kind, some (String.ofList entry.text), literalValue? entry.kind entry.text, line⟩

/-- **A text of a kind is read as a token of this kind**, if the token does not go on behind it. -/
theorem scanFrom_append {entry : Entry} (h : entry.kind.Lexeme entry.text) {rest : List Char}
    (hRest : entry.kind.EndsBefore rest) (line : Nat) :
    scanFrom line (entry.text ++ rest) =
      ⟨entry.token line :: (scanFrom (line + lineFeeds entry.text) rest).tokens,
        (scanFrom (line + lineFeeds entry.text) rest).errors⟩ :=
  @scanFrom_text_append (.lexeme entry.kind entry.text) h rest hRest line

end Entry

/-- Tokens written out, and a gap after the last one. -/
def written (entries : List Entry) (last : List Char) : List Char :=
  entries.flatMap Entry.written ++ last

/-- The tokens to be read from a line on, each on the line that the line feeds before it lead to. -/
def tokensFrom (line : Nat) : List Entry → List Token
  | [] => []
  | entry :: entries =>
    entry.token (line + lineFeeds entry.gap) :: tokensFrom (line + lineFeeds entry.written) entries

theorem tokensFrom_append (line : Nat) (entries others : List Entry) :
    tokensFrom line (entries ++ others) =
      tokensFrom line entries ++
        tokensFrom (line + lineFeeds (entries.flatMap Entry.written)) others := by
  induction entries generalizing line with
  | nil => rfl
  | cons entry entries ih =>
      rw [List.cons_append, tokensFrom, tokensFrom, ih, List.flatMap_cons, Scan.lineFeeds_append,
        Nat.add_assoc, List.cons_append]

/-- Tokens are written out so that none goes on behind its text: each text is one of its kind, and
gaps stand before the tokens and after the last one. -/
def Fits : List Entry → List Char → Prop
  | [], last => LastGap last
  | entry :: entries, last =>
    Gap entry.gap ∧ entry.kind.Lexeme entry.text ∧ entry.kind.EndsBefore (written entries last) ∧
      Fits entries last

/-- **The scan of tokens that are written out** so that none goes on is these tokens without an
error. -/
theorem Fits.scanFrom_written {entries : List Entry} {last : List Char} (h : Fits entries last)
    (line : Nat) :
    scanFrom line (written entries last) =
      ⟨tokensFrom line entries ++ [.endMark (line + lineFeeds (written entries last))], []⟩ := by
  induction entries generalizing line with
  | nil => exact LastGap.scanFrom_eq h line
  | cons entry entries ih =>
      obtain ⟨hGap, hText, hEnds, hFits⟩ := h
      have hSplit : written (entry :: entries) last =
          entry.gap ++ (entry.text ++ written entries last) := by
        rw [written, List.flatMap_cons, Entry.written, written, List.append_assoc,
          List.append_assoc]
      have hLine : line + lineFeeds entry.gap + lineFeeds entry.text =
          line + lineFeeds entry.written := by
        rw [Entry.written, Scan.lineFeeds_append, Nat.add_assoc]
      rw [hSplit, hGap.scanFrom_append, Entry.scanFrom_append hText hEnds, hLine, ih hFits,
        ← List.append_assoc, Scan.lineFeeds_append, ← Nat.add_assoc]
      rfl

/-- Tokens are written out properly: each text is one of its kind, before each token stands a gap
that begins with a blank, or any gap before the first one, and after the last one stands a last gap
that is empty or begins with a blank. -/
structure Spaced (entries : List Entry) (last : List Char) : Prop where
  lexeme : ∀ entry ∈ entries, entry.kind.Lexeme entry.text
  gap : ∀ entry ∈ entries, Gap entry.gap
  between : ∀ entry ∈ entries.tail, BeginsBlank entry.gap
  ending : LastGap last
  behind : entries = [] ∨ last = [] ∨ BeginsBlank last

namespace Spaced

theorem tail {entry : Entry} {entries : List Entry} {last : List Char}
    (h : Spaced (entry :: entries) last) : Spaced entries last where
  lexeme := fun _ hMem => h.lexeme _ (List.mem_cons_of_mem _ hMem)
  gap := fun _ hMem => h.gap _ (List.mem_cons_of_mem _ hMem)
  between := fun _ hMem => h.between _ (List.mem_of_mem_tail hMem)
  ending := h.ending
  behind := .inr (h.behind.resolve_left (List.cons_ne_nil _ _))

/-- Nothing or a blank stands behind a token that is written out. -/
theorem begins_behind {entry : Entry} {entries : List Entry} {last : List Char}
    (h : Spaced (entry :: entries) last) :
    written entries last = [] ∨ BeginsBlank (written entries last) := by
  cases entries with
  | nil => exact h.behind.resolve_left (List.cons_ne_nil _ _)
  | cons next entries =>
      obtain ⟨char, hHead, hChar⟩ := h.between next List.mem_cons_self
      refine .inr ⟨char, ?_, hChar⟩
      rw [written, List.flatMap_cons, Entry.written, List.append_assoc, List.append_assoc,
        List.head?_append, Option.mem_def.1 hHead]
      rfl

/-- No token goes on with a blank. -/
theorem fits {entries : List Entry} {last : List Char} (h : Spaced entries last) :
    Fits entries last := by
  induction entries with
  | nil => exact h.ending
  | cons entry entries ih =>
      refine ⟨h.gap entry List.mem_cons_self, h.lexeme entry List.mem_cons_self, ?_, ih h.tail⟩
      intro next hNext
      rcases h.begins_behind with hNil | ⟨char, hHead, hChar⟩
      · rw [hNil] at hNext
        cases hNext
      · rw [Option.mem_def.1 hHead] at hNext
        exact Option.mem_some_iff.1 hNext ▸ Kind.not_goesOn_of_blank hChar

/-- **The scan of tokens that are written out properly** is these tokens without an error. -/
theorem scanFrom_written {entries : List Entry} {last : List Char} (h : Spaced entries last)
    (line : Nat) :
    scanFrom line (written entries last) =
      ⟨tokensFrom line entries ++ [.endMark (line + lineFeeds (written entries last))], []⟩ :=
  h.fits.scanFrom_written line

end Spaced

/-! ## Single spaces -/

/-- Tokens with single spaces between them. -/
def singleSpaced : List Entry → List Entry
  | [] => []
  | entry :: entries =>
    { entry with gap := [] } :: entries.map fun entry => { entry with gap := [' '] }

theorem intercalate_cons_eq (mark first : List Char) (others : List (List Char)) :
    mark.intercalate (first :: others) = first ++ others.flatMap (mark ++ ·) := by
  induction others generalizing first with
  | nil => simp
  | cons next others ih =>
      rw [List.intercalate_cons_cons, ih, List.flatMap_cons, List.append_assoc, List.append_assoc]

theorem written_singleSpaced (entries : List Entry) :
    written (singleSpaced entries) [] = [' '].intercalate (entries.map Entry.text) := by
  cases entries with
  | nil => rfl
  | cons entry entries =>
      rw [List.map_cons, intercalate_cons_eq, List.flatMap_map, written, List.append_nil,
        singleSpaced, List.flatMap_cons, List.flatMap_map]
      rfl

theorem exists_of_mem_singleSpaced {entry : Entry} {entries : List Entry}
    (h : entry ∈ singleSpaced entries) :
    Gap entry.gap ∧ ∃ other ∈ entries, entry.kind = other.kind ∧ entry.text = other.text := by
  cases entries with
  | nil => cases h
  | cons first entries =>
      rcases List.mem_cons.1 h with rfl | hMem
      · exact ⟨.nil, first, List.mem_cons_self, rfl, rfl⟩
      · obtain ⟨other, hOther, rfl⟩ := List.mem_map.1 hMem
        exact ⟨.blank (by decide) .nil, other, List.mem_cons_of_mem _ hOther, rfl, rfl⟩

theorem spaced_singleSpaced {entries : List Entry}
    (h : ∀ entry ∈ entries, entry.kind.Lexeme entry.text) :
    Spaced (singleSpaced entries) [] where
  lexeme := by
    intro entry hMem
    obtain ⟨_, other, hOther, hKind, hText⟩ := exists_of_mem_singleSpaced hMem
    rw [hKind, hText]
    exact h other hOther
  gap := fun _ hMem => (exists_of_mem_singleSpaced hMem).1
  between := by
    intro entry hMem
    cases entries with
    | nil => cases hMem
    | cons first entries =>
        obtain ⟨_, _, rfl⟩ := List.mem_map.1 hMem
        exact ⟨' ', rfl, by decide⟩
  ending := .closed .nil
  behind := .inr (.inl rfl)

/-- What a token is without the line on which it starts. -/
def Token.content (token : Token) : Kind × Option String × Option Value :=
  (token.kind, token.lexeme, token.literal)

/-- The token of a piece, if it is the text of one, with no gap before it. -/
def Piece.entry? : Piece → Option Entry
  | lexeme kind text => some ⟨[], kind, text⟩
  | _ => none

/-- The tokens of a source text, to be written again. -/
def entriesOf (source : List Char) : List Entry := (pieces source).filterMap Piece.entry?

theorem lexeme_of_mem_entriesOf {source : List Char} {entry : Entry}
    (h : entry ∈ entriesOf source) : entry.kind.Lexeme entry.text := by
  obtain ⟨piece, hMem, hEntry⟩ := List.mem_filterMap.1 h
  cases piece with
  | lexeme kind text =>
      cases hEntry
      obtain hLexeme | ⟨char, hChar⟩ := (tiles_pieces source).inClass_or_rejected _ hMem
      · exact hLexeme
      · cases hChar
  | _ => cases hEntry

theorem content_tokensFrom (line : Nat) (entries : List Entry) :
    (tokensFrom line entries).map Token.content =
      entries.map fun entry => (entry.token 0).content := by
  induction entries generalizing line with
  | nil => rfl
  | cons entry entries ih =>
      rw [tokensFrom, List.map_cons, List.map_cons, ih]
      rfl

theorem content_singleSpaced (entries : List Entry) :
    ((singleSpaced entries).map fun entry => (entry.token 0).content) =
      entries.map fun entry => (entry.token 0).content := by
  cases entries with
  | nil => rfl
  | cons entry entries =>
      rw [singleSpaced, List.map_cons, List.map_map]
      rfl

namespace Scan

/-- The tokens of a source text, apart from their lines, are its pieces that are texts of tokens. -/
theorem content_tokens (source : String) :
    (ofSource source).tokens.map Token.content =
      ((entriesOf source.toList).map fun entry => (entry.token 0).content) ++
        [(.eof, none, none)] := by
  have hPiece : ∀ line piece, (token? line piece).map Token.content =
      piece.entry?.map fun entry => (entry.token 0).content := by
    intro line piece
    cases piece <;> rfl
  rw [ofSource_eq, List.map_append, spelled, map_filterMap_withLines hPiece, ← List.map_filterMap]
  rfl

theorem lexemes_tokens (source : String) :
    (ofSource source).tokens.filterMap Token.lexeme =
      (entriesOf source.toList).map fun entry => String.ofList entry.text := by
  have hContents := congrArg (List.filterMap fun content => content.2.1) (content_tokens source)
  rw [List.filterMap_map, List.filterMap_append, List.filterMap_map] at hContents
  refine hContents.trans ?_
  rw [← List.filterMap_eq_map]
  exact List.append_nil _

/-- The texts of the tokens of a source text with single spaces between them. -/
theorem intercalate_lexemes (source : String) :
    " ".intercalate ((ofSource source).tokens.filterMap Token.lexeme) =
      String.ofList (written (singleSpaced (entriesOf source.toList)) []) := by
  have hTexts : (String.toList ∘ fun entry : Entry => String.ofList entry.text) = Entry.text :=
    funext fun entry => String.toList_ofList
  rw [← String.toList_inj, String.toList_ofList, written_singleSpaced, String.toList_intercalate,
    lexemes_tokens, List.map_map, hTexts]
  rfl

/-- **Scanning undoes writing.** Tokens that are written out properly, each with its text and with
gaps of blanks and comments between them, are scanned without an error as these tokens, with the
values that their texts stand for (a number with the nearest double), each on the line that the line
feeds in the gaps and the texts before it lead to. In particular, the texts of the tokens of any
source text, with single spaces between them, are scanned without an error as the same tokens, apart
from their lines. -/
theorem ofSource_written :
    (∀ entries last, Spaced entries last →
      (ofSource (String.ofList (written entries last))).errors = [] ∧
      (ofSource (String.ofList (written entries last))).tokens =
        tokensFrom 1 entries ++ [.endMark (1 + lineFeeds (written entries last))] ∧
      ∀ entry ∈ entries, ∀ line, (entry.token line).WellFormed (String.ofList entry.text)) ∧
    ∀ source : String,
      let joined := " ".intercalate ((ofSource source).tokens.filterMap Token.lexeme)
      (ofSource joined).errors = [] ∧
        (ofSource joined).tokens.map Token.content =
          (ofSource source).tokens.map Token.content := by
  have hWritten : ∀ entries last, Spaced entries last →
      ofSource (String.ofList (written entries last)) =
        ⟨tokensFrom 1 entries ++ [.endMark (1 + lineFeeds (written entries last))], []⟩ := by
    intro entries last hSpaced
    rw [← hSpaced.scanFrom_written, scanFrom, ofSource, String.toList_ofList]
  refine ⟨fun entries last hSpaced => ?_, fun source => ?_⟩
  · rw [hWritten entries last hSpaced]
    exact ⟨rfl, rfl, fun entry hMem => (hSpaced.lexeme entry hMem).wellFormed⟩
  · intro joined
    have hSpaced := spaced_singleSpaced fun entry => @lexeme_of_mem_entriesOf source.toList entry
    rw [show joined = _ from intercalate_lexemes source, hWritten _ _ hSpaced, List.map_append,
      content_tokensFrom, content_singleSpaced, content_tokens]
    exact ⟨rfl, rfl⟩

/-- Comments stand before the first token and behind a slash, the string looks like a comment and
holds a line feed, the number is none of the doubles and a point stands behind it, and the last
comment is not closed. -/
theorem ofSource_written_in_comments :
    let entries : List Entry :=
      [⟨'/' :: '/' :: ['"'] ++ ['\n'], .slash, ['/']⟩,
        ⟨' ' :: ('/' :: '/' :: ['='] ++ ['\n', '\t']), .string, '"' :: ['/', '/', '\n'] ++ ['"']⟩,
        ⟨[' '], .number, ['0'] ++ '.' :: ['1']⟩, ⟨['\r'], .dot, ['.']⟩]
    let last : List Char := [' '] ++ '/' :: '/' :: ['"']
    Spaced entries last ∧
      String.ofList (written entries last) = "//\"\n/ //=\n\t\"//\n\" 0.1\r. //\"" ∧
      (ofSource "//\"\n/ //=\n\t\"//\n\" 0.1\r. //\"").errors = [] ∧
      (ofSource "//\"\n/ //=\n\t\"//\n\" 0.1\r. //\"").tokens =
        [⟨.slash, some "/", none, 2⟩,
          ⟨.string, some "\"//\n\"", some (.string "//\n"), 3⟩,
          ⟨.number, some "0.1", some (.number (.ofBits 0x3FB999999999999A)), 4⟩,
          ⟨.dot, some ".", none, 4⟩, ⟨.eof, none, none, 4⟩] := by
  intro entries last
  have hSpaced : Spaced entries last := by
    refine ⟨?_, ?_, ?_, ?_, .inr (.inr ⟨' ', rfl, by decide⟩)⟩
    · simp only [entries, List.forall_mem_cons]
      exact ⟨@Kind.Lexeme.fixed .slash "/" rfl, .string (by decide),
        .fraction (by decide) (by decide), @Kind.Lexeme.fixed .dot "." rfl, by simp⟩
    · simp only [entries, List.forall_mem_cons]
      exact ⟨.comment (by decide) .nil,
        .blank (by decide) (.comment (by decide) (.blank (by decide) .nil)),
        .blank (by decide) .nil, .blank (by decide) .nil, by simp⟩
    · simp only [entries, List.tail_cons, List.forall_mem_cons]
      exact ⟨⟨' ', rfl, by decide⟩, ⟨' ', rfl, by decide⟩, ⟨'\r', rfl, by decide⟩, by simp⟩
    · exact .unclosed (.blank (by decide) .nil) (by decide)
  have hText : String.ofList (written entries last) =
      "//\"\n/ //=\n\t\"//\n\" 0.1\r. //\"" := by
    decide
  obtain ⟨hErrors, hTokens, _⟩ := ofSource_written.1 entries last hSpaced
  rw [hText] at hErrors hTokens
  have hTenth : numeralValue ['0', '.', '1'] = .ofBits 0x3FB999999999999A := by decide +kernel
  refine ⟨hSpaced, hText, hErrors, ?_⟩
  rw [hTokens, ← hTenth]
  rfl

end Scan

end ExprLang
