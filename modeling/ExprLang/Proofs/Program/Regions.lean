import ExprLang.Proofs.Program.Origin

/-!
# Statements and errors divide the tokens among them

Every token before the end belongs to exactly one item of a program. A statement has the tokens of
its yield. A syntax error has the tokens that its statement had used up, then the offending token
and those that are skipped after it. So going on after an error swallows no statement, goes through
no token twice and leaves none behind, and the errors stand further and further on.

The regions are described without the reading of a program, by where one of them can end, and are
then shown to be the only ones that fit the tokens.

## Main results

* `recover_append_of_dropped`, `exists_dropped` — what is dropped after an error.
* `Region.Fits.read`, `Region.exists_of_read` — a region is what reading one statement finds.
* `Program.Cuts.items_eq`, `Program.exists_cuts` — the items of a program have their regions.
* `Program.Cuts.offence_stands`, `Program.Cuts.pairwise_offences` — where the errors stand.
* `Program.exists_unique_regions` — all of it.
-/

namespace ExprLang

/-! ## What is dropped after an error -/

/-- The words with which a declaration or a statement begins. -/
def Kind.statementWords : List Kind :=
  [.classWord, .funWord, .varWord, .forWord, .ifWord, .whileWord, .printWord, .returnWord]

theorem Kind.beginsStatement_iff {kind : Kind} :
    kind.beginsStatement = true ↔ kind ∈ Kind.statementWords := by
  cases kind <;> decide

/-- Skipping goes over this token to the next one: it ends no statement and begins none. -/
def Token.IsPassed (token : Token) : Prop :=
  token.kind ≠ .semicolon ∧ token.kind ≠ .eof ∧ token.kind ∉ Kind.statementWords

/-- The tokens that are skipped, before those behind: up to the first semicolon, or to before the
first token that begins a statement, or to the end, whichever comes first. -/
inductive Skipped : List Token → List Token → Prop where
  | through {passed behind : List Token} {semicolon : Token} :
      (∀ token ∈ passed, token.IsPassed) → semicolon.kind = .semicolon →
      Skipped (passed ++ [semicolon]) behind
  | upTo {passed behind : List Token} :
      (∀ token ∈ passed, token.IsPassed) →
      (∀ next ∈ behind.head?, next.kind = .eof ∨ next.kind ∈ Kind.statementWords) →
      Skipped passed behind

/-- The tokens that are dropped at an error. Nothing is dropped at the end. Otherwise the offending
token is, whatever its kind; if it is no semicolon then others are skipped after it. -/
inductive Dropped : List Token → List Token → Prop where
  | atEnd {behind : List Token} : AtEnd behind → Dropped [] behind
  | semicolon {offending : Token} {behind : List Token} :
      offending.kind = .semicolon → Dropped [offending] behind
  | skip {offending : Token} {skipped behind : List Token} :
      offending.kind ≠ .eof → offending.kind ≠ .semicolon → Skipped skipped behind →
      Dropped (offending :: skipped) behind

theorem Token.IsPassed.goesOn {token : Token} (h : token.IsPassed) :
    ¬ (token.kind = .eof ∨ token.kind.beginsStatement = true) := by
  rw [Kind.beginsStatement_iff]
  exact not_or.2 h.2

theorem skipStatement_append_of_passed {passed : List Token}
    (h : ∀ token ∈ passed, token.IsPassed) (rest : List Token) :
    skipStatement (passed ++ rest) = skipStatement rest := by
  induction passed with
  | nil => rfl
  | cons token passed ih =>
      obtain ⟨hToken, hPassed⟩ := List.forall_mem_cons.1 h
      rw [List.cons_append, skipStatement, if_neg hToken.goesOn, if_neg hToken.1, ih hPassed]

theorem skipStatement_append_of_skipped {skipped behind : List Token}
    (h : Skipped skipped behind) : skipStatement (skipped ++ behind) = behind := by
  cases h with
  | through hPassed hSemicolon =>
      rw [List.append_assoc, skipStatement_append_of_passed hPassed]
      simp [skipStatement, hSemicolon, Kind.beginsStatement]
  | upTo hPassed hStops =>
      rw [skipStatement_append_of_passed hPassed]
      cases behind with
      | nil => rfl
      | cons next behind =>
          rw [skipStatement, if_pos ((hStops next rfl).imp_right Kind.beginsStatement_iff.2)]

theorem Skipped.cons {token : Token} {skipped behind : List Token} (h : Skipped skipped behind)
    (hToken : token.IsPassed) : Skipped (token :: skipped) behind := by
  cases h with
  | @through passed behind semicolon hPassed hSemicolon =>
      exact @Skipped.through (token :: passed) behind semicolon
        (List.forall_mem_cons.2 ⟨hToken, hPassed⟩) hSemicolon
  | upTo hPassed hStops => exact .upTo (List.forall_mem_cons.2 ⟨hToken, hPassed⟩) hStops

/-- Skipping divides the tokens into those that it skips and those that it leaves. -/
theorem exists_skipped (tokens : List Token) :
    ∃ skipped, tokens = skipped ++ skipStatement tokens ∧
      Skipped skipped (skipStatement tokens) := by
  fun_induction skipStatement tokens with
  | case1 => exact ⟨[], rfl, .upTo (by simp) (by simp)⟩
  | case2 token tokens hStop =>
      rw [Kind.beginsStatement_iff] at hStop
      exact ⟨[], rfl, .upTo (by simp) (by simpa using hStop)⟩
  | case3 token tokens _ hSemicolon =>
      exact ⟨[token], rfl, @Skipped.through [] _ token (by simp) hSemicolon⟩
  | case4 token tokens hGo hKind ih =>
      obtain ⟨skipped, hTokens, hSkipped⟩ := ih
      rw [Kind.beginsStatement_iff] at hGo
      have hPassed : token.IsPassed := ⟨hKind, not_or.1 hGo⟩
      exact ⟨token :: skipped, congrArg _ hTokens, hSkipped.cons hPassed⟩

/-- Going on after an error leaves what stands behind the tokens that are dropped. -/
theorem recover_append_of_dropped {dropped behind : List Token} (h : Dropped dropped behind) :
    recover (dropped ++ behind) = behind := by
  cases h with
  | atEnd hEnd =>
      cases behind with
      | nil => rfl
      | cons token behind => exact if_pos (hEnd token rfl)
  | semicolon hKind => simp [recover, hKind]
  | skip hMark hKind hSkipped =>
      rw [List.cons_append, recover, if_neg hMark, if_neg hKind]
      exact skipStatement_append_of_skipped hSkipped

theorem exists_dropped (tokens : List Token) :
    ∃ dropped, tokens = dropped ++ recover tokens ∧ Dropped dropped (recover tokens) := by
  fun_cases recover tokens with
  | case1 => exact ⟨[], rfl, .atEnd (by simp [AtEnd])⟩
  | case2 token tokens hMark => exact ⟨[], rfl, .atEnd (by simpa [AtEnd] using hMark)⟩
  | case3 token tokens _ hKind => exact ⟨[token], rfl, .semicolon hKind⟩
  | case4 token tokens hMark hKind =>
      obtain ⟨skipped, hTokens, hSkipped⟩ := exists_skipped tokens
      exact ⟨token :: skipped, congrArg _ hTokens, .skip hMark hKind hSkipped⟩

theorem Skipped.kind_ne_eof {skipped behind : List Token} (h : Skipped skipped behind) :
    ∀ token ∈ skipped, token.kind ≠ .eof := by
  intro token hMem
  cases h with
  | through hPassed hSemicolon =>
      rcases List.mem_append.1 hMem with hMem | hMem
      · exact (hPassed token hMem).2.1
      · rw [List.mem_singleton.1 hMem, hSemicolon]
        decide
  | upTo hPassed => exact (hPassed token hMem).2.1

theorem Dropped.kind_ne_eof {dropped behind : List Token} (h : Dropped dropped behind) :
    ∀ token ∈ dropped, token.kind ≠ .eof := by
  cases h with
  | atEnd => simp
  | semicolon hKind => simp [hKind]
  | skip hMark _ hSkipped => exact List.forall_mem_cons.2 ⟨hMark, hSkipped.kind_ne_eof⟩

/-! ## Regions -/

/-- The part of the tokens that one item of a program takes up. -/
structure Region where
  item : Except ParseError Statement
  /-- The tokens that reading the statement used up, also if it failed. -/
  used : List Token
  /-- The tokens that were dropped after that. -/
  dropped : List Token

namespace Region

/-- The tokens of a region. -/
def tokens (region : Region) : List Token := region.used ++ region.dropped

/-- A region may stand before some tokens. A statement has the tokens of its yield. At an error a
statement breaks off after the tokens that it used up, and the offending token is the next one, or
an end mark on line zero if none is left. -/
inductive Fits : Region → List Token → Prop where
  | statement {tree : Statement} {used behind : List Token} :
      tree.TreeOf used → Fits ⟨.ok tree, used, []⟩ behind
  | error {error : ParseError} {used dropped behind : List Token} :
      Statement.read (used ++ (dropped ++ behind)) = ⟨.error error, dropped ++ behind⟩ →
      error.token = nextToken (dropped ++ behind) → Dropped dropped behind →
      Fits ⟨.error error, used, dropped⟩ behind

end Region

/-- Regions one after the other up to the end of the tokens, none of them empty. -/
inductive Program.Cuts : List Region → List Token → Prop where
  | done {rest : List Token} : AtEnd rest → Cuts [] rest
  | next {region : Region} {regions : List Region} {rest : List Token} :
      region.Fits rest → region.tokens ≠ [] → Cuts regions rest →
      Cuts (region :: regions) (region.tokens ++ rest)

namespace Region

variable {region : Region} {behind : List Token}

/-- **A region that fits is what reading one statement finds**, and reading goes on behind it. -/
theorem Fits.read (h : region.Fits behind) :
    Statement.read (region.tokens ++ behind) = ⟨region.item, region.dropped ++ behind⟩ ∧
      (Statement.read (region.tokens ++ behind)).resume = behind := by
  cases h with
  | @statement tree used behind hTree =>
      have hRead : Statement.read (used ++ [] ++ behind) = ⟨.ok tree, behind⟩ := by
        rw [List.append_nil]
        exact Statement.read_of_treeOf hTree behind
      rw [tokens, hRead]
      exact ⟨rfl, rfl⟩
  | @error error used dropped behind hRead _ hDropped =>
      rw [← List.append_assoc] at hRead
      rw [tokens, hRead]
      exact ⟨rfl, recover_append_of_dropped hDropped⟩

theorem Fits.kind_ne_eof (h : region.Fits behind) : ∀ token ∈ region.tokens, token.kind ≠ .eof := by
  intro token hMem
  cases h with
  | statement hTree =>
      rw [tokens, List.append_nil] at hMem
      exact hTree.spells.kind_ne_eof token hMem
  | @error error used dropped behind hRead _ hDropped =>
      rcases List.mem_append.1 hMem with hUsed | hMem
      · obtain ⟨taken, hTokens, -, hTaken⟩ :=
          Statement.exists_used_of_error (congrArg Reading.result hRead)
        rw [hRead] at hTokens
        exact hTaken token (List.append_cancel_right hTokens ▸ hUsed)
      · exact hDropped.kind_ne_eof token hMem

/-- What reading one statement uses up and then drops is a region. -/
theorem exists_of_read (tokens : List Token) :
    ∃ region : Region, tokens = region.tokens ++ (Statement.read tokens).resume ∧
      region.Fits (Statement.read tokens).resume := by
  cases hResult : (Statement.read tokens).result with
  | ok tree =>
      obtain ⟨used, hTokens, hTree⟩ := Statement.treeOf_of_read hResult
      have hResume : (Statement.read tokens).resume = (Statement.read tokens).rest := by
        simp only [Reading.resume, hResult]
      refine ⟨⟨.ok tree, used, []⟩, ?_, .statement hTree⟩
      rwa [hResume, Region.tokens, List.append_nil]
  | error error =>
      obtain ⟨used, hTokens, hToken, -⟩ := Statement.exists_used_of_error hResult
      have hResume : (Statement.read tokens).resume = recover (Statement.read tokens).rest := by
        simp only [Reading.resume, hResult]
      obtain ⟨dropped, hRest, hDropped⟩ := exists_dropped (Statement.read tokens).rest
      rw [hResume]
      refine ⟨⟨.error error, used, dropped⟩, ?_, .error ?_ ?_ hDropped⟩
      · rwa [Region.tokens, List.append_assoc, ← hRest]
      · rw [← hRest, ← hTokens, ← hResult]
      · rwa [← hRest]

end Region

namespace Program

/-- Tokens that begin with a region are not at their end. -/
theorem exists_first_of_fits {region : Region} {behind : List Token} (h : region.Fits behind)
    (hTokens : region.tokens ≠ []) :
    ∃ first others, region.tokens ++ behind = first :: others ∧ first.kind ≠ .eof := by
  obtain ⟨first, others, hRegion⟩ := List.exists_cons_of_ne_nil hTokens
  refine ⟨first, others ++ behind, by rw [hRegion, List.cons_append], ?_⟩
  exact h.kind_ne_eof first (hRegion ▸ List.mem_cons_self)

/-- **The regions of tokens are those of the items.** -/
theorem Cuts.items_eq {regions : List Region} {tokens : List Token} (h : Cuts regions tokens) :
    readItems tokens = regions.map Region.item := by
  induction h with
  | done hEnd => exact readItems_of_atEnd hEnd
  | @next region regions rest hFits hTokens _ ih =>
      obtain ⟨hRead, hResume⟩ := hFits.read
      obtain ⟨first, others, hFirst, hKind⟩ := exists_first_of_fits hFits hTokens
      rw [hFirst] at hRead hResume ⊢
      rw [readItems_cons hKind, hResume, ih, hRead, List.map_cons]

/-- The regions put together are the tokens before the end. -/
theorem Cuts.flatMap_tokens {regions : List Region} {tokens : List Token}
    (h : Cuts regions tokens) : beforeEnd tokens = regions.flatMap Region.tokens := by
  have hSplit : ∃ rest, tokens = regions.flatMap Region.tokens ++ rest ∧ AtEnd rest ∧
      ∀ token ∈ regions.flatMap Region.tokens, token.kind ≠ .eof := by
    induction h with
    | @done rest hEnd => exact ⟨rest, rfl, hEnd, by simp⟩
    | @next region regions rest hFits _ _ ih =>
        obtain ⟨left, rfl, hEnd, hKinds⟩ := ih
        refine ⟨left, by rw [List.flatMap_cons, List.append_assoc], hEnd, ?_⟩
        intro token hMem
        rw [List.flatMap_cons] at hMem
        rcases List.mem_append.1 hMem with hMem | hMem
        · exact hFits.kind_ne_eof token hMem
        · exact hKinds token hMem
  obtain ⟨rest, rfl, hEnd, hKinds⟩ := hSplit
  exact beforeEnd_append hKinds hEnd

/-- A region and the tokens behind it are told by the tokens of both. -/
theorem fits_unique {region other : Region} {behind otherBehind : List Token}
    (h : region.Fits behind) (hOther : other.Fits otherBehind)
    (hTokens : region.tokens ++ behind = other.tokens ++ otherBehind) :
    region = other ∧ behind = otherBehind := by
  obtain ⟨hRead, hResume⟩ := h.read
  obtain ⟨hOtherRead, hOtherResume⟩ := hOther.read
  rw [hTokens, hOtherResume] at hResume
  subst hResume
  rw [hTokens, hOtherRead] at hRead
  injection hRead with hItem hRest
  have hDropped := List.append_cancel_right hRest
  have hUsed := List.append_cancel_right hTokens
  obtain ⟨item, used, dropped⟩ := region
  obtain ⟨otherItem, otherUsed, otherDropped⟩ := other
  simp only at hItem hDropped
  subst hItem hDropped
  exact ⟨congrArg (Region.mk _ · _) (List.append_cancel_right hUsed), rfl⟩

/-- Tokens are cut into regions in one way only. -/
theorem Cuts.unique {regions others : List Region} {tokens : List Token}
    (h : Cuts regions tokens) (hOthers : Cuts others tokens) : others = regions := by
  induction h generalizing others with
  | done hEnd =>
      have hItems := hOthers.items_eq
      rw [readItems_of_atEnd hEnd] at hItems
      exact List.map_eq_nil_iff.1 hItems.symm
  | @next region regions rest hFits hRegion hRest ih =>
      generalize hWhole : region.tokens ++ rest = whole at hOthers
      cases hOthers with
      | done hEnd =>
          obtain ⟨first, more, hFirst, hKind⟩ := exists_first_of_fits hFits hRegion
          rw [← hWhole, hFirst] at hEnd
          exact absurd (hEnd first rfl) hKind
      | @next other others otherRest hOtherFits _ hOtherRest =>
          obtain ⟨rfl, rfl⟩ := fits_unique hFits hOtherFits hWhole
          rw [ih hOtherRest]

/-- **All tokens are cut into regions.** -/
theorem exists_cuts (tokens : List Token) : ∃ regions, Cuts regions tokens := by
  fun_induction readItems tokens with
  | case1 => exact ⟨[], .done (by simp [AtEnd])⟩
  | case2 token tokens hEof => exact ⟨[], .done (by simpa [AtEnd] using hEof)⟩
  | case3 token tokens hKind reading ih =>
      obtain ⟨regions, hRegions⟩ := ih
      obtain ⟨region, hTokens, hFits⟩ := Region.exists_of_read (token :: tokens)
      have hNonempty : region.tokens ≠ [] := by
        intro hEmpty
        rw [hEmpty, List.nil_append] at hTokens
        exact absurd (congrArg List.length hTokens)
          (Nat.ne_of_gt (length_resume_read_lt tokens hKind))
      rw [hTokens]
      exact ⟨region :: regions, .next hFits hNonempty hRegions⟩

/-! ## Where the errors stand -/

/-- A syntax error and the position of the offending token, counted from the first token on. If no
token is left then it is the position past the last one. -/
structure Offence where
  position : Nat
  error : ParseError

/-- The errors of regions that begin at a position. -/
def offences (start : Nat) : List Region → List Offence
  | [] => []
  | region :: regions =>
    let later := offences (start + region.tokens.length) regions
    match region.item with
    | .ok _ => later
    | .error error => ⟨start + region.used.length, error⟩ :: later

theorem map_error_offences (start : Nat) (regions : List Region) :
    (offences start regions).map Offence.error = errors ⟨regions.map Region.item⟩ := by
  induction regions generalizing start with
  | nil => rfl
  | cons region regions ih =>
      have hLater := ih (start + region.tokens.length)
      simp only [errors, offences, List.map_cons, List.filterMap_cons] at hLater ⊢
      cases region.item with
      | ok tree => exact hLater
      | error error => exact congrArg (error :: ·) hLater

theorem le_position_of_mem_offences {start : Nat} {regions : List Region} {offence : Offence}
    (h : offence ∈ offences start regions) : start ≤ offence.position := by
  induction regions generalizing start with
  | nil => cases h
  | cons region regions ih =>
      simp only [offences] at h
      split at h
      · have hLater := ih h
        omega
      · rcases List.mem_cons.1 h with rfl | h
        · exact Nat.le_add_right _ _
        · have hLater := ih h
          omega

/-- **Every error stands at its offending token**, which is not behind the end mark. -/
theorem Cuts.offence_stands {regions : List Region} {tokens : List Token} (h : Cuts regions tokens)
    (start : Nat) : ∀ offence ∈ offences start regions, ∃ before behind,
      tokens = before ++ behind ∧ offence.position = start + before.length ∧
        offence.error.token = nextToken behind ∧ ∀ token ∈ before, token.kind ≠ .eof := by
  induction h generalizing start with
  | done =>
      intro offence hMem
      cases hMem
  | @next region regions rest hFits _ _ ih =>
      intro offence hMem
      -- An error of a later region stands as far behind this one as it does in the rest.
      have hLater : offence ∈ offences (start + region.tokens.length) regions →
          ∃ before behind, region.tokens ++ rest = before ++ behind ∧
            offence.position = start + before.length ∧
            offence.error.token = nextToken behind ∧ ∀ token ∈ before, token.kind ≠ .eof := by
        intro hRest
        obtain ⟨before, behind, rfl, hPosition, hToken, hKinds⟩ := ih _ offence hRest
        refine ⟨region.tokens ++ before, behind, (List.append_assoc ..).symm, ?_, hToken, ?_⟩
        · rw [hPosition, List.length_append, Nat.add_assoc]
        · intro token hBefore
          rcases List.mem_append.1 hBefore with hRegion | hBefore
          · exact hFits.kind_ne_eof token hRegion
          · exact hKinds token hBefore
      have hKinds := hFits.kind_ne_eof
      cases hFits with
      | statement => exact hLater hMem
      | @error error used dropped _ _ hToken _ =>
          rcases List.mem_cons.1 hMem with rfl | hMem
          · refine ⟨used, dropped ++ rest, List.append_assoc .., rfl, hToken, ?_⟩
            exact fun token hUsed => hKinds token (List.mem_append_left _ hUsed)
          · exact hLater hMem

/-- Where more is to come after an error, its token is dropped and is no end mark. -/
theorem exists_offending_of_dropped {dropped behind : List Token} (h : Dropped dropped behind)
    (hMore : ¬ AtEnd behind) :
    ∃ offending skipped, dropped = offending :: skipped ∧ offending.kind ≠ .eof := by
  cases h with
  | atEnd hEnd => exact absurd hEnd hMore
  | @semicolon offending _ hKind => exact ⟨offending, [], rfl, by simp [hKind]⟩
  | @skip offending skipped _ hMark => exact ⟨offending, skipped, rfl, hMark⟩

/-- **The errors stand further and further on**, and none but the last stands at the end. -/
theorem Cuts.pairwise_offences {regions : List Region} {tokens : List Token}
    (h : Cuts regions tokens) (start : Nat) :
    (offences start regions).Pairwise fun one other =>
      one.position < other.position ∧ one.error.token.kind ≠ .eof := by
  induction h generalizing start with
  | done => exact List.Pairwise.nil
  | @next region regions rest hFits _ hRest ih =>
      cases hFits with
      | statement => exact ih _
      | @error error used dropped _ _ hToken hDropped =>
          refine List.Pairwise.cons ?_ (ih _)
          intro other hOther
          have hMore : ¬ AtEnd rest := by
            intro hEnd
            have hItems := hRest.items_eq
            rw [readItems_of_atEnd hEnd] at hItems
            rw [List.map_eq_nil_iff.1 hItems.symm] at hOther
            cases hOther
          obtain ⟨offending, skipped, rfl, hKind⟩ := exists_offending_of_dropped hDropped hMore
          have hPosition := le_position_of_mem_offences hOther
          simp only [Region.tokens, List.length_append, List.length_cons] at hPosition
          refine ⟨?_, ?_⟩
          · show start + used.length < other.position
            omega
          · rw [hToken]
            exact hKind

/-- **Statements and errors divide the tokens among them.** The tokens before the end are cut in
exactly one way into regions, none of them empty, that are the tokens of a statement or else those
that a broken statement used up and those that were dropped after it. Their items are the statements
and the errors of the program in their order. The offending tokens stand further and further on,
each where the tokens that were used up end, and only the last one can be the end mark or stand
past the last token. -/
theorem exists_unique_regions (tokens : List Token) :
    ∃ regions : List Region, (∀ others, Cuts others tokens ↔ others = regions) ∧
      regions.flatMap Region.tokens = beforeEnd tokens ∧
      regions.map Region.item = (ofTokens tokens).items ∧
      (offences 0 regions).map Offence.error = (ofTokens tokens).errors ∧
      (∀ offence ∈ offences 0 regions, offence.position ≤ (beforeEnd tokens).length ∧
        nextToken (tokens.drop offence.position) = offence.error.token) ∧
      (offences 0 regions).Pairwise fun one other =>
        one.position < other.position ∧ one.error.token.kind ≠ .eof := by
  obtain ⟨regions, hCuts⟩ := exists_cuts tokens
  refine ⟨regions, fun others => ⟨hCuts.unique, fun h => h ▸ hCuts⟩, hCuts.flatMap_tokens.symm,
    hCuts.items_eq.symm, ?_, ?_, hCuts.pairwise_offences 0⟩
  · rw [map_error_offences, ← hCuts.items_eq]
    rfl
  · intro offence hMem
    obtain ⟨before, behind, rfl, hPosition, hToken, hKinds⟩ := hCuts.offence_stands 0 offence hMem
    rw [Nat.zero_add] at hPosition
    have hBefore : beforeEnd (before ++ behind) = before ++ beforeEnd behind :=
      List.takeWhile_append_of_pos (by simpa using hKinds)
    rw [hPosition, hBefore, List.drop_left, List.length_append, hToken]
    exact ⟨Nat.le_add_right _ _, rfl⟩

end Program

end ExprLang
