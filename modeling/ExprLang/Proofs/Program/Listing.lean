import ExprLang.Proofs.Expr.Equality
import ExprLang.Proofs.Number.Notation
import ExprLang.Proofs.Program.Recovery
import ExprLang.Proofs.Source.Lines

/-!
# Listings tell trees apart

Listings leave out the tokens of operators and nothing else. In a listing an operator node begins
with a parenthesis and a word that a space ends, and a literal ends before a space, before a closing
parenthesis or with its closing quote. So what a listing begins with decides which tree stands
there and where its text ends, and trees with one listing are the same but for operator tokens. This
takes string literals without a quote, and those of source text are.

## Main results

* `Value.eq_of_quoted_append` — where the listing of a literal ends.
* `Expr.sameTree_of_listing_append` — where the listing of a tree ends, and which tree it is.
* `listing_faithful` — equal listings are listings of the same tree.
-/

namespace ExprLang

/-! ## Trees without their operator tokens -/

/-- Trees that are equal once operator tokens are ignored. -/
inductive Expr.SameTree : Expr → Expr → Prop where
  | literal {value other : Value} :
      (value == other) = true → SameTree (.literal value) (.literal other)
  | group {inner other : Expr} : SameTree inner other → SameTree (.group inner) (.group other)
  | unary {op : UnaryOp} {operator otherOperator : Token} {right other : Expr} :
      SameTree right other → SameTree (.unary op operator right) (.unary op otherOperator other)
  | binary {op : BinaryOp} {operator otherOperator : Token}
      {left right otherLeft otherRight : Expr} :
      SameTree left otherLeft → SameTree right otherRight →
      SameTree (.binary left op operator right) (.binary otherLeft op otherOperator otherRight)

/-- Statements that are equal once operator tokens are ignored. -/
inductive Statement.SameTree : Statement → Statement → Prop where
  | expr {body other : Expr} : body.SameTree other → SameTree (.expr body) (.expr other)
  | print {body other : Expr} : body.SameTree other → SameTree (.print body) (.print other)

/-- A value is not a string that holds a quote. -/
def Value.QuoteFree : Value → Prop
  | string text => '"' ∉ text.toList
  | _ => True

/-- No string literal of a tree holds a quote. -/
def Expr.QuoteFree : Expr → Prop
  | literal value => value.QuoteFree
  | group inner => inner.QuoteFree
  | unary _ _ right => right.QuoteFree
  | binary left _ _ right => left.QuoteFree ∧ right.QuoteFree

/-! ## Where texts end -/

/-- A character that ends the listing of a literal. -/
def IsBorder (char : Char) : Prop := char = ' ' ∨ char = ')'

/-- Nothing follows, or a character that ends the listing of a literal. -/
def AtBorder (rest : List Char) : Prop := ∀ char ∈ rest.head?, IsBorder char

theorem atBorder_space (rest : List Char) : AtBorder (' ' :: rest) := by
  rintro _ ⟨rfl⟩
  exact .inl rfl

theorem atBorder_paren (rest : List Char) : AtBorder (')' :: rest) := by
  rintro _ ⟨rfl⟩
  exact .inr rfl

/-- A text that ends before the first stop is told from what follows. -/
theorem eq_of_append_stop (Stop : Char → Prop) {text other rest behind : List Char}
    (hText : ∀ char ∈ text, ¬ Stop char) (hOther : ∀ char ∈ other, ¬ Stop char)
    (hRest : ∀ char ∈ rest.head?, Stop char) (hBehind : ∀ char ∈ behind.head?, Stop char)
    (h : text ++ rest = other ++ behind) : text = other ∧ rest = behind := by
  induction text generalizing other with
  | nil =>
      cases other with
      | nil => exact ⟨rfl, h⟩
      | cons char other =>
          refine absurd (hRest char ?_) (hOther char List.mem_cons_self)
          rw [show rest = char :: (other ++ behind) from h]
          rfl
  | cons char text ih =>
      cases other with
      | nil =>
          refine absurd (hBehind char ?_) (hText char List.mem_cons_self)
          rw [← show char :: (text ++ rest) = behind from h]
          rfl
      | cons first other =>
          obtain ⟨rfl, hTail⟩ := List.cons.inj h
          obtain ⟨rfl, hSame⟩ := ih (fun char hMem => hText char (List.mem_cons_of_mem _ hMem))
            (fun char hMem => hOther char (List.mem_cons_of_mem _ hMem)) hTail
          exact ⟨rfl, hSame⟩

/-- The first `stop` is where a text without it ends. -/
theorem eq_of_append_cons {stop : Char} {text other rest behind : List Char} (hText : stop ∉ text)
    (hOther : stop ∉ other) (h : text ++ stop :: rest = other ++ stop :: behind) :
    text = other ∧ rest = behind := by
  obtain ⟨hSame, hEnd⟩ := eq_of_append_stop (· = stop)
    (fun _ hMem hStop => hText (hStop ▸ hMem)) (fun _ hMem hStop => hOther (hStop ▸ hMem))
    (fun _ hHead => (Option.mem_some_iff.1 hHead).symm)
    (fun _ hHead => (Option.mem_some_iff.1 hHead).symm) h
  exact ⟨hSame, (List.cons.inj hEnd).2⟩

/-! ## Literals -/

theorem numberChars_not_border {x : Binary64} : ∀ char ∈ numberChars x, ¬ IsBorder char := by
  have hDigit : ∀ {char : Char}, IsDigit char → ¬ IsBorder char := by
    rintro char hDigit (rfl | rfl) <;> exact absurd hDigit (by decide)
  have hMark : ∀ char ∈ ['.', 'e', '-'], ¬ IsBorder char := by simp [IsBorder]
  intro char hMem
  cases hNaN : x.isNaN with
  | true =>
      rw [numberChars_of_isNaN hNaN] at hMem
      revert char
      simp [IsBorder]
  | false =>
      rw [numberChars_of_not_isNaN hNaN, List.mem_append] at hMem
      rcases hMem with hSign | hChars
      · split at hSign
        · exact hMark char (by simp_all)
        · cases hSign
      · rcases (Binary64.index_le_iff.2 hNaN).lt_or_eq with hFinite | hInfinite
        · obtain ⟨d, _, hWritten⟩ := Binary64.exists_written hFinite
          exact (hWritten.mem char hChars).elim hDigit (hMark char)
        · rw [hInfinite, Binary64.chars_infinity] at hChars
          revert char
          simp [IsBorder]

theorem exists_cons_numberChars (x : Binary64) :
    ∃ first tail, numberChars x = first :: tail ∧
      (first ∈ ['-', 'I', 'N'] ∨ IsDigit first) := by
  cases hNaN : x.isNaN with
  | true => exact ⟨'N', "aN".toList, numberChars_of_isNaN hNaN, .inl (by decide)⟩
  | false =>
      obtain ⟨first, tail, hCons, hFirst, _⟩ := head?_numberChars hNaN
      refine ⟨first, tail, hCons, ?_⟩
      rcases hFirst with rfl | hDigit | rfl
      · exact .inl (by decide)
      · exact .inr hDigit
      · exact .inl (by decide)

theorem numberChars_ne_cons {letter : Char} (h : letter = 'n' ∨ letter = 't' ∨ letter = 'f')
    (x : Binary64) (rest : List Char) : numberChars x ≠ letter :: rest := by
  obtain ⟨first, tail, hCons, hFirst⟩ := exists_cons_numberChars x
  intro hSame
  obtain ⟨rfl, -⟩ := List.cons.inj (hCons.symm.trans hSame)
  rcases h with rfl | rfl | rfl <;> exact absurd hFirst (by decide)

namespace Value

/-- A value that is listed as a word, without quotes. -/
def IsBare : Value → Prop
  | string _ => False
  | _ => True

theorem toList_quoted_string (text : String) :
    (string text).quoted.toList = '"' :: text.toList ++ ['"'] := by
  simp [quoted]

theorem toList_quoted_number (x : Binary64) : (number x).quoted.toList = numberChars x :=
  String.toList_ofList

theorem quoted_not_border {value : Value} (h : value.IsBare) :
    ∀ char ∈ value.quoted.toList, ¬ IsBorder char := by
  cases value with
  | nil => simp [quoted, text, IsBorder]
  | bool value => cases value <;> simp [quoted, text, IsBorder]
  | number x =>
      rw [toList_quoted_number]
      exact numberChars_not_border
  | string _ => exact h.elim

/-- The listing of a literal begins neither like that of a node nor, unless it is a string, with a
quote. -/
theorem exists_cons_quoted (value : Value) :
    ∃ first tail, value.quoted.toList = first :: tail ∧ first ≠ '(' ∧
      (value.IsBare → first ≠ '"') := by
  cases value with
  | nil => exact ⟨'n', "il".toList, rfl, by decide, fun _ => by decide⟩
  | bool value =>
      cases value with
      | false => exact ⟨'f', "alse".toList, rfl, by decide, fun _ => by decide⟩
      | true => exact ⟨'t', "rue".toList, rfl, by decide, fun _ => by decide⟩
  | number x =>
      obtain ⟨first, tail, hCons, hFirst⟩ := exists_cons_numberChars x
      refine ⟨first, tail, (toList_quoted_number x).trans hCons, ?_, fun _ => ?_⟩
      · rintro rfl
        exact absurd hFirst (by decide)
      · rintro rfl
        exact absurd hFirst (by decide)
  | string text => exact ⟨'"', _, toList_quoted_string text, by decide, False.elim⟩

/-- The values that are listed as one and the same word each. -/
def words : List Value := [nil, bool true, bool false]

theorem IsBare.mem_words_or {value : Value} (h : value.IsBare) :
    value ∈ words ∨ ∃ x, value = .number x := by
  cases value with
  | nil => exact .inl (by simp [words])
  | bool value => exact .inl (by cases value <;> simp [words])
  | number x => exact .inr ⟨x, rfl⟩
  | string _ => exact h.elim

theorem number_quoted_ne {word : Value} (h : word ∈ words) (x : Binary64) :
    (number x).quoted.toList ≠ word.quoted.toList := by
  rw [toList_quoted_number]
  simp only [words, List.mem_cons, List.not_mem_nil, or_false] at h
  rcases h with rfl | rfl | rfl
  · exact numberChars_ne_cons (.inl rfl) x _
  · exact numberChars_ne_cons (.inr (.inl rfl)) x _
  · exact numberChars_ne_cons (.inr (.inr rfl)) x _

theorem beq_of_quoted_word :
    ∀ word ∈ words, ∀ other ∈ words, word.quoted = other.quoted → (word == other) = true := by
  decide

/-- Bare values that are listed alike are equal. -/
theorem beq_of_quoted_eq {value other : Value} (h : value.IsBare) (hOther : other.IsBare)
    (hSame : value.quoted.toList = other.quoted.toList) : (value == other) = true := by
  rcases h.mem_words_or with hWord | ⟨x, rfl⟩
  · rcases hOther.mem_words_or with hOtherWord | ⟨y, rfl⟩
    · exact beq_of_quoted_word value hWord other hOtherWord (String.toList_inj.1 hSame)
    · exact absurd hSame.symm (number_quoted_ne hWord y)
  · rcases hOther.mem_words_or with hOtherWord | ⟨y, rfl⟩
    · exact absurd hSame (number_quoted_ne hOtherWord x)
    · rw [toList_quoted_number, toList_quoted_number] at hSame
      exact number_beq_iff.2 (numberChars_eq_iff.1 hSame)

theorem bare_or_string (value : Value) : value.IsBare ∨ ∃ text, value = .string text := by
  cases value with
  | string text => exact .inr ⟨text, rfl⟩
  | _ => exact .inl trivial

/-- **The listing of a literal tells its value and where it ends.** -/
theorem eq_of_quoted_append {value other : Value} (h : value.QuoteFree) (hOther : other.QuoteFree)
    {rest behind : List Char} (hRest : AtBorder rest) (hBehind : AtBorder behind)
    (hSame : value.quoted.toList ++ rest = other.quoted.toList ++ behind) :
    (value == other) = true ∧ rest = behind := by
  have hQuote : ∀ {bare : Value} {text : String} {tail others : List Char}, bare.IsBare →
      bare.quoted.toList ++ tail ≠ (string text).quoted.toList ++ others := by
    intro bare text tail others hBare hText
    obtain ⟨first, after, hCons, _, hFirst⟩ := bare.exists_cons_quoted
    rw [hCons, toList_quoted_string] at hText
    exact hFirst hBare (List.cons.inj hText).1
  rcases value.bare_or_string with hBare | ⟨text, rfl⟩
  · rcases other.bare_or_string with hOtherBare | ⟨otherText, rfl⟩
    · obtain ⟨hText, hEnd⟩ := eq_of_append_stop IsBorder (quoted_not_border hBare)
        (quoted_not_border hOtherBare) hRest hBehind hSame
      exact ⟨beq_of_quoted_eq hBare hOtherBare hText, hEnd⟩
    · exact absurd hSame (hQuote hBare)
  · rcases other.bare_or_string with hOtherBare | ⟨otherText, rfl⟩
    · exact absurd hSame.symm (hQuote hOtherBare)
    · simp only [toList_quoted_string, List.cons_append, List.append_assoc, List.nil_append,
        List.cons.injEq, true_and] at hSame
      obtain ⟨hText, hEnd⟩ := eq_of_append_cons h hOther hSame
      exact ⟨same_iff.1 (String.toList_inj.1 hText ▸ .refl _), hEnd⟩

theorem quoted_eq_of_beq {value other : Value} (h : (value == other) = true) :
    value.quoted = other.quoted := by
  have hSame := same_iff.2 h
  cases hSame with
  | number hNumber => exact (Same.number hNumber).text_eq
  | _ => rfl

end Value

/-! ## Trees -/

theorem UnaryOp.symbol_inj {op other : UnaryOp} (h : op.symbol = other.symbol) : op = other := by
  cases op <;> cases other <;> simp_all [symbol]

theorem UnaryOp.symbol_ne_group (op : UnaryOp) : op.symbol ≠ "group" := by
  cases op <;> decide

theorem BinaryOp.symbol_ne_group (op : BinaryOp) : op.symbol ≠ "group" := by
  cases op <;> decide

theorem BinaryOp.symbol_inj {op other : BinaryOp} (h : op.symbol = other.symbol) : op = other := by
  cases op <;> cases other <;> simp_all [symbol]

namespace Expr

/-- The word that a node is listed with, and none for a literal. -/
def word? : Expr → Option String
  | literal _ => none
  | group _ => some "group"
  | unary op _ _ => some op.symbol
  | binary _ op _ _ => some op.symbol

/-- The listing of a node behind the space after its word. -/
def operands : Expr → List Char
  | literal _ => []
  | group inner => inner.text.toList ++ [')']
  | unary _ _ right => right.text.toList ++ [')']
  | binary left _ _ right => left.text.toList ++ ' ' :: (right.text.toList ++ [')'])

theorem toList_text {tree : Expr} {word : String} (h : tree.word? = some word) :
    tree.text.toList = '(' :: word.toList ++ ' ' :: tree.operands := by
  cases tree with
  | literal value => cases h
  | group inner =>
      cases h
      simp [text, operands]
  | unary op operator right =>
      cases h
      simp [text, operands]
  | binary left op operator right =>
      cases h
      simp [text, operands]

theorem space_notMem_word {tree : Expr} {word : String} (h : tree.word? = some word) :
    ' ' ∉ word.toList := by
  cases tree with
  | literal value => cases h
  | group inner =>
      cases h
      decide
  | unary op operator right =>
      cases h
      cases op <;> decide
  | binary left op operator right =>
      cases h
      cases op <;> decide

/-- A literal is not listed like a node. -/
theorem text_literal_ne {value : Value} {tree : Expr} {word : String} (h : tree.word? = some word)
    (rest behind : List Char) :
    (literal value).text.toList ++ rest ≠ tree.text.toList ++ behind := by
  obtain ⟨first, tail, hCons, hFirst, _⟩ := value.exists_cons_quoted
  intro hSame
  rw [toList_text h, text, hCons] at hSame
  exact hFirst (List.cons.inj hSame).1

/-- Nodes that are listed alike have the same word and operands that are listed alike. -/
theorem word_eq_of_text_append {tree other : Expr} {word otherWord : String}
    (h : tree.word? = some word) (hOther : other.word? = some otherWord) {rest behind : List Char}
    (hSame : tree.text.toList ++ rest = other.text.toList ++ behind) :
    word = otherWord ∧ tree.operands ++ rest = other.operands ++ behind := by
  rw [toList_text h, toList_text hOther] at hSame
  simp only [List.cons_append, List.append_assoc, List.cons.injEq, true_and] at hSame
  obtain ⟨hWord, hOperands⟩ :=
    eq_of_append_cons (space_notMem_word h) (space_notMem_word hOther) hSame
  exact ⟨String.toList_inj.1 hWord, hOperands⟩

/-- **The listing of a tree tells the tree, but for its operator tokens, and where it ends.** -/
theorem sameTree_of_listing_append {tree other : Expr} (h : tree.QuoteFree)
    (hOther : other.QuoteFree) {rest behind : List Char} (hRest : AtBorder rest)
    (hBehind : AtBorder behind)
    (hSame : tree.text.toList ++ rest = other.text.toList ++ behind) :
    tree.SameTree other ∧ rest = behind := by
  induction tree generalizing other rest behind with
  | literal value =>
      cases other with
      | literal otherValue =>
          obtain ⟨hValue, hEnd⟩ := Value.eq_of_quoted_append h hOther hRest hBehind hSame
          exact ⟨.literal hValue, hEnd⟩
      | _ => exact absurd hSame (text_literal_ne rfl _ _)
  | group inner ih =>
      cases other with
      | literal value => exact absurd hSame.symm (text_literal_ne rfl _ _)
      | group otherInner =>
          obtain ⟨-, hInner⟩ := word_eq_of_text_append rfl rfl hSame
          simp only [operands, List.append_assoc, List.singleton_append] at hInner
          obtain ⟨hTree, hEnd⟩ := ih h (show otherInner.QuoteFree from hOther)
            (atBorder_paren _) (atBorder_paren _) hInner
          exact ⟨.group hTree, (List.cons.inj hEnd).2⟩
      | unary op operator right =>
          exact absurd (word_eq_of_text_append rfl rfl hSame).1.symm op.symbol_ne_group
      | binary left op operator right =>
          exact absurd (word_eq_of_text_append rfl rfl hSame).1.symm op.symbol_ne_group
  | unary op operator right ih =>
      cases other with
      | literal value => exact absurd hSame.symm (text_literal_ne rfl _ _)
      | group inner =>
          exact absurd (word_eq_of_text_append rfl rfl hSame).1 op.symbol_ne_group
      | unary otherOp otherOperator otherRight =>
          obtain ⟨hWord, hRight⟩ := word_eq_of_text_append rfl rfl hSame
          simp only [operands, List.append_assoc, List.singleton_append] at hRight
          obtain ⟨hTree, hEnd⟩ := ih h (show otherRight.QuoteFree from hOther)
            (atBorder_paren _) (atBorder_paren _) hRight
          cases UnaryOp.symbol_inj hWord
          exact ⟨.unary hTree, (List.cons.inj hEnd).2⟩
      | binary left otherOp otherOperator otherRight =>
          -- The signs may be the same, but a parenthesis closes one operand and a space the other.
          obtain ⟨-, hRight⟩ := word_eq_of_text_append rfl rfl hSame
          simp only [operands, List.append_assoc, List.cons_append, List.nil_append] at hRight
          have hEnd := (ih h hOther.1 (atBorder_paren _) (atBorder_space _) hRight).2
          exact absurd (List.cons.inj hEnd).1 (by decide)
  | binary left op operator right ihLeft ihRight =>
      cases other with
      | literal value => exact absurd hSame.symm (text_literal_ne rfl _ _)
      | group inner =>
          exact absurd (word_eq_of_text_append rfl rfl hSame).1 op.symbol_ne_group
      | unary otherOp otherOperator otherRight =>
          obtain ⟨-, hLeft⟩ := word_eq_of_text_append rfl rfl hSame
          simp only [operands, List.append_assoc, List.cons_append, List.nil_append] at hLeft
          have hEnd := (ihLeft h.1 (show otherRight.QuoteFree from hOther) (atBorder_space _)
            (atBorder_paren _) hLeft).2
          exact absurd (List.cons.inj hEnd).1 (by decide)
      | binary otherLeft otherOp otherOperator otherRight =>
          obtain ⟨hWord, hLeft⟩ := word_eq_of_text_append rfl rfl hSame
          simp only [operands, List.append_assoc, List.cons_append, List.nil_append] at hLeft
          obtain ⟨hLeftTree, hRight⟩ :=
            ihLeft h.1 hOther.1 (atBorder_space _) (atBorder_space _) hLeft
          obtain ⟨hRightTree, hEnd⟩ := ihRight h.2 hOther.2 (atBorder_paren _) (atBorder_paren _)
            (List.cons.inj hRight).2
          cases BinaryOp.symbol_inj hWord
          exact ⟨.binary hLeftTree hRightTree, (List.cons.inj hEnd).2⟩

theorem SameTree.text_eq {tree other : Expr} (h : tree.SameTree other) :
    tree.text = other.text := by
  induction h with
  | literal hValue => exact Value.quoted_eq_of_beq hValue
  | group _ ih => simp only [text, ih]
  | unary _ ih => simp only [text, ih]
  | binary _ _ ihLeft ihRight => simp only [text, ihLeft, ihRight]

theorem text_eq_iff {tree other : Expr} (h : tree.QuoteFree) (hOther : other.QuoteFree) :
    tree.text = other.text ↔ tree.SameTree other := by
  refine ⟨fun hSame => ?_, SameTree.text_eq⟩
  have hList : tree.text.toList ++ [] = other.text.toList ++ [] := by rw [hSame]
  have hNothing : AtBorder [] := nofun
  exact (sameTree_of_listing_append h hOther hNothing hNothing hList).1

end Expr

namespace Statement

/-- The word that a statement is listed with. -/
def word : Statement → String
  | expr _ => "expr"
  | print _ => "print"

theorem toList_text (statement : Statement) :
    statement.text.toList =
      '(' :: statement.word.toList ++ ' ' :: (statement.body.text.toList ++ [')']) := by
  cases statement <;> simp [text, word, body]

theorem space_notMem_word (statement : Statement) : ' ' ∉ statement.word.toList := by
  cases statement <;> simp [word]

theorem text_eq_iff {statement other : Statement} (h : statement.body.QuoteFree)
    (hOther : other.body.QuoteFree) : statement.text = other.text ↔ statement.SameTree other := by
  constructor
  · intro hSame
    have hList := congrArg String.toList hSame
    rw [toList_text, toList_text] at hList
    simp only [List.cons_append, List.cons.injEq, true_and] at hList
    obtain ⟨hWord, hBody⟩ :=
      eq_of_append_cons (space_notMem_word _) (space_notMem_word _) hList
    have hTree := (Expr.sameTree_of_listing_append h hOther (atBorder_paren [])
      (atBorder_paren []) hBody).1
    cases statement with
    | expr body =>
        cases other with
        | expr otherBody => exact .expr hTree
        | print otherBody => simp [word] at hWord
    | print body =>
        cases other with
        | expr otherBody => simp [word] at hWord
        | print otherBody => exact .print hTree
  · intro hTree
    cases hTree with
    | expr hBody => simp only [text, hBody.text_eq]
    | print hBody => simp only [text, hBody.text_eq]

end Statement

/-! ## Trees of source text -/

/-- The value that a token carries, if any, is not a string that holds a quote. -/
def Token.QuoteFree (token : Token) : Prop := ∀ value ∈ token.literal, value.QuoteFree

theorem Token.Denotes.quoteFree {token : Token} {value : Value} (h : token.Denotes value)
    (hToken : token.QuoteFree) : value.QuoteFree := by
  cases h with
  | trueWord _ => exact trivial
  | falseWord _ => exact trivial
  | nilWord _ => exact trivial
  | number _ hLiteral => exact hToken value hLiteral
  | string _ hLiteral => exact hToken value hLiteral

theorem Expr.Spells.quoteFree {tree : Expr} {tokens : List Token} (h : tree.Spells tokens)
    (hTokens : ∀ token ∈ tokens, token.QuoteFree) : tree.QuoteFree := by
  induction h with
  | literal hDenotes => exact hDenotes.quoteFree (hTokens _ List.mem_cons_self)
  | group _ _ _ ih =>
      exact ih fun token hMem =>
        hTokens token (List.mem_append_left _ (List.mem_cons_of_mem _ hMem))
  | unary _ _ ih => exact ih fun token hMem => hTokens token (List.mem_cons_of_mem _ hMem)
  | binary _ _ _ ihLeft ihRight =>
      exact ⟨ihLeft fun token hMem => hTokens token (List.mem_append_left _ hMem),
        ihRight fun token hMem =>
          hTokens token (List.mem_append_right _ (List.mem_cons_of_mem _ hMem))⟩

theorem Statement.Spells.quoteFree {statement : Statement} {tokens : List Token}
    (h : statement.Spells tokens) (hTokens : ∀ token ∈ tokens, token.QuoteFree) :
    statement.body.QuoteFree := by
  cases h with
  | print _ hBody _ =>
      exact hBody.quoteFree fun token hMem =>
        hTokens token (List.mem_append_left _ (List.mem_cons_of_mem _ hMem))
  | expr hBody _ =>
      exact hBody.quoteFree fun token hMem => hTokens token (List.mem_append_left _ hMem)

theorem Expr.quoteFree_of_read {level : Level} {tree : Expr} {tokens : List Token}
    (hTokens : ∀ token ∈ tokens, token.QuoteFree)
    (h : (Expr.read level tokens).result = .ok tree) : tree.QuoteFree := by
  obtain ⟨taken, hTaken, hTree, _⟩ := Expr.treeOf_of_read h
  refine hTree.spells.quoteFree fun token hMem => hTokens token ?_
  rw [hTaken]
  exact List.mem_append_left _ hMem

/-- Every statement of a program has its literals from the tokens, also where others are broken. -/
theorem Program.quoteFree_of_mem_statements {tokens : List Token} {statement : Statement}
    (hTokens : ∀ token ∈ tokens, token.QuoteFree)
    (h : statement ∈ (ofTokens tokens).statements) : statement.body.QuoteFree := by
  obtain ⟨item, hItem, hStatement⟩ := List.mem_filterMap.1 h
  obtain rfl : item = .ok statement := by
    cases item with
    | error error => cases hStatement
    | ok found => exact congrArg Except.ok (Option.some.inj hStatement)
  clear h hStatement
  unfold ofTokens at hItem
  fun_induction readItems tokens with
  | case1 => cases hItem
  | case2 token tokens _ => cases hItem
  | case3 token tokens _ reading ih =>
      rcases List.mem_cons.1 hItem with hFirst | hLater
      · obtain ⟨used, hUsed, hTree⟩ := Statement.treeOf_of_read hFirst.symm
        refine hTree.spells.quoteFree fun other hMem => hTokens other ?_
        rw [hUsed]
        exact List.mem_append_left _ hMem
      · have hSuffix : reading.resume <:+ token :: tokens := Statement.resume_read_suffix _
        exact ih (fun other hMem => hTokens other (hSuffix.subset hMem)) hLater

/-- Between its quotes a string has no quote. -/
theorem Kind.Lexeme.quoteFree {kind : Kind} {text : List Char} (h : kind.Lexeme text) :
    ∀ value ∈ literalValue? kind text, value.QuoteFree := by
  intro value hValue
  unfold literalValue? at hValue
  split at hValue
  · cases hValue
    exact trivial
  · cases hValue
    cases h with
    | fixed hText => cases hText
    | reserved hMem => simp [Kind.reservedWords] at hMem
    | string hBody => simpa [Value.QuoteFree] using hBody
  · cases hValue

theorem Scan.quoteFree_of_mem_tokens {source : String} {token : Token}
    (h : token ∈ (ofSource source).tokens) : token.QuoteFree := by
  rw [ofSource_eq] at h
  rcases List.mem_append.1 h with hSpelled | hLast
  · obtain ⟨⟨line, piece⟩, hLined, hToken⟩ := List.mem_filterMap.1 hSpelled
    have hPiece := (tiles_pieces source.toList).inClass_or_rejected piece
      (mem_of_mem_withLines hLined)
    cases piece with
    | lexeme kind text =>
        cases hToken
        rcases hPiece with hLexeme | ⟨char, hChar⟩
        · exact Kind.Lexeme.quoteFree hLexeme
        · cases hChar
    | _ => cases hToken
  · rw [List.mem_singleton.1 hLast]
    exact nofun

/-- **Listings are faithful.** Expressions whose string literals hold no quote have the same listing
exactly if they are the same tree, with literals that are equal in the language, once operator
tokens are ignored; and so have statements. The strings of a program that is read from source text,
whether or not parts of it are broken, hold no quote. -/
theorem listing_faithful :
    (∀ tree other : Expr, tree.QuoteFree → other.QuoteFree →
      (tree.text = other.text ↔ tree.SameTree other)) ∧
    (∀ statement other : Statement, statement.body.QuoteFree → other.body.QuoteFree →
      (statement.text = other.text ↔ statement.SameTree other)) ∧
    (∀ source : String,
      (∀ statement ∈ (Program.ofTokens (Scan.ofSource source).tokens).statements,
        statement.body.QuoteFree) ∧
      ∀ (level : Level) (tree : Expr),
        (Expr.read level (Scan.ofSource source).tokens).result = .ok tree → tree.QuoteFree) := by
  refine ⟨fun _ _ => Expr.text_eq_iff, fun _ _ => Statement.text_eq_iff, fun source => ⟨?_, ?_⟩⟩
  · intro statement hStatement
    exact Program.quoteFree_of_mem_statements (fun _ => Scan.quoteFree_of_mem_tokens) hStatement
  · intro level tree hRead
    exact Expr.quoteFree_of_read (fun _ => Scan.quoteFree_of_mem_tokens) hRead

/-- A string that looks like the end of one tree and the beginning of another, read from source text
and put beside the same tree on another line and a tree that is listed almost alike. -/
theorem listing_faithful_of_parenthesis_in_string :
    Statement.print (.binary (.literal (.string ") (- ")) .sub (.plain .minus "-")
      (.literal (.bool true))) ∈
        (Program.ofTokens (Scan.ofSource "print \") (- \" - true;").tokens).statements ∧
    (Expr.read .equality (Scan.ofSource "\") (- \"").tokens).result =
      .ok (.literal (.string ") (- ")) ∧
    (Expr.literal (.string ") (- ")).QuoteFree ∧
    (Statement.print (.binary (.literal (.string ") (- ")) .sub (.plain .minus "-")
      (.literal (.bool true)))).text =
      (Statement.print (.binary (.literal (.string ") (- ")) .sub ((Token.plain .minus "-").later 1)
        (.literal (.bool true)))).text ∧
    (Expr.binary (.literal (.string ") (- ")) .sub (.plain .minus "-")
      (.literal (.bool true))).text ≠
      (Expr.unary .negate (.plain .minus "-") (.literal (.string ") (-  true"))).text := by
  have hStatements :
      (Program.ofTokens (Scan.ofSource "print \") (- \" - true;").tokens).statements =
        [.print (.binary (.literal (.string ") (- ")) .sub (.plain .minus "-")
          (.literal (.bool true)))] := by
    with_unfolding_all rfl
  have hRead : (Expr.read .equality (Scan.ofSource "\") (- \"").tokens).result =
      .ok (.literal (.string ") (- ")) := by
    with_unfolding_all rfl
  have hOther : (Expr.unary .negate (.plain .minus "-")
      (.literal (.string ") (-  true"))).QuoteFree := by
    simp [Expr.QuoteFree, Value.QuoteFree]
  obtain ⟨hExpr, hStatement, hSource⟩ := listing_faithful
  have hMem := hStatements ▸ List.mem_singleton_self _
  have hTree := (hSource "print \") (- \" - true;").1 _ hMem
  refine ⟨hMem, hRead, (hSource _).2 _ _ hRead, (hStatement _ _ hTree hTree).2 ?_, ?_⟩
  · exact .print (.binary (.literal rfl) (.literal rfl))
  · intro hText
    cases (hExpr _ _ hTree hOther).1 hText

end ExprLang
