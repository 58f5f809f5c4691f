import ExprLang.Session.Line
import Mathlib.Data.List.Basic

/-!
# The lines of a text are the lines of its bytes

A text is cut into lines at its line feeds, and one carriage return before a line feed is dropped.
Input is cut in the same way, but byte by byte and before it is known to be valid. Both agree on the
bytes of a text: in UTF-8 the codes of the two line end characters stand for nothing else.

## Main results

* `mem_utf8EncodeChar` — a byte below 128 encodes a character by itself.
* `map_lineText?_inputLines` — the lines read from the bytes of a text are the lines of the text.
-/

namespace ExprLang

/-! ## Bytes of characters -/

/-- The UTF-8 bytes of characters. -/
def charBytes (chars : List Char) : List UInt8 := chars.flatMap String.utf8EncodeChar

theorem charBytes_append (chars others : List Char) :
    charBytes (chars ++ others) = charBytes chars ++ charBytes others :=
  List.flatMap_append

theorem toList_data_toByteArray (bytes : List UInt8) : bytes.toByteArray.data.toList = bytes := by
  simp

theorem utf8_eq_charBytes (text : String) : utf8 text = charBytes text.toList := by
  rw [utf8, String.toUTF8_eq_toByteArray, ← String.utf8Encode_toList, List.utf8Encode]
  exact toList_data_toByteArray _

theorem decodeUtf8?_eq_some_iff {bytes : List UInt8} {text : String} :
    decodeUtf8? bytes = some text ↔ utf8 text = bytes := by
  unfold decodeUtf8? String.fromUTF8? utf8
  rw [String.toUTF8_eq_toByteArray]
  split
  · rename_i hValid
    rw [Option.some_inj, ← String.toByteArray_inj]
    constructor
    · intro h
      rw [← h]
      rfl
    · rintro rfl
      rfl
  · rename_i hInvalid
    refine ⟨fun h => (by cases h), fun h => absurd ?_ hInvalid⟩
    rw [← h]
    exact text.isValidUTF8

/-- A byte below 128 encodes a character by itself; longer codes have greater bytes only. -/
theorem mem_utf8EncodeChar {char : Char} {byte : UInt8} (h : byte ∈ String.utf8EncodeChar char)
    (hSmall : byte.toNat < 128) :
    String.utf8EncodeChar char = [byte] ∧ char.toNat = byte.toNat := by
  have hCode : char.val.toNat = char.toNat := rfl
  unfold String.utf8EncodeChar at h ⊢
  simp only at h ⊢
  split at h
  · rename_i hAscii
    have hByte := List.mem_singleton.1 h
    rw [if_pos hAscii, hByte, UInt8.toNat_ofNat', hCode]
    exact ⟨rfl, by omega⟩
  · exfalso
    split at h
    · simp only [List.mem_cons, List.not_mem_nil, or_false] at h
      rcases h with rfl | rfl <;> rw [UInt8.toNat_ofNat'] at hSmall <;> omega
    · split at h
      · simp only [List.mem_cons, List.not_mem_nil, or_false] at h
        rcases h with rfl | rfl | rfl <;> rw [UInt8.toNat_ofNat'] at hSmall <;> omega
      · simp only [List.mem_cons, List.not_mem_nil, or_false] at h
        rcases h with rfl | rfl | rfl | rfl <;> rw [UInt8.toNat_ofNat'] at hSmall <;> omega

/-- The code of an ASCII character is found only in the bytes of that character. -/
theorem code_mem_utf8EncodeChar_iff {mark char : Char} {code : UInt8}
    (hCode : String.utf8EncodeChar mark = [code]) (hSmall : code.toNat < 128) :
    code ∈ String.utf8EncodeChar char ↔ char = mark := by
  constructor
  · intro h
    have hMark : code ∈ String.utf8EncodeChar mark := hCode ▸ List.mem_singleton_self code
    exact Char.toNat_inj.1 ((mem_utf8EncodeChar h hSmall).2.trans
      (mem_utf8EncodeChar hMark hSmall).2.symm)
  · rintro rfl
    rw [hCode]
    exact List.mem_singleton_self code

theorem utf8EncodeChar_lineFeed : String.utf8EncodeChar '\n' = [lineFeed] := rfl

theorem utf8EncodeChar_return : String.utf8EncodeChar '\r' = [carriageReturn] := rfl

theorem lineFeed_mem_charBytes_iff {chars : List Char} :
    lineFeed ∈ charBytes chars ↔ '\n' ∈ chars := by
  simp only [charBytes, List.mem_flatMap,
    code_mem_utf8EncodeChar_iff utf8EncodeChar_lineFeed (by decide), exists_eq_right]

theorem getLast?_charBytes_append_singleton (front : List Char) (char : Char) :
    (charBytes (front ++ [char])).getLast? = (String.utf8EncodeChar char).getLast? := by
  rw [charBytes_append, charBytes, charBytes, List.flatMap_singleton,
    List.getLast?_append_of_ne_nil _ String.utf8EncodeChar_ne_nil]

/-! ## Texts line by line -/

/-- What holds of texts without a mark, and of a text with a mark behind it and then another text of
which it holds, holds of all texts. -/
theorem induction_on_mark {α : Type} [DecidableEq α] (mark : α) {motive : List α → Prop}
    (last : ∀ line, mark ∉ line → motive line)
    (line : ∀ line rest, mark ∉ line → motive rest → motive (line ++ mark :: rest))
    (text : List α) : motive text := by
  by_cases hMark : mark ∈ text
  · obtain ⟨front, rest, hText, hFront⟩ := List.eq_append_cons_of_mem hMark
    rw [hText]
    exact line front rest hFront (induction_on_mark mark last line rest)
  · exact last text hMark
termination_by text.length
decreasing_by
  rw [hText, List.length_append, List.length_cons]
  omega

/-- A line without one carriage return at its end. -/
def withoutReturn (line : List Char) : List Char :=
  if line.getLast? = some '\r' then line.dropLast else line

/-- The lines of a text: it is split at its line feeds, and one carriage return before a line feed
is dropped. What follows the last line feed is a line unless it is empty. -/
def charLines (text : List Char) : List (List Char) :=
  let segments := text.splitOn '\n'
  segments.dropLast.map withoutReturn ++ segments.getLast?.toList.filter (!·.isEmpty)

/-- The lines of a text, as texts. -/
def textLines (text : String) : List String := (charLines text.toList).map String.ofList

example : textLines "a\r\n\nb\r" = ["a", "", "b\r"] := by decide

theorem charLines_last {line : List Char} (hLine : '\n' ∉ line) (hNonempty : line ≠ []) :
    charLines line = [line] := by
  simp [charLines, List.splitOn_eq_singleton hLine, hNonempty]

theorem charLines_append {line : List Char} (hLine : '\n' ∉ line) (rest : List Char) :
    charLines (line ++ '\n' :: rest) = withoutReturn line :: charLines rest := by
  have hRest := List.splitOn_ne_nil '\n' rest
  rw [charLines, List.splitOn_append_cons_self_of_not_mem hLine]
  obtain ⟨first, others, hSplit⟩ := List.exists_cons_of_ne_nil hRest
  simp only [charLines, hSplit, List.dropLast_cons_cons, List.map_cons, List.getLast?_cons_cons,
    List.cons_append]

/-! ## Lines of input -/

theorem inputLines_last {line : List UInt8} (hLine : lineFeed ∉ line) (hNonempty : line ≠ []) :
    inputLines line = [line] := by
  induction line with
  | nil => exact absurd rfl hNonempty
  | cons byte line ih =>
      rw [List.mem_cons, not_or] at hLine
      rw [inputLines, if_neg (Ne.symm hLine.1)]
      cases line with
      | nil => rfl
      | cons next line => rw [ih hLine.2 (List.cons_ne_nil _ _)]

theorem inputLines_append {line : List UInt8} (hLine : lineFeed ∉ line) (rest : List UInt8) :
    inputLines (line ++ lineFeed :: rest) = (line ++ [lineFeed]) :: inputLines rest := by
  induction line with
  | nil => rw [List.nil_append, inputLines, if_pos rfl, List.nil_append]
  | cons byte line ih =>
      rw [List.mem_cons, not_or] at hLine
      rw [List.cons_append, inputLines, if_neg (Ne.symm hLine.1), ih hLine.2]
      rfl

theorem dropLineEnd_last {line : List UInt8} (hLine : lineFeed ∉ line) :
    dropLineEnd line = line := by
  have hLast : line.getLast? ≠ some lineFeed := fun h => hLine (List.mem_of_getLast? h)
  rw [dropLineEnd, if_neg hLast]

/-- A line that is ended by a line feed loses it, and a carriage return before it. -/
theorem dropLineEnd_append (line : List UInt8) :
    dropLineEnd (line ++ [lineFeed]) =
      if line.getLast? = some carriageReturn then line.dropLast else line := by
  simp [dropLineEnd]

/-- No line has a line feed in its text. -/
theorem lineFeed_not_mem_dropLineEnd {input line : List UInt8} (h : line ∈ inputLines input) :
    lineFeed ∉ dropLineEnd line := by
  induction input using induction_on_mark lineFeed with
  | last last hLast =>
      by_cases hNil : last = []
      · rw [hNil] at h
        cases h
      · rw [inputLines_last hLast hNil] at h
        rw [List.mem_singleton.1 h, dropLineEnd_last hLast]
        exact hLast
  | line front rest hFront ih =>
      rw [inputLines_append hFront] at h
      rcases List.mem_cons.1 h with rfl | hRest
      · rw [dropLineEnd_append]
        split
        · exact fun hMem => hFront (List.dropLast_subset _ hMem)
        · exact hFront
      · exact ih hRest

/-- The text of a line has no line feed. -/
theorem not_mem_of_lineText? {input line : List UInt8} {text : String}
    (hLine : line ∈ inputLines input) (hText : lineText? line = some text) :
    '\n' ∉ text.toList := by
  have hBytes := decodeUtf8?_eq_some_iff.1 hText
  rw [← lineFeed_mem_charBytes_iff, ← utf8_eq_charBytes, hBytes]
  exact lineFeed_not_mem_dropLineEnd hLine

/-! ## The lines of the bytes of a text -/

theorem decodeUtf8?_charBytes (chars : List Char) :
    decodeUtf8? (charBytes chars) = some (String.ofList chars) := by
  rw [decodeUtf8?_eq_some_iff, utf8_eq_charBytes, String.toList_ofList]

theorem getLast?_charBytes_eq_return_iff {chars : List Char} :
    (charBytes chars).getLast? = some carriageReturn ↔ chars.getLast? = some '\r' := by
  rcases List.eq_nil_or_concat chars with rfl | ⟨front, char, rfl⟩
  · simp [charBytes]
  · rw [List.concat_eq_append, getLast?_charBytes_append_singleton, List.getLast?_concat,
      Option.some_inj]
    constructor
    · intro h
      exact (code_mem_utf8EncodeChar_iff utf8EncodeChar_return (by decide)).1
        (List.mem_of_getLast? h)
    · rintro rfl
      rfl

theorem dropLineEnd_charBytes (line : List Char) :
    dropLineEnd (charBytes line ++ [lineFeed]) = charBytes (withoutReturn line) := by
  rw [dropLineEnd_append, withoutReturn]
  simp only [getLast?_charBytes_eq_return_iff]
  split
  · rename_i hReturn
    obtain ⟨front, rfl⟩ := List.getLast?_eq_some_iff.1 hReturn
    rw [charBytes_append, List.dropLast_concat]
    exact List.dropLast_concat
  · rfl

theorem map_lineText?_charBytes (text : List Char) :
    (inputLines (charBytes text)).map lineText? =
      (charLines text).map fun line => some (String.ofList line) := by
  induction text using induction_on_mark '\n' with
  | last line hLine =>
      by_cases hNil : line = []
      · rw [hNil]
        rfl
      · have hBytes : lineFeed ∉ charBytes line := mt lineFeed_mem_charBytes_iff.1 hLine
        have hNonempty : charBytes line ≠ [] := by
          obtain ⟨char, tail, rfl⟩ := List.exists_cons_of_ne_nil hNil
          exact List.append_ne_nil_of_left_ne_nil String.utf8EncodeChar_ne_nil _
        rw [charLines_last hLine hNil, inputLines_last hBytes hNonempty, List.map_singleton,
          List.map_singleton, lineText?, dropLineEnd_last hBytes, decodeUtf8?_charBytes]
  | line line rest hLine ih =>
      have hBytes : lineFeed ∉ charBytes line := mt lineFeed_mem_charBytes_iff.1 hLine
      have hText :
          charBytes (line ++ '\n' :: rest) = charBytes line ++ lineFeed :: charBytes rest :=
        charBytes_append line ('\n' :: rest)
      rw [hText, inputLines_append hBytes, charLines_append hLine, List.map_cons, List.map_cons, ih,
        lineText?, dropLineEnd_charBytes, decodeUtf8?_charBytes]

/-- **The lines read from the bytes of a text are the lines of the text.** -/
theorem map_lineText?_inputLines (text : String) :
    (inputLines (utf8 text)).map lineText? = (textLines text).map some := by
  rw [utf8_eq_charBytes, map_lineText?_charBytes, textLines, List.map_map]
  rfl

end ExprLang
