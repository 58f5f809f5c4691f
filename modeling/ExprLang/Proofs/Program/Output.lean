import ExprLang.Proofs.Grammar
import ExprLang.Proofs.Program.Sequence

/-!
# What an execution writes

Executing statements amounts to one write of all that the print statements before the first fault
show, and to raising the fault after it. A stream that has not enough room takes what it has room
for, whatever the statements are that the bytes come from, and its failure is then the only one:
the fault is never reached.

## Main results

* `Stream.write_append` — it does not matter into which pieces the bytes of a write are cut.
* `Statement.execute_eq`, `interpret_eq` — a statement, and statements, as one write and a fault.
* `interpret_exact_effect` — what is written and reported with enough room and without.
-/

namespace ExprLang

/-! ## Writes in pieces -/

theorem Stream.write_nil (stream : Stream) : stream.write [] = ⟨[], stream, none⟩ := by
  obtain ⟨_ | room, flushes⟩ := stream
  · rfl
  · simp [write]

/-- **Bytes written in two pieces are written like all of them at once.** -/
theorem Stream.write_append (stream : Stream) (bytes others : List UInt8) :
    stream.write (bytes ++ others) =
      (stream.write bytes).andThen fun stream => stream.write others := by
  obtain ⟨_ | room, flushes⟩ := stream
  · rfl
  · by_cases hFits : bytes.length ≤ room.left
    · have hTaken : bytes.take room.left = bytes := List.take_of_length_le hFits
      have hBoth : bytes.length + others.length ≤ room.left ↔
          others.length ≤ room.left - bytes.length := by omega
      simp only [write, Writing.andThen, hFits, if_true, List.take_append, hTaken,
        List.length_append, hBoth, Nat.sub_sub]
    · have hNone : room.left - bytes.length = 0 := by omega
      have hMore : ¬ bytes.length + others.length ≤ room.left := by omega
      have hLeft : room.left - (bytes.length + others.length) = 0 := by omega
      simp only [write, Writing.andThen, hFits, if_false, List.take_append, hNone,
        List.take_zero, List.append_nil, List.length_append, hMore, hLeft]

/-- Whether a stream has room for a number of bytes. -/
def Stream.Accepts (stream : Stream) (size : Nat) : Prop := ∀ limit ∈ stream.room, size ≤ limit.left

/-- A stream takes bytes that it has room for. -/
theorem Stream.write_of_accepts {stream : Stream} {bytes : List UInt8}
    (h : stream.Accepts bytes.length) :
    (stream.write bytes).taken = bytes ∧ (stream.write bytes).fault = none := by
  obtain ⟨_ | limit, flushes⟩ := stream
  · exact ⟨rfl, rfl⟩
  · have hFits : bytes.length ≤ limit.left := h limit rfl
    exact ⟨List.take_of_length_le hFits, if_pos hFits⟩

/-- A stream with too little room takes what it has room for. -/
theorem Stream.write_of_lt {stream : Stream} {limit : Limit} {bytes : List UInt8}
    (hRoom : stream.room = some limit) (h : limit.left < bytes.length) :
    (stream.write bytes).taken = bytes.take limit.left ∧
      (stream.write bytes).fault = some limit.refusal := by
  simp only [write, hRoom, Nat.not_le_of_lt h, if_false, and_self]

/-! ## Writes and faults -/

/-- The execution that makes a write, and then raises an error if there is one. If the write fails
the error is not reached. -/
def Writing.raising (writing : Writing) (error? : Option RuntimeError) : Execution :=
  ⟨writing.taken, writing.stream,
    (writing.fault.map Failure.output).or (error?.map Failure.runtime)⟩

theorem Writing.raising_andThen (first : Writing) (next : Stream → Writing)
    (error? : Option RuntimeError) :
    ((first.raising none).andThen fun stream => (next stream).raising error?) =
      (first.andThen next).raising error? := by
  obtain ⟨taken, stream, fault⟩ := first
  cases fault <;> rfl

theorem Writing.fault?_raising (writing : Writing) (error? : Option RuntimeError) :
    (writing.raising error?).fault? = writing.fault := by
  obtain ⟨taken, stream, fault⟩ := writing
  cases fault with
  | some fault => rfl
  | none => cases error? <;> rfl

theorem Writing.runtimeError?_raising (writing : Writing) (error? : Option RuntimeError) :
    (writing.raising error?).runtimeError? = if writing.fault = none then error? else none := by
  obtain ⟨taken, stream, fault⟩ := writing
  cases fault with
  | some fault => rfl
  | none => cases error? <;> rfl

/-! ## Statements -/

section Statements

variable [NaNRule]

namespace Statement

/-- The error that the expression of a statement raises, if it has no value. -/
def error? (statement : Statement) : Option RuntimeError :=
  match statement.body.evaluate with
  | .ok _ => none
  | .error error => some error

/-- The bytes that a statement shows: the text of its value and a line feed if it is a print
statement whose expression has a value. -/
def shown : Statement → List UInt8
  | expr _ => []
  | print body =>
    match body.evaluate with
    | .ok value => utf8 (value.text ++ "\n")
    | .error _ => []

/-- **A statement writes what it shows and raises its error.** -/
theorem execute_eq (stream : Stream) (statement : Statement) :
    statement.execute stream = (stream.write statement.shown).raising statement.error? := by
  cases statement with
  | expr body =>
      rw [shown, Stream.write_nil]
      simp only [execute, error?, Statement.body]
      cases body.evaluate <;> rfl
  | print body =>
      simp only [execute, shown, error?, Statement.body]
      cases body.evaluate with
      | ok value => simp only [Writing.raising, Option.map_none, Option.or_none]
      | error error =>
          simp only [Stream.write_nil]
          rfl

theorem shown_of_error? {statement : Statement} {error : RuntimeError}
    (h : statement.error? = some error) : statement.shown = [] := by
  cases statement with
  | expr body => rfl
  | print body =>
      simp only [error?, Statement.body] at h
      rw [shown]
      cases hValue : body.evaluate with
      | ok value => simp [hValue] at h
      | error error => rfl

end Statement

/-- The position of the first statement whose expression has no value. It is the number of the
statements if there is none. -/
def firstFault (statements : List Statement) : Nat :=
  statements.findIdx fun statement => statement.error?.isSome

/-- What the print statements before the first fault show. -/
def shownBeforeFault (statements : List Statement) : List UInt8 :=
  (statements.take (firstFault statements)).flatMap Statement.shown

/-- The error of the first statement whose expression has no value. -/
def faultError? (statements : List Statement) : Option RuntimeError :=
  statements[firstFault statements]?.bind Statement.error?

theorem firstFault_cons_of_error? {statement : Statement} {error : RuntimeError}
    (h : statement.error? = some error) (statements : List Statement) :
    firstFault (statement :: statements) = 0 := by
  simp only [firstFault, List.findIdx_cons, h, Option.isSome_some, cond_true]

theorem firstFault_cons_of_value {statement : Statement} (h : statement.error? = none)
    (statements : List Statement) :
    firstFault (statement :: statements) = firstFault statements + 1 := by
  simp only [firstFault, List.findIdx_cons, h, Option.isSome_none, cond_false]

/-- A statement whose expression has no value ends the execution, whatever stands behind it. -/
theorem interpret_cons_of_error? {statement : Statement} {error : RuntimeError}
    (h : statement.error? = some error) (stream : Stream) (others : List Statement) :
    interpret stream (statement :: others) = ⟨[], stream, some (.runtime error)⟩ := by
  rw [interpret_cons, statement.execute_eq, Statement.shown_of_error? h, Stream.write_nil, h]
  rfl

/-- **Statements write all that is shown before the first fault, and raise it.** -/
theorem interpret_eq (stream : Stream) (statements : List Statement) :
    interpret stream statements =
      (stream.write (shownBeforeFault statements)).raising (faultError? statements) := by
  induction statements generalizing stream with
  | nil =>
      rw [shownBeforeFault, List.take_nil, List.flatMap_nil, Stream.write_nil]
      rfl
  | cons statement statements ih =>
      rw [shownBeforeFault, faultError?]
      cases hError : statement.error? with
      | some error =>
          rw [interpret_cons_of_error? hError, firstFault_cons_of_error? hError, List.take_zero,
            List.flatMap_nil, Stream.write_nil, List.getElem?_cons_zero, Option.bind_some, hError]
          rfl
      | none =>
          rw [interpret_cons, statement.execute_eq, hError, firstFault_cons_of_value hError,
            List.take_succ_cons, List.flatMap_cons, List.getElem?_cons_succ, Stream.write_append,
            ← Writing.raising_andThen]
          exact congrArg _ (funext fun stream => ih stream)

/-- Statements behind the first fault have no effect. -/
theorem interpret_take_append {statements : List Statement}
    (h : firstFault statements < statements.length) (stream : Stream) (others : List Statement) :
    interpret stream (statements.take (firstFault statements + 1) ++ others) =
      interpret stream statements := by
  have hFails : statements[firstFault statements].error?.isSome :=
    List.findIdx_getElem (p := fun statement : Statement => statement.error?.isSome) (w := h)
  obtain ⟨error, hError⟩ := Option.isSome_iff_exists.1 hFails
  have hSplit : statements = statements.take (firstFault statements) ++
      statements[firstFault statements] :: statements.drop (firstFault statements + 1) := by
    rw [← List.drop_eq_getElem_cons h, List.take_append_drop]
  have hEnds : ∀ behind, interpret stream (statements.take (firstFault statements) ++
      statements[firstFault statements] :: behind) =
        (interpret stream (statements.take (firstFault statements))).andThen fun stream =>
          ⟨[], stream, some (.runtime error)⟩ := by
    intro behind
    rw [interpret_append]
    exact congrArg _ (funext fun stream => interpret_cons_of_error? hError stream behind)
  rw [List.take_succ_eq_append_getElem h, List.append_assoc, List.singleton_append, hEnds]
  conv_rhs => rw [hSplit, hEnds]

/-- **The exact effect of an execution.** Let the first fault be the first statement whose
expression has no value. If the stream has room for all that the print statements before it show,
exactly that is written, the stream does not fail, and the error of the first fault is raised, if
there is one. Else the stream takes exactly as many of these bytes as it has room for and fails, and
no error is raised. What stands behind the first fault has no effect in either case. -/
theorem interpret_exact_effect (stream : Stream) (statements : List Statement) :
    (stream.Accepts (shownBeforeFault statements).length →
      (interpret stream statements).written = shownBeforeFault statements ∧
        (interpret stream statements).fault? = none ∧
        (interpret stream statements).runtimeError? = faultError? statements) ∧
    (∀ limit, stream.room = some limit → limit.left < (shownBeforeFault statements).length →
      (interpret stream statements).written = (shownBeforeFault statements).take limit.left ∧
        (interpret stream statements).fault? = some limit.refusal ∧
        (interpret stream statements).runtimeError? = none) ∧
    (firstFault statements < statements.length → ∀ others,
      interpret stream (statements.take (firstFault statements + 1) ++ others) =
        interpret stream statements) := by
  refine ⟨fun hRoom => ?_, fun limit hLimit hRoom => ?_, fun hFault others => ?_⟩
  · obtain ⟨hTaken, hNone⟩ := Stream.write_of_accepts hRoom
    rw [interpret_eq, Writing.fault?_raising, Writing.runtimeError?_raising, if_pos hNone]
    exact ⟨hTaken, hNone, rfl⟩
  · obtain ⟨hTaken, hSome⟩ := Stream.write_of_lt hLimit hRoom
    rw [interpret_eq, Writing.fault?_raising, Writing.runtimeError?_raising, hSome]
    exact ⟨hTaken, rfl, rfl⟩
  · exact interpret_take_append hFault stream others

end Statements

/-- The room ends inside of a character, so the fault behind it is not reached. -/
theorem interpret_exact_effect_inside_character :
    let full : Fault := ⟨.storageFull, "sink full"⟩
    let statements : List Statement :=
      [.print (.literal (.string "é")), .expr (.unary .negate (.plain .minus "-") (.literal .nil))]
    let execution := interpret ⟨some ⟨1, full⟩, none⟩ statements
    firstFault statements = 1 ∧ 1 < (shownBeforeFault statements).length ∧
      execution.written = [0xC3] ∧ execution.fault? = some full ∧
      execution.runtimeError? = none := by
  intro full statements execution
  have hMore : 1 < (shownBeforeFault statements).length := by decide +kernel
  obtain ⟨hWritten, hFault, hError⟩ :=
    (interpret_exact_effect ⟨some ⟨1, full⟩, none⟩ statements).2.1 ⟨1, full⟩ rfl hMore
  refine ⟨by decide +kernel, hMore, hWritten.trans ?_, hFault, hError⟩
  decide +kernel

end ExprLang
