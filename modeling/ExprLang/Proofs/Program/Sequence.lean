import ExprLang.Program.Execution

/-!
# Executions one after the other

Executing statements is executing the first of them and then the others on the stream that it
leaves, unless it fails. So the statements of one list after those of another are executed after
them, and what holds of a step carries over to a run.

## Main results

* `interpret_append` — statements one after the other.
* `Execution.failure_eq_none_iff` — an execution fails in one of two ways or not at all.
-/

namespace ExprLang

namespace Execution

/-- Goes on with another execution, unless one has failed. -/
def andThen (first : Execution) (next : Stream → Execution) : Execution :=
  match first.failure with
  | some _ => first
  | none =>
    let second := next first.stream
    ⟨first.written ++ second.written, second.stream, second.failure⟩

theorem andThen_of_failure {first : Execution} {failure : Failure}
    (h : first.failure = some failure) (next : Stream → Execution) :
    first.andThen next = first := by
  simp only [andThen, h]

theorem andThen_of_none {first : Execution} (h : first.failure = none)
    (next : Stream → Execution) :
    first.andThen next =
      ⟨first.written ++ (next first.stream).written, (next first.stream).stream,
        (next first.stream).failure⟩ := by
  simp only [andThen, h]

theorem andThen_assoc (first : Execution) (second third : Stream → Execution) :
    (first.andThen second).andThen third =
      first.andThen fun stream => (second stream).andThen third := by
  obtain ⟨written, stream, failure⟩ := first
  cases failure with
  | some failure => rfl
  | none =>
      simp only [andThen]
      cases hSecond : (second stream).failure with
      | some failure => simp only [hSecond]
      | none => simp only [List.append_assoc]

/-- An execution has no failure if it raises no runtime error and its output does not fail. -/
theorem failure_eq_none_iff {execution : Execution} :
    execution.failure = none ↔ execution.runtimeError? = none ∧ execution.fault? = none := by
  rw [runtimeError?, fault?]
  cases execution.failure with
  | none => simp
  | some failure => cases failure <;> simp

/-- No execution raises a runtime error on an output that failed. -/
theorem runtimeError?_of_fault? {execution : Execution} {fault : Fault}
    (h : execution.fault? = some fault) : execution.runtimeError? = none := by
  rw [fault?] at h
  rw [runtimeError?]
  split at h
  · rename_i hFailure
    rw [hFailure]
  · cases h

end Execution

theorem interpret_cons [NaNRule] (stream : Stream) (statement : Statement)
    (statements : List Statement) :
    interpret stream (statement :: statements) =
      (statement.execute stream).andThen fun stream => interpret stream statements := rfl

/-- Statements one after the other are executed one after the other. -/
theorem interpret_append [NaNRule] (stream : Stream) (statements others : List Statement) :
    interpret stream (statements ++ others) =
      (interpret stream statements).andThen fun stream => interpret stream others := by
  induction statements generalizing stream with
  | nil => rfl
  | cons statement statements ih =>
      simp only [List.cons_append, interpret_cons, Execution.andThen_assoc, ih]

end ExprLang
