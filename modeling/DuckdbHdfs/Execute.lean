import DuckdbHdfs.ConnectionSafety

/-!
# One call of `Execute`

A call on its own, as a function of what `Get` and the operation answer at each attempt.  A call
among others on the connection returns the same status on the same answers.
-/

namespace DuckdbHdfs

/-- How `Execute` ends: it returns, with what it leaves in the status, or it throws. -/
inductive Executed
  | returned (status : BridgeStatus)
  | threw (message : Text)
  deriving DecidableEq, Repr

/-- Run an operation against a live client, and once more if the first attempt fails on the
connection.  `get` and `op` answer by the number of the attempt. -/
def execute {σ : Type*} (get : Nat → Except Text ClientId)
    (op : Nat → ClientId → σ → CallOutcome × σ) (attempt : Nat) (s : σ) : Executed × σ :=
  match get attempt with
  | .error message => (.threw message, s)
  | .ok client =>
      match op attempt client s with
      | (.ok (), s) => (.returned .reset, s)
      | (.error failure, s) =>
          if attempt = 0 ∧ failure.status.isConnection then
            execute get op (attempt + 1) s
          else
            (.returned failure.status, s)
termination_by 1 - attempt

section

variable {σ : Type*} {get : Nat → Except Text ClientId} {op : Nat → ClientId → σ → CallOutcome × σ}
  {attempt : Nat} {client : ClientId} {outcome : CallOutcome} {s s' : σ}

theorem execute_of_final (got : get attempt = .ok client)
    (ran : op attempt client s = (outcome, s'))
    (final : ¬(attempt = 0 ∧ (statusOf outcome).isConnection = true)) :
    execute get op attempt s = (.returned (statusOf outcome), s') := by
  rw [execute, got]
  simp only [ran]
  cases outcome with
  | ok _ => rfl
  | error failure => exact if_neg final

theorem execute_of_lost {failure : Failure} (got : get 0 = .ok client)
    (ran : op 0 client s = (.error failure, s'))
    (connection_lost : failure.status.isConnection = true) :
    execute get op 0 s = execute get op 1 s' := by
  rw [execute, got]
  simp only [ran]
  exact if_pos (by simp [connection_lost])

/-- A call that has returned, in any interleaving, has the status that it returns on its own when
`Get` and the operation answer as they did. -/
theorem execute_eq_status {ι : Type*} [DecidableEq ι] {authority : Text}
    {programs : ι → Program} {system : ConnectionSystem ι} {i : ι} {e : Execution}
    (reach : Relation.ReflTransGen ConnectionSystem.Step
      (ConnectionSystem.start authority programs) system)
    (process_eq : system.processes i = .execution e) (returned : e.phase = .returned)
    (answers : ∀ n client outcome, (runs (system.eventsOf i))[n]? = some (client, outcome) →
      get n = .ok client ∧ ∀ s, (op n client s).1 = outcome) :
    (execute get op 0 s).1 = .returned e.status := by
  have knows := Execution.knows_of_reach reach process_eq
  unfold Execution.Knows at knows
  rw [returned] at knows
  obtain ⟨earlier, client, outcome, -, runs_eq, before, status_eq, final, -⟩ := knows
  rw [status_eq] at final ⊢
  rw [runs_eq] at answers
  generalize e.attempt = attempt at before final
  cases before with
  | first =>
      obtain ⟨got, ran⟩ := answers 0 client outcome rfl
      rw [execute_of_final got (Prod.ext (ran s) rfl) final]
  | @second stale failure connection_lost _ =>
      obtain ⟨got, ran⟩ := answers 0 stale (.error failure) rfl
      obtain ⟨got', ran'⟩ := answers 1 client outcome rfl
      rw [execute_of_lost got (Prod.ext (ran s) rfl) connection_lost,
        execute_of_final got' (Prod.ext (ran' _) rfl) (by simp)]

end

end DuckdbHdfs
