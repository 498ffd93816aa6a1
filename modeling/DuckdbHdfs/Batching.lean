import DuckdbHdfs.Library.Runs
import DuckdbHdfs.Namespace

/-!
# Batches

A walker task feeds a bounded FIFO channel and `BridgeListStream::next_batch` drains it.  The
model interleaves the sends with the consumer's calls one channel operation at a time.  The
walker's part is a script: the entries it sends, an error after them if it reports one, and
whether its task then completes or dies.
-/

namespace DuckdbHdfs

/-- A message on the channel. -/
abbrev Message := Except HdfsError FileStatus

/-- How the walker's task ends. -/
inductive Ending
  | completed
  /-- The task dies; joining it gives a message. -/
  | died (cause : Text)
  deriving DecidableEq, Repr

/-- What a walker sends and how it ends. -/
structure Script where
  entries : List FileStatus
  error : Option HdfsError
  ending : Ending
  deriving DecidableEq, Repr

/-- The messages of a script in order. -/
def Script.messages (script : Script) : List Message :=
  script.entries.map .ok ++ script.error.toList.map .error

/-- What the consumer is doing. -/
inductive Phase
  | idle
  /-- Blocked in `recv`. -/
  | receiving (maxEntries : Nat)
  /-- Extending a batch with `try_recv`. -/
  | filling (maxEntries : Nat) (batch : List FileStatus)
  deriving DecidableEq, Repr

/-- The result of one call, with the bound the call was made with. -/
structure BatchResult where
  maxEntries : Nat
  result : Except HdfsError (List FileStatus)
  deriving DecidableEq, Repr

/-- The walker task, the channel and the consumer. -/
structure BatchSystem where
  /-- Messages the walker has still to send. -/
  unsent : List Message
  /-- How the walker's task will end. -/
  ending : Ending
  /-- The task has ended and dropped the sender. -/
  ended : Bool
  /-- Messages on the channel, oldest first. -/
  queue : List Message
  /-- The stream still holds the handle of the task. -/
  task : Bool
  /-- An error received mid-batch. -/
  pendingError : Option HdfsError
  phase : Phase
  /-- Results of the calls that have returned. -/
  results : List BatchResult
  deriving DecidableEq, Repr

/-- One channel operation or call. -/
inductive BatchAction
  /-- The walker sends its next message. -/
  | send
  /-- The walker's task ends and drops the sender. -/
  | finish
  /-- The consumer calls `next_batch`. -/
  | call (maxEntries : Nat)
  /-- The blocking `recv` of the first message returns. -/
  | receive
  /-- One iteration of the `try_recv` loop. -/
  | fill
  deriving DecidableEq, Repr

/-- The error a dead task is reported with. -/
def walkerDied (cause : Text) : HdfsError :=
  .ioError { kind := .other "Other".toList, message := "walker task died: ".toList ++ cause }

namespace BatchSystem

/-- A walker about to run its script, and a fresh stream. -/
def start (script : Script) : BatchSystem where
  unsent := script.messages
  ending := script.ending
  ended := false
  queue := []
  task := true
  pendingError := none
  phase := .idle
  results := []

/-- The call returns. -/
def returning (system : BatchSystem) (maxEntries : Nat)
    (result : Except HdfsError (List FileStatus)) : BatchSystem :=
  { system with phase := .idle, results := system.results ++ [⟨maxEntries, result⟩] }

/-- Perform one operation, if it is possible now. -/
def perform (capacity : Nat) (system : BatchSystem) : BatchAction → Option BatchSystem
  | .send =>
      match system.unsent with
      | message :: unsent =>
          if system.queue.length < capacity then
            some { system with unsent := unsent, queue := system.queue ++ [message] }
          else
            none
      | [] => none
  | .finish =>
      if system.unsent = [] ∧ system.ended = false then
        some { system with ended := true }
      else
        none
  | .call maxEntries =>
      match system.phase with
      | .idle =>
          match system.pendingError with
          | some e => some ({ system with pendingError := none }.returning maxEntries (.error e))
          | none => some { system with phase := .receiving maxEntries }
      | _ => none
  | .receive =>
      match system.phase with
      | .receiving maxEntries =>
          match system.queue with
          | .ok entry :: queue =>
              some { system with queue := queue, phase := .filling maxEntries [entry] }
          | .error e :: queue =>
              some ({ system with queue := queue }.returning maxEntries (.error e))
          | [] =>
              if system.ended then
                -- the channel is closed: tell a finished walk from a dead one, once
                if system.task then
                  match system.ending with
                  | .died cause =>
                      some ({ system with task := false }.returning maxEntries
                        (.error (walkerDied cause)))
                  | .completed => some ({ system with task := false }.returning maxEntries (.ok []))
                else
                  some (system.returning maxEntries (.ok []))
              else
                none
      | _ => none
  | .fill =>
      match system.phase with
      | .filling maxEntries batch =>
          if batch.length < max maxEntries 1 then
            match system.queue with
            | .ok entry :: queue =>
                some { system with queue := queue, phase := .filling maxEntries (batch ++ [entry]) }
            | .error e :: queue =>
                some ({ system with queue := queue, pendingError := some e }.returning maxEntries
                  (.ok batch))
            | [] => some (system.returning maxEntries (.ok batch))
          else
            some (system.returning maxEntries (.ok batch))
      | _ => none

/-- One step of the interleaving. -/
def Step (capacity : Nat) (system next : BatchSystem) : Prop :=
  ∃ action, system.perform capacity action = some next

end BatchSystem

theorem Script.eq_of_messages_ok {script : Script} {sent : List FileStatus}
    (messages : script.messages = sent.map .ok) : script.entries = sent ∧ script.error = none := by
  obtain ⟨entries, error, ending⟩ := script
  cases error with
  | none =>
      have same : entries.map (Except.ok (ε := HdfsError)) = sent.map .ok := by
        simpa [Script.messages] using messages
      exact ⟨List.map_injective_iff.mpr (fun _ _ => Except.ok.inj) same, rfl⟩
  | some e =>
      have mem : Except.error e ∈ sent.map (Except.ok (ε := HdfsError)) := by
        rw [← messages]
        simp [Script.messages]
      simp at mem

theorem Script.eq_of_messages_error {script : Script} {sent : List FileStatus} {e : HdfsError}
    {rest : List Message} (messages : script.messages = sent.map .ok ++ .error e :: rest) :
    script.entries = sent ∧ script.error = some e ∧ rest = [] := by
  obtain ⟨entries, error, ending⟩ := script
  simp only [Script.messages] at messages ⊢
  induction sent generalizing entries with
  | nil =>
      cases entries with
      | nil => cases error <;> simp_all
      | cons => simp at messages
  | cons entry sent ih =>
      cases entries with
      | nil => cases error <;> simp at messages
      | cons first entries =>
          obtain ⟨rfl, later⟩ : first = entry ∧
              entries.map .ok ++ error.toList.map .error = sent.map .ok ++ .error e :: rest := by
            simpa using messages
          obtain ⟨rfl, error_eq, rest_eq⟩ := ih entries later
          exact ⟨rfl, error_eq, rest_eq⟩

/-- What the first call after the last entry returns. -/
def Script.outcome (script : Script) : Except HdfsError (List FileStatus) :=
  match script.error, script.ending with
  | some e, _ => .error e
  | none, .died cause => .error (walkerDied cause)
  | none, .completed => .ok []

/-- The entries of a result. -/
def BatchResult.batch (result : BatchResult) : List FileStatus :=
  match result.result with
  | .ok batch => batch
  | .error _ => []

/-- The result is a batch that holds at least one entry and not too many. -/
def BatchResult.Fits (result : BatchResult) : Prop :=
  ∃ batch, result.result = .ok batch ∧ batch ≠ [] ∧ batch.length ≤ max result.maxEntries 1

/-- The batch under construction. -/
def Phase.batch : Phase → List FileStatus
  | .filling _ batch => batch
  | _ => []

namespace BatchSystem

/-- Every call so far has returned a batch, and every message is in exactly one place. -/
structure Flowing (script : Script) (system : BatchSystem) : Prop where
  fits : ∀ result ∈ system.results, result.Fits
  conserved : script.messages =
    (system.results.flatMap BatchResult.batch ++ system.phase.batch).map .ok ++
      (system.pendingError.toList.map .error ++ (system.queue ++ system.unsent))
  ending_eq : system.ending = script.ending
  ended : system.ended = true → system.unsent = []
  task : system.task = true
  pending : system.pendingError = none ∨ system.phase = .idle
  filling : ∀ {maxEntries batch}, system.phase = .filling maxEntries batch →
    batch ≠ [] ∧ batch.length ≤ max maxEntries 1

/-- Some call has returned what follows the last entry, after batches with all of them. -/
def Settled (script : Script) (system : BatchSystem) : Prop :=
  ∃ before first after, system.results = before ++ first :: after ∧
    (∀ result ∈ before, result.Fits) ∧ before.flatMap BatchResult.batch = script.entries ∧
    first.result = script.outcome

variable {script : Script} {capacity : Nat} {system next : BatchSystem}

theorem Flowing.start (script : Script) : Flowing script (start script) where
  fits := by simp [BatchSystem.start]
  conserved := by simp [BatchSystem.start, Phase.batch]
  ending_eq := rfl
  ended := by simp [BatchSystem.start]
  task := rfl
  pending := .inl rfl
  filling := by simp [BatchSystem.start]

theorem Flowing.settled_error {e : HdfsError} {maxEntries : Nat}
    (flowing : Flowing script system) (idle : system.phase.batch = [])
    (messages : ∃ rest, system.pendingError.toList.map .error ++ (system.queue ++ system.unsent) =
      .error e :: rest) (left : next.results = system.results ++ [⟨maxEntries, .error e⟩]) :
    Settled script next := by
  obtain ⟨rest, messages⟩ := messages
  have conserved := flowing.conserved
  rw [idle, List.append_nil, messages] at conserved
  obtain ⟨entries_eq, error_eq, -⟩ := Script.eq_of_messages_error conserved
  refine ⟨system.results, ⟨maxEntries, .error e⟩, [], left, flowing.fits, entries_eq.symm, ?_⟩
  simp [Script.outcome, error_eq]

theorem Flowing.settled_closed {maxEntries : Nat} {result : Except HdfsError (List FileStatus)}
    (flowing : Flowing script system) (idle : system.phase.batch = [])
    (no_error : system.pendingError = none) (drained : system.queue = [])
    (ended : system.ended = true) (left : next.results = system.results ++ [⟨maxEntries, result⟩])
    (result_eq : script.error = none → result = script.outcome) : Settled script next := by
  have conserved := flowing.conserved
  rw [idle, no_error, drained, flowing.ended ended] at conserved
  obtain ⟨entries_eq, error_eq⟩ :=
    Script.eq_of_messages_ok (conserved.trans (List.append_nil _))
  rw [List.append_nil] at entries_eq
  exact ⟨system.results, ⟨maxEntries, result⟩, [], left, flowing.fits, entries_eq.symm,
    result_eq error_eq⟩

theorem Flowing.handOut {maxEntries : Nat} {batch : List FileStatus}
    (flowing : Flowing script system) (phase : system.phase = .filling maxEntries batch)
    (results_eq : next.results = system.results ++ [⟨maxEntries, .ok batch⟩])
    (phase_eq : next.phase = .idle) (ending_eq : next.ending = system.ending)
    (ended_eq : next.ended = system.ended) (unsent_eq : next.unsent = system.unsent)
    (task_eq : next.task = system.task)
    (moved : next.pendingError.toList.map .error ++ next.queue = system.queue) :
    Flowing script next where
  fits := by
    intro result mem
    rw [results_eq, List.mem_append, List.mem_singleton] at mem
    rcases mem with old | rfl
    · exact flowing.fits result old
    · exact ⟨batch, rfl, flowing.filling phase⟩
  conserved := by
    have no_error : system.pendingError = none := by
      simpa [phase] using flowing.pending
    have conserved := flowing.conserved
    rw [phase, no_error, ← moved] at conserved
    rw [results_eq, phase_eq, unsent_eq, conserved]
    simp [Phase.batch, BatchResult.batch]
  ending_eq := ending_eq.trans flowing.ending_eq
  ended := by
    rw [ended_eq, unsent_eq]
    exact flowing.ended
  task := task_eq.trans flowing.task
  pending := .inr phase_eq
  filling := by simp [phase_eq]

/-- The walker's operations move messages onto the channel and never lose one. -/
theorem Flowing.send (flowing : Flowing script system)
    (performed : system.perform capacity .send = some next) : Flowing script next := by
  simp only [perform] at performed
  split at performed
  · rename_i message unsent unsent_eq
    split at performed
    · obtain rfl := Option.some.inj performed
      refine { flowing with conserved := ?_, ended := fun ended => ?_ }
      · have conserved := flowing.conserved
        rw [unsent_eq] at conserved
        simpa using conserved
      · have nothing := flowing.ended ended
        simp [unsent_eq] at nothing
    · simp at performed
  · simp at performed

theorem Flowing.finish (flowing : Flowing script system)
    (performed : system.perform capacity .finish = some next) : Flowing script next := by
  simp only [perform] at performed
  split at performed
  · rename_i done
    obtain rfl := Option.some.inj performed
    exact { flowing with ended := fun _ => done.1 }
  · simp at performed

theorem Flowing.call {maxEntries : Nat} (flowing : Flowing script system)
    (performed : system.perform capacity (.call maxEntries) = some next) :
    Flowing script next ∨ Settled script next := by
  simp only [perform] at performed
  split at performed
  · rename_i phase
    have idle : system.phase.batch = [] := by rw [phase]; rfl
    split at performed
    · rename_i e pending
      obtain rfl := Option.some.inj performed
      exact .inr (flowing.settled_error idle ⟨_, by rw [pending]; rfl⟩ rfl)
    · rename_i no_error
      obtain rfl := Option.some.inj performed
      refine .inl { flowing with conserved := ?_, pending := .inl no_error, filling := by simp }
      have conserved := flowing.conserved
      rwa [idle] at conserved
  · simp at performed

theorem Flowing.receive (flowing : Flowing script system)
    (performed : system.perform capacity .receive = some next) :
    Flowing script next ∨ Settled script next := by
  simp only [perform] at performed
  split at performed
  · rename_i maxEntries phase
    have idle : system.phase.batch = [] := by rw [phase]; rfl
    have no_error : system.pendingError = none := by
      simpa [phase] using flowing.pending
    split at performed
    · rename_i entry queue queue_eq
      obtain rfl := Option.some.inj performed
      refine .inl { flowing with conserved := ?_, pending := .inl no_error, filling := ?_ }
      · have conserved := flowing.conserved
        rw [idle, queue_eq] at conserved
        simpa [Phase.batch, no_error] using conserved
      · intro bound batch filling
        obtain ⟨rfl, rfl⟩ : maxEntries = bound ∧ [entry] = batch := by simpa using filling
        simp
    · rename_i e queue queue_eq
      obtain rfl := Option.some.inj performed
      exact .inr (flowing.settled_error idle ⟨_, by rw [no_error, queue_eq]; rfl⟩ rfl)
    · rename_i drained
      split at performed
      · rename_i ended
        rw [if_pos flowing.task] at performed
        split at performed
        · rename_i cause ending
          obtain rfl := Option.some.inj performed
          refine .inr (flowing.settled_closed idle no_error drained ended rfl fun clean => ?_)
          simp [Script.outcome, clean, ← flowing.ending_eq, ending]
        · rename_i ending
          obtain rfl := Option.some.inj performed
          refine .inr (flowing.settled_closed idle no_error drained ended rfl fun clean => ?_)
          simp [Script.outcome, clean, ← flowing.ending_eq, ending]
      · simp at performed
  · simp at performed

theorem Flowing.fill (flowing : Flowing script system)
    (performed : system.perform capacity .fill = some next) : Flowing script next := by
  simp only [perform] at performed
  split at performed
  · rename_i maxEntries batch phase
    have no_error : system.pendingError = none := by
      simpa [phase] using flowing.pending
    split at performed
    · rename_i room
      split at performed
      · rename_i entry queue queue_eq
        obtain rfl := Option.some.inj performed
        refine { flowing with conserved := ?_, pending := .inl no_error, filling := ?_ }
        · have conserved := flowing.conserved
          rw [phase, queue_eq] at conserved
          simpa [Phase.batch, no_error] using conserved
        · intro bound extended filling
          obtain ⟨rfl, rfl⟩ : maxEntries = bound ∧ batch ++ [entry] = extended := by
            simpa using filling
          refine ⟨by simp, ?_⟩
          rw [List.length_append, List.length_singleton]
          omega
      · rename_i e queue queue_eq
        obtain rfl := Option.some.inj performed
        exact flowing.handOut phase rfl rfl rfl rfl rfl rfl (by rw [queue_eq]; rfl)
      · obtain rfl := Option.some.inj performed
        exact flowing.handOut phase rfl rfl rfl rfl rfl rfl (by simp [returning, no_error])
    · obtain rfl := Option.some.inj performed
      exact flowing.handOut phase rfl rfl rfl rfl rfl rfl (by simp [returning, no_error])
  · simp at performed

theorem results_prefix_of_step (step : Step capacity system next) :
    system.results <+: next.results := by
  obtain ⟨action, performed⟩ := step
  have appended : next.results = system.results ∨
      ∃ result, next.results = system.results ++ [result] := by
    cases action <;> simp only [perform, returning] at performed <;> grind
  rcases appended with same | ⟨result, more⟩
  · exact ⟨[], by rw [List.append_nil, same]⟩
  · exact ⟨[result], more.symm⟩

/-- The messages are flowing, or the stream is settled for good. -/
def Accounted (script : Script) (system : BatchSystem) : Prop :=
  Flowing script system ∨ Settled script system

theorem Accounted.step (accounted : Accounted script system) (step : Step capacity system next) :
    Accounted script next := by
  rcases accounted with flowing | settled
  · obtain ⟨action, performed⟩ := step
    cases action with
    | send => exact .inl (flowing.send performed)
    | finish => exact .inl (flowing.finish performed)
    | call => exact flowing.call performed
    | receive => exact flowing.receive performed
    | fill => exact .inl (flowing.fill performed)
  · obtain ⟨earlier, first, later, results_eq, fits, entries_eq, outcome⟩ := settled
    obtain ⟨appended, extended⟩ := results_prefix_of_step step
    refine .inr ⟨earlier, first, later ++ appended, ?_, fits, entries_eq, outcome⟩
    rw [← extended, results_eq]
    simp

theorem accounted_of_reach
    (reach : Relation.ReflTransGen (Step capacity) (BatchSystem.start script) system) :
    Accounted script system :=
  Relation.invariant_of_step (fun accounted step => accounted.step step) reach
    (.inl (.start script))

/-- With room on the channel a call is never stuck: the walker or the call itself can go on. -/
theorem Flowing.progress (positive : 0 < capacity) (flowing : Flowing script system)
    (busy : system.phase ≠ .idle) : ∃ next, Step capacity system next := by
  cases phase : system.phase with
  | idle => exact absurd phase busy
  | filling maxEntries batch =>
      by_cases room : batch.length < max maxEntries 1
      · match queue_eq : system.queue with
        | [] => exact ⟨_, .fill, by simp only [perform, phase, if_pos room, queue_eq]; rfl⟩
        | .ok entry :: queue =>
            exact ⟨_, .fill, by simp only [perform, phase, if_pos room, queue_eq]; rfl⟩
        | .error e :: queue =>
            exact ⟨_, .fill, by simp only [perform, phase, if_pos room, queue_eq]; rfl⟩
      · exact ⟨_, .fill, by simp only [perform, phase, if_neg room]; rfl⟩
  | receiving maxEntries =>
      match queue_eq : system.queue with
      | .ok entry :: queue => exact ⟨_, .receive, by simp only [perform, phase, queue_eq]; rfl⟩
      | .error e :: queue => exact ⟨_, .receive, by simp only [perform, phase, queue_eq]; rfl⟩
      | [] =>
          cases ended : system.ended with
          | true =>
              cases ending : system.ending with
              | completed =>
                  exact ⟨_, .receive, by
                    simp only [perform, phase, queue_eq, ended, ending, flowing.task]; rfl⟩
              | died cause =>
                  exact ⟨_, .receive, by
                    simp only [perform, phase, queue_eq, ended, ending, flowing.task]; rfl⟩
          | false =>
              match unsent_eq : system.unsent with
              | [] => exact ⟨_, .finish, by simp only [perform, unsent_eq, ended]; rfl⟩
              | message :: unsent =>
                  have room : system.queue.length < capacity := by simpa [queue_eq] using positive
                  exact ⟨_, .send, by simp only [perform, unsent_eq, if_pos room]; rfl⟩

end BatchSystem

theorem split_unique {α : Type*} {p : α → Prop} {before before' after after' : List α}
    {first first' : α} (all : ∀ x ∈ before, p x) (all' : ∀ x ∈ before', p x) (fails : ¬p first)
    (fails' : ¬p first') (equality : before ++ first :: after = before' ++ first' :: after') :
    before = before' ∧ first = first' := by
  induction before generalizing before' with
  | nil =>
      cases before' with
      | nil => exact ⟨rfl, (List.cons.inj equality).1⟩
      | cons x before' =>
          obtain ⟨rfl, -⟩ := List.cons.inj equality
          exact absurd (all' _ List.mem_cons_self) fails
  | cons x before ih =>
      cases before' with
      | nil =>
          obtain ⟨rfl, -⟩ := List.cons.inj equality
          exact absurd (all _ List.mem_cons_self) fails'
      | cons y before' =>
          obtain ⟨rfl, rest⟩ := List.cons.inj equality
          obtain ⟨rfl, same⟩ := ih (fun x mem => all x (.tail _ mem))
            (fun x mem => all' x (.tail _ mem)) rest
          exact ⟨rfl, same⟩

/-- Up to the first call that does not return a non-empty batch, the batches are all entries the
walker has sent, in order, none of them empty or too large.  That call returns the walker's
error, or reports its death, or ends the stream, exactly as the walk has ended. -/
theorem nextBatch_faithful (script : Script) (capacity : Nat) {system : BatchSystem}
    (reach : Relation.ReflTransGen (BatchSystem.Step capacity) (.start script) system)
    {before after : List BatchResult} {first : BatchResult}
    (results_eq : system.results = before ++ first :: after)
    (batches : ∀ result ∈ before, ∃ batch, result.result = .ok batch ∧ batch ≠ [])
    (other : ¬∃ batch, first.result = .ok batch ∧ batch ≠ []) :
    before.flatMap BatchResult.batch = script.entries ∧
      (∀ result ∈ before, 1 ≤ result.batch.length ∧
        result.batch.length ≤ max result.maxEntries 1) ∧
      ((∃ e, first.result = .error e) ↔
        (∃ e, script.error = some e) ∨ ∃ cause, script.ending = .died cause) ∧
      (∀ e, script.error = some e → first.result = .error e) ∧
      (first.result = .ok [] ↔ script.error = none ∧ script.ending = .completed) := by
  have not_batch : ¬∃ batch, script.outcome = .ok batch ∧ batch ≠ [] := by
    rintro ⟨batch, outcome, nonempty⟩
    rw [Script.outcome] at outcome
    split at outcome <;> simp_all
  rcases BatchSystem.accounted_of_reach reach with flowing | settled
  · have fits := flowing.fits first (by simp [results_eq])
    obtain ⟨batch, result_eq, nonempty, -⟩ := fits
    exact absurd ⟨batch, result_eq, nonempty⟩ other
  · obtain ⟨before', first', after', results_eq', fits, entries_eq, outcome⟩ := settled
    have is_batch : ∀ result ∈ before', ∃ batch, result.result = .ok batch ∧ batch ≠ [] := by
      intro result mem
      obtain ⟨batch, result_eq, nonempty, -⟩ := fits result mem
      exact ⟨batch, result_eq, nonempty⟩
    have other' : ¬∃ batch, first'.result = .ok batch ∧ batch ≠ [] := outcome ▸ not_batch
    obtain ⟨rfl, rfl⟩ := split_unique batches is_batch other other' (results_eq ▸ results_eq')
    refine ⟨entries_eq, fun result mem => ?_, ?_⟩
    · obtain ⟨batch, result_eq, nonempty, small⟩ := fits result mem
      rw [BatchResult.batch, result_eq]
      exact ⟨List.length_pos_of_ne_nil nonempty, small⟩
    · rw [outcome, Script.outcome]
      cases script.error <;> cases script.ending <;> simp

/-- A walk of one entry that then fails. -/
def failedScript : Script where
  entries := [NameNode.sampleStatus "/d/x".toList 3 false]
  error := some (.fileNotFound "/d/e".toList)
  ending := .completed

/-- The error arrives while the first batch is filled, and is what the second call returns. -/
theorem nextBatch_faithful_parked :
    ∃ system, Relation.ReflTransGen (BatchSystem.Step 8192) (.start failedScript) system ∧
      system.results =
        [⟨2, .ok failedScript.entries⟩, ⟨2, .error (.fileNotFound "/d/e".toList)⟩] ∧
      ((∃ e, failedScript.error = some e) ∨ ∃ cause, failedScript.ending = .died cause) := by
  let final : BatchSystem :=
    { unsent := [], ending := .completed, ended := true, queue := [], task := true
      pendingError := none, phase := .idle
      results := [⟨2, .ok failedScript.entries⟩, ⟨2, .error (.fileNotFound "/d/e".toList)⟩] }
  have run : [.call 2, .send, .receive, .send, .fill, .finish, .call 2].foldlM
      (BatchSystem.perform 8192) (.start failedScript) = some final := by
    decide
  have reach : Relation.ReflTransGen (BatchSystem.Step 8192) (.start failedScript) final :=
    Relation.reach_of_foldlM (fun performed => ⟨_, performed⟩) run
  have results_eq : final.results = [⟨2, .ok failedScript.entries⟩] ++
      ⟨2, .error (.fileNotFound "/d/e".toList)⟩ :: [] := rfl
  have faithful := nextBatch_faithful failedScript 8192 reach results_eq
    (by simp [failedScript]) (by simp)
  exact ⟨final, reach, rfl, faithful.2.2.1.mp ⟨_, rfl⟩⟩

end DuckdbHdfs
