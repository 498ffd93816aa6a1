import DuckdbHdfs.Batching

/-!
# Draining a stream

A consumer that asks for batches until it is not given one always comes to an end, whatever the
order of sends and receives: the walker and the consumer never wait for each other, and no call is
made in vain.  It has then been given every entry, and last what the walk has ended with.
-/

namespace DuckdbHdfs

/-- The result is a batch with entries, after which a consumer asks for more. -/
def BatchResult.more (result : BatchResult) : Bool :=
  !result.batch.isEmpty

theorem BatchResult.Fits.more {result : BatchResult} (fits : result.Fits) : result.more = true := by
  obtain ⟨batch, result_eq, nonempty, -⟩ := fits
  simpa [BatchResult.more, BatchResult.batch, result_eq] using nonempty

namespace BatchSystem

/-- One step of a walker and of a consumer that asks, with any bound, until it is not given a
batch. -/
def Drain (capacity : Nat) (system next : BatchSystem) : Prop :=
  ∃ action, system.perform capacity action = some next ∧
    ∀ maxEntries, action = .call maxEntries → system.results.all BatchResult.more = true

/-- The consumer has been given all entries, and last what the walk has ended with. -/
structure Drained (script : Script) (system : BatchSystem) : Prop where
  idle : system.phase = .idle
  results : ∃ batches last, system.results = batches ++ [last] ∧
    (∀ result ∈ batches, result.Fits) ∧ batches.flatMap BatchResult.batch = script.entries ∧
    last.result = script.outcome

variable {script : Script} {capacity : Nat} {system next : BatchSystem}

theorem not_more_of_outcome {result : BatchResult} (ends : result.result = script.outcome) :
    result.more = false := by
  rw [BatchResult.more, BatchResult.batch, ends, Script.outcome]
  cases script.error <;> cases script.ending <;> rfl

theorem Drained.not_all_more (drained : Drained script system) :
    system.results.all BatchResult.more = false := by
  obtain ⟨batches, last, results_eq, -, -, ends⟩ := drained.results
  rw [results_eq, List.all_append, List.all_cons, not_more_of_outcome ends, Bool.false_and,
    Bool.and_false]

theorem results_of_step (step : Step capacity system next) :
    next.results = system.results ∨
      next.phase = .idle ∧ ∃ result, next.results = system.results ++ [result] := by
  obtain ⟨action, performed⟩ := step
  cases action <;> simp only [perform, returning] at performed <;> grind

/-- The step that settles a stream drains it. -/
theorem Flowing.drained (flowing : Flowing script system) (step : Step capacity system next)
    (settled : Settled script next) : Drained script next := by
  obtain ⟨before, first, after, split, fits, entries_eq, ends⟩ := settled
  have first_fails : ¬first.more = true := by simp [not_more_of_outcome ends]
  have all_more : ∀ result ∈ system.results, result.more = true :=
    fun result mem => (flowing.fits result mem).more
  rcases results_of_step step with same | ⟨idle, last, results_eq⟩
  · exact absurd (all_more first (by simp [← same, split])) first_fails
  · have last_fails : ¬last.more = true := by
      intro more
      refine first_fails ?_
      have mem : first ∈ system.results ++ [last] := by simp [← results_eq, split]
      rcases List.mem_append.mp mem with earlier | here
      · exact all_more first earlier
      · rwa [List.mem_singleton.mp here]
    obtain ⟨rfl, rfl⟩ := split_unique all_more (fun result mem => (fits result mem).more)
      last_fails first_fails (results_eq.symm.trans split)
    exact ⟨idle, _, _, results_eq, fits, entries_eq, ends⟩

/-- What the consumer has left to do apart from receiving; after the end it asks for nothing. -/
def consumerWork (system : BatchSystem) : Nat :=
  match system.phase with
  | .filling _ _ => 3
  | .receiving _ => 1
  | .idle => if system.results.all BatchResult.more then 2 else 0

/-- What is left to do on the channel. -/
def channelWork (system : BatchSystem) : Nat :=
  5 * system.unsent.length + 4 * system.queue.length + system.pendingError.toList.length +
    if system.ended then 0 else 1

/-- A bound on the steps that are left. -/
def work (system : BatchSystem) : Nat :=
  system.channelWork + system.consumerWork

theorem consumerWork_le_of_idle (idle : system.phase = .idle) : system.consumerWork ≤ 2 := by
  rw [consumerWork, idle]
  simp only
  split <;> omega

section Returning

variable {maxEntries : Nat} {result : Except HdfsError (List FileStatus)}

@[simp]
theorem channelWork_returning :
    (system.returning maxEntries result).channelWork = system.channelWork := rfl

theorem work_returning_le :
    (system.returning maxEntries result).work ≤ system.channelWork + 2 :=
  Nat.add_le_add_left (consumerWork_le_of_idle rfl) _

theorem consumerWork_returning (empty : (BatchResult.mk maxEntries result).more = false) :
    (system.returning maxEntries result).consumerWork = 0 := by
  simp [consumerWork, returning, empty]

end Returning

theorem work_lt_of_send (performed : system.perform capacity .send = some next) :
    next.work < system.work := by
  simp only [perform] at performed
  split at performed
  · rename_i message unsent unsent_eq
    split at performed
    · obtain rfl := Option.some.inj performed
      simp only [work, channelWork, consumerWork, unsent_eq, List.length_append,
        List.length_cons, List.length_nil]
      omega
    · cases performed
  · cases performed

theorem work_lt_of_finish (performed : system.perform capacity .finish = some next) :
    next.work < system.work := by
  simp only [perform] at performed
  split at performed
  · rename_i running
    obtain rfl := Option.some.inj performed
    simp [work, channelWork, consumerWork, running.2]
  · cases performed

theorem work_lt_of_call {maxEntries : Nat}
    (performed : system.perform capacity (.call maxEntries) = some next)
    (asking : system.results.all BatchResult.more = true) : next.work < system.work := by
  simp only [perform] at performed
  split at performed
  · rename_i idle
    have two : system.consumerWork = 2 := by simp [consumerWork, idle, asking]
    split at performed
    · obtain rfl := Option.some.inj performed
      rw [work, work, consumerWork_returning rfl, two, channelWork_returning]
      simp only [channelWork, Option.toList_none, List.length_nil]
      omega
    · obtain rfl := Option.some.inj performed
      rw [work, work, two]
      simp [channelWork, consumerWork]
  · cases performed

theorem work_lt_of_receive (performed : system.perform capacity .receive = some next) :
    next.work < system.work := by
  simp only [perform] at performed
  split at performed
  · rename_i maxEntries receiving
    have one : system.consumerWork = 1 := by simp [consumerWork, receiving]
    split at performed
    · rename_i entry queue queue_eq
      obtain rfl := Option.some.inj performed
      simp only [work, one]
      simp only [channelWork, consumerWork, queue_eq, List.length_cons]
      omega
    · rename_i e queue queue_eq
      obtain rfl := Option.some.inj performed
      rw [work, work, consumerWork_returning rfl, one, channelWork_returning]
      simp only [channelWork, queue_eq, List.length_cons]
      omega
    · -- the channel is closed, so the call returns and is the last
      have finished : next.channelWork = system.channelWork ∧ next.consumerWork = 0 := by
        split at performed
        · split at performed
          · split at performed <;>
              obtain rfl := Option.some.inj performed <;>
              exact ⟨rfl, consumerWork_returning rfl⟩
          · obtain rfl := Option.some.inj performed
            exact ⟨rfl, consumerWork_returning rfl⟩
        · cases performed
      rw [work, work, finished.1, finished.2, one]
      omega
  · cases performed

theorem work_lt_of_fill (performed : system.perform capacity .fill = some next) :
    next.work < system.work := by
  simp only [perform] at performed
  split at performed
  · rename_i maxEntries batch filling
    have before : system.work = system.channelWork + 3 := by rw [work, consumerWork, filling]
    rw [before]
    split at performed
    · split at performed
      · rename_i entry queue queue_eq
        obtain rfl := Option.some.inj performed
        simp only [work, channelWork, consumerWork, queue_eq, List.length_cons]
        omega
      · rename_i e queue queue_eq
        obtain rfl := Option.some.inj performed
        refine work_returning_le.trans_lt ?_
        simp only [channelWork, queue_eq, List.length_cons, Option.toList_some, List.length_nil]
        omega
      · obtain rfl := Option.some.inj performed
        exact work_returning_le.trans_lt (by omega)
    · obtain rfl := Option.some.inj performed
      exact work_returning_le.trans_lt (by omega)
  · cases performed

theorem Drain.work_lt (drain : Drain capacity system next) : next.work < system.work := by
  obtain ⟨action, performed, asks⟩ := drain
  cases action with
  | send => exact work_lt_of_send performed
  | finish => exact work_lt_of_finish performed
  | call maxEntries => exact work_lt_of_call performed (asks maxEntries rfl)
  | receive => exact work_lt_of_receive performed
  | fill => exact work_lt_of_fill performed

/-- The consumer is still being given batches, or it has been given everything. -/
def Draining (script : Script) (system : BatchSystem) : Prop :=
  Flowing script system ∨ Drained script system

theorem Draining.step (draining : Draining script system) (drain : Drain capacity system next) :
    Draining script next := by
  have step : Step capacity system next := drain.imp fun _ taken => taken.1
  rcases draining with flowing | drained
  · have accounted : Accounted script system := .inl flowing
    exact (accounted.step step).imp_right (flowing.drained step)
  · have results_eq : next.results = system.results ∧ next.phase = system.phase := by
      obtain ⟨action, performed, asks⟩ := drain
      cases action with
      | call maxEntries => exact absurd (asks maxEntries rfl) (by simp [drained.not_all_more])
      | send => simp only [perform] at performed; grind
      | finish => simp only [perform] at performed; grind
      | receive => simp [perform, drained.idle] at performed
      | fill => simp [perform, drained.idle] at performed
    exact .inr ⟨results_eq.2.trans drained.idle, results_eq.1 ▸ drained.results⟩

theorem Flowing.exists_drain (positive : 0 < capacity) (flowing : Flowing script system) :
    ∃ next, Drain capacity system next := by
  cases phase : system.phase with
  | idle =>
      have all_more : system.results.all BatchResult.more = true :=
        List.all_eq_true.mpr fun result mem => (flowing.fits result mem).more
      obtain ⟨next, performed⟩ : ∃ next, system.perform capacity (.call 1) = some next := by
        simp only [perform, phase]
        cases system.pendingError <;> exact ⟨_, rfl⟩
      exact ⟨next, _, performed, fun _ _ => all_more⟩
  | _ =>
      obtain ⟨next, action, performed⟩ := flowing.progress positive (by simp [phase])
      refine ⟨next, action, performed, ?_⟩
      rintro maxEntries rfl
      simp [perform, phase] at performed

/-- Whatever order the operations happen in, a consumer that asks until it is not given a batch
comes to an end with all entries of the walk, in order, and then the walk's own end. -/
theorem drain_ends (script : Script) (positive : 0 < capacity) :
    Relation.EndsIn (Drain capacity) (Drained script) (start script) := by
  refine .of_measure Nat.lt_wfRel.wf work (fun draining drain => Draining.step draining drain)
    (fun _ drain => drain.work_lt) ?_ (.inl (.start script))
  rintro state (flowing | drained) halted
  · obtain ⟨next, drain⟩ := flowing.exists_drain positive
    exact absurd drain (halted next)
  · exact drained

/-- A consumer of a walk that fails is told so. -/
theorem drain_ends_failedScript :
    ∃ last : BatchSystem, ∃ result ∈ last.results,
      result.result = .error (.fileNotFound "/d/e".toList) := by
  have ends : Relation.EndsIn (Drain 8192) (Drained failedScript) (start failedScript) :=
    drain_ends failedScript (by decide)
  obtain ⟨last, reach, halted⟩ := ends.exists_halted
  cases ends.reach reach with
  | intro drained _ =>
      obtain ⟨batches, result, results_eq, -, -, ends⟩ := (drained halted).results
      exact ⟨last, result, by simp [results_eq], ends⟩

end BatchSystem

end DuckdbHdfs
