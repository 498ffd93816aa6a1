import DuckdbHdfs.Batching
import DuckdbHdfs.ListStream
import DuckdbHdfs.Walk.Glob
import DuckdbHdfs.Walk.Listing
import Mathlib.Algebra.BigOperators.Group.List.Basic

/-!
# Streams fed by walks

Behind every stream of the bridge a walk sends its entries through the channel, and `next_batch`
answers the calls.  A `ListBridge` is fed by a namespace when its answers come about in this way,
whatever order the listings complete in and however the walk and the calls interleave.
-/

namespace DuckdbHdfs

open Glob WorkStack

/-- Entries buffered between the walker task and the consumer. -/
def listStreamBuffer : Nat := 8192

namespace Script

variable {ι : Type*} {script : Script} {due : FileStatus → Prop} {fatal : HdfsError → Prop}

/-- The script of a walker whose loop has come to an end. -/
structure Records (script : Script) (final : State ι FileStatus HdfsError) : Prop where
  messages_eq : script.messages = final.sent
  completed_iff : script.ending = .completed ↔ final.exit ≠ some .died

/-- The entries sent are due, each once; all of them, unless some error is fatal. -/
structure Exact (due : FileStatus → Prop) (fatal : HdfsError → Prop) (script : Script) : Prop where
  completed : script.ending = .completed
  nodup : (script.entries.map FileStatus.path).Nodup
  sound : ∀ entry ∈ script.entries, due entry
  complete : script.error = none → ∀ entry, due entry → entry ∈ script.entries
  fatal_of_error : ∀ e, script.error = some e → fatal e
  clean_iff : script.error = none ↔ ∀ e, ¬fatal e

theorem Records.exact {final : State ι FileStatus HdfsError} (records : script.Records final)
    (walked : DuckdbHdfs.Exact due fatal final) : script.Exact due fatal := by
  by_cases some_fatal : ∃ e, fatal e
  · obtain ⟨e, entries, is_fatal, exit_eq, sent_eq, nodup, all_due⟩ := walked.failed some_fatal
    obtain ⟨entries_eq, error_eq, -⟩ :=
      eq_of_messages_error (records.messages_eq.trans sent_eq)
    have reported : script.error ≠ none := by simp [error_eq]
    exact
      { completed := records.completed_iff.mpr (by simp [exit_eq])
        nodup := entries_eq ▸ nodup
        sound := entries_eq ▸ all_due
        complete := fun clean => absurd clean reported
        fatal_of_error := by
          intro e' same
          obtain rfl : e = e' := by simpa [error_eq] using same
          exact is_fatal
        clean_iff := ⟨fun clean => absurd clean reported, fun none => absurd is_fatal (none e)⟩ }
  · have none_fatal := not_exists.mp some_fatal
    obtain ⟨exit_eq, entries, sent_eq, nodup, mem_iff⟩ := walked.complete none_fatal
    obtain ⟨entries_eq, error_eq⟩ := eq_of_messages_ok (records.messages_eq.trans sent_eq)
    exact
      { completed := records.completed_iff.mpr (by simp [exit_eq])
        nodup := entries_eq ▸ nodup
        sound := fun entry mem => (mem_iff entry).mp (entries_eq ▸ mem)
        complete := fun _ entry due => entries_eq ▸ (mem_iff entry).mpr due
        fatal_of_error := by simp [error_eq]
        clean_iff := ⟨fun _ => none_fatal, fun _ => error_eq⟩ }

/-- A completed walk ends with its error, or with an empty batch. -/
theorem Exact.outcome_eq (exact_ : script.Exact due fatal) :
    script.outcome = (script.error.map Except.error).getD (.ok []) := by
  rw [outcome, exact_.completed]
  cases script.error <;> rfl

end Script

namespace ListRequest

variable {server : NameNode} {request : ListRequest} {script : Script}

/-- The number of listings in flight that the bridge allows. -/
def parallelism (request : ListRequest) : Nat :=
  (max request.maxParallelism 1).toNat

theorem parallelism_pos (request : ListRequest) : 0 < request.parallelism := by
  rw [parallelism]
  omega

/-- The entries the request asks for. -/
def Due (request : ListRequest) (server : NameNode) (entry : FileStatus) : Prop :=
  match request.glob with
  | true => ∃ plan, GlobPlan.parse request.hdfsPath request.options.includeHidden = .ok plan ∧
      Globbed server plan entry
  | false => Listed server request.hdfsPath request.recursive request.options entry

/-- The errors that end the walk of the request. -/
def Fatal (request : ListRequest) (server : NameNode) (e : HdfsError) : Prop :=
  match request.glob with
  | true => ∃ plan, GlobPlan.parse request.hdfsPath request.options.includeHidden = .ok plan ∧
      GlobFatal server plan request.options e
  | false => ListingFatal server request.hdfsPath request.recursive request.options e

/-- A glob is asked for with a pattern that parses. -/
def Parses (request : ListRequest) : Prop :=
  request.glob = true →
    ∃ plan, GlobPlan.parse request.hdfsPath request.options.includeHidden = .ok plan

/-- Some run of the walk that the request starts sends what the script says. -/
inductive Walks (request : ListRequest) (server : NameNode) (script : Script) : Prop
  | glob {plan : GlobPlan} {final : GlobWalk} (glob_eq : request.glob = true)
      (parsed : GlobPlan.parse request.hdfsPath request.options.includeHidden = .ok plan)
      (reach : Relation.ReflTransGen
        (globWalkTurn server plan request.parallelism request.options)
        (globWalkStart server plan) final)
      (halted : Relation.Halted
        (globWalkTurn server plan request.parallelism request.options) final)
      (records : script.Records final) : Walks request server script
  | list {final : StreamWalk} (glob_eq : request.glob = false)
      (reach : Relation.ReflTransGen
        (streamWalkTurn server request.recursive request.parallelism request.options)
        (streamWalkStart request.hdfsPath) final)
      (halted : Relation.Halted
        (streamWalkTurn server request.recursive request.parallelism request.options) final)
      (records : script.Records final) : Walks request server script

theorem glob_ends {plan : GlobPlan} (glob_eq : request.glob = true)
    (parsed : GlobPlan.parse request.hdfsPath request.options.includeHidden = .ok plan) :
    Relation.EndsIn (globWalkTurn server plan request.parallelism request.options)
      (DuckdbHdfs.Exact (request.Due server) (request.Fatal server))
      (globWalkStart server plan) := by
  have due_eq : request.Due server = Globbed server plan := by
    funext entry
    simp [Due, glob_eq, parsed]
  have fatal_eq : request.Fatal server = GlobFatal server plan request.options := by
    funext e
    simp [Fatal, glob_eq, parsed]
  rw [due_eq, fatal_eq]
  exact globWalk_ends (GlobPlan.parse_sound parsed) request.parallelism_pos

theorem list_ends (glob_eq : request.glob = false) :
    Relation.EndsIn
      (streamWalkTurn server request.recursive request.parallelism request.options)
      (DuckdbHdfs.Exact (request.Due server) (request.Fatal server))
      (streamWalkStart request.hdfsPath) := by
  have due_eq : request.Due server =
      Listed server request.hdfsPath request.recursive request.options := by
    funext entry
    simp [Due, glob_eq]
  have fatal_eq : request.Fatal server =
      ListingFatal server request.hdfsPath request.recursive request.options := by
    funext e
    simp [Fatal, glob_eq]
  rw [due_eq, fatal_eq]
  exact streamWalk_ends request.parallelism_pos

theorem Walks.exact (walks : request.Walks server script) :
    script.Exact (request.Due server) (request.Fatal server) := by
  cases walks with
  | glob glob_eq parsed reach halted records =>
      cases (glob_ends glob_eq parsed).reach reach with
      | intro final_exact _ => exact records.exact (final_exact halted)
  | list glob_eq reach halted records =>
      cases (list_ends glob_eq).reach reach with
      | intro final_exact _ => exact records.exact (final_exact halted)

theorem exists_records {ι : Type*} {due : FileStatus → Prop} {fatal : HdfsError → Prop}
    {final : State ι FileStatus HdfsError} (walked : DuckdbHdfs.Exact due fatal final) :
    ∃ script : Script, script.Records final := by
  by_cases some_fatal : ∃ e, fatal e
  · obtain ⟨e, entries, -, exit_eq, sent_eq, -⟩ := walked.failed some_fatal
    exact ⟨⟨entries, some e, .completed⟩, sent_eq.symm, by simp [exit_eq]⟩
  · obtain ⟨exit_eq, entries, sent_eq, -⟩ := walked.complete (not_exists.mp some_fatal)
    exact ⟨⟨entries, none, .completed⟩, by simp [Script.messages, sent_eq], by simp [exit_eq]⟩

theorem exists_walks (request : ListRequest) (server : NameNode) (parses : request.Parses) :
    ∃ script, request.Walks server script := by
  cases glob_eq : request.glob with
  | true =>
      obtain ⟨plan, parsed⟩ := parses glob_eq
      have ends : Relation.EndsIn _ _ (globWalkStart server plan) := glob_ends glob_eq parsed
      obtain ⟨final, reach, halted⟩ := ends.exists_halted
      cases ends.reach reach with
      | intro final_exact _ =>
          obtain ⟨script, records⟩ := exists_records (final_exact halted)
          exact ⟨script, .glob glob_eq parsed reach halted records⟩
  | false =>
      have ends : Relation.EndsIn (streamWalkTurn server _ _ _) _ _ := list_ends glob_eq
      obtain ⟨final, reach, halted⟩ := ends.exists_halted
      cases ends.reach reach with
      | intro final_exact _ =>
          obtain ⟨script, records⟩ := exists_records (final_exact halted)
          exact ⟨script, .list glob_eq reach halted records⟩

end ListRequest

/-- The answers of a stream to calls with one bound are those of `next_batch`, in some
interleaving with a walker that runs the script. -/
def ListBridge.Feeds (bridge : ListBridge) (stream maxEntries : Nat) (script : Script) : Prop :=
  ∀ calls, ∃ system,
    Relation.ReflTransGen (BatchSystem.Step listStreamBuffer) (.start script) system ∧
      system.results =
        (List.range calls).map fun call => ⟨maxEntries, bridge.nextBatch stream call maxEntries⟩

theorem Script.filterMap_messages (script : Script) :
    script.messages.filterMap Except.toOption = script.entries := by
  have no_error : script.error.toList.filterMap
      (Except.toOption ∘ (Except.error : HdfsError → Message)) = [] := by
    cases script.error <;> rfl
  rw [messages, List.filterMap_append, List.filterMap_map, List.filterMap_map, no_error,
    List.append_nil]
  exact List.filterMap_some

namespace BatchSystem

variable {script : Script} {system : BatchSystem}

theorem Flowing.results_length_le (flowing : Flowing script system) :
    system.results.length ≤ script.entries.length := by
  have handed_out : system.results.flatMap BatchResult.batch <+: script.entries := by
    rw [← script.filterMap_messages, flowing.conserved, List.filterMap_append, List.map_append,
      List.filterMap_append, List.append_assoc, List.filterMap_map]
    refine ⟨_, congrArg (· ++ _) ?_⟩
    exact List.filterMap_some.symm
  have each : ∀ result ∈ system.results, 1 ≤ result.batch.length := by
    intro result mem
    obtain ⟨batch, result_eq, nonempty, -⟩ := flowing.fits result mem
    rw [BatchResult.batch, result_eq]
    exact List.length_pos_of_ne_nil nonempty
  calc
    system.results.length ≤ (system.results.map fun result => result.batch.length).sum := by
      simpa using List.length_le_sum_of_one_le
        (system.results.map fun result => result.batch.length) (by simpa using each)
    _ = (system.results.flatMap BatchResult.batch).length := by
      rw [List.length_flatMap]
    _ ≤ script.entries.length := handed_out.length_le

end BatchSystem

/-- The calls on a stream return all entries of its script, in batches that are not empty, and
then what the walk has ended with. -/
theorem ListBridge.Feeds.answers {bridge : ListBridge} {stream maxEntries : Nat} {script : Script}
    (feeds : bridge.Feeds stream maxEntries script) :
    ∃ batches : List (List FileStatus), batches.flatten = script.entries ∧
      (∀ batch ∈ batches, batch ≠ []) ∧
      (∀ call batch, batches[call]? = some batch →
        bridge.nextBatch stream call maxEntries = .ok batch) ∧
      bridge.nextBatch stream batches.length maxEntries = script.outcome := by
  obtain ⟨system, reach, results_eq⟩ := feeds (script.entries.length + 1)
  rcases BatchSystem.accounted_of_reach reach with flowing | settled
  · have few := flowing.results_length_le
    rw [results_eq, List.length_map, List.length_range] at few
    omega
  · obtain ⟨before, first, after, split, fits, entries_eq, outcome_eq⟩ := settled
    rw [results_eq] at split
    have answer : ∀ call result, (before ++ first :: after)[call]? = some result →
        bridge.nextBatch stream call maxEntries = result.result := by
      intro call result found
      obtain ⟨inside, -⟩ := List.getElem?_eq_some_iff.mp found
      rw [← split, List.length_map, List.length_range] at inside
      rw [← split, List.getElem?_map, List.getElem?_range inside] at found
      rw [← Option.some.inj found]
    refine ⟨before.map BatchResult.batch, ?_, ?_, ?_, ?_⟩
    · rw [← List.flatMap_def, entries_eq]
    · intro batch mem
      obtain ⟨result, result_mem, rfl⟩ := List.mem_map.mp mem
      obtain ⟨batch, result_eq, nonempty, -⟩ := fits result result_mem
      rw [BatchResult.batch, result_eq]
      exact nonempty
    · intro call batch found
      rw [List.getElem?_map] at found
      obtain ⟨result, before_eq, rfl⟩ := Option.map_eq_some_iff.mp found
      obtain ⟨batch, result_eq, -⟩ := fits result (List.mem_of_getElem? before_eq)
      have here : (before ++ first :: after)[call]? = some result := by
        rw [List.getElem?_append_left (List.getElem?_eq_some_iff.mp before_eq).1, before_eq]
      rw [answer call result here, BatchResult.batch, result_eq]
    · rw [answer _ first (by simp), outcome_eq]

namespace BatchSystem

variable {capacity maxEntries : Nat} {system : BatchSystem}

/-- Between calls, with nothing on the channel. -/
structure Resting (system : BatchSystem) (unsent : List Message) : Prop where
  unsent_eq : system.unsent = unsent
  queue_eq : system.queue = []
  ending_eq : system.ending = .completed
  ended : system.ended = true → unsent = []
  pendingError_eq : system.pendingError = none
  phase_eq : system.phase = .idle

/-- Some run brings a call to its end with the answer. -/
def CallReturns (capacity maxEntries : Nat) (system : BatchSystem) (unsent : List Message)
    (answer : Except HdfsError (List FileStatus)) : Prop :=
  ∃ next, Relation.ReflTransGen (Step capacity) system next ∧ next.Resting unsent ∧
    next.results = system.results ++ [⟨maxEntries, answer⟩]

theorem CallReturns.of_actions {unsent : List Message}
    {answer : Except HdfsError (List FileStatus)} (actions : List BatchAction)
    {next : BatchSystem} (performed : actions.foldlM (perform capacity) system = some next)
    (resting : next.Resting unsent)
    (results_eq : next.results = system.results ++ [⟨maxEntries, answer⟩]) :
    CallReturns capacity maxEntries system unsent answer :=
  ⟨next, Relation.reach_of_foldlM (fun performed => ⟨_, performed⟩) performed, resting, results_eq⟩

/-- An entry that is sent while a call waits for it is returned by itself. -/
theorem Resting.call_of_entry {entry : FileStatus} {unsent : List Message}
    (positive : 0 < capacity) (resting : system.Resting (.ok entry :: unsent)) :
    CallReturns capacity maxEntries system unsent (.ok [entry]) := by
  obtain ⟨unsent₀, ending, ended, queue, task, pendingError, phase, results⟩ := system
  obtain ⟨rfl, rfl, rfl, ended_nil, rfl, rfl⟩ := resting
  obtain rfl : ended = false := by
    cases ended with
    | false => rfl
    | true => cases ended_nil rfl
  let next : BatchSystem := ⟨unsent, .completed, false, [], task, none, .idle,
    results ++ [⟨maxEntries, .ok [entry]⟩]⟩
  have next_resting : next.Resting unsent := ⟨rfl, rfl, rfl, by simp [next], rfl, rfl⟩
  refine .of_actions [.call maxEntries, .send, .receive, .fill] ?_ next_resting rfl
  simp [perform, positive, returning, next]

theorem Resting.call_of_error {e : HdfsError} {unsent : List Message}
    (positive : 0 < capacity) (resting : system.Resting (.error e :: unsent)) :
    CallReturns capacity maxEntries system unsent (.error e) := by
  obtain ⟨unsent₀, ending, ended, queue, task, pendingError, phase, results⟩ := system
  obtain ⟨rfl, rfl, rfl, ended_nil, rfl, rfl⟩ := resting
  obtain rfl : ended = false := by
    cases ended with
    | false => rfl
    | true => cases ended_nil rfl
  let next : BatchSystem := ⟨unsent, .completed, false, [], task, none, .idle,
    results ++ [⟨maxEntries, .error e⟩]⟩
  have next_resting : next.Resting unsent := ⟨rfl, rfl, rfl, by simp [next], rfl, rfl⟩
  refine .of_actions [.call maxEntries, .send, .receive] ?_ next_resting rfl
  simp [perform, positive, returning, next]

theorem Resting.call_of_drained (resting : system.Resting []) :
    CallReturns capacity maxEntries system [] (.ok []) := by
  obtain ⟨unsent₀, ending, ended, queue, task, pendingError, phase, results⟩ := system
  obtain ⟨rfl, rfl, rfl, -, rfl, rfl⟩ := resting
  let next : BatchSystem :=
    ⟨[], .completed, true, [], false, none, .idle, results ++ [⟨maxEntries, .ok []⟩]⟩
  have next_resting : next.Resting [] := ⟨rfl, rfl, rfl, by simp, rfl, rfl⟩
  cases ended with
  | false =>
      refine .of_actions [.finish, .call maxEntries, .receive] ?_ next_resting rfl
      cases task <;> simp [perform, returning, next]
  | true =>
      refine .of_actions [.call maxEntries, .receive] ?_ next_resting rfl
      cases task <;> simp [perform, returning, next]

/-- The answers to calls that each wait for one message. -/
def answers : List Message → (call : Nat) → Except HdfsError (List FileStatus)
  | .ok entry :: _, 0 => .ok [entry]
  | .error e :: _, 0 => .error e
  | _ :: unsent, call + 1 => answers unsent call
  | [], _ => .ok []

/-- Calls that each wait for one message return it. -/
theorem Resting.calls_return {unsent : List Message} (positive : 0 < capacity)
    (resting : system.Resting unsent) (calls : Nat) :
    ∃ next, Relation.ReflTransGen (Step capacity) system next ∧
      next.results = system.results ++
        (List.range calls).map fun call => ⟨maxEntries, answers unsent call⟩ := by
  induction calls generalizing system unsent with
  | zero => exact ⟨system, .refl, by simp⟩
  | succ calls ih =>
      obtain ⟨rest, answered, later⟩ : ∃ rest,
          CallReturns capacity maxEntries system rest (answers unsent 0) ∧
            ∀ call, answers unsent (call + 1) = answers rest call := by
        cases unsent with
        | nil => exact ⟨[], resting.call_of_drained, fun call => by cases call <;> rfl⟩
        | cons message rest =>
            refine ⟨rest, ?_, fun call => ?_⟩
            · cases message with
              | ok entry => exact resting.call_of_entry positive
              | error e => exact resting.call_of_error positive
            · cases message <;> rfl
      obtain ⟨middle, reach, middle_resting, results_eq⟩ := answered
      obtain ⟨next, reach', results_eq'⟩ := ih middle_resting
      refine ⟨next, reach.trans reach', ?_⟩
      rw [results_eq', results_eq, List.range_succ_eq_map, List.map_cons, List.map_map,
        List.append_assoc, List.singleton_append]
      simp only [Function.comp_def, Nat.succ_eq_add_one, later]

end BatchSystem

theorem BatchSystem.answers_length (messages : List Message) {call : Nat}
    {batch : List FileStatus} (answered : answers messages call = .ok batch) :
    batch.length ≤ 1 := by
  induction messages generalizing call with
  | nil =>
      obtain rfl : [] = batch := by simpa [answers] using answered
      simp
  | cons message messages ih =>
      cases call with
      | zero =>
          cases message with
          | ok entry =>
              obtain rfl : [entry] = batch := by simpa [answers] using answered
              simp
          | error e => simp [answers] at answered
      | succ call =>
          have later : answers messages call = .ok batch := by
            cases message <;> exact answered
          exact ih later

/-- A bridge, connected, that answers from given scripts. -/
def ListBridge.ofScripts (request : ListRequest) (scripts : Nat → Script) : ListBridge where
  display _ := []
  get connect := .ok connect
  globStreamOpen _ :=
    (GlobPlan.parse request.hdfsPath request.options.includeHidden).map fun _ => ()
  nextBatch stream call _ := BatchSystem.answers (scripts stream).messages call
  nextBatch_length answered := (BatchSystem.answers_length _ answered).trans (le_max_right _ _)

/-- The answers of such a bridge come about when the walker waits for each call. -/
theorem ListBridge.feeds_ofScripts {request : ListRequest} {scripts : Nat → Script}
    {stream maxEntries : Nat} (completed : (scripts stream).ending = .completed) :
    (ListBridge.ofScripts request scripts).Feeds stream maxEntries (scripts stream) := by
  intro calls
  have resting : (BatchSystem.start (scripts stream)).Resting (scripts stream).messages :=
    { unsent_eq := rfl
      queue_eq := rfl
      ending_eq := completed
      ended := by simp [BatchSystem.start]
      pendingError_eq := rfl
      phase_eq := rfl }
  have buffered : 0 < listStreamBuffer := by decide
  exact resting.calls_return buffered calls

end DuckdbHdfs
