import DuckdbHdfs.Database
import DuckdbHdfs.Feeds

/-!
# Scans of a list stream

`Glob` and `ListFilesExtended` pull batches from a list stream until it is exhausted and visit
every entry.  Over walks that feed the stream, such a loop visits what one walk has sent.
-/

namespace DuckdbHdfs

universe u

section Loop

variable {β : Type u} (body : β → HdfsEntry → β × Option Thrown)

/-- The loop over the entries of a batch, which an exception leaves. -/
def forBatch : β → List HdfsEntry → β × Option Thrown
  | b, [] => (b, none)
  | b, entry :: entries =>
      match body b entry with
      | (b, none) => forBatch b entries
      | (b, some thrown) => (b, some thrown)

/-- Call `Next` until it returns false and run the body on every entry; `none` if that takes more
calls than given. -/
def HdfsListStream.forEach (bridge : ListBridge) (maxEntries : Nat) :
    (calls : Nat) → β → HdfsListStream → Option (β × Option Thrown)
  | 0, _, _ => none
  | calls + 1, b, s =>
      match s.next bridge maxEntries with
      | (.returned true batch, s) =>
          match forBatch body b batch with
          | (b, none) => s.forEach bridge maxEntries calls b
          | (b, some thrown) => some (b, some thrown)
      | (.returned false _, _) => some (b, none)
      | (.threw message, _) => some (b, some (.fileSystem (.io message)))
      | (.undefined, _) => none

/-- A loop that is left by an exception of its own or else ends as given. -/
def endingIn (looped : β × Option Thrown) (ended : Option Thrown) : β × Option Thrown :=
  (looped.1, looped.2.or ended)

theorem forBatch_append (b : β) (front back : List HdfsEntry) :
    forBatch body b (front ++ back) =
      match forBatch body b front with
      | (b, none) => forBatch body b back
      | (b, some thrown) => (b, some thrown) := by
  induction front generalizing b with
  | nil => rfl
  | cons entry front ih =>
      rw [List.cons_append, forBatch, forBatch]
      split
      · exact ih _
      · rfl

theorem forBatch_map {γ : Type u} {body' : γ → HdfsEntry → γ × Option Thrown} (form : β → γ)
    (same : ∀ b entry, body' (form b) entry = (form (body b entry).1, (body b entry).2)) (b : β)
    (entries : List HdfsEntry) :
    forBatch body' (form b) entries =
      (form (forBatch body b entries).1, (forBatch body b entries).2) := by
  induction entries generalizing b with
  | nil => rfl
  | cons entry entries ih =>
      rw [forBatch, forBatch, same]
      cases body b entry with
      | mk b' thrown =>
          cases thrown with
          | none => exact ih b'
          | some thrown => rfl

end Loop

namespace HdfsListStream

variable {β : Type u} {body : β → HdfsEntry → β × Option Thrown} {bridge : ListBridge}
  {maxEntries stream : Nat} {s : HdfsListStream}

/-- The stream after it has handed out some batches. -/
def after (s : HdfsListStream) (stream : Nat) (batches : List (List FileStatus)) :
    HdfsListStream :=
  { s with
    calls := s.calls + batches.length
    emittedAny := s.emittedAny || batches ≠ []
    trace := s.trace ++ batches.map (.batch stream) }

theorem after_after (batch : List FileStatus) (batches : List (List FileStatus)) :
    (s.after stream [batch]).after stream batches = s.after stream (batch :: batches) := by
  simp [after, Nat.add_comm 1, Nat.add_assoc]

theorem next_after {batch : List FileStatus} (positive : 1 ≤ maxEntries)
    (small : maxEntries < 2 ^ 31) (handle_eq : s.handle = some stream) (present : batch ≠ [])
    (reply : bridge.nextBatch stream s.calls maxEntries = .ok batch) :
    s.next bridge maxEntries =
      (.returned true (batch.map (toEntry s.authority)), s.after stream [batch]) := by
  rw [next_of_batch positive small handle_eq reply]
  simp [after, present]

/-- The loop runs through all batches, unless the body leaves it. -/
theorem forEach_batches {batches : List (List FileStatus)} (positive : 1 ≤ maxEntries)
    (small : maxEntries < 2 ^ 31) (handle_eq : s.handle = some stream)
    (nonempty : ∀ batch ∈ batches, batch ≠ [])
    (answers : ∀ call batch, batches[call]? = some batch →
      bridge.nextBatch stream (s.calls + call) maxEntries = .ok batch) (calls : Nat) (b : β) :
    s.forEach body bridge maxEntries (batches.length + calls) b =
      match forBatch body b (batches.flatten.map (toEntry s.authority)) with
      | (b, none) => (s.after stream batches).forEach body bridge maxEntries calls b
      | (b, some thrown) => some (b, some thrown) := by
  induction batches generalizing s b with
  | nil => simp [after, forBatch]
  | cons batch batches ih =>
      have first : bridge.nextBatch stream s.calls maxEntries = .ok batch := answers 0 batch rfl
      have present : batch ≠ [] := nonempty batch List.mem_cons_self
      rw [List.length_cons, Nat.add_right_comm, forEach,
        next_after positive small handle_eq present first, List.flatten_cons, List.map_append,
        forBatch_append]
      simp only
      split
      · rename_i b' looped
        rw [ih (s := s.after stream [batch]) handle_eq
          (fun batch mem => nonempty batch (.tail _ mem)) (fun call batch' found => ?_) b',
          after_after]
        · rfl
        · have answer := answers (call + 1) batch' found
          rwa [Nat.add_comm call, ← Nat.add_assoc] at answer
      · rfl

theorem forEach_congr {s' : HdfsListStream}
    (same : s.next bridge maxEntries = s'.next bridge maxEntries) (calls : Nat) (b : β) :
    s.forEach body bridge maxEntries calls b = s'.forEach body bridge maxEntries calls b := by
  cases calls with
  | zero => rfl
  | succ calls => rw [forEach, forEach, same]

theorem forEach_mono {calls more : Nat} {b : β} {looped : β × Option Thrown}
    (scanned : s.forEach body bridge maxEntries calls b = some looped) (enough : calls ≤ more) :
    s.forEach body bridge maxEntries more b = some looped := by
  induction calls generalizing s b more with
  | zero => cases scanned
  | succ calls ih =>
      obtain ⟨more, rfl⟩ := Nat.exists_eq_succ_of_ne_zero (Nat.ne_zero_of_lt enough)
      rw [forEach] at scanned ⊢
      split
      · rename_i batch s' ran
        simp only [ran] at scanned
        split
        · rename_i b' looped'
          simp only [looped'] at scanned
          exact ih scanned (Nat.le_of_succ_le_succ enough)
        · rename_i b' thrown looped'
          simpa [looped'] using scanned
      · rename_i ran
        simpa [ran] using scanned
      · rename_i ran
        simpa [ran] using scanned
      · rename_i ran
        simp [ran] at scanned

/-- A fresh stream that is not restarted is scanned to the end of its script. -/
theorem forEach_of_stays {script : Script} {due : FileStatus → Prop} {fatal : HdfsError → Prop}
    (body : β → HdfsEntry → β × Option Thrown) (positive : 1 ≤ maxEntries)
    (small : maxEntries < 2 ^ 31) (handle_eq : s.handle = some stream) (fresh : s.calls = 0)
    (feeds : bridge.Feeds stream maxEntries script) (walked : script.Exact due fatal)
    (stays : ∀ e, script.error = some e → script.entries = [] →
      ¬(classify e = .connection ∧ s.emittedAny = false ∧ s.retried = false)) (b : β) :
    ∃ ended enough, (ended = none ↔ script.error = none) ∧
      ∀ calls, enough ≤ calls → s.forEach body bridge maxEntries calls b =
        some (endingIn (forBatch body b (script.entries.map (toEntry s.authority))) ended) := by
  obtain ⟨batches, entries_eq, nonempty, answers, last⟩ := feeds.answers
  have scanned : ∀ calls, s.forEach body bridge maxEntries (batches.length + calls) b =
      match forBatch body b (script.entries.map (toEntry s.authority)) with
      | (b, none) => (s.after stream batches).forEach body bridge maxEntries calls b
      | (b, some thrown) => some (b, some thrown) := by
    intro calls
    rw [← entries_eq]
    exact forEach_batches positive small handle_eq nonempty (by simpa [fresh] using answers) calls b
  have calls_eq : (s.after stream batches).calls = batches.length := by
    simp [after, fresh]
  rw [walked.outcome_eq] at last
  -- what the call after the last batch does to the loop
  obtain ⟨ended, ended_iff, ends⟩ : ∃ ended, (ended = none ↔ script.error = none) ∧
      ∀ calls (b : β), (s.after stream batches).forEach body bridge maxEntries (calls + 1) b =
        some (b, ended) := by
    cases error_eq : script.error with
    | none =>
        rw [error_eq] at last
        have answer : bridge.nextBatch stream (s.after stream batches).calls maxEntries =
            .ok [] := by
          rw [calls_eq]
          exact last
        have next_eq := next_of_batch (s := s.after stream batches) positive small handle_eq answer
        exact ⟨none, by simp, fun calls b => by rw [forEach, next_eq]; rfl⟩
    | some e =>
        rw [error_eq] at last
        have restarts : ¬(classify e = .connection ∧
            (s.after stream batches).emittedAny = false ∧
              (s.after stream batches).retried = false) := by
          rintro ⟨connection, nothing, first⟩
          obtain ⟨not_before, rfl⟩ : s.emittedAny = false ∧ batches = [] := by
            simpa [after] using nothing
          exact stays e error_eq entries_eq.symm ⟨connection, not_before, first⟩
        obtain ⟨message, next_eq⟩ := next_of_error (s := s.after stream batches) positive small
          handle_eq (by rw [calls_eq]; exact last) restarts
        exact ⟨some (.fileSystem (.io message)), by simp, fun calls b => by rw [forEach, next_eq]⟩
  refine ⟨ended, batches.length + 1, ended_iff, fun calls enough => ?_⟩
  obtain ⟨more, rfl⟩ := Nat.exists_eq_add_of_le enough
  rw [Nat.add_assoc, scanned, Nat.add_comm 1]
  split
  · rename_i b' looped
    rw [ends, looped]
    rfl
  · rename_i b' thrown looped
    rw [looped]
    rfl

end HdfsListStream

/-- The streams of a bridge are fed by walks that one request starts, each over the namespace that
its client reaches; opening a glob fails exactly on an invalid pattern. -/
structure ListBridge.FedBy (bridge : ListBridge) (maxEntries : Nat) (server : Nat → NameNode)
    (request : ListRequest) : Prop where
  open_eq : request.glob = true → ∀ stream, bridge.globStreamOpen stream =
    (Glob.GlobPlan.parse request.hdfsPath request.options.includeHidden).map fun _ => ()
  walked : request.Parses → ∀ stream, ∃ script, request.Walks (server stream) script ∧
    bridge.Feeds stream maxEntries script

/-- The walk that feeds a stream of the bridge lost its connection before it sent anything. -/
def ListBridge.LostAtOnce (bridge : ListBridge) (maxEntries : Nat) (server : Nat → NameNode)
    (request : ListRequest) (stream : Nat) : Prop :=
  ∃ script e, request.Walks (server stream) script ∧ bridge.Feeds stream maxEntries script ∧
    script.entries = [] ∧ script.error = some e ∧ classify e = .connection

/-- What a scan finds in the end: the entries that one walk has sent.  It is the second walk only
if the first lost its connection before anything was handed out. -/
structure Scanned (bridge : ListBridge) (maxEntries : Nat) (server : Nat → NameNode)
    (request : ListRequest) (stream : Nat) (entries : List FileStatus) (ended : Option Thrown) :
    Prop where
  stream_le : stream ≤ 1
  restarted : stream = 1 → bridge.LostAtOnce maxEntries server request 0
  nodup : (entries.map FileStatus.path).Nodup
  sound : ∀ entry ∈ entries, request.Due (server stream) entry
  complete : ended = none → ∀ entry, request.Due (server stream) entry → entry ∈ entries
  clean_iff : ended = none ↔ ∀ e, ¬request.Fatal (server stream) e

section Fed

variable {β : Type u} {bridge : ListBridge} {maxEntries : Nat} {server : Nat → NameNode}
  {request : ListRequest}

theorem Script.Exact.scanned {script : Script} {stream : Nat} {ended : Option Thrown}
    (walked : script.Exact (request.Due (server stream)) (request.Fatal (server stream)))
    (ended_iff : ended = none ↔ script.error = none) (stream_le : stream ≤ 1)
    (restarted : stream = 1 → bridge.LostAtOnce maxEntries server request 0) :
    Scanned bridge maxEntries server request stream script.entries ended where
  stream_le := stream_le
  restarted := restarted
  nodup := walked.nodup
  sound := walked.sound
  complete clean := walked.complete (ended_iff.mp clean)
  clean_iff := ended_iff.trans walked.clean_iff

/-- A scan that a walk has ended with an exception has met a fatal error on its first walk. -/
theorem Scanned.exists_fatal {stream : Nat} {entries : List FileStatus} {thrown : Thrown}
    (scanned : Scanned bridge maxEntries server request stream entries (some thrown)) :
    ∃ e, request.Fatal (server 0) e := by
  rcases Nat.le_one_iff_eq_zero_or_eq_one.mp scanned.stream_le with rfl | second
  · by_contra none_fatal
    exact absurd (scanned.clean_iff.mpr (not_exists.mp none_fatal)) (by simp)
  · obtain ⟨script, e, walks, -, -, error_eq, -⟩ := scanned.restarted second
    exact ⟨e, walks.exact.fatal_of_error e error_eq⟩

theorem HdfsListStream.eq_opened_of_openUrl {glob : Bool} {url : Text} {maxParallelism : Int}
    {options : WalkOptions} {s : HdfsListStream}
    (opens : openUrl bridge glob url maxParallelism options = .ok s) :
    ∃ client, s = (create url (parseHdfsPath url).1 (parseHdfsPath url).2 glob maxParallelism
      options).opened client := by
  rw [openUrl] at opens
  simp only at opens
  rcases openStream_cases bridge (create url (parseHdfsPath url).1 (parseHdfsPath url).2 glob
    maxParallelism options) with ⟨_, _, threw, -⟩ | ⟨client, opened⟩
  · rw [threw] at opens
    cases opens
  · rw [opened] at opens
    exact ⟨client, (Except.ok.inj opens).symm⟩

theorem HdfsListStream.parses_of_openUrl {glob : Bool} {url : Text} {maxParallelism : Int}
    {options : WalkOptions} {s : HdfsListStream}
    (opens : openUrl bridge glob url maxParallelism options = .ok s)
    (fed : bridge.FedBy maxEntries server s.request) : s.request.Parses := by
  intro globs
  have opened : bridge.globStreamOpen 0 = .ok () := by
    cases refused : bridge.globStreamOpen 0 with
    | ok _ => rfl
    | error e =>
        obtain ⟨client, rfl⟩ := eq_opened_of_openUrl opens
        obtain rfl : glob = true := globs
        cases got : bridge.get 0 <;> simp [openUrl, openStream, create, got, refused] at opens
  rw [fed.open_eq globs] at opened
  cases parsed : Glob.GlobPlan.parse s.request.hdfsPath s.request.options.includeHidden with
  | error e => simp [parsed, Except.map] at opened
  | ok plan => exact ⟨plan, rfl⟩

/-- Enough calls scan a stream that has been opened, to the end of the first walk or, if that lost
its connection before it sent anything, of the second. -/
theorem HdfsListStream.forEach_scanned (positive : 1 ≤ maxEntries) (small : maxEntries < 2 ^ 31)
    {glob : Bool} {url : Text} {maxParallelism : Int} {options : WalkOptions} {s : HdfsListStream}
    (opens : openUrl bridge glob url maxParallelism options = .ok s)
    (fed : bridge.FedBy maxEntries server s.request) (body : β → HdfsEntry → β × Option Thrown)
    (b : β) :
    ∃ stream entries ended, Scanned bridge maxEntries server s.request stream entries ended ∧
      ∃ enough, ∀ calls, enough ≤ calls → s.forEach body bridge maxEntries calls b =
        some (endingIn (forBatch body b (entries.map (toEntry (parseHdfsPath url).1))) ended) := by
  have walked_by := fed.walked (parses_of_openUrl opens fed)
  obtain ⟨client, rfl⟩ := eq_opened_of_openUrl opens
  set s := (create url (parseHdfsPath url).1 (parseHdfsPath url).2 glob maxParallelism
    options).opened client with s_eq
  have handle_eq : s.handle = some 0 := rfl
  obtain ⟨script, walks, feeds⟩ := walked_by 0
  have walked := walks.exact
  by_cases lost : ∃ e, script.error = some e ∧ script.entries = [] ∧ classify e = .connection
  · obtain ⟨e, error_eq, nothing, connection⟩ := lost
    have lost_at_once : bridge.LostAtOnce maxEntries server s.request 0 :=
      ⟨script, e, walks, feeds, nothing, error_eq, connection⟩
    have fatal := walked.fatal_of_error e error_eq
    have reply : bridge.nextBatch 0 s.calls maxEntries = .error e := by
      obtain ⟨batches, entries_eq, nonempty, -, last⟩ := feeds.answers
      obtain rfl : batches = [] := by
        rw [nothing, List.flatten_eq_nil_iff] at entries_eq
        exact List.eq_nil_iff_forall_not_mem.mpr fun batch mem =>
          nonempty batch mem (entries_eq batch mem)
      rw [walked.outcome_eq, error_eq] at last
      exact last
    rcases next_of_restart positive small handle_eq reply connection rfl rfl with
      ⟨message, _, -, next_eq⟩ | ⟨s', reopened, next_eq⟩
    · refine ⟨0, [], some (.fileSystem (.io message)), ?_, 1, fun calls enough => ?_⟩
      · exact
          { stream_le := by decide
            restarted := by simp
            nodup := List.nodup_nil
            sound := by simp
            complete := by simp
            clean_iff := ⟨by simp, fun clean => absurd fatal (clean e)⟩ }
      · obtain ⟨more, rfl⟩ := Nat.exists_eq_add_of_le' enough
        rw [forEach, next_eq]
        rfl
    · obtain ⟨client', rfl⟩ : ∃ client', s' = (s.dropped 0 e).opened client' := by
        rcases openStream_cases bridge (s.dropped 0 e) with ⟨_, _, threw, -⟩ | ⟨client', opened⟩
        · rw [reopened] at threw
          cases threw
        · rw [reopened] at opened
          exact ⟨client', (Prod.mk.inj opened).2⟩
      obtain ⟨script', walks', feeds'⟩ := walked_by 1
      -- the second walk is never restarted
      obtain ⟨ended, enough, ended_iff, scans⟩ := forEach_of_stays
        (s := (s.dropped 0 e).opened client') body positive small rfl rfl feeds' walks'.exact
        (by simp [opened, dropped]) b
      refine ⟨1, script'.entries, ended,
        walks'.exact.scanned ended_iff le_rfl fun _ => lost_at_once, enough, ?_⟩
      intro calls many
      rw [forEach_congr next_eq]
      exact scans calls many
  · obtain ⟨ended, enough, ended_iff, scans⟩ := forEach_of_stays body positive small handle_eq
      rfl feeds walked
      (fun e error_eq nothing restart => lost ⟨e, error_eq, nothing, restart.1⟩) b
    exact ⟨0, script.entries, ended, walked.scanned ended_iff (by decide) (by simp), enough, scans⟩

theorem ListBridge.exists_fedBy (maxEntries : Nat) (server : Nat → NameNode)
    (request : ListRequest) :
    ∃ bridge : ListBridge, (∀ connect, bridge.get connect = .ok connect) ∧
      bridge.FedBy maxEntries server request := by
  by_cases parses : request.Parses
  · choose scripts walks using fun stream => request.exists_walks (server stream) parses
    refine ⟨.ofScripts request scripts, fun _ => rfl, fun _ _ => rfl, fun _ stream =>
      ⟨scripts stream, walks stream, ?_⟩⟩
    exact feeds_ofScripts (walks stream).exact.completed
  · exact ⟨.ofScripts request fun _ => ⟨[], none, .completed⟩, fun _ => rfl, fun _ _ => rfl,
      fun parses' => absurd parses' parses⟩

end Fed

end DuckdbHdfs
