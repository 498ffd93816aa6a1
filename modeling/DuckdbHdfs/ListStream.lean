import DuckdbHdfs.Entries
import DuckdbHdfs.Status
import DuckdbHdfs.Walk.Walkers

/-!
# The list stream of the file system

`HdfsListStream::Next` pulls batches from a bridge stream.  A connection failure restarts the
walk on a fresh stream once, as long as nothing has been handed out.  A trace records what the
file system does with the bridge.
-/

namespace DuckdbHdfs

/-- What is asked of the bridge when a stream is opened. -/
structure ListRequest where
  glob : Bool
  hdfsPath : Text
  recursive : Bool
  maxParallelism : Int
  options : WalkOptions
  deriving DecidableEq, Repr

/-- What the stream does with its connection and with the bridge. -/
inductive ListEvent
  | opened (stream : Nat) (client : ClientId) (request : ListRequest)
  /-- A call returned these entries; none at the end of the walk. -/
  | batch (stream : Nat) (entries : List FileStatus)
  | failed (stream : Nat) (e : HdfsError)
  | freed (stream : Nat)
  | invalidated (client : Option ClientId)
  deriving DecidableEq, Repr

/-- The bridge and the connection as a list stream meets them.  Streams, connects and calls on a
stream are numbered; every answer is arbitrary, but for the size of a batch. -/
structure ListBridge where
  /-- The library's text of an error. -/
  display : HdfsError → Text
  /-- `Get` on the connection: a client, or the message of the exception it throws. -/
  get : Nat → Except Text ClientId
  /-- Opening a glob fails on an invalid pattern only. -/
  globStreamOpen : Nat → Except HdfsError Unit
  /-- The answer of a stream to a call with a bound. -/
  nextBatch : (stream call maxEntries : Nat) → Except HdfsError (List FileStatus)
  nextBatch_length : ∀ {stream call maxEntries batch},
    nextBatch stream call maxEntries = .ok batch → batch.length ≤ max maxEntries 1

/-- A list stream, with what it has done so far. -/
structure HdfsListStream where
  url : Text
  authority : Text
  hdfsPath : Text
  glob : Bool
  maxParallelism : Int
  options : WalkOptions
  client : Option ClientId
  /-- The bridge stream, by its number. -/
  handle : Option Nat
  emittedAny : Bool
  retried : Bool
  /-- Number of `Get`s on the connection. -/
  connects : Nat
  /-- Number of bridge streams opened. -/
  streams : Nat
  /-- Number of calls on the current bridge stream. -/
  calls : Nat
  trace : List ListEvent
  deriving DecidableEq, Repr

/-- How a call of `Next` ends. -/
inductive NextResult
  /-- It returns whether there is more, and the batch. -/
  | returned (more : Bool) (out : List HdfsEntry)
  | threw (message : Text)
  /-- It is called without a bridge stream. -/
  | undefined
  deriving DecidableEq, Repr

/-- The entry handed out for a status. -/
def toEntry (authority : Text) (status : FileStatus) : HdfsEntry :=
  makeHdfsEntry authority (statusToEntry status)

/-- The 32-bit integer a size or count is cast to. -/
def castInt32 (n : Nat) : Int :=
  (n : Int).bmod (2 ^ 32)

namespace HdfsListStream

/-- A stream before its first opening. -/
def create (url authority hdfsPath : Text) (glob : Bool) (maxParallelism : Int)
    (options : WalkOptions) : HdfsListStream where
  url := url
  authority := authority
  hdfsPath := hdfsPath
  glob := glob
  maxParallelism := maxParallelism
  options := options
  client := none
  handle := none
  emittedAny := false
  retried := false
  connects := 0
  streams := 0
  calls := 0
  trace := []

/-- What the stream asks of the bridge, whenever it opens a walk. -/
def request (s : HdfsListStream) : ListRequest where
  glob := s.glob
  hdfsPath := cStr s.hdfsPath
  recursive := false
  maxParallelism := s.maxParallelism
  options := s.options

/-- (Re)establish the client and open the bridge stream; the message of an exception, if any. -/
def openStream (bridge : ListBridge) (s : HdfsListStream) : Option Text × HdfsListStream :=
  match bridge.get s.connects with
  | .error message => (some message, { s with connects := s.connects + 1 })
  | .ok client =>
      let s := { s with connects := s.connects + 1, client := some client }
      let opened :=
        { s with
          handle := some s.streams
          streams := s.streams + 1
          calls := 0
          trace := s.trace ++ [.opened s.streams client s.request] }
      if s.glob then
        match bridge.globStreamOpen s.streams with
        | .ok () => (none, opened)
        | .error e =>
            let status := setError bridge.display "invalid glob pattern".toList e
            (some ("Failed to glob HDFS pattern '".toList ++ s.url ++ "': ".toList ++
              status.message), s)
      else
        (none, opened)

/-- A stream over an URL, with its walk open, or the message of the exception. -/
def openUrl (bridge : ListBridge) (glob : Bool) (url : Text) (maxParallelism : Int)
    (options : WalkOptions) : Except Text HdfsListStream :=
  let (authority, hdfsPath) := parseHdfsPath url
  match (create url authority hdfsPath glob maxParallelism options).openStream bridge with
  | (none, s) => .ok s
  | (some message, _) => .error message

/-- Open a stream over the children of a directory. -/
def openListStream (bridge : ListBridge) (url : Text) (maxParallelism : Int)
    (options : WalkOptions) : Except Text HdfsListStream :=
  openUrl bridge false url maxParallelism options

/-- Open a stream over what a pattern matches. -/
def openGlobStream (bridge : ListBridge) (url : Text) (maxParallelism : Int)
    (options : WalkOptions) : Except Text HdfsListStream :=
  openUrl bridge true url maxParallelism options

theorem openStream_retried (bridge : ListBridge) (s : HdfsListStream) :
    (s.openStream bridge).2.retried = s.retried := by
  rw [openStream]
  split
  · rfl
  · simp only
    split
    · split <;> rfl
    · rfl

/-- The exception of a stream that cannot go on. -/
def failure (s : HdfsListStream) (status : BridgeStatus) : Text :=
  if s.glob then
    "Failed to glob HDFS pattern '".toList ++ s.url ++ "': ".toList ++ status.message
  else
    "Failed to list HDFS path '".toList ++ s.url ++ "': ".toList ++ status.message

/-- Replace `out` with the next batch. -/
def next (bridge : ListBridge) (maxEntries : Nat) (s : HdfsListStream) :
    NextResult × HdfsListStream :=
  match s.handle with
  | none => (.undefined, s)
  | some stream =>
      match bridge.nextBatch stream s.calls (max (castInt32 maxEntries) 1).toNat with
      | .ok batch =>
          let count := castInt32 batch.length
          let out := (batch.take count.toNat).map (toEntry s.authority)
          (.returned (0 < count) out,
            { s with
              calls := s.calls + 1
              emittedAny := s.emittedAny || 0 < count
              trace := s.trace ++ [.batch stream batch] })
      | .error e =>
          let context := "list '".toList ++ cStr s.hdfsPath ++ "' failed".toList
          let status := setError bridge.display context e
          let failed := { s with calls := s.calls + 1, trace := s.trace ++ [.failed stream e] }
          if _retry : status.isConnection && !s.emittedAny && !s.retried then
            let invalidated :=
              { failed with
                retried := true
                handle := none
                trace := failed.trace ++
                  [ListEvent.freed stream, ListEvent.invalidated failed.client] }
            match _reopened : invalidated.openStream bridge with
            | (some message, s) => (.threw message, s)
            | (none, s) => s.next bridge maxEntries
          else
            (.threw (s.failure status), failed)
termination_by if s.retried then 0 else 1
decreasing_by
  have kept := congrArg (fun result => result.2.retried) _reopened
  simp only [openStream_retried, invalidated] at kept
  simp_all

/-- Call `Next` until it does not return a batch. -/
def run (bridge : ListBridge) : List Nat → HdfsListStream → List NextResult × HdfsListStream
  | [], s => ([], s)
  | maxEntries :: rest, s =>
      match s.next bridge maxEntries with
      | (.returned true out, s) =>
          let (results, s) := run bridge rest s
          (.returned true out :: results, s)
      | (result, s) => ([result], s)

end HdfsListStream

theorem castInt32_of_lt {n : Nat} (small : n < 2 ^ 31) : castInt32 n = n := by
  apply Int.bmod_eq_of_le <;> omega

theorem requested_of_lt {maxEntries : Nat} (positive : 1 ≤ maxEntries)
    (small : maxEntries < 2 ^ 31) : (max (castInt32 maxEntries) 1).toNat = maxEntries := by
  rw [castInt32_of_lt small]
  omega

namespace HdfsListStream

variable {bridge : ListBridge} {maxEntries stream : Nat} {s : HdfsListStream}

theorem next_of_batch {batch : List FileStatus} (positive : 1 ≤ maxEntries)
    (small : maxEntries < 2 ^ 31) (handle_eq : s.handle = some stream)
    (reply : bridge.nextBatch stream s.calls maxEntries = .ok batch) :
    s.next bridge maxEntries =
      (.returned (batch ≠ []) (batch.map (toEntry s.authority)),
        { s with
          calls := s.calls + 1
          emittedAny := s.emittedAny || batch ≠ []
          trace := s.trace ++ [.batch stream batch] }) := by
  have bound := bridge.nextBatch_length reply
  have count : castInt32 batch.length = batch.length := castInt32_of_lt (by omega)
  have more : decide (0 < (batch.length : Int)) = decide (batch ≠ []) := by
    rw [decide_eq_decide, ← List.length_pos_iff]
    omega
  rw [next, handle_eq]
  simp only [requested_of_lt positive small, reply, count, more, Int.toNat_natCast,
    List.take_length]

theorem next_of_error {e : HdfsError} (positive : 1 ≤ maxEntries) (small : maxEntries < 2 ^ 31)
    (handle_eq : s.handle = some stream)
    (reply : bridge.nextBatch stream s.calls maxEntries = .error e)
    (stays : ¬(classify e = .connection ∧ s.emittedAny = false ∧ s.retried = false)) :
    ∃ message, s.next bridge maxEntries =
      (.threw message,
        { s with calls := s.calls + 1, trace := s.trace ++ [.failed stream e] }) := by
  rw [next, handle_eq]
  simp only [requested_of_lt positive small, reply]
  rw [dif_neg (by simpa [and_assoc] using stays)]
  exact ⟨_, rfl⟩

/-- The stream after it has dropped a failed walk and the client it ran on. -/
def dropped (s : HdfsListStream) (stream : Nat) (e : HdfsError) : HdfsListStream :=
  { s with
    calls := s.calls + 1
    retried := true
    handle := none
    trace := s.trace ++ [.failed stream e, .freed stream, .invalidated s.client] }

/-- A connection failure before the first entry restarts the walk, once. -/
theorem next_of_restart {e : HdfsError} (positive : 1 ≤ maxEntries) (small : maxEntries < 2 ^ 31)
    (handle_eq : s.handle = some stream)
    (reply : bridge.nextBatch stream s.calls maxEntries = .error e)
    (connection : classify e = .connection) (fresh : s.emittedAny = false)
    (first : s.retried = false) :
    (∃ message s', (s.dropped stream e).openStream bridge = (some message, s') ∧
        s.next bridge maxEntries = (.threw message, s')) ∨
      ∃ s', (s.dropped stream e).openStream bridge = (none, s') ∧
        s.next bridge maxEntries = s'.next bridge maxEntries := by
  have dropped_eq : s.dropped stream e =
      { s with
        calls := s.calls + 1
        retried := true
        handle := none
        trace := s.trace ++ [.failed stream e] ++
          [ListEvent.freed stream, ListEvent.invalidated s.client] } := by
    simp [dropped]
  rw [next, handle_eq, dropped_eq]
  simp only [requested_of_lt positive small, reply]
  rw [dif_pos (by simp [connection, fresh, first])]
  split
  · rename_i message s' reopened
    exact .inl ⟨message, s', reopened, rfl⟩
  · rename_i s' reopened
    exact .inr ⟨s', reopened, rfl⟩

/-- The stream with the next bridge stream opened on a client. -/
def opened (s : HdfsListStream) (client : ClientId) : HdfsListStream :=
  { s with
    connects := s.connects + 1
    client := some client
    handle := some s.streams
    streams := s.streams + 1
    calls := 0
    trace := s.trace ++ [.opened s.streams client s.request] }

/-- Opening either throws, with no stream opened, or opens the next stream. -/
theorem openStream_cases (bridge : ListBridge) (s : HdfsListStream) :
    (∃ message s', s.openStream bridge = (some message, s') ∧ s'.trace = s.trace ∧
        s'.request = s.request ∧ s'.authority = s.authority) ∨
      ∃ client, s.openStream bridge = (none, s.opened client) := by
  rw [openStream]
  split
  · exact .inl ⟨_, _, rfl, rfl, rfl, rfl⟩
  · rename_i client _
    simp only
    split
    · split
      · exact .inr ⟨client, rfl⟩
      · exact .inl ⟨_, _, rfl, rfl, rfl, rfl⟩
    · exact .inr ⟨client, rfl⟩

end HdfsListStream

end DuckdbHdfs
