import DuckdbHdfs.Library.Interleaving
import DuckdbHdfs.Status

/-!
# The connection under concurrent use

`HdfsConnection` caches one client for an authority.  Calls of `Execute` and list streams take the
client, run operations on it without the lock, and drop a client whose operation failed on the
connection.  The model interleaves any number of them, one process per call or stream, at the
lock-protected `Get` and `Invalidate` and at the answers of the bridge.
-/

namespace DuckdbHdfs

/-- A status that reports a failure. -/
structure Failure where
  status : BridgeStatus
  not_ok : status.ok = false
  deriving DecidableEq, Repr

/-- How a bridge call ends: its status is OK or that of a failure. -/
abbrev CallOutcome := Except Failure Unit

/-- The status a call leaves, which was reset before it. -/
def statusOf : CallOutcome → BridgeStatus
  | .ok () => .reset
  | .error failure => failure.status

theorem ok_statusOf (outcome : CallOutcome) :
    (statusOf outcome).ok = true ↔ outcome = .ok () := by
  cases outcome with
  | ok _ => simp [statusOf]
  | error failure => simp [statusOf, failure.not_ok]

/-- The client in the slot, and the number of connects so far, which numbers the next client. -/
structure Connection where
  authority : Text
  client : Option ClientId
  connects : Nat
  client_lt : ∀ id, client = some id → id < connects

namespace Connection

/-- Current client, established on first use; `connect` is how a connect ends. -/
def get (connect : CallOutcome) (connection : Connection) : Except Text ClientId × Connection :=
  match connection.client with
  | some client => (.ok client, connection)
  | none =>
      match connect with
      | .ok () =>
          (.ok connection.connects,
            { connection with
              client := some connection.connects
              connects := connection.connects + 1
              client_lt := by
                intro id same
                cases same
                exact Nat.lt_succ_self _ })
      | .error failure =>
          let fileSystem :=
            if connection.authority = [] then "default fs".toList else connection.authority
          (.error ("Failed to connect to HDFS (".toList ++ fileSystem ++ "): ".toList ++
            failure.status.message), connection)

/-- Drop `stale` if it is still the current client. -/
def invalidate (stale : Option ClientId) (connection : Connection) : Connection :=
  if connection.client = stale then
    { connection with client := none, client_lt := by simp }
  else
    connection

theorem client_invalidate (connection : Connection) (stale : Option ClientId) :
    (connection.invalidate stale).client =
      if connection.client = stale then none else connection.client := by
  rw [invalidate, apply_ite Connection.client]

/-- A client that is no longer in the slot. -/
def Retired (connection : Connection) (id : ClientId) : Prop :=
  id < connection.connects ∧ connection.client ≠ some id

/-- What never changes back: connects are counted and retired clients stay retired. -/
structure Evolves (before after : Connection) : Prop where
  connects_le : before.connects ≤ after.connects
  retired : ∀ {id}, before.Retired id → after.Retired id

variable {connection connection' : Connection} {connect : CallOutcome} {client stale : ClientId}

theorem get_ok (got : connection.get connect = (.ok client, connection')) :
    connection.client = some client ∧ connection' = connection ∨
      connection.client = none ∧ client = connection.connects ∧
        connection'.client = some client ∧ connection'.connects = connection.connects + 1 := by
  unfold get at got
  split at got
  · rename_i current slot
    cases got
    exact .inl ⟨slot, rfl⟩
  · rename_i slot
    split at got
    · cases got
      exact .inr ⟨slot, rfl, rfl, rfl⟩
    · cases got

theorem get_error {message : Text} (got : connection.get connect = (.error message, connection')) :
    connection' = connection := by
  unfold get at got
  split at got
  · cases got
  · split at got
    · cases got
    · cases got
      rfl

theorem lt_connects_of_get (got : connection.get connect = (.ok client, connection')) :
    client < connection'.connects := by
  rcases get_ok got with ⟨slot, rfl⟩ | ⟨-, rfl, -, connects_eq⟩
  · exact connection'.client_lt client slot
  · rw [connects_eq]
    exact Nat.lt_succ_self _

theorem ne_of_get (got : connection.get connect = (.ok client, connection'))
    (retired : connection.Retired stale) : client ≠ stale := by
  rintro rfl
  obtain ⟨older, not_current⟩ := retired
  rcases get_ok got with ⟨slot, -⟩ | ⟨-, rfl, -⟩
  · exact not_current slot
  · exact lt_irrefl _ older

theorem Evolves.refl (connection : Connection) : connection.Evolves connection where
  connects_le := le_rfl
  retired := id

theorem evolves_of_get (got : connection.get connect = (.ok client, connection')) :
    connection.Evolves connection' := by
  rcases get_ok got with ⟨-, rfl⟩ | ⟨-, rfl, client_eq, connects_eq⟩
  · exact .refl connection'
  · have connects_le : connection.connects ≤ connection'.connects := by
      rw [connects_eq]
      exact Nat.le_succ _
    refine ⟨connects_le, fun {id} retired => ⟨lt_of_lt_of_le retired.1 connects_le, ?_⟩⟩
    rw [client_eq]
    intro same
    cases same
    exact lt_irrefl _ retired.1

theorem evolves_invalidate (connection : Connection) (stale : Option ClientId) :
    connection.Evolves (connection.invalidate stale) := by
  rw [invalidate]
  split
  · exact ⟨le_rfl, fun retired => ⟨retired.1, by simp⟩⟩
  · exact .refl connection

theorem retired_invalidate (older : stale < connection.connects) :
    (connection.invalidate (some stale)).Retired stale := by
  have evolves := evolves_invalidate connection (some stale)
  refine ⟨lt_of_lt_of_le older evolves.connects_le, ?_⟩
  rw [client_invalidate]
  split
  · simp
  · assumption

end Connection

/-- What a process does with clients. -/
inductive ConnectionEvent
  /-- A new client was connected. -/
  | connected (client : ClientId)
  /-- An operation, or a call on a walk, ended on a client. -/
  | ran (client : ClientId) (outcome : CallOutcome)
  /-- The slot was invalidated, which removed this client from it. -/
  | invalidated (removed : Option ClientId)
  deriving DecidableEq, Repr

/-- One step of a process, with what the bridge or the connect answers. -/
inductive ConnectionAction
  | get (connect : CallOutcome)
  /-- The operation of an `Execute` ends. -/
  | run (outcome : CallOutcome)
  /-- The bridge opens a walk. -/
  | openWalk (outcome : CallOutcome)
  /-- A call on a walk ends, with a number of entries. -/
  | next (count : Except Failure Nat)
  | invalidate
  deriving DecidableEq, Repr

/-- The event of a `Get` that returned a client: one if it connected. -/
def connectedEvent (connection : Connection) (client : ClientId) : List ConnectionEvent :=
  if connection.client = none then [.connected client] else []

/-- The event of an `Invalidate`. -/
def invalidatedEvent (connection : Connection) (stale : Option ClientId) : ConnectionEvent :=
  .invalidated (if (connection.invalidate stale).client = none then connection.client else none)

/-- A reader or writer, by the client it was created on. -/
structure Resource where
  createdOn : ClientId
  deriving DecidableEq, Repr

/-- The out-variables of the operation of `OpenFile`. -/
structure Captured where
  resource : Option Resource
  openedOn : Option ClientId
  deriving DecidableEq, Repr

/-- What is executed. -/
inductive Operation
  | openFile (path : Text) (forWriting nullIfMissing : Bool)
  /-- An operation with out-variables of its own. -/
  | other
  deriving DecidableEq, Repr

/-- The out-variables after a run of the operation. -/
def Operation.capture (client : ClientId) (outcome : CallOutcome) (captured : Captured) :
    Operation → Captured
  | .openFile _ _ _ =>
      match outcome with
      | .ok () => { resource := some ⟨client⟩, openedOn := some client }
      | .error _ => { resource := none, openedOn := some client }
  | .other => captured

/-- Where a call of `Execute` is. -/
inductive ExecutePhase
  | getting
  | running (client : ClientId)
  | invalidating (client : ClientId)
  | returned
  | threw (message : Text)
  deriving DecidableEq, Repr

/-- A call of `Execute`. -/
structure Execution where
  operation : Operation
  attempt : Nat
  status : BridgeStatus
  captured : Captured
  phase : ExecutePhase
  deriving DecidableEq, Repr

namespace Execution

/-- A call about to begin. -/
def start (operation : Operation) : Execution where
  operation := operation
  attempt := 0
  status := .reset
  captured := { resource := none, openedOn := none }
  phase := .getting

/-- One step of the loop of `Execute`. -/
def step (connection : Connection) (e : Execution) :
    ConnectionAction → Option (Execution × Connection × List ConnectionEvent)
  | .get connect =>
      match e.phase with
      | .getting =>
          let e := { e with status := .reset }
          match connection.get connect with
          | (.ok client, connection') =>
              some ({ e with phase := .running client }, connection',
                connectedEvent connection client)
          | (.error message, connection') =>
              some ({ e with phase := .threw message }, connection', [])
      | _ => none
  | .run outcome =>
      match e.phase with
      | .running client =>
          let e := { e with captured := e.operation.capture client outcome e.captured }
          match outcome with
          | .ok () => some ({ e with phase := .returned }, connection, [.ran client outcome])
          | .error failure =>
              let e := { e with status := failure.status }
              if e.attempt = 0 ∧ e.status.isConnection then
                some ({ e with phase := .invalidating client }, connection, [.ran client outcome])
              else
                some ({ e with phase := .returned }, connection, [.ran client outcome])
      | _ => none
  | .invalidate =>
      match e.phase with
      | .invalidating client =>
          some ({ e with attempt := e.attempt + 1, phase := .getting },
            connection.invalidate (some client), [invalidatedEvent connection (some client)])
      | _ => none
  | .openWalk _ | .next _ => none

end Execution

/-- What `OpenFile` returns: no handle for a missing file, or a handle that keeps a client alive,
with a reader or writer. -/
inductive OpenResult
  | missing
  | handle (client : Option ClientId) (resource : Resource)
  | threw (message : Text)
  deriving DecidableEq, Repr

/-- What `OpenFile` makes of its call of `Execute` once that has returned. -/
def Execution.openResult (e : Execution) : Option OpenResult :=
  match e.operation, e.phase with
  | .openFile path forWriting nullIfMissing, .returned =>
      match e.captured.resource with
      | some resource => some (.handle e.captured.openedOn resource)
      | none =>
          if forWriting then
            some (.threw ("Failed to open HDFS file for writing '".toList ++ path ++ "': ".toList ++
              e.status.message))
          else if e.status.isNotFound && nullIfMissing then
            some .missing
          else
            some (.threw ("Failed to open HDFS file for reading '".toList ++ path ++ "': ".toList ++
              e.status.message))
  | _, _ => none

/-- Where a list stream is. -/
inductive WalkPhase
  /-- `Open` is about to get a client. -/
  | getting
  /-- `Open` is about to open a walk on the client. -/
  | opening
  /-- A walk is open. -/
  | walking
  | invalidating
  /-- `Open` threw. -/
  | closed
  deriving DecidableEq, Repr

/-- A list stream, with the client its walk was opened on. -/
structure WalkState where
  client : Option ClientId
  handle : Option ClientId
  emittedAny : Bool
  retried : Bool
  phase : WalkPhase
  deriving DecidableEq, Repr

namespace WalkState

/-- A stream about to open its first walk. -/
def start : WalkState where
  client := none
  handle := none
  emittedAny := false
  retried := false
  phase := .getting

/-- One step of `Open` or `Next`. -/
def step (connection : Connection) (w : WalkState) :
    ConnectionAction → Option (WalkState × Connection × List ConnectionEvent)
  | .get connect =>
      match w.phase with
      | .getting =>
          match connection.get connect with
          | (.ok client, connection') =>
              some ({ w with client := some client, phase := .opening }, connection',
                connectedEvent connection client)
          | (.error _, connection') => some ({ w with phase := .closed }, connection', [])
      | _ => none
  | .openWalk outcome =>
      match w.phase, outcome with
      | .opening, .ok () => some ({ w with handle := w.client, phase := .walking }, connection, [])
      | .opening, .error _ => some ({ w with phase := .closed }, connection, [])
      | _, _ => none
  | .next count =>
      match w.phase, w.handle with
      | .walking, some client =>
          match count with
          | .ok count =>
              some ({ w with emittedAny := w.emittedAny || 0 < count }, connection,
                [.ran client (.ok ())])
          | .error failure =>
              if failure.status.isConnection && !w.emittedAny && !w.retried then
                some ({ w with retried := true, handle := none, phase := .invalidating },
                  connection, [.ran client (.error failure)])
              else
                some (w, connection, [.ran client (.error failure)])
      | _, _ => none
  | .invalidate =>
      match w.phase with
      | .invalidating =>
          some ({ w with phase := .getting }, connection.invalidate w.client,
            [invalidatedEvent connection w.client])
      | _ => none
  | .run _ => none

end WalkState

/-- One call of `Execute`, or one list stream.  A thread that makes several calls is several
processes, of which each starts once the one before has ended. -/
inductive Process
  | execution (e : Execution)
  | walk (w : WalkState)
  deriving DecidableEq, Repr

/-- One step of a process. -/
def Process.step (connection : Connection) (process : Process) (action : ConnectionAction) :
    Option (Process × Connection × List ConnectionEvent) :=
  match process with
  | .execution e => (e.step connection action).map fun (e, rest) => (.execution e, rest)
  | .walk w => (w.step connection action).map fun (w, rest) => (.walk w, rest)

/-- What a process is to do. -/
inductive Program
  | execute (operation : Operation)
  | list
  deriving DecidableEq, Repr

/-- A process about to begin. -/
def Process.start : Program → Process
  | .execute operation => .execution (.start operation)
  | .list => .walk .start

/-- A connection that has not been used. -/
def Connection.unused (authority : Text) : Connection where
  authority := authority
  client := none
  connects := 0
  client_lt := by simp

/-- Processes that share a connection. -/
abbrev ConnectionSystem (ι : Type*) :=
  Interleaving.System ι Connection Process ConnectionEvent

/-- Some process takes a step. -/
abbrev ConnectionSystem.Step {ι : Type*} [DecidableEq ι] (system system' : ConnectionSystem ι) :
    Prop :=
  Interleaving.System.Step Process.step system system'

/-- Processes about to begin on an unused connection. -/
def ConnectionSystem.start {ι : Type*} (authority : Text) (programs : ι → Program) :
    ConnectionSystem ι :=
  Interleaving.System.start (Connection.unused authority) fun i => Process.start (programs i)

end DuckdbHdfs
