import DuckdbHdfs.Connection

/-!
# Safe replacement of the client

Whatever the interleaving, a client leaves the slot only after an operation of the process that
invalidates it has lost its connection; a call of `Execute` retries once, on another client; and
every further connect is paid for by an `Invalidate` that emptied the slot.
-/

namespace DuckdbHdfs

open Interleaving

/-- The operations a process has run, with the client and the outcome of each. -/
def runs (events : List ConnectionEvent) : List (ClientId × CallOutcome) :=
  events.filterMap fun
    | .ran client outcome => some (client, outcome)
    | _ => none

@[simp]
theorem runs_append (front back : List ConnectionEvent) :
    runs (front ++ back) = runs front ++ runs back :=
  List.filterMap_append

@[simp]
theorem runs_connectedEvent (connection : Connection) (client : ClientId) :
    runs (connectedEvent connection client) = [] := by
  rw [connectedEvent]
  split <;> rfl

@[simp]
theorem runs_ran (client : ClientId) (outcome : CallOutcome) :
    runs [.ran client outcome] = [(client, outcome)] := rfl

@[simp]
theorem runs_invalidatedEvent (connection : Connection) (stale : Option ClientId) :
    runs [invalidatedEvent connection stale] = [] := rfl

theorem eq_of_invalidatedEvent {connection : Connection} {stale : Option ClientId}
    {removed : ClientId} (event : invalidatedEvent connection stale = .invalidated (some removed)) :
    stale = some removed := by
  simp only [invalidatedEvent, ConnectionEvent.invalidated.injEq, Connection.client_invalidate]
    at event
  by_cases current : connection.client = stale
  · rw [← current]
    simpa [current] using event
  · obtain ⟨empty, occupied⟩ : connection.client = none ∧ connection.client = some removed := by
      simpa [current] using event
    simp [empty] at occupied

/-- A client leaves the slot only right after an operation on it, by the same process, has failed
on the connection. -/
def Justified (events : List ConnectionEvent) : Prop :=
  ∀ front removed back, events = front ++ .invalidated (some removed) :: back →
    ∃ failure, failure.status.isConnection = true ∧
      front.getLast? = some (.ran removed (.error failure))

theorem Justified.append {events logged : List ConnectionEvent} (justified : Justified events)
    (last : ∀ front removed back, logged = front ++ .invalidated (some removed) :: back →
      ∃ failure, failure.status.isConnection = true ∧
        (events ++ front).getLast? = some (.ran removed (.error failure))) :
    Justified (events ++ logged) := by
  intro front removed back split_eq
  rcases List.append_eq_append_iff.mp split_eq with
    ⟨middle, rfl, logged_eq⟩ | ⟨middle, rfl, rest_eq⟩
  · exact last middle removed back logged_eq
  · cases middle with
    | nil => simpa using last [] removed back rest_eq.symm
    | cons event middle =>
        obtain ⟨rfl, rfl⟩ := List.cons.inj rest_eq
        exact justified front removed middle rfl

theorem Justified.append_of_not_mem {events logged : List ConnectionEvent}
    (justified : Justified events) (harmless : ∀ removed, .invalidated (some removed) ∉ logged) :
    Justified (events ++ logged) := by
  refine justified.append fun front removed back logged_eq => ?_
  exact absurd (by simp [logged_eq]) (harmless removed)

theorem Justified.append_invalidated {events : List ConnectionEvent} {stale : Option ClientId}
    (justified : Justified events) (connection : Connection)
    (lost : ∀ client, stale = some client → ∃ failure, failure.status.isConnection = true ∧
      events.getLast? = some (.ran client (.error failure))) :
    Justified (events ++ [invalidatedEvent connection stale]) := by
  refine justified.append fun front removed back logged_eq => ?_
  obtain ⟨rfl, event, rfl⟩ : front = [] ∧
      .invalidated (some removed) = invalidatedEvent connection stale ∧ back = [] := by
    simpa [List.singleton_eq_append_iff] using logged_eq
  simpa using lost removed (eq_of_invalidatedEvent event.symm)

theorem not_mem_connectedEvent (connection : Connection) (client removed : ClientId) :
    .invalidated (some removed) ∉ connectedEvent connection client := by
  rw [connectedEvent]
  split <;> simp

/-- What a step can do to the connection, with the events it logs. -/
inductive Connection.Moved (connection : Connection) :
    Connection → List ConnectionEvent → Prop
  | kept {logged : List ConnectionEvent}
      (quiet : logged = [] ∨ ∃ client outcome, logged = [.ran client outcome]) :
      Moved connection connection logged
  | got {connect : CallOutcome} {client : ClientId} {connection' : Connection}
      (got : connection.get connect = (.ok client, connection')) :
      Moved connection connection' (connectedEvent connection client)
  | invalidated (stale : Option ClientId) :
      Moved connection (connection.invalidate stale) [invalidatedEvent connection stale]

theorem Connection.Moved.evolves {connection connection' : Connection}
    {logged : List ConnectionEvent} (moved : connection.Moved connection' logged) :
    connection.Evolves connection' := by
  cases moved with
  | kept _ => exact .refl connection
  | got got => exact Connection.evolves_of_get got
  | invalidated stale => exact Connection.evolves_invalidate connection stale

/-- Number of clients that have been connected. -/
def connected (events : List ConnectionEvent) : Nat :=
  events.countP fun
    | .connected _ => true
    | _ => false

/-- Number of `Invalidate` calls that have emptied the slot. -/
def emptied (events : List ConnectionEvent) : Nat :=
  events.countP fun
    | .invalidated removed => removed.isSome
    | _ => false

/-- Every client connected is in the slot or has been removed from it. -/
def Balanced (connection : Connection) (events : List ConnectionEvent) : Prop :=
  connected events = emptied events + if connection.client = none then 0 else 1

theorem Connection.Moved.balanced {connection connection' : Connection}
    {logged events : List ConnectionEvent} (moved : connection.Moved connection' logged)
    (balanced : Balanced connection events) : Balanced connection' (events ++ logged) := by
  simp only [Balanced, connected, emptied, List.countP_append] at balanced ⊢
  cases moved with
  | kept quiet =>
      rcases quiet with rfl | ⟨client, outcome, rfl⟩ <;> simpa using balanced
  | @got _ client _ got =>
      rcases Connection.get_ok got with ⟨slot, rfl⟩ | ⟨empty, -, slot, -⟩
      · simpa [connectedEvent, slot] using balanced
      · simp [connectedEvent, empty, slot] at balanced ⊢
        omega
  | invalidated stale =>
      rw [invalidatedEvent, Connection.client_invalidate]
      by_cases current : connection.client = stale
      · cases stale with
        | none => simpa [current] using balanced
        | some client =>
            simp [current] at balanced ⊢
            omega
      · cases slot : connection.client with
        | none => simpa [slot] using balanced
        | some client =>
            rw [slot] at current
            simpa [slot, current] using balanced

namespace Execution

/-- What a step of a call of `Execute` can do. -/
inductive Stepped (connection : Connection) (e : Execution) :
    Execution → Connection → List ConnectionEvent → Prop
  | got {connect : CallOutcome} {client : ClientId} {connection' : Connection}
      (getting : e.phase = .getting) (got : connection.get connect = (.ok client, connection')) :
      Stepped connection e { e with status := .reset, phase := .running client } connection'
        (connectedEvent connection client)
  | threw {message : Text} (getting : e.phase = .getting) :
      Stepped connection e { e with status := .reset, phase := .threw message } connection []
  | succeeded {client : ClientId} (running : e.phase = .running client) :
      Stepped connection e
        { e with
          captured := e.operation.capture client (.ok ()) e.captured
          phase := .returned }
        connection [.ran client (.ok ())]
  | lost {client : ClientId} {failure : Failure} (running : e.phase = .running client)
      (first : e.attempt = 0) (connection_lost : failure.status.isConnection = true) :
      Stepped connection e
        { e with
          captured := e.operation.capture client (.error failure) e.captured
          status := failure.status
          phase := .invalidating client }
        connection [.ran client (.error failure)]
  | failed {client : ClientId} {failure : Failure} (running : e.phase = .running client)
      (final : ¬(e.attempt = 0 ∧ failure.status.isConnection = true)) :
      Stepped connection e
        { e with
          captured := e.operation.capture client (.error failure) e.captured
          status := failure.status
          phase := .returned }
        connection [.ran client (.error failure)]
  | invalidated {client : ClientId} (invalidating : e.phase = .invalidating client) :
      Stepped connection e { e with attempt := e.attempt + 1, phase := .getting }
        (connection.invalidate (some client)) [invalidatedEvent connection (some client)]

variable {connection connection' : Connection} {e e' : Execution} {action : ConnectionAction}
  {logged events : List ConnectionEvent}

theorem stepped (taken : e.step connection action = some (e', connection', logged)) :
    Stepped connection e e' connection' logged := by
  cases action with
  | get connect =>
      simp only [step] at taken
      split at taken
      · rename_i getting
        split at taken
        · rename_i client connection' got
          cases taken
          exact .got getting got
        · rename_i message connection' got
          cases taken
          obtain rfl := Connection.get_error got
          exact .threw getting
      · cases taken
  | run outcome =>
      simp only [step] at taken
      split at taken
      · rename_i client running
        split at taken
        · cases taken
          exact .succeeded running
        · split at taken
          · rename_i retry
            cases taken
            exact .lost running retry.1 retry.2
          · rename_i final
            cases taken
            exact .failed running final
      · cases taken
  | invalidate =>
      simp only [step] at taken
      split at taken
      · rename_i client invalidating
        cases taken
        exact .invalidated invalidating
      · cases taken
  | openWalk outcome => cases taken
  | next count => cases taken

/-- The runs before an attempt: none before the first; before the second one that lost the
connection, on a client of which `allowed` holds. -/
inductive Earlier (allowed : ClientId → Prop) : Nat → List (ClientId × CallOutcome) → Prop
  | first : Earlier allowed 0 []
  | second {stale : ClientId} {failure : Failure}
      (connection_lost : failure.status.isConnection = true) (ok : allowed stale) :
      Earlier allowed 1 [(stale, .error failure)]

theorem Earlier.mono {allowed allowed' : ClientId → Prop} {attempt : Nat}
    {earlier : List (ClientId × CallOutcome)} (before : Earlier allowed attempt earlier)
    (weaken : ∀ {id}, allowed id → allowed' id) : Earlier allowed' attempt earlier := by
  cases before with
  | first => exact .first
  | second connection_lost ok => exact .second connection_lost (weaken ok)

/-- What a call knows in each phase, from what it has run so far. -/
def Knows (connection : Connection) (e : Execution) (events : List ConnectionEvent) : Prop :=
  match e.phase with
  | .getting => Earlier connection.Retired e.attempt (runs events)
  | .running client =>
      e.status = .reset ∧ client < connection.connects ∧
        Earlier (· ≠ client) e.attempt (runs events)
  | .invalidating client =>
      e.attempt = 0 ∧ client < connection.connects ∧
        ∃ failure, failure.status.isConnection = true ∧
          runs events = [(client, .error failure)] ∧
          events.getLast? = some (.ran client (.error failure))
  | .returned =>
      ∃ earlier client outcome captured, runs events = earlier ++ [(client, outcome)] ∧
        Earlier (· ≠ client) e.attempt earlier ∧ e.status = statusOf outcome ∧
        ¬(e.attempt = 0 ∧ e.status.isConnection = true) ∧
        e.captured = e.operation.capture client outcome captured
  | .threw _ => Earlier (fun _ => True) e.attempt (runs events)

theorem knows_start (connection : Connection) (operation : Operation) :
    Knows connection (start operation) [] :=
  Earlier.first

theorem Knows.of_evolves (knows : Knows connection e events)
    (evolves : connection.Evolves connection') : Knows connection' e events := by
  unfold Knows at knows ⊢
  cases phase_eq : e.phase with
  | getting =>
      rw [phase_eq] at knows
      exact Earlier.mono knows evolves.retired
  | running client =>
      rw [phase_eq] at knows
      obtain ⟨reset, older, before⟩ := knows
      exact ⟨reset, lt_of_lt_of_le older evolves.connects_le, before⟩
  | invalidating client =>
      rw [phase_eq] at knows
      obtain ⟨first, older, lost⟩ := knows
      exact ⟨first, lt_of_lt_of_le older evolves.connects_le, lost⟩
  | returned => simpa only [phase_eq] using knows
  | threw message => simpa only [phase_eq] using knows

theorem Stepped.moved (stepped : Stepped connection e e' connection' logged) :
    connection.Moved connection' logged := by
  cases stepped with
  | got _ got => exact .got got
  | invalidated _ => exact .invalidated _
  | threw _ => exact .kept (.inl rfl)
  | _ => exact .kept (.inr ⟨_, _, rfl⟩)

theorem Knows.step (knows : Knows connection e events)
    (stepped : Stepped connection e e' connection' logged) :
    Knows connection' e' (events ++ logged) := by
  unfold Knows at knows
  cases stepped with
  | got getting got =>
      rw [getting] at knows
      refine ⟨rfl, Connection.lt_connects_of_get got, ?_⟩
      rw [runs_append, runs_connectedEvent, List.append_nil]
      exact knows.mono fun retired => (Connection.ne_of_get got retired).symm
  | threw getting =>
      rw [getting] at knows
      rw [List.append_nil]
      exact knows.mono fun _ => trivial
  | @succeeded client running =>
      rw [running] at knows
      obtain ⟨reset, -, before⟩ := knows
      refine ⟨runs events, client, .ok (), e.captured, ?_, before, reset, ?_, rfl⟩
      · rw [runs_append, runs_ran]
      · simp [reset, BridgeStatus.reset, BridgeStatus.isConnection]
  | @lost client failure running first connection_lost =>
      rw [running] at knows
      obtain ⟨-, older, before⟩ := knows
      rw [first] at before
      refine ⟨first, older, failure, connection_lost, ?_, List.getLast?_concat⟩
      rw [runs_append, runs_ran]
      generalize runs events = earlier at before
      cases before with
      | first => rfl
  | @failed client failure running final =>
      rw [running] at knows
      obtain ⟨-, -, before⟩ := knows
      refine ⟨runs events, client, .error failure, e.captured, ?_, before, rfl, final, rfl⟩
      rw [runs_append, runs_ran]
  | @invalidated client invalidating =>
      rw [invalidating] at knows
      obtain ⟨first, older, failure, connection_lost, runs_eq, -⟩ := knows
      have retired := Connection.retired_invalidate older
      show Earlier _ (e.attempt + 1) _
      rw [runs_append, runs_invalidatedEvent, runs_eq, first]
      exact .second connection_lost retired

theorem Stepped.justified (stepped : Stepped connection e e' connection' logged)
    (knows : Knows connection e events) (justified : Justified events) :
    Justified (events ++ logged) := by
  cases stepped with
  | @got _ client _ _ _ =>
      exact justified.append_of_not_mem (not_mem_connectedEvent connection client)
  | invalidated invalidating =>
      refine justified.append_invalidated connection fun client same => ?_
      cases same
      unfold Knows at knows
      rw [invalidating] at knows
      obtain ⟨-, -, failure, connection_lost, -, last⟩ := knows
      exact ⟨failure, connection_lost, last⟩
  | _ => exact justified.append_of_not_mem (by simp)

end Execution

/-! ## One list stream -/

namespace WalkState

/-- What a step of a list stream can do. -/
inductive Stepped (connection : Connection) (w : WalkState) :
    WalkState → Connection → List ConnectionEvent → Prop
  | got {connect : CallOutcome} {client : ClientId} {connection' : Connection}
      (got : connection.get connect = (.ok client, connection')) :
      Stepped connection w { w with client := some client, phase := .opening } connection'
        (connectedEvent connection client)
  | opened : Stepped connection w { w with handle := w.client, phase := .walking } connection []
  | closed : Stepped connection w { w with phase := .closed } connection []
  | replied {emittedAny : Bool} {client : ClientId} {outcome : CallOutcome}
      (walking : w.phase = .walking) :
      Stepped connection w { w with emittedAny := emittedAny } connection [.ran client outcome]
  | lost {client : ClientId} {failure : Failure} (walking : w.phase = .walking)
      (handle_eq : w.handle = some client) (connection_lost : failure.status.isConnection = true) :
      Stepped connection w { w with retried := true, handle := none, phase := .invalidating }
        connection [.ran client (.error failure)]
  | invalidated (invalidating : w.phase = .invalidating) :
      Stepped connection w { w with phase := .getting } (connection.invalidate w.client)
        [invalidatedEvent connection w.client]

variable {connection connection' : Connection} {w w' : WalkState} {action : ConnectionAction}
  {logged events : List ConnectionEvent}

theorem stepped (taken : w.step connection action = some (w', connection', logged)) :
    Stepped connection w w' connection' logged := by
  cases action with
  | get connect =>
      simp only [step] at taken
      split at taken
      · split at taken
        · rename_i client connection' got
          cases taken
          exact .got got
        · rename_i message connection' got
          cases taken
          obtain rfl := Connection.get_error got
          exact .closed
      · cases taken
  | openWalk outcome =>
      simp only [step] at taken
      split at taken
      · cases taken
        exact .opened
      · cases taken
        exact .closed
      · cases taken
  | next count =>
      simp only [step] at taken
      split at taken
      · rename_i client walking handle_eq
        split at taken
        · cases taken
          exact .replied walking
        · rename_i failure
          split at taken
          · rename_i retry
            simp only [Bool.and_eq_true] at retry
            cases taken
            exact .lost walking handle_eq retry.1.1
          · cases taken
            exact .replied walking
      · cases taken
  | invalidate =>
      simp only [step] at taken
      split at taken
      · rename_i invalidating
        cases taken
        exact .invalidated invalidating
      · cases taken
  | run outcome => cases taken

/-- What a list stream knows: its walk runs on its client, and when it is about to invalidate that
client, a call on the walk has just lost the connection. -/
def Knows (w : WalkState) (events : List ConnectionEvent) : Prop :=
  match w.phase with
  | .walking => w.handle = w.client
  | .invalidating =>
      ∃ client failure, w.client = some client ∧ failure.status.isConnection = true ∧
        events.getLast? = some (.ran client (.error failure))
  | _ => True

theorem Stepped.moved (stepped : Stepped connection w w' connection' logged) :
    connection.Moved connection' logged := by
  cases stepped with
  | got got => exact .got got
  | invalidated _ => exact .invalidated _
  | opened => exact .kept (.inl rfl)
  | closed => exact .kept (.inl rfl)
  | _ => exact .kept (.inr ⟨_, _, rfl⟩)

theorem Knows.step (knows : Knows w events)
    (stepped : Stepped connection w w' connection' logged) : Knows w' (events ++ logged) := by
  cases stepped with
  | got got => trivial
  | opened => rfl
  | closed => trivial
  | replied walking =>
      unfold Knows at knows ⊢
      rw [walking] at knows
      simpa only [walking] using knows
  | @lost client failure walking handle_eq connection_lost =>
      unfold Knows at knows
      rw [walking] at knows
      exact ⟨client, failure, knows.symm.trans handle_eq, connection_lost, List.getLast?_concat⟩
  | invalidated invalidating => trivial

theorem Stepped.justified (stepped : Stepped connection w w' connection' logged)
    (knows : Knows w events) (justified : Justified events) : Justified (events ++ logged) := by
  cases stepped with
  | @got _ client _ _ =>
      exact justified.append_of_not_mem (not_mem_connectedEvent connection client)
  | invalidated invalidating =>
      refine justified.append_invalidated connection fun client same => ?_
      unfold Knows at knows
      rw [invalidating] at knows
      obtain ⟨client', failure, client_eq, connection_lost, last⟩ := knows
      obtain rfl : client' = client := Option.some.inj (client_eq.symm.trans same)
      exact ⟨failure, connection_lost, last⟩
  | _ => exact justified.append_of_not_mem (by simp)

end WalkState

/-! ## All of them together -/

/-- What a process knows and what it has done. -/
def Process.Invariant (connection : Connection) (process : Process)
    (events : List ConnectionEvent) : Prop :=
  Justified events ∧
    match process with
    | .execution e => e.Knows connection events
    | .walk w => w.Knows events

section Steps

variable {connection connection' : Connection} {process process' : Process}
  {action : ConnectionAction} {logged events : List ConnectionEvent}

theorem Process.moved
    (taken : process.step connection action = some (process', connection', logged)) :
    connection.Moved connection' logged := by
  cases process with
  | execution e =>
      obtain ⟨⟨e', rest⟩, stepped, same⟩ := Option.map_eq_some_iff.mp taken
      cases same
      exact (Execution.stepped stepped).moved
  | walk w =>
      obtain ⟨⟨w', rest⟩, stepped, same⟩ := Option.map_eq_some_iff.mp taken
      cases same
      exact (WalkState.stepped stepped).moved

theorem Process.Invariant.step (holds : process.Invariant connection events)
    (taken : process.step connection action = some (process', connection', logged)) :
    process'.Invariant connection' (events ++ logged) := by
  obtain ⟨justified, knows⟩ := holds
  cases process with
  | execution e =>
      obtain ⟨⟨e', rest⟩, stepped, same⟩ := Option.map_eq_some_iff.mp taken
      cases same
      have stepped := Execution.stepped stepped
      exact ⟨stepped.justified knows justified, Execution.Knows.step knows stepped⟩
  | walk w =>
      obtain ⟨⟨w', rest⟩, stepped, same⟩ := Option.map_eq_some_iff.mp taken
      cases same
      have stepped := WalkState.stepped stepped
      exact ⟨stepped.justified knows justified, WalkState.Knows.step knows stepped⟩

theorem Process.Invariant.of_evolves (evolves : connection.Evolves connection')
    (holds : process.Invariant connection events) : process.Invariant connection' events := by
  obtain ⟨justified, knows⟩ := holds
  refine ⟨justified, ?_⟩
  cases process with
  | execution e => exact Execution.Knows.of_evolves knows evolves
  | walk w => exact knows

theorem Process.invariant_start (connection : Connection) (program : Program) :
    (Process.start program).Invariant connection [] := by
  refine ⟨by simp [Justified], ?_⟩
  cases program with
  | execute operation => exact Execution.knows_start connection operation
  | list => trivial

end Steps

namespace Execution

variable {connection : Connection} {e : Execution} {events : List ConnectionEvent}

theorem Earlier.length_le {allowed : ClientId → Prop} {attempt : Nat}
    {earlier : List (ClientId × CallOutcome)} (before : Earlier allowed attempt earlier) :
    earlier.length ≤ 1 := by
  cases before <;> simp

/-- A call runs its operation twice at most, the second time after a lost connection and on another
client. -/
theorem Knows.retries (knows : Knows connection e events) :
    (runs events).length ≤ 2 ∧
      ∀ first second, runs events = [first, second] →
        (∃ failure, failure.status.isConnection = true ∧ first.2 = .error failure) ∧
          second.1 ≠ first.1 := by
  have short_or_returned : (runs events).length ≤ 1 ∨ e.phase = .returned := by
    unfold Knows at knows
    cases phase_eq : e.phase with
    | returned => exact .inr rfl
    | getting =>
        rw [phase_eq] at knows
        exact .inl (Earlier.length_le knows)
    | running client =>
        rw [phase_eq] at knows
        exact .inl knows.2.2.length_le
    | invalidating client =>
        rw [phase_eq] at knows
        obtain ⟨-, -, failure, -, runs_eq, -⟩ := knows
        simp [runs_eq]
    | threw message =>
        rw [phase_eq] at knows
        exact .inl (Earlier.length_le knows)
  rcases short_or_returned with short | returned
  · refine ⟨by omega, fun first second runs_eq => ?_⟩
    simp [runs_eq] at short
  · unfold Knows at knows
    rw [returned] at knows
    obtain ⟨earlier, client, outcome, -, runs_eq, before, -⟩ := knows
    rw [runs_eq]
    generalize e.attempt = attempt at before
    cases before with
    | first => simp
    | @second stale failure connection_lost ok =>
        refine ⟨by simp, fun first second same => ?_⟩
        obtain ⟨rfl, rfl⟩ : (stale, .error failure) = first ∧ (client, outcome) = second := by
          simpa using same
        exact ⟨⟨failure, connection_lost, rfl⟩, ok.symm⟩

theorem Knows.returns (knows : Knows connection e events) (returned : e.phase = .returned) :
    ∃ client outcome captured, (runs events).getLast? = some (client, outcome) ∧
      (e.status.ok = true ↔ outcome = .ok ()) ∧
      e.captured = e.operation.capture client outcome captured := by
  unfold Knows at knows
  rw [returned] at knows
  obtain ⟨earlier, client, outcome, captured, runs_eq, -, status_eq, -, captured_eq⟩ := knows
  refine ⟨client, outcome, captured, ?_, ?_, captured_eq⟩
  · rw [runs_eq, List.getLast?_concat]
  · rw [status_eq]
    exact ok_statusOf outcome

theorem handle_of_openResult {client : ClientId} {outcome : CallOutcome} {captured : Captured}
    {kept : Option ClientId} {resource : Resource}
    (captured_eq : e.captured = e.operation.capture client outcome captured)
    (opened : e.openResult = some (.handle kept resource)) :
    outcome = .ok () ∧ resource = ⟨client⟩ ∧ kept = some client := by
  obtain ⟨operation, attempt, status, captured', phase⟩ := e
  simp only at captured_eq
  subst captured_eq
  cases operation with
  | other => cases opened
  | openFile path forWriting nullIfMissing =>
      cases phase <;> try cases opened
      cases outcome with
      | ok _ =>
          cases opened
          exact ⟨rfl, rfl, rfl⟩
      | error failure =>
          simp only [openResult, Operation.capture] at opened
          split at opened
          · cases opened
          · split at opened <;> cases opened

end Execution

section Reachable

variable {ι : Type*} [DecidableEq ι] {authority : Text} {programs : ι → Program}
  {system : ConnectionSystem ι}

theorem Process.invariant_of_reach (reach : Relation.ReflTransGen ConnectionSystem.Step
    (ConnectionSystem.start authority programs) system) (i : ι) :
    (system.processes i).Invariant system.shared (system.eventsOf i) := by
  have reach : Relation.ReflTransGen (System.Step Process.step)
      (System.start (Connection.unused authority) fun i => Process.start (programs i)) system :=
    reach
  refine System.local_invariant reach (fun taken => (Process.moved taken).evolves)
    (fun evolves holds => ?_) (fun holds taken => ?_) (fun i => ?_) i
  · exact Process.Invariant.of_evolves evolves holds
  · exact Process.Invariant.step holds taken
  · exact Process.invariant_start _ (programs i)

theorem Execution.knows_of_reach {i : ι} {e : Execution}
    (reach : Relation.ReflTransGen ConnectionSystem.Step
      (ConnectionSystem.start authority programs) system)
    (process_eq : system.processes i = .execution e) :
    e.Knows system.shared (system.eventsOf i) := by
  have holds := Process.invariant_of_reach reach i
  rw [process_eq] at holds
  exact holds.2

theorem ConnectionSystem.balanced_of_reach
    (reach : Relation.ReflTransGen ConnectionSystem.Step
      (ConnectionSystem.start authority programs) system) :
    Balanced system.shared system.events := by
  have reach : Relation.ReflTransGen (System.Step Process.step)
      (System.start (Connection.unused authority) fun i => Process.start (programs i)) system :=
    reach
  have initially : Balanced (Connection.unused authority) [] := rfl
  refine System.shared_invariant reach (fun balanced taken => ?_) initially
  exact (Process.moved taken).balanced balanced

end Reachable

/-- What holds of the processes on a connection at any time. -/
structure ConnectionSystem.Safe {ι : Type*} [DecidableEq ι] (system : ConnectionSystem ι) :
    Prop where
  /-- A client is removed from the slot only right after an operation of the process that calls
  `Invalidate` has failed on the connection, on that very client. -/
  removes : ∀ i front removed back,
    system.eventsOf i = front ++ .invalidated (some removed) :: back →
      ∃ failure, failure.status.isConnection = true ∧
        front.getLast? = some (.ran removed (.error failure))
  /-- An `Execute` call runs its operation at most twice, the second time after a connection
  failure and on another client. -/
  retries : ∀ i e, system.processes i = .execution e →
    (runs (system.eventsOf i)).length ≤ 2 ∧
      ∀ first second, runs (system.eventsOf i) = [first, second] →
        (∃ failure, failure.status.isConnection = true ∧ first.2 = .error failure) ∧
          second.1 ≠ first.1
  /-- An `Execute` call returns with an OK status iff its last run succeeded, and `OpenFile` pairs
  the reader or writer of that run with its client. -/
  returns : ∀ i e, system.processes i = .execution e → e.phase = .returned →
    ∃ client outcome, (runs (system.eventsOf i)).getLast? = some (client, outcome) ∧
      (e.status.ok = true ↔ outcome = .ok ()) ∧
      ∀ kept resource, e.openResult = some (.handle kept resource) →
        resource.createdOn = client ∧ outcome = .ok () ∧ kept = some resource.createdOn
  connects : connected system.events ≤ 1 + emptied system.events

/-- Replacing the client of a connection is safe in every interleaving. -/
theorem connectionSystem_safe {ι : Type*} [DecidableEq ι] (authority : Text)
    (programs : ι → Program) {system : ConnectionSystem ι}
    (reach : Relation.ReflTransGen ConnectionSystem.Step
      (ConnectionSystem.start authority programs) system) : system.Safe := by
  have balanced := ConnectionSystem.balanced_of_reach reach
  have knows : ∀ i e, system.processes i = .execution e →
      e.Knows system.shared (system.eventsOf i) :=
    fun _ _ => Execution.knows_of_reach reach
  exact
    { removes := fun i => (Process.invariant_of_reach reach i).1
      retries := fun i e process_eq => (knows i e process_eq).retries
      returns := by
        intro i e process_eq returned
        obtain ⟨client, outcome, captured, last, status_iff, captured_eq⟩ :=
          (knows i e process_eq).returns returned
        refine ⟨client, outcome, last, status_iff, fun kept resource opened => ?_⟩
        obtain ⟨ok, rfl, kept_eq⟩ := Execution.handle_of_openResult captured_eq opened
        exact ⟨rfl, ok, kept_eq⟩
      connects := by
        rw [balanced]
        split <;> omega }

/-- A failure on the connection. -/
def lostFailure : Failure where
  status := { code := .connection, msg := some "connection lost".toList }
  not_ok := rfl

/-- An `OpenFile` and another call of `Execute`, with a list stream. -/
def failoverPrograms : Fin 3 → Program
  | 0 => .execute (.openFile "/d/x".toList false false)
  | 1 => .execute .other
  | 2 => .list

/-- All three lose the first client; the late invalidations spare the second one. -/
def failoverTurns : List (Fin 3 × ConnectionAction) :=
  [(0, .get (.ok ())), (1, .get (.ok ())), (2, .get (.ok ())), (2, .openWalk (.ok ())),
    (0, .run (.error lostFailure)), (1, .run (.error lostFailure)), (0, .invalidate),
    (2, .next (.error lostFailure)), (0, .get (.ok ())), (1, .invalidate), (2, .invalidate),
    (1, .get (.ok ())), (0, .run (.ok ())), (1, .run (.ok ()))]

/-- The file is opened on the second client, which is still in the slot. -/
theorem connectionSystem_safe_failover :
    ∃ system : ConnectionSystem (Fin 3),
      system.Safe ∧ system.shared.client = some 1 ∧
        ∃ e, system.processes 0 = .execution e ∧ e.openResult = some (.handle (some 1) ⟨1⟩) := by
  obtain ⟨system, run⟩ : ∃ system, failoverTurns.foldlM (System.perform Process.step)
      (ConnectionSystem.start "hdfs://nn".toList failoverPrograms) = some system :=
    ⟨_, rfl⟩
  have reach : Relation.ReflTransGen ConnectionSystem.Step
      (ConnectionSystem.start "hdfs://nn".toList failoverPrograms) system :=
    Relation.reach_of_foldlM (fun performed => ⟨_, performed⟩) run
  have safe := connectionSystem_safe "hdfs://nn".toList failoverPrograms reach
  cases run
  exact ⟨_, safe, rfl, _, rfl, rfl⟩

end DuckdbHdfs
