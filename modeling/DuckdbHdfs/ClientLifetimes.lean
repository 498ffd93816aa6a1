import DuckdbHdfs.ConnectionSafety
import DuckdbHdfs.Library.SharedOwners
import Mathlib.Order.Interval.Set.Defs

/-!
# The lifetime of a client

A client is shared by `shared_ptr`: the connection that caches it, the operations that run on it,
the files opened on it and the list streams own it together, and the last of them to go frees it.
However these interleave with reconnects, a client is never used after it was freed, and it is
freed as soon as nobody owns it.
-/

namespace DuckdbHdfs

open Interleaving SharedOwners

namespace Connection

/-- The references that `Get` takes when it returns a client: the slot's, if it connects, and the
one it returns. -/
def getRefs (connection : Connection) (client : ClientId) : List (Op ClientId) :=
  if connection.client = none then [.make client, .copy client] else [.copy client]

/-- The reference that `Invalidate` resets. -/
def invalidateRefs (connection : Connection) (stale : Option ClientId) : List (Op ClientId) :=
  if connection.client = stale then stale.toList.map .drop else []

end Connection

namespace Execution

/-- The local `client` of the loop. -/
def localClient (e : Execution) : Option ClientId :=
  match e.phase with
  | .running client | .invalidating client => some client
  | .getting | .returned | .threw _ => none

/-- Whether the loop goes round once more. -/
def retries (e : Execution) : CallOutcome → Bool
  | .ok () => false
  | .error failure => decide (e.attempt = 0) && failure.status.isConnection

/-- What the operation of `OpenFile` does to `opened_on`. -/
def captureRefs (client : ClientId) (captured : Captured) : Operation → List (Op ClientId)
  | .openFile _ _ _ => .copy client :: captured.openedOn.toList.map .drop
  | .other => []

/-- What a step does to references; the local `client` goes at the end of each round. -/
def refs (connection : Connection) (e : Execution) : ConnectionAction → List (Op ClientId)
  | .get connect =>
      match connection.get connect with
      | (.ok client, _) => connection.getRefs client
      | (.error _, _) => []
  | .run outcome =>
      match e.phase with
      | .running client =>
          captureRefs client e.captured e.operation ++
            if e.retries outcome then [] else [.drop client]
      | _ => []
  | .invalidate =>
      match e.phase with
      | .invalidating client => connection.invalidateRefs (some client) ++ [.drop client]
      | _ => []
  | .openWalk _ | .next _ => []

/-- The clients its variables refer to. -/
def references (e : Execution) : List ClientId :=
  e.captured.openedOn.toList ++ e.localClient.toList

end Execution

namespace WalkState

/-- What a step does to references; `Open` assigns to the member `client`. -/
def refs (connection : Connection) (w : WalkState) : ConnectionAction → List (Op ClientId)
  | .get connect =>
      match connection.get connect with
      | (.ok client, _) => connection.getRefs client ++ w.client.toList.map .drop
      | (.error _, _) => []
  | .invalidate => connection.invalidateRefs w.client
  | .run _ | .openWalk _ | .next _ => []

end WalkState

namespace Process

/-- What a step of a process does to references. -/
def refs (connection : Connection) (process : Process) (action : ConnectionAction) :
    List (Op ClientId) :=
  match process with
  | .execution e => e.refs connection action
  | .walk w => w.refs connection action

/-- The clients that a process refers to. -/
def references : Process → List ClientId
  | .execution e => e.references
  | .walk w => w.client.toList

/-- The clients that the bridge works on in a step. -/
def uses (process : Process) (action : ConnectionAction) : List ClientId :=
  match process, action with
  | .execution e, .run _ => e.localClient.toList
  | .walk w, .openWalk _ => w.client.toList
  | .walk w, .next _ => w.handle.toList
  | _, _ => []

/-- The reader or writer of the file that it has opened. -/
def resource : Process → Option Resource
  | .execution e =>
      match e.openResult with
      | some (.handle _ resource) => some resource
      | _ => none
  | .walk _ => none

/-- Whether its caller has got its result, and may let go of it. -/
def ended : Process → Bool
  | .execution e =>
      match e.phase with
      | .returned | .threw _ => true
      | _ => false
  | .walk w =>
      match w.phase with
      | .walking | .closed => true
      | _ => false

/-- The clients that the destructors work on: they free the reader, the writer or the walk
first. -/
def lastUses : Process → List ClientId
  | .execution e => (Process.execution e).resource.toList.map Resource.createdOn
  | .walk w => w.handle.toList

end Process

/-- A connection, and how many references there are to each of its clients. -/
structure SharedClients where
  connection : Connection
  useCount : ClientId → Nat

/-- A call or a list stream, until its file, stream or variables are destroyed. -/
structure ClientOwner where
  process : Process
  gone : Bool
  deriving DecidableEq, Repr

/-- One step of an owner. -/
inductive OwnerAction
  | act (action : ConnectionAction)
  /-- A read or a write on the open file. -/
  | use
  /-- The file, the stream or the variables are destroyed. -/
  | destroy
  deriving DecidableEq, Repr

/-- Use clients, then operate on references. -/
def SharedClients.perform (shared : SharedClients) (connection : Connection) (uses : List ClientId)
    (refs : List (Op ClientId)) : SharedClients × List (Event ClientId) :=
  let (useCount, freed) := Op.performAll shared.useCount refs
  ({ connection, useCount }, uses.map .used ++ freed.map .freed)

namespace ClientOwner

/-- A call or a list stream about to begin. -/
def start (program : Program) : ClientOwner where
  process := .start program
  gone := false

/-- The clients that an owner refers to. -/
def references (owner : ClientOwner) : List ClientId :=
  if owner.gone then [] else owner.process.references

/-- One step, with its effect on clients. -/
def step (shared : SharedClients) (owner : ClientOwner) :
    OwnerAction → Option (ClientOwner × SharedClients × List (Event ClientId))
  | .act action =>
      if owner.gone then
        none
      else
        match owner.process.step shared.connection action with
        | none => none
        | some (process, connection, _) =>
            some ({ owner with process }, shared.perform connection (owner.process.uses action)
              (owner.process.refs shared.connection action))
  | .use =>
      if owner.gone then
        none
      else
        match owner.process.resource with
        | none => none
        | some resource => some (owner, shared.perform shared.connection [resource.createdOn] [])
  | .destroy =>
      if owner.gone || !owner.process.ended then
        none
      else
        some ({ owner with gone := true }, shared.perform shared.connection owner.process.lastUses
          (owner.process.references.map .drop))

end ClientOwner

namespace Connection

/-- The clients that have been connected. -/
def made (connection : Connection) : Set ClientId :=
  Set.Iio connection.connects

/-- The reference of the slot. -/
def slot (connection : Connection) : Multiset ClientId :=
  connection.client.toList

variable {connection connection' : Connection} {connect : CallOutcome} {client : ClientId}

theorem getRefs_takes (got : connection.get connect = (.ok client, connection'))
    (held : Multiset ClientId) :
    TakesAll (connection.made, connection.slot + held) (connection.getRefs client)
      (connection'.made, connection'.slot + client ::ₘ held) := by
  rcases get_ok got with ⟨current, rfl⟩ | ⟨empty, rfl, current, connects_eq⟩
  · have refs_eq : connection'.getRefs client = [.copy client] := by simp [getRefs, current]
    rw [refs_eq, Multiset.add_cons]
    exact .cons (.copy (by simp [slot, current])) .nil
  · have refs_eq : connection.getRefs connection.connects =
        [.make connection.connects, .copy connection.connects] := by
      simp [getRefs, empty]
    have made_eq : connection'.made = insert connection.connects connection.made := by
      ext other
      rw [Set.mem_insert_iff, made, made, Set.mem_Iio, Set.mem_Iio, connects_eq,
        Nat.lt_succ_iff_lt_or_eq, or_comm]
    have slot_eq : connection'.slot + connection.connects ::ₘ held =
        connection.connects ::ₘ connection.connects ::ₘ (connection.slot + held) := by
      simp [slot, current, empty]
    rw [refs_eq, made_eq, slot_eq]
    refine .cons (.make ?_) (.cons (.copy (Multiset.mem_cons_self _ _)) .nil)
    simp [made]

theorem invalidateRefs_takes (connection : Connection) (stale : Option ClientId)
    (held : Multiset ClientId) :
    TakesAll (connection.made, connection.slot + held) (connection.invalidateRefs stale)
      ((connection.invalidate stale).made, (connection.invalidate stale).slot + held) := by
  rw [invalidateRefs, invalidate]
  split
  · rename_i current
    rw [slot, current]
    have dropped : TakesAll (connection.made, stale.toList + held) (stale.toList.map .drop)
        (connection.made, held) := .drop_all stale.toList held
    simpa [made, slot] using dropped
  · exact .nil

end Connection

theorem coe_concat {α : Type*} (objects : List α) (object : α) :
    ((objects ++ [object] : List α) : Multiset α) = object ::ₘ (objects : Multiset α) := by
  rw [← Multiset.coe_add, Multiset.coe_singleton, add_comm, Multiset.singleton_add]

namespace Execution

theorem captureRefs_takes {made : Set ClientId} (client : ClientId) (outcome : CallOutcome)
    (captured : Captured) (operation : Operation) :
    TakesAll (made, client ::ₘ (captured.openedOn.toList : Multiset ClientId))
      (captureRefs client captured operation)
      (made, client ::ₘ
        ((operation.capture client outcome captured).openedOn.toList : Multiset ClientId)) := by
  cases operation with
  | openFile path forWriting nullIfMissing =>
      have opened_eq : ((Operation.openFile path forWriting nullIfMissing).capture client outcome
          captured).openedOn = some client := by
        cases outcome <;> rfl
      rw [opened_eq]
      refine .cons (.copy (Multiset.mem_cons_self _ _)) ?_
      have dropped : TakesAll (made, captured.openedOn.toList + client ::ₘ {client})
          (captured.openedOn.toList.map .drop) (made, client ::ₘ {client}) :=
        .drop_all captured.openedOn.toList _
      rw [Multiset.add_cons, add_comm, Multiset.singleton_add] at dropped
      exact dropped
  | other => exact .nil

variable {connection connection' : Connection} {e e' : Execution} {action : ConnectionAction}
  {logged : List ConnectionEvent}

theorem takes (taken : e.step connection action = some (e', connection', logged)) :
    TakesAll (connection.made, connection.slot + e.references) (e.refs connection action)
      (connection'.made, connection'.slot + e'.references) := by
  cases action with
  | get connect =>
      simp only [step] at taken
      split at taken
      · rename_i getting
        split at taken
        · rename_i client connection' got
          cases taken
          simp only [refs, got, references, localClient, getting, Option.toList_some,
            Option.toList_none, List.append_nil, coe_concat]
          exact Connection.getRefs_takes got _
        · rename_i message connection' got
          cases taken
          obtain rfl := Connection.get_error got
          simp only [refs, got, references, localClient, getting]
          exact .nil
      · cases taken
  | run outcome =>
      simp only [step] at taken
      split at taken
      · rename_i client running
        have captures := @captureRefs_takes connection.made client outcome e.captured e.operation
        have returns : TakesAll (connection.made, client ::ₘ ((e.operation.capture client outcome
            e.captured).openedOn.toList : Multiset ClientId)) [.drop client]
            (connection.made, ((e.operation.capture client outcome
              e.captured).openedOn.toList : Multiset ClientId)) :=
          .cons .drop .nil
        simp only [refs, running]
        split at taken
        · cases taken
          simp only [references, localClient, running, retries, Option.toList_some,
            Option.toList_none, List.append_nil, coe_concat]
          exact (captures.append returns).frame_left _
        · split at taken
          · rename_i failure retry
            cases taken
            simp only [references, localClient, running, retries, Option.toList_some, coe_concat]
            simp only [retry.1, decide_true, retry.2, Bool.and_self, ite_true, List.append_nil]
            exact captures.frame_left _
          · rename_i failure final
            cases taken
            have stops : (decide (e.attempt = 0) && failure.status.isConnection) = false := by
              simpa using final
            simp only [references, localClient, running, retries, Option.toList_some, stops,
              Option.toList_none, List.append_nil, coe_concat]
            exact (captures.append returns).frame_left _
      · cases taken
  | invalidate =>
      simp only [step] at taken
      split at taken
      · rename_i client invalidating
        cases taken
        simp only [refs, references, localClient, invalidating, Option.toList_some,
          Option.toList_none, List.append_nil, coe_concat]
        refine (connection.invalidateRefs_takes (some client) _).append ?_
        rw [Multiset.add_cons]
        exact .cons .drop .nil
      · cases taken
  | openWalk outcome => cases taken
  | next count => cases taken

end Execution

namespace WalkState

variable {connection connection' : Connection} {w w' : WalkState} {action : ConnectionAction}
  {logged : List ConnectionEvent}

theorem takes (taken : w.step connection action = some (w', connection', logged)) :
    TakesAll (connection.made, connection.slot + w.client.toList) (w.refs connection action)
      (connection'.made, connection'.slot + w'.client.toList) := by
  cases action with
  | get connect =>
      simp only [step] at taken
      split at taken
      · split at taken
        · rename_i client connection' got
          cases taken
          simp only [refs, got]
          refine (Connection.getRefs_takes got _).append ?_
          rw [← Multiset.singleton_add, ← add_assoc,
            add_comm _ (w.client.toList : Multiset ClientId)]
          exact .drop_all w.client.toList _
        · rename_i message connection' got
          cases taken
          obtain rfl := Connection.get_error got
          simp only [refs, got]
          exact .nil
      · cases taken
  | openWalk outcome =>
      simp only [step] at taken
      split at taken
      · cases taken
        exact .nil
      · cases taken
        exact .nil
      · cases taken
  | next count =>
      simp only [step] at taken
      split at taken
      · split at taken
        · cases taken
          exact .nil
        · split at taken
          · cases taken
            exact .nil
          · cases taken
            exact .nil
      · cases taken
  | invalidate =>
      simp only [step] at taken
      split at taken
      · cases taken
        exact connection.invalidateRefs_takes w.client _
      · cases taken
  | run outcome => cases taken

end WalkState

namespace Process

/-- What a process works on it refers to: the client of its open file, and that of its walk. -/
def Owns : Process → Prop
  | .execution e => ∀ resource, e.captured.resource = some resource →
      e.captured.openedOn = some resource.createdOn
  | .walk w => ∀ client, w.handle = some client → w.client = some client ∧ w.phase = .walking

variable {connection connection' : Connection} {process process' : Process}
  {action : ConnectionAction} {logged : List ConnectionEvent}

theorem owns_start (program : Program) : (Process.start program).Owns := by
  cases program with
  | execute operation => rintro resource ⟨⟩
  | list => rintro client ⟨⟩

theorem owns_capture {captured : Captured} (client : ClientId) (outcome : CallOutcome)
    (operation : Operation)
    (owns : ∀ resource, captured.resource = some resource →
      captured.openedOn = some resource.createdOn) {resource : Resource}
    (created : (operation.capture client outcome captured).resource = some resource) :
    (operation.capture client outcome captured).openedOn = some resource.createdOn := by
  cases operation with
  | other => exact owns resource created
  | openFile path forWriting nullIfMissing =>
      cases outcome with
      | ok _ =>
          cases created
          rfl
      | error failure => cases created

theorem owns_execution {e e' : Execution}
    (taken : e.step connection action = some (e', connection', logged))
    (owns : (Process.execution e).Owns) : (Process.execution e').Owns := by
  cases Execution.stepped taken with
  | got _ _ => exact owns
  | threw _ => exact owns
  | invalidated _ => exact owns
  | _ => exact fun resource created => owns_capture _ _ _ owns created

theorem owns_walk {w w' : WalkState}
    (taken : w.step connection action = some (w', connection', logged))
    (owns : (Process.walk w).Owns) : (Process.walk w').Owns := by
  -- A walk is only ever open in one phase; in the others a step finds no handle.
  have closed : w.phase ≠ .walking → ∀ client, w.handle ≠ some client :=
    fun elsewhere client handle_eq => elsewhere (owns client handle_eq).2
  cases action with
  | get connect =>
      simp only [WalkState.step] at taken
      split at taken
      · rename_i getting
        rw [getting] at closed
        split at taken
        · cases taken
          exact fun client handle_eq => absurd handle_eq (closed (by decide) client)
        · cases taken
          exact fun client handle_eq => absurd handle_eq (closed (by decide) client)
      · cases taken
  | openWalk outcome =>
      simp only [WalkState.step] at taken
      split at taken
      · cases taken
        exact fun client handle_eq => ⟨handle_eq, rfl⟩
      · rename_i opening
        rw [opening] at closed
        cases taken
        exact fun client handle_eq => absurd handle_eq (closed (by decide) client)
      · cases taken
  | next count =>
      simp only [WalkState.step] at taken
      split at taken
      · split at taken
        · cases taken
          exact owns
        · split at taken
          · cases taken
            rintro client ⟨⟩
          · cases taken
            exact owns
      · cases taken
  | invalidate =>
      simp only [WalkState.step] at taken
      split at taken
      · rename_i invalidating
        rw [invalidating] at closed
        cases taken
        exact fun client handle_eq => absurd handle_eq (closed (by decide) client)
      · cases taken
  | run outcome => cases taken

/-- What a step of a process does, to its references and to what it works on. -/
theorem stepped (owns : process.Owns)
    (taken : process.step connection action = some (process', connection', logged)) :
    process'.Owns ∧ TakesAll (connection.made, connection.slot + process.references)
      (process.refs connection action)
      (connection'.made, connection'.slot + process'.references) := by
  cases process with
  | execution e =>
      obtain ⟨⟨e', rest⟩, taken, same⟩ := Option.map_eq_some_iff.mp taken
      cases same
      exact ⟨owns_execution taken owns, Execution.takes taken⟩
  | walk w =>
      obtain ⟨⟨w', rest⟩, taken, same⟩ := Option.map_eq_some_iff.mp taken
      cases same
      exact ⟨owns_walk taken owns, WalkState.takes taken⟩

theorem Owns.mem_of_uses (owns : process.Owns) {client : ClientId}
    (mem : client ∈ process.uses action) : client ∈ process.references := by
  cases process with
  | execution e =>
      cases action with
      | run outcome => exact List.mem_append_right _ mem
      | _ => cases mem
  | walk w =>
      cases action with
      | openWalk outcome => exact mem
      | next count =>
          have handle_eq := Option.mem_toList.mp mem
          exact Option.mem_toList.mpr (owns client handle_eq).1
      | _ => cases mem

theorem Owns.mem_of_resource (owns : process.Owns) {resource : Resource}
    (open_file : process.resource = some resource) :
    resource.createdOn ∈ process.references := by
  cases process with
  | walk w => cases open_file
  | execution e =>
      simp only [Process.resource] at open_file
      split at open_file
      · rename_i client other opened
        cases open_file
        refine List.mem_append_left _ (Option.mem_toList.mpr (owns resource ?_))
        simp only [Execution.openResult] at opened
        split at opened
        · split at opened
          · rename_i captured
            cases opened
            exact captured
          · split at opened
            · cases opened
            · split at opened <;> cases opened
        · cases opened
      · cases open_file

theorem Owns.mem_of_lastUses (owns : process.Owns) {client : ClientId}
    (mem : client ∈ process.lastUses) : client ∈ process.references := by
  cases process with
  | execution e =>
      obtain ⟨resource, open_file, rfl⟩ := List.mem_map.mp mem
      exact owns.mem_of_resource (Option.mem_toList.mp open_file)
  | walk w =>
      have handle_eq := Option.mem_toList.mp mem
      exact Option.mem_toList.mpr (owns client handle_eq).1

end Process

/-! ## Owners in any order -/

namespace ClientOwner

/-- What connections and owners show of clients. -/
def sharing : Sharing SharedClients ClientOwner ClientId where
  made shared := shared.connection.made
  kept shared := shared.connection.slot
  counts := SharedClients.useCount
  held owner := owner.references

variable {shared shared' : SharedClients} {owner owner' : ClientOwner} {action : OwnerAction}
  {logged : List (Event ClientId)}

theorem references_of_present (present : ¬owner.gone = true) :
    owner.references = owner.process.references :=
  if_neg present

/-- Every step of an owner uses clients that it refers to, and operates on references that it
has. -/
theorem stepped (owns : owner.process.Owns)
    (taken : owner.step shared action = some (owner', shared', logged)) :
    owner'.process.Owns ∧ sharing.Stepped shared owner owner' shared' logged := by
  cases action with
  | act action =>
      simp only [step] at taken
      split at taken
      · cases taken
      · rename_i present
        split at taken
        · cases taken
        · rename_i process connection log ran
          cases taken
          obtain ⟨owns', takes⟩ := Process.stepped owns ran
          refine ⟨owns', owner.process.uses action, owner.process.refs shared.connection action,
            fun client mem => ?_, ?_, rfl, rfl⟩
          · have mem' := owns.mem_of_uses mem
            rw [← references_of_present present] at mem'
            exact mem'
          · have present' : ¬{ owner with process }.gone = true := present
            simp only [sharing]
            rw [references_of_present present, references_of_present present']
            exact takes
  | use =>
      simp only [step] at taken
      split at taken
      · cases taken
      · rename_i present
        split at taken
        · cases taken
        · rename_i resource open_file
          cases taken
          refine ⟨owns, [resource.createdOn], [], fun client mem => ?_, .nil, rfl, rfl⟩
          obtain rfl := List.mem_singleton.mp mem
          have mem' := owns.mem_of_resource open_file
          rw [← references_of_present present] at mem'
          exact mem'
  | destroy =>
      simp only [step] at taken
      split at taken
      · cases taken
      · rename_i ended
        have present : ¬owner.gone = true := by
          rintro gone
          simp [gone] at ended
        cases taken
        refine ⟨owns, owner.process.lastUses, owner.process.references.map .drop,
          fun client mem => ?_, ?_, rfl, rfl⟩
        · have mem' := owns.mem_of_lastUses mem
          rw [← references_of_present present] at mem'
          exact mem'
        · have nothing : references { owner with gone := true } = [] := rfl
          simp only [sharing]
          rw [references_of_present present, nothing, Multiset.coe_nil, add_zero, add_comm]
          exact .drop_all owner.process.references _

theorem connection_step (taken : owner.step shared action = some (owner', shared', logged)) :
    (shared'.connection = shared.connection ∧ owner'.process = owner.process) ∨
      ∃ action log, owner.process.step shared.connection action =
        some (owner'.process, shared'.connection, log) := by
  cases action with
  | act action =>
      simp only [step] at taken
      split at taken
      · cases taken
      · split at taken
        · cases taken
        · rename_i process connection log ran
          cases taken
          exact .inr ⟨action, log, ran⟩
  | use =>
      simp only [step] at taken
      split at taken
      · cases taken
      · split at taken
        · cases taken
        · cases taken
          exact .inl ⟨rfl, rfl⟩
  | destroy =>
      simp only [step] at taken
      split at taken
      · cases taken
      · cases taken
        exact .inl ⟨rfl, rfl⟩

end ClientOwner

/-- Owners of the clients of one connection. -/
abbrev ClientSystem (ι : Type*) :=
  Interleaving.System ι SharedClients ClientOwner (Event ClientId)

/-- Some owner takes a step. -/
abbrev ClientSystem.Step {ι : Type*} [DecidableEq ι] (system system' : ClientSystem ι) : Prop :=
  Interleaving.System.Step ClientOwner.step system system'

/-- Calls and list streams about to begin on an unused connection. -/
def ClientSystem.start {ι : Type*} (authority : Text) (programs : ι → Program) :
    ClientSystem ι :=
  Interleaving.System.start { connection := .unused authority, useCount := fun _ => 0 }
    fun i => .start (programs i)

/-- Reference counts aside, a run of owners is one of the calls and list streams. -/
theorem ClientSystem.exists_connectionSystem {ι : Type*} [DecidableEq ι] {authority : Text}
    {programs : ι → Program} {system : ClientSystem ι}
    (reach : Relation.ReflTransGen ClientSystem.Step (ClientSystem.start authority programs)
      system) :
    ∃ calls : ConnectionSystem ι,
      Relation.ReflTransGen ConnectionSystem.Step (ConnectionSystem.start authority programs)
        calls ∧
      calls.shared = system.shared.connection ∧
      ∀ i, calls.processes i = (system.processes i).process := by
  induction reach with
  | refl => exact ⟨_, .refl, rfl, fun _ => rfl⟩
  | @tail before after _ stepped ih =>
      obtain ⟨calls, reach, shared_eq, processes_eq⟩ := ih
      obtain ⟨i, action, owner, shared, logged, taken, rfl⟩ := System.step_cases stepped
      rcases ClientOwner.connection_step taken with ⟨same, idle⟩ | ⟨action', log, ran⟩
      · refine ⟨calls, reach, shared_eq.trans same.symm, fun j => ?_⟩
        by_cases own : j = i
        · rw [own, System.advance_processes_self, idle, processes_eq]
        · rw [System.advance_processes_other _ _ _ _ _ own, processes_eq]
      · refine ⟨calls.advance i owner.process shared.connection log, reach.tail ?_, rfl,
          fun j => ?_⟩
        · rw [← shared_eq, ← processes_eq] at ran
          exact ⟨(i, action'), by rw [System.perform, ran]; rfl⟩
        · by_cases own : j = i
          · rw [own, System.advance_processes_self, System.advance_processes_self]
          · rw [System.advance_processes_other _ _ _ _ _ own,
              System.advance_processes_other _ _ _ _ _ own, processes_eq]

/-- Whatever fails over while clients are in use: none is used after it was freed, none is freed
twice, freed are exactly those that are neither in the slot nor referred to, and an open file
keeps its client.  Meanwhile the calls run as they do where nobody counts references. -/
theorem ClientSystem.outlives {ι : Type*} [DecidableEq ι] {authority : Text}
    {programs : ι → Program} {system : ClientSystem ι}
    (reach : Relation.ReflTransGen ClientSystem.Step (ClientSystem.start authority programs)
      system) :
    UsedAlive system.events ∧
      (∀ client, system.events.count (.freed client) ≤ 1) ∧
      (∀ client, .freed client ∈ system.events ↔ client < system.shared.connection.connects ∧
        system.shared.connection.client ≠ some client ∧
          ∀ i, client ∉ (system.processes i).references) ∧
      (∀ i resource, (system.processes i).gone = false →
        (system.processes i).process.resource = some resource →
          .freed resource.createdOn ∉ system.events) ∧
      ∃ calls : ConnectionSystem ι,
        Relation.ReflTransGen ConnectionSystem.Step (ConnectionSystem.start authority programs)
          calls ∧
        calls.shared = system.shared.connection ∧
        ∀ i, calls.processes i = (system.processes i).process := by
  obtain ⟨owns, settled⟩ : (∀ i, (system.processes i).process.Owns) ∧
      ClientOwner.sharing.Settled system := by
    refine @Sharing.settled_of_reach _ _ _ _ _ _ _ _ _ _
      (fun owner => owner.process.Owns) _ _ reach ClientOwner.stepped ⟨?_, rfl, fun _ => rfl⟩
      fun i => ⟨Process.owns_start (programs i), ?_⟩
    · ext client
      simp [ClientOwner.sharing, Connection.made, Connection.unused]
    · cases programs i <;> rfl
  obtain ⟨used_alive, freed_once, freed_iff⟩ := settled.safe
  refine ⟨used_alive, freed_once, fun client => ?_, fun i resource present open_file freed => ?_,
    exists_connectionSystem reach⟩
  · rw [freed_iff]
    simp [ClientOwner.sharing, Connection.made, Connection.slot]
  · have mem := (owns i).mem_of_resource open_file
    rw [← ClientOwner.references_of_present (by simp [present])] at mem
    exact ((freed_iff _).mp freed).2.2 i mem

/-- An open file, a call that loses the connection, and a list stream. -/
inductive SampleOwner
  | file
  | losing
  | listing
  deriving DecidableEq, Repr

def sharedClientPrograms : SampleOwner → Program
  | .file => .execute (.openFile "/d/x".toList false false)
  | .losing => .execute .other
  | .listing => .list

/-- The first client leaves the slot while the file that is open on it is still read. -/
def sharedClientTurns : List (SampleOwner × OwnerAction) :=
  [(.file, .act (.get (.ok ()))), (.file, .act (.run (.ok ()))), (.losing, .act (.get (.ok ()))),
    (.losing, .act (.run (.error lostFailure))), (.losing, .act .invalidate),
    (.losing, .act (.get (.ok ()))), (.losing, .act (.run (.ok ()))), (.losing, .destroy),
    (.listing, .act (.get (.ok ()))), (.listing, .act (.openWalk (.ok ()))), (.file, .use)]

/-- The second client is in the slot, and the first one has not been freed. -/
theorem ClientSystem.outlives_sharedClient :
    ∃ system : ClientSystem SampleOwner, system.shared.connection.client = some 1 ∧
      (system.processes .file).process.resource = some ⟨0⟩ ∧ .freed 0 ∉ system.events := by
  obtain ⟨system, run, current, present, open_file⟩ : ∃ system : ClientSystem SampleOwner,
      sharedClientTurns.foldlM (System.perform ClientOwner.step)
        (ClientSystem.start "hdfs://nn".toList sharedClientPrograms) = some system ∧
      system.shared.connection.client = some 1 ∧ (system.processes .file).gone = false ∧
      (system.processes .file).process.resource = some ⟨0⟩ :=
    ⟨_, rfl, rfl, rfl, rfl⟩
  have reach : Relation.ReflTransGen ClientSystem.Step
      (ClientSystem.start "hdfs://nn".toList sharedClientPrograms) system :=
    Relation.reach_of_foldlM (fun performed => ⟨_, performed⟩) run
  exact ⟨system, current, open_file,
    (ClientSystem.outlives reach).2.2.2.1 .file ⟨0⟩ present open_file⟩

/-- The file keeps it, and frees it when it is destroyed. -/
example : ((sharedClientTurns ++ [(SampleOwner.file, OwnerAction.destroy)]).foldlM
      (System.perform ClientOwner.step)
      (ClientSystem.start "hdfs://nn".toList sharedClientPrograms)).map System.events =
    some [.used 0, .used 0, .used 1, .used 1, .used 0, .used 0, .freed 0] := by
  decide

end DuckdbHdfs
