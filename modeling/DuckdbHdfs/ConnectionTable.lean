import DuckdbHdfs.Execute
import DuckdbHdfs.Urls
import Mathlib.Data.List.Nodup

/-!
# The connections of a file system

`HdfsFileSystem` keeps one connection for each authority, created on first use and never erased.
Calls and list streams look up theirs under a lock and work with the reference from then on.  The
model interleaves any number of them, on any number of authorities: what happens on one authority
is a run of that connection alone.
-/

namespace DuckdbHdfs

open Interleaving

/-- The connections by their authorities; a reference is a position. -/
structure ConnectionTable where
  connections : List (Text × Connection)
  nodup : (connections.map Prod.fst).Nodup

namespace ConnectionTable

/-- No connection has been used yet. -/
def empty : ConnectionTable where
  connections := []
  nodup := List.nodup_nil

/-- The authorities that have a connection. -/
def authorities (table : ConnectionTable) : List Text :=
  table.connections.map Prod.fst

/-- Look up, or create, the connection for an authority. -/
def getConnection (authority : Text) (table : ConnectionTable) : Nat × ConnectionTable :=
  if found : authority ∈ table.authorities then
    (table.authorities.idxOf authority, table)
  else
    (table.connections.length,
      { connections := table.connections ++ [(authority, .unused authority)]
        nodup := by
          rw [List.map_append]
          exact List.nodup_append_comm.mp (List.nodup_cons.mpr ⟨found, table.nodup⟩) })

theorem map_fst_modify {α β : Type*} (entries : List (α × β)) (ref : Nat) (value : β) :
    (entries.modify ref fun entry => (entry.1, value)).map Prod.fst = entries.map Prod.fst := by
  refine List.ext_getElem? fun i => ?_
  rw [List.getElem?_map, List.getElem?_map, List.getElem?_modify]
  cases entries[i]? with
  | none => rfl
  | some entry =>
      simp only [Option.map_eq_map, Option.map_some]
      split <;> rfl

/-- Change the connection that is referred to. -/
def set (ref : Nat) (connection : Connection) (table : ConnectionTable) : ConnectionTable where
  connections := table.connections.modify ref fun entry => (entry.1, connection)
  nodup := by
    rw [map_fst_modify]
    exact table.nodup

/-- The connection for an authority, as it is or as it would be created. -/
def connectionAt (authority : Text) (table : ConnectionTable) : Connection :=
  ((table.connections.find? fun entry => entry.1 = authority).map Prod.snd).getD
    (.unused authority)

variable {table : ConnectionTable} {authority : Text} {connection : Connection} {ref : Nat}

theorem connectionAt_eq (found : table.connections[ref]? = some (authority, connection)) :
    table.connectionAt authority = connection := by
  have mem := List.mem_of_getElem? found
  obtain ⟨entry, first⟩ : ∃ entry,
      (table.connections.find? fun entry => entry.1 = authority) = some entry :=
    Option.isSome_iff_exists.mp (List.find?_isSome.mpr ⟨_, mem, by simp⟩)
  have same_key : entry.1 = authority := by simpa using List.find?_some first
  have same : entry = (authority, connection) :=
    List.inj_on_of_nodup_map table.nodup (List.mem_of_find?_eq_some first) mem same_key
  rw [connectionAt, first, same]
  rfl

theorem connectionAt_of_absent (absent : authority ∉ table.authorities) :
    table.connectionAt authority = .unused authority := by
  have none_found : (table.connections.find? fun entry => entry.1 = authority) = none := by
    refine List.find?_eq_none.mpr fun entry mem => ?_
    simpa using fun same : entry.1 = authority => absent (List.mem_map.mpr ⟨entry, mem, same⟩)
  rw [connectionAt, none_found]
  rfl

theorem exists_ref_of_mem (mem : authority ∈ table.authorities) :
    ∃ (ref : Nat) (connection : Connection),
      table.connections[ref]? = some (authority, connection) := by
  obtain ⟨⟨key, connection⟩, entry_mem, rfl⟩ := List.mem_map.mp mem
  obtain ⟨ref, found⟩ := List.mem_iff_getElem?.mp entry_mem
  exact ⟨ref, connection, found⟩

/-- What never changes: a reference stays with the connection of its authority. -/
def Keeps (before after : ConnectionTable) : Prop :=
  ∀ (ref : Nat) authority connection, before.connections[ref]? = some (authority, connection) →
    ∃ connection', after.connections[ref]? = some (authority, connection')

theorem getConnection_spec (table : ConnectionTable) (authority : Text) :
    (∃ connection, (table.getConnection authority).2.connections[
        (table.getConnection authority).1]? = some (authority, connection)) ∧
      table.Keeps (table.getConnection authority).2 ∧
      ∀ other, (table.getConnection authority).2.connectionAt other = table.connectionAt other := by
  unfold getConnection
  split
  · rename_i mem
    refine ⟨?_, fun ref key connection found => ⟨connection, found⟩, fun _ => rfl⟩
    have key_eq := List.getElem?_idxOf mem
    rw [authorities, List.getElem?_map, Option.map_eq_some_iff] at key_eq
    obtain ⟨⟨key, connection⟩, found, rfl⟩ := key_eq
    exact ⟨connection, found⟩
  · rename_i absent
    refine ⟨⟨.unused authority, by simp⟩, fun ref key connection found => ?_, fun other => ?_⟩
    · obtain ⟨inside, -⟩ := List.getElem?_eq_some_iff.mp found
      exact ⟨connection, by rw [List.getElem?_append_left inside, found]⟩
    · by_cases there : other ∈ table.authorities
      · obtain ⟨ref, connection, found⟩ := exists_ref_of_mem there
        obtain ⟨inside, -⟩ := List.getElem?_eq_some_iff.mp found
        have kept : (table.connections ++ [(authority, .unused authority)])[ref]? =
            some (other, connection) := by
          rw [List.getElem?_append_left inside, found]
        rw [connectionAt_eq found]
        exact connectionAt_eq kept
      · rw [connectionAt_of_absent there]
        by_cases same : other = authority
        · subst same
          have created :
              (table.connections ++ [(other, .unused other)])[table.connections.length]? =
                some (other, .unused other) := by
            simp
          exact connectionAt_eq created
        · refine connectionAt_of_absent ?_
          simpa [authorities, same] using there

theorem set_spec (connection' : Connection)
    (found : table.connections[ref]? = some (authority, connection)) :
    table.Keeps (table.set ref connection') ∧
      (table.set ref connection').connectionAt authority = connection' ∧
      ∀ other, other ≠ authority →
        (table.set ref connection').connectionAt other = table.connectionAt other := by
  have changed : (table.set ref connection').connections[ref]? = some (authority, connection') := by
    simp [set, found]
  have unchanged : ∀ other, other ≠ ref →
      (table.set ref connection').connections[other]? = table.connections[other]? :=
    fun other differs => List.getElem?_modify_ne _ _ differs.symm
  refine ⟨fun ref' key connection'' found' => ?_, connectionAt_eq changed, fun other differs => ?_⟩
  · by_cases same : ref' = ref
    · subst same
      obtain ⟨rfl, -⟩ := Prod.mk.inj (Option.some.inj (found.symm.trans found'))
      exact ⟨connection', changed⟩
    · exact ⟨connection'', by rw [unchanged ref' same, found']⟩
  · by_cases there : other ∈ table.authorities
    · obtain ⟨ref', connection'', found'⟩ := exists_ref_of_mem there
      have differs' : ref' ≠ ref := by
        rintro rfl
        obtain ⟨rfl, -⟩ := Prod.mk.inj (Option.some.inj (found.symm.trans found'))
        exact differs rfl
      rw [connectionAt_eq found']
      exact connectionAt_eq (by rw [unchanged ref' differs', found'])
    · rw [connectionAt_of_absent there]
      refine connectionAt_of_absent ?_
      rwa [authorities, set, map_fst_modify]

end ConnectionTable

/-- A call of `Execute` or a list stream, with the connection that it has looked up. -/
structure Caller where
  authority : Text
  ref : Option Nat
  process : Process
  deriving DecidableEq, Repr

/-- One step of a caller. -/
inductive CallerAction
  | getConnection
  | act (action : ConnectionAction)
  deriving DecidableEq, Repr

namespace Caller

/-- What is about to be done with a URL. -/
def start (url : Text) (program : Program) : Caller where
  authority := (parseHdfsPath url).1
  ref := none
  process := .start program

/-- The look-up, and then the steps on the connection that it has referred to. -/
def step (table : ConnectionTable) (caller : Caller) :
    CallerAction → Option (Caller × ConnectionTable × List ConnectionEvent)
  | .getConnection =>
      match caller.ref with
      | none =>
          let (ref, table) := table.getConnection caller.authority
          some ({ caller with ref := some ref }, table, [])
      | some _ => none
  | .act action => do
      let ref ← caller.ref
      let (_, connection) ← table.connections[ref]?
      let (process, connection, logged) ← caller.process.step connection action
      some ({ caller with process }, table.set ref connection, logged)

/-- The caller refers to the connection of its authority. -/
def Refers (table : ConnectionTable) (caller : Caller) : Prop :=
  ∀ ref, caller.ref = some ref → ∃ connection,
    table.connections[ref]? = some (caller.authority, connection)

theorem Refers.of_keeps {table table' : ConnectionTable} {caller : Caller}
    (refers : caller.Refers table) (keeps : table.Keeps table') : caller.Refers table' := by
  intro ref ref_eq
  obtain ⟨connection, found⟩ := refers ref ref_eq
  exact keeps ref _ connection found

section Step

variable {table table' : ConnectionTable} {caller caller' : Caller} {action : CallerAction}
  {logged : List ConnectionEvent}

/-- What a step of a caller does, to the connection of its authority and to the others. -/
structure Stepped (table : ConnectionTable) (caller caller' : Caller) (table' : ConnectionTable)
    (logged : List ConnectionEvent) : Prop where
  authority_eq : caller'.authority = caller.authority
  keeps : table.Keeps table'
  refers : caller'.Refers table'
  others : ∀ authority, authority ≠ caller.authority →
    table'.connectionAt authority = table.connectionAt authority
  own : (table'.connectionAt caller.authority = table.connectionAt caller.authority ∧
      caller'.process = caller.process ∧ logged = []) ∨
    ∃ action, caller.process.step (table.connectionAt caller.authority) action =
      some (caller'.process, table'.connectionAt caller.authority, logged)

theorem stepped (refers : caller.Refers table)
    (taken : caller.step table action = some (caller', table', logged)) :
    Stepped table caller caller' table' logged := by
  cases action with
  | getConnection =>
      cases ref_eq : caller.ref with
      | some ref => simp [step, ref_eq] at taken
      | none =>
          obtain ⟨found, keeps, same⟩ := table.getConnection_spec caller.authority
          simp only [step, ref_eq, Option.some.injEq, Prod.mk.injEq] at taken
          obtain ⟨rfl, rfl, rfl⟩ := taken
          refine ⟨rfl, keeps, ?_, fun authority _ => same authority, .inl ⟨same _, rfl, rfl⟩⟩
          rintro ref ⟨⟩
          exact found
  | act action =>
      cases ref_eq : caller.ref with
      | none => simp [step, ref_eq] at taken
      | some ref =>
          obtain ⟨connection, found⟩ := refers ref ref_eq
          simp only [step, ref_eq, found, Option.bind_eq_bind, Option.bind_some,
            Option.bind_eq_some_iff] at taken
          obtain ⟨⟨process, connection', logged'⟩, ran, same⟩ := taken
          obtain ⟨rfl, rfl, rfl⟩ := by simpa using same
          obtain ⟨keeps, changed, others⟩ := ConnectionTable.set_spec connection' found
          refine ⟨rfl, keeps, ?_, others, .inr ⟨action, ?_⟩⟩
          · simpa [Refers, ref_eq] using refers.of_keeps keeps
          · rw [changed, ConnectionTable.connectionAt_eq found]
            exact ran

end Step

end Caller

/-! ## A file system in use -/

/-- Callers that share the table. -/
abbrev CallerSystem (ι : Type*) :=
  Interleaving.System ι ConnectionTable Caller ConnectionEvent

section Runs

variable {ι : Type*} [DecidableEq ι] {calls : ι → Text × Program} {system : CallerSystem ι}

/-- Some caller takes a step. -/
abbrev CallerSystem.Step (system system' : CallerSystem ι) : Prop :=
  Interleaving.System.Step Caller.step system system'

omit [DecidableEq ι] in
/-- Calls with their URLs, about to begin on a new file system. -/
def CallerSystem.start (calls : ι → Text × Program) : CallerSystem ι :=
  Interleaving.System.start .empty fun i => .start (calls i).1 (calls i).2

/-- The calls on an authority. -/
def IsCallOn (calls : ι → Text × Program) (authority : Text) (i : ι) : Prop :=
  (parseHdfsPath (calls i).1).1 = authority

instance (authority : Text) : DecidablePred (IsCallOn calls authority) :=
  fun i => inferInstanceAs (Decidable ((parseHdfsPath (calls i).1).1 = authority))

omit [DecidableEq ι] in
/-- The part of the file system that is about one authority. -/
def CallerSystem.on (calls : ι → Text × Program) (system : CallerSystem ι) (authority : Text) :
    ConnectionSystem {i // IsCallOn calls authority i} :=
  system.restrict (IsCallOn calls authority) (·.connectionAt authority) Caller.process

omit [DecidableEq ι] in
/-- Every caller works on its authority. -/
def CallerSystem.Settled (calls : ι → Text × Program) (system : CallerSystem ι) : Prop :=
  ∀ i, (system.processes i).authority = (parseHdfsPath (calls i).1).1 ∧
    (system.processes i).Refers system.shared

theorem CallerSystem.Settled.step {system' : CallerSystem ι} (settled : system.Settled calls)
    (stepped : CallerSystem.Step system system') : system'.Settled calls := by
  obtain ⟨i, action, caller, table, logged, taken, rfl⟩ := System.step_cases stepped
  intro j
  obtain ⟨authority_eq, refers⟩ := settled j
  have done := Caller.stepped (settled i).2 taken
  by_cases own : j = i
  · subst own
    rw [System.advance_processes_self]
    exact ⟨done.authority_eq.trans authority_eq, done.refers⟩
  · rw [System.advance_processes_other _ _ _ _ _ own]
    exact ⟨authority_eq, refers.of_keeps done.keeps⟩

omit [DecidableEq ι] in
theorem CallerSystem.settled_start : (CallerSystem.start calls).Settled calls :=
  fun i => ⟨rfl, by rintro ref ⟨⟩⟩

/-- What the file system does on one authority is what its connection does alone. -/
theorem CallerSystem.reach_on (reach : Relation.ReflTransGen CallerSystem.Step
    (CallerSystem.start calls) system) (authority : Text) :
    Relation.ReflTransGen ConnectionSystem.Step
      (ConnectionSystem.start authority fun i : {i // IsCallOn calls authority i} => (calls i).2)
      (system.on calls authority) := by
  have reach : Relation.ReflTransGen (System.Step Caller.step)
      (System.start .empty fun i => Caller.start (calls i).1 (calls i).2) system := reach
  change Relation.ReflTransGen (System.Step Process.step)
    (System.start (ConnectionTable.empty.connectionAt authority)
      fun i : {i // IsCallOn calls authority i} => (Caller.start (calls i).1 (calls i).2).process)
    (system.restrict (IsCallOn calls authority) (·.connectionAt authority) Caller.process)
  refine System.reach_restrict reach CallerSystem.settled_start
    (fun settled stepped => settled.step stepped) ?_ ?_
  · intro system i action caller table logged settled outside taken
    refine (Caller.stepped (settled i).2 taken).others authority fun same => outside ?_
    rw [IsCallOn, same, (settled i).1]
  · intro system i action caller table logged settled inside taken
    have same : (system.processes i).authority = authority := (settled i).1.trans inside
    have own := (Caller.stepped (settled i).2 taken).own
    rwa [same] at own

/-- In every interleaving the references are stable: a caller works on the connection of its
authority, and what happens there is a run of that connection with the calls on it alone, whatever
the calls on other authorities do.  A call that has returned ends as it does on its own, where it
meets the same answers. -/
theorem CallerSystem.isolates (reach : Relation.ReflTransGen CallerSystem.Step
    (CallerSystem.start calls) system) :
    (∀ i ref, (system.processes i).ref = some ref → ∃ connection,
      system.shared.connections[ref]? = some ((parseHdfsPath (calls i).1).1, connection)) ∧
    (∀ authority, Relation.ReflTransGen ConnectionSystem.Step
      (ConnectionSystem.start authority fun i : {i // IsCallOn calls authority i} => (calls i).2)
      (system.on calls authority)) ∧
    ∀ (i : ι) (e : Execution), (system.processes i).process = .execution e →
      e.phase = .returned → ∀ {σ : Type} (get : Nat → Except Text ClientId)
        (op : Nat → ClientId → σ → CallOutcome × σ) (s : σ),
        (∀ n client outcome,
          (runs ((system.on calls (parseHdfsPath (calls i).1).1).eventsOf ⟨i, rfl⟩))[n]? =
              some (client, outcome) →
            get n = .ok client ∧ ∀ s, (op n client s).1 = outcome) →
        (execute get op 0 s).1 = .returned e.status := by
  refine ⟨fun i => ?_, CallerSystem.reach_on reach,
    fun i e process_eq returned σ get op s answers => ?_⟩
  · have settled : system.Settled calls :=
      @Relation.invariant_of_step _ _ (CallerSystem.Settled calls) _ _
        (fun settled stepped => settled.step stepped) reach CallerSystem.settled_start
    obtain ⟨authority_eq, refers⟩ := settled i
    exact authority_eq ▸ refers
  · have alone : (system.on calls (parseHdfsPath (calls i).1).1).processes ⟨i, rfl⟩ =
        .execution e := process_eq
    exact execute_eq_status (CallerSystem.reach_on reach _) alone returned answers

end Runs

/-- Every client that was connected is in the slot, or an `Invalidate` has removed it. -/
def Accounted (connection : Connection) (events : List ConnectionEvent) : Prop :=
  ∀ client < connection.connects,
    connection.client = some client ∨ .invalidated (some client) ∈ events

theorem Connection.Moved.accounted {connection connection' : Connection}
    {logged events : List ConnectionEvent} (moved : connection.Moved connection' logged)
    (accounted : Accounted connection events) : Accounted connection' (events ++ logged) := by
  cases moved with
  | kept quiet =>
      exact fun client older => (accounted client older).imp_right (List.mem_append_left _)
  | got got =>
      rcases Connection.get_ok got with ⟨-, rfl⟩ | ⟨empty, rfl, slot, connects_eq⟩
      · exact fun client older => (accounted client older).imp_right (List.mem_append_left _)
      · intro client older
        rw [connects_eq] at older
        rcases Nat.lt_succ_iff_lt_or_eq.mp older with before | rfl
        · rcases accounted client before with current | removed
          · simp [empty] at current
          · exact .inr (List.mem_append_left _ removed)
        · exact .inl slot
  | invalidated stale =>
      intro client older
      have connects_eq : (connection.invalidate stale).connects = connection.connects := by
        rw [Connection.invalidate, apply_ite Connection.connects, ite_self]
      rcases accounted client (connects_eq ▸ older) with current | removed
      · rw [Connection.client_invalidate]
        by_cases same : connection.client = stale
        · refine .inr (List.mem_append_right _ ?_)
          simp [invalidatedEvent, Connection.client_invalidate, same, ← current]
        · exact .inl (by rw [if_neg same, current])
      · exact .inr (List.mem_append_left _ removed)

section Reconnects

variable {ι : Type*} [DecidableEq ι]

/-- A client leaves the slot only after one of the processes has lost it. -/
theorem ConnectionSystem.exists_lost {authority : Text} {programs : ι → Program}
    {system : ConnectionSystem ι} {client : ClientId}
    (reach : Relation.ReflTransGen ConnectionSystem.Step
      (ConnectionSystem.start authority programs) system)
    (older : client < system.shared.connects) (replaced : system.shared.client ≠ some client) :
    ∃ i failure, failure.status.isConnection = true ∧
      (i, .ran client (.error failure)) ∈ system.log := by
  have initially : Accounted (Connection.unused authority) [] :=
    fun client older => absurd older (Nat.not_lt_zero client)
  have accounted : Accounted system.shared system.events := by
    have reach : Relation.ReflTransGen (System.Step Process.step)
        (System.start (Connection.unused authority) fun i => Process.start (programs i)) system :=
      reach
    refine System.shared_invariant reach (fun accounted taken => ?_) initially
    exact (Process.moved taken).accounted accounted
  obtain ⟨i, removed⟩ := System.mem_events.mp ((accounted client older).resolve_left replaced)
  obtain ⟨front, back, split⟩ := List.append_of_mem (System.mem_eventsOf.mpr removed)
  obtain ⟨failure, lost, last⟩ := (Process.invariant_of_reach reach i).1 front client back split
  refine ⟨i, failure, lost, System.mem_eventsOf.mp ?_⟩
  rw [split]
  exact List.mem_append_left _ (List.mem_of_getLast? last)

variable {calls : ι → Text × Program} {system : CallerSystem ι}

/-- In every interleaving, a client of an authority is replaced only after a call on that very
authority has failed on the connection, on that very client: failures elsewhere cause no
reconnects, and any number of failures on one client cause one. -/
theorem CallerSystem.lost_of_replaced {authority : Text} {client : ClientId}
    (reach : Relation.ReflTransGen CallerSystem.Step (CallerSystem.start calls) system)
    (older : client < (system.shared.connectionAt authority).connects)
    (replaced : (system.shared.connectionAt authority).client ≠ some client) :
    ∃ i failure, (parseHdfsPath (calls i).1).1 = authority ∧
      failure.status.isConnection = true ∧ (i, .ran client (.error failure)) ∈ system.log := by
  obtain ⟨i, failure, lost, ran⟩ :=
    ConnectionSystem.exists_lost (CallerSystem.reach_on reach authority) older replaced
  exact ⟨i, failure, i.2, lost, (System.mem_log_restrict _ _ _).mp ran⟩

end Reconnects

/-- Two calls on one NameNode, one on another. -/
inductive SampleCaller
  | losing
  | elsewhere
  | later
  deriving DecidableEq, Repr

def twoAuthorities : SampleCaller → Text × Program
  | .losing => ("hdfs://a/x".toList, .execute .other)
  | .elsewhere => ("hdfs://b/y".toList, .execute .other)
  | .later => ("hdfs://a/z".toList, .list)

/-- The first NameNode loses its client, the other keeps its own. -/
def twoAuthoritiesTurns : List (SampleCaller × CallerAction) :=
  [(.losing, .getConnection), (.elsewhere, .getConnection), (.losing, .act (.get (.ok ()))),
    (.elsewhere, .act (.get (.ok ()))), (.losing, .act (.run (.error lostFailure))),
    (.losing, .act .invalidate), (.later, .getConnection), (.later, .act (.get (.ok ()))),
    (.elsewhere, .act (.run (.ok ())))]

theorem exists_twoAuthorities :
    ∃ system : CallerSystem SampleCaller,
      twoAuthoritiesTurns.foldlM (System.perform Caller.step) (CallerSystem.start twoAuthorities) =
        some system ∧
      (system.shared.connectionAt "hdfs://a".toList).client = some 1 ∧
      1 < (system.shared.connectionAt "hdfs://a".toList).connects ∧
      (system.shared.connectionAt "hdfs://b".toList).client = some 0 :=
  ⟨_, rfl, rfl, by decide, rfl⟩

/-- Each NameNode has a run of its own. -/
theorem CallerSystem.isolates_twoAuthorities :
    ∃ system : CallerSystem SampleCaller,
      (system.shared.connectionAt "hdfs://b".toList).client = some 0 ∧
      Relation.ReflTransGen ConnectionSystem.Step
        (ConnectionSystem.start "hdfs://b".toList
          fun i : {i // IsCallOn twoAuthorities "hdfs://b".toList i} => (twoAuthorities i).2)
        (system.on twoAuthorities "hdfs://b".toList) := by
  obtain ⟨system, run, -, -, kept⟩ := exists_twoAuthorities
  have reach : Relation.ReflTransGen CallerSystem.Step (CallerSystem.start twoAuthorities) system :=
    Relation.reach_of_foldlM (fun performed => ⟨_, performed⟩) run
  exact ⟨system, kept, (CallerSystem.isolates reach).2.1 _⟩

/-- The first client of the first NameNode was lost by a call there. -/
theorem CallerSystem.lost_of_replaced_twoAuthorities :
    ∃ (system : CallerSystem SampleCaller) (i : SampleCaller) (failure : Failure),
      (parseHdfsPath (twoAuthorities i).1).1 = "hdfs://a".toList ∧
      (i, .ran 0 (.error failure)) ∈ system.log := by
  obtain ⟨system, run, current, connects, -⟩ := exists_twoAuthorities
  have reach : Relation.ReflTransGen CallerSystem.Step (CallerSystem.start twoAuthorities) system :=
    Relation.reach_of_foldlM (fun performed => ⟨_, performed⟩) run
  have replaced : (system.shared.connectionAt "hdfs://a".toList).client ≠ some 0 := by
    rw [current]
    decide
  obtain ⟨i, failure, on_it, -, ran⟩ :=
    CallerSystem.lost_of_replaced reach (Nat.zero_lt_of_lt connects) replaced
  exact ⟨system, i, failure, on_it, ran⟩

end DuckdbHdfs
