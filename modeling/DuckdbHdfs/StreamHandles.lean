import DuckdbHdfs.ListStream

/-!
# The handles of a list stream

What any number of calls of `Next` and the destruction of the stream do with the bridge streams
they open.  Every stream is freed exactly once and never used afterwards; the one thing that can
go wrong is a further call when a failed restart has left the object without a stream.
-/

namespace DuckdbHdfs

/-- The bridge stream a call of the bridge is passed. -/
def ListEvent.passed : ListEvent → Option Nat
  | .batch stream _ => some stream
  | .failed stream _ => some stream
  | .freed stream => some stream
  | _ => none

/-- The trace opens the stream. -/
def Opens (trace : List ListEvent) (stream : Nat) : Prop :=
  ∃ client request, .opened stream client request ∈ trace

/-- Whatever is passed to the bridge has been opened before and not been freed. -/
def LiveUses (trace : List ListEvent) : Prop :=
  ∀ front event back stream, trace = front ++ event :: back → event.passed = some stream →
    Opens front stream ∧ .freed stream ∉ front

/-- What must hold of the bridge's streams once the object is destroyed. -/
structure HandlesKept (results : List NextResult) (trace : List ListEvent) : Prop where
  /-- No call is made without a stream. -/
  never_null : .undefined ∉ results
  live : LiveUses trace
  freed_once : ∀ stream, Opens trace stream → trace.count (.freed stream) = 1

namespace HdfsListStream

/-- Call `Next` any number of times, whatever it returns or throws. -/
def nextAll (bridge : ListBridge) : List Nat → HdfsListStream → List NextResult × HdfsListStream
  | [], s => ([], s)
  | maxEntries :: rest, s =>
      let (result, s) := s.next bridge maxEntries
      let (results, s) := nextAll bridge rest s
      (result :: results, s)

/-- The destructor. -/
def destroy (s : HdfsListStream) : HdfsListStream :=
  match s.handle with
  | some stream => { s with handle := none, trace := s.trace ++ [.freed stream] }
  | none => s

/-- The call drops its stream and restarts the walk. -/
def Restarts (bridge : ListBridge) (s : HdfsListStream) (maxEntries : Nat) : Prop :=
  ∃ stream e, s.handle = some stream ∧
    bridge.nextBatch stream s.calls (max (castInt32 maxEntries) 1).toNat = .error e ∧
      classify e = .connection ∧ s.emittedAny = false ∧ s.retried = false

/-- Opening the next stream fails: `Get` throws, or the pattern of a glob is refused. -/
def OpenFails (bridge : ListBridge) (s : HdfsListStream) : Prop :=
  (∃ message, bridge.get s.connects = .error message) ∨
    (s.glob = true ∧ ∃ e, bridge.globStreamOpen s.streams = .error e)

/-- The call restarts the walk, and the reopening fails. -/
def ReopenFails (bridge : ListBridge) (s : HdfsListStream) (maxEntries : Nat) : Prop :=
  s.Restarts bridge maxEntries ∧ s.OpenFails bridge

end HdfsListStream

section Trace

variable {trace : List ListEvent} {event : ListEvent} {stream other : Nat}

theorem opens_concat : Opens (trace ++ [event]) stream ↔
    Opens trace stream ∨ ∃ client request, event = .opened stream client request := by
  simp only [Opens, List.mem_append, List.mem_singleton, exists_or, eq_comm]

theorem liveUses_concat (live : LiveUses trace)
    (last : ∀ stream, event.passed = some stream → Opens trace stream ∧ .freed stream ∉ trace) :
    LiveUses (trace ++ [event]) := by
  intro front used back stream split passed
  rcases List.append_eq_append_iff.mp split with ⟨middle, front_eq, rest⟩ | ⟨middle, trace_eq, rest⟩
  · cases middle with
    | nil =>
        obtain ⟨rfl, -⟩ : event = used ∧ _ := by simpa using rest
        obtain rfl : front = trace := by simpa using front_eq
        exact last stream passed
    | cons first middle => simp at rest
  · cases middle with
    | nil =>
        obtain ⟨rfl, -⟩ : used = event ∧ _ := by simpa using rest
        obtain rfl : trace = front := by simpa using trace_eq
        exact last stream passed
    | cons first middle =>
        obtain ⟨rfl, -⟩ : used = first ∧ _ := by simpa using rest
        exact live front used middle stream trace_eq passed

/-- The bridge streams of a trace are in order: the current one is open, and the others have been
freed once; numbers from `streams` on have not been used. -/
structure Kept (trace : List ListEvent) (handle : Option Nat) (streams : Nat) : Prop where
  live : LiveUses trace
  current : ∀ stream, handle = some stream → Opens trace stream ∧ .freed stream ∉ trace
  freed_once : ∀ stream, Opens trace stream → handle ≠ some stream →
    trace.count (.freed stream) = 1
  numbered : ∀ stream, Opens trace stream ∨ .freed stream ∈ trace → stream < streams

namespace Kept

variable {handle : Option Nat} {streams : Nat}

theorem nil : Kept [] none 0 where
  live := by
    intro front event back stream split
    simp at split
  current := by simp
  freed_once := by simp [Opens]
  numbered := by simp [Opens]

theorem used (kept : Kept trace handle streams)
    (not_opened : ∀ stream client request, event ≠ .opened stream client request)
    (not_freed : ∀ stream, event ≠ .freed stream)
    (passed : ∀ stream, event.passed = some stream → handle = some stream) :
    Kept (trace ++ [event]) handle streams := by
  have opens_iff : ∀ stream, Opens (trace ++ [event]) stream ↔ Opens trace stream := by
    intro stream
    simp [opens_concat, not_opened]
  have freed_iff : ∀ stream, .freed stream ∈ trace ++ [event] ↔ .freed stream ∈ trace := by
    intro stream
    simp [(not_freed stream).symm]
  constructor
  · exact liveUses_concat kept.live fun stream used => kept.current stream (passed stream used)
  · intro stream current
    rw [opens_iff, freed_iff]
    exact kept.current stream current
  · intro stream opens other
    rw [List.count_append, List.count_singleton, if_neg (by simpa using not_freed stream)]
    exact kept.freed_once stream ((opens_iff stream).mp opens) other
  · intro stream
    rw [opens_iff, freed_iff]
    exact kept.numbered stream

theorem freed (kept : Kept trace (some stream) streams) :
    Kept (trace ++ [.freed stream]) none streams := by
  obtain ⟨opens, not_freed⟩ := kept.current stream rfl
  have opens_iff : ∀ other, Opens (trace ++ [.freed stream]) other ↔ Opens trace other := by
    intro other
    simp [opens_concat]
  constructor
  · refine liveUses_concat kept.live fun other passed => ?_
    obtain rfl : stream = other := by simpa [ListEvent.passed] using passed
    exact ⟨opens, not_freed⟩
  · simp
  · intro other other_opens _
    rw [List.count_append, List.count_singleton]
    by_cases same : stream = other
    · subst same
      rw [List.count_eq_zero.mpr not_freed]
      simp
    · rw [if_neg (by simpa using same)]
      exact kept.freed_once other ((opens_iff other).mp other_opens) (by simpa using same)
  · intro other
    rw [opens_iff, List.mem_append, List.mem_singleton]
    rintro (other_opens | other_freed | same)
    · exact kept.numbered other (.inl other_opens)
    · exact kept.numbered other (.inr other_freed)
    · obtain rfl : other = stream := by simpa using same
      exact kept.numbered other (.inl opens)

theorem opened (kept : Kept trace none streams) (client : ClientId) (request : ListRequest) :
    Kept (trace ++ [.opened streams client request]) (some streams) (streams + 1) := by
  have fresh : .freed streams ∉ trace := fun freed =>
    absurd (kept.numbered streams (.inr freed)) (lt_irrefl _)
  have opens_iff : ∀ other, Opens (trace ++ [.opened streams client request]) other ↔
      Opens trace other ∨ streams = other := by
    intro other
    simp [opens_concat]
  constructor
  · exact liveUses_concat kept.live fun other passed => by simp [ListEvent.passed] at passed
  · intro other current
    obtain rfl : streams = other := by simpa using current
    exact ⟨(opens_iff streams).mpr (.inr rfl), by simpa using fresh⟩
  · intro other opens different
    rw [List.count_append, List.count_singleton, if_neg (by simp)]
    rcases (opens_iff other).mp opens with earlier | same
    · exact kept.freed_once other earlier (by simp)
    · exact absurd (congrArg some same) different
  · intro other
    rw [opens_iff, List.mem_append, List.mem_singleton]
    rintro ((opens | same) | freed | impossible)
    · exact Nat.lt_succ_of_lt (kept.numbered other (.inl opens))
    · omega
    · exact Nat.lt_succ_of_lt (kept.numbered other (.inr freed))
    · simp at impossible

end Kept
end Trace

namespace HdfsListStream

variable {bridge : ListBridge} {maxEntries stream : Nat} {s : HdfsListStream}

/-- The object's bridge streams are in order. -/
def Keeps (s : HdfsListStream) : Prop :=
  Kept s.trace s.handle s.streams

theorem openStream_threw_iff :
    (∃ message s', s.openStream bridge = (some message, s')) ↔ s.OpenFails bridge := by
  rw [openStream, OpenFails]
  split
  · rename_i message got
    exact iff_of_true ⟨_, _, rfl⟩ (.inl ⟨message, got⟩)
  · rename_i client got
    have connected : ¬∃ message, bridge.get s.connects = .error message := by
      rintro ⟨message, failed⟩
      rw [got] at failed
      contradiction
    rw [or_iff_right connected]
    simp only
    split
    · rename_i globs
      rw [and_iff_right globs]
      split
      · rename_i opens
        refine iff_of_false (fun ⟨_, _, threw⟩ => nomatch (Prod.mk.inj threw).1) ?_
        rintro ⟨e, refused⟩
        rw [opens] at refused
        contradiction
      · rename_i e refused
        exact iff_of_true ⟨_, _, rfl⟩ ⟨e, refused⟩
    · rename_i lists
      exact iff_of_false (fun ⟨_, _, threw⟩ => nomatch (Prod.mk.inj threw).1)
        fun refused => lists refused.1

theorem openStream_threw {message : Text} {s' : HdfsListStream}
    (threw : s.openStream bridge = (some message, s')) :
    s'.trace = s.trace ∧ s'.handle = s.handle ∧ s'.streams = s.streams := by
  unfold openStream at threw
  split at threw
  · obtain ⟨-, rfl⟩ := Prod.mk.inj threw
    exact ⟨rfl, rfl, rfl⟩
  · simp only at threw
    split at threw
    · split at threw
      · simp at threw
      · obtain ⟨-, rfl⟩ := Prod.mk.inj threw
        exact ⟨rfl, rfl, rfl⟩
    · simp at threw

theorem next_of_none (handle_eq : s.handle = none) :
    s.next bridge maxEntries = (.undefined, s) := by
  rw [next, handle_eq]

/-- A call on a stream either logs its use and keeps it, or restarts the walk. -/
theorem next_cases (bridge : ListBridge) (maxEntries : Nat) (handle_eq : s.handle = some stream) :
    (¬s.Restarts bridge maxEntries ∧ ∃ result event s',
        s.next bridge maxEntries = (result, s') ∧ result ≠ .undefined ∧
          s'.trace = s.trace ++ [event] ∧ s'.handle = s.handle ∧ s'.streams = s.streams ∧
            ((∃ batch, event = .batch stream batch) ∨ ∃ e, event = .failed stream e)) ∨
      (s.Restarts bridge maxEntries ∧ ∃ e,
        (∃ message s', (s.dropped stream e).openStream bridge = (some message, s') ∧
          s.next bridge maxEntries = (.threw message, s')) ∨
        ∃ s', (s.dropped stream e).openStream bridge = (none, s') ∧
          s.next bridge maxEntries = s'.next bridge maxEntries) := by
  rw [next, handle_eq]
  simp only
  split
  · rename_i batch reply
    refine .inl ⟨?_, _, _, _, rfl, by simp, rfl, rfl, rfl, .inl ⟨batch, rfl⟩⟩
    rintro ⟨stream', e, handle_eq', failed, -⟩
    obtain rfl : stream = stream' := by simpa [handle_eq] using handle_eq'
    simp [reply] at failed
  · rename_i e reply
    have restarts_iff : s.Restarts bridge maxEntries ↔
        classify e = .connection ∧ s.emittedAny = false ∧ s.retried = false := by
      constructor
      · rintro ⟨stream', e', handle_eq', failed, restarts⟩
        obtain rfl : stream = stream' := by simpa [handle_eq] using handle_eq'
        obtain rfl : e = e' := by simpa [reply] using failed
        exact restarts
      · exact fun restarts => ⟨stream, e, handle_eq, reply, restarts⟩
    split
    · rename_i retry
      refine .inr ⟨restarts_iff.mpr (by simpa [and_assoc] using retry), e, ?_⟩
      have dropped_eq : s.dropped stream e =
          { s with
            calls := s.calls + 1
            retried := true
            handle := none
            trace := s.trace ++ [.failed stream e] ++
              [ListEvent.freed stream, ListEvent.invalidated s.client] } := by
        simp [dropped]
      rw [dropped_eq]
      split
      · rename_i message s' reopened
        exact .inl ⟨message, s', reopened, rfl⟩
      · rename_i s' reopened
        exact .inr ⟨s', reopened, rfl⟩
    · rename_i stays
      refine .inl ⟨restarts_iff.not.mpr (by simpa [and_assoc] using stays), _, _, _, rfl, by simp,
        rfl, rfl, rfl, .inr ⟨e, rfl⟩⟩

/-- What a call may do to the bridge streams, and when it leaves the object without one. -/
structure Called (bridge : ListBridge) (maxEntries : Nat) (s : HdfsListStream)
    (after : NextResult × HdfsListStream) : Prop where
  keeps : s.Keeps → after.2.Keeps
  defined : after.1 ≠ .undefined
  lost_iff : after.2.handle = none ↔ s.ReopenFails bridge maxEntries

theorem keeps_used {event : ListEvent} {s' : HdfsListStream} (keeps : s.Keeps)
    (handle_eq : s.handle = some stream) (trace_eq : s'.trace = s.trace ++ [event])
    (same_handle : s'.handle = s.handle) (same_streams : s'.streams = s.streams)
    (used : (∃ batch, event = .batch stream batch) ∨ ∃ e, event = .failed stream e) :
    s'.Keeps := by
  rw [Keeps, trace_eq, same_handle, same_streams]
  rcases used with ⟨batch, rfl⟩ | ⟨e, rfl⟩
  · exact keeps.used (by simp) (by simp) (by simp [ListEvent.passed, handle_eq])
  · exact keeps.used (by simp) (by simp) (by simp [ListEvent.passed, handle_eq])

theorem keeps_dropped (keeps : s.Keeps) (handle_eq : s.handle = some stream) (e : HdfsError) :
    (s.dropped stream e).Keeps := by
  rw [Keeps, handle_eq] at keeps
  have failed : Kept (s.trace ++ [.failed stream e]) (some stream) s.streams :=
    keeps.used (by simp) (by simp) (by simp [ListEvent.passed])
  have invalidated : Kept (s.trace ++ [.failed stream e] ++ [.freed stream] ++
      [.invalidated s.client]) none s.streams :=
    failed.freed.used (by simp) (by simp) (by simp [ListEvent.passed])
  simpa [Keeps, dropped] using invalidated

theorem called_of_stays (handle_eq : s.handle = some stream)
    (stays : ¬s.Restarts bridge maxEntries) :
    Called bridge maxEntries s (s.next bridge maxEntries) := by
  rcases next_cases bridge maxEntries handle_eq with
    ⟨-, result, event, s', next_eq, defined, trace_eq, same_handle, same_streams, used⟩ |
    ⟨restarts, -⟩
  · rw [next_eq]
    refine ⟨fun keeps => keeps_used keeps handle_eq trace_eq same_handle same_streams used,
      defined, ?_⟩
    exact iff_of_false (by simp [same_handle, handle_eq]) fun fails => stays fails.1
  · exact absurd restarts stays

/-- Every call on a stream is accounted for: a restart calls once more, on its fresh stream. -/
theorem called_of_handle (bridge : ListBridge) (maxEntries : Nat)
    (handle_eq : s.handle = some stream) :
    Called bridge maxEntries s (s.next bridge maxEntries) := by
  rcases next_cases bridge maxEntries handle_eq with
    ⟨stays, -⟩ | ⟨restarts, e, ⟨message, s', reopened, next_eq⟩ | ⟨s', reopened, next_eq⟩⟩
  · exact called_of_stays handle_eq stays
  · -- the object is left without a stream
    have fails : (s.dropped stream e).OpenFails bridge :=
      openStream_threw_iff.mp ⟨message, s', reopened⟩
    obtain ⟨trace_eq, no_handle, streams_eq⟩ := openStream_threw reopened
    rw [next_eq]
    refine ⟨fun keeps => ?_, by simp, iff_of_true no_handle ⟨restarts, fails⟩⟩
    rw [Keeps, trace_eq, no_handle, streams_eq]
    exact keeps_dropped keeps handle_eq e
  · rcases openStream_cases bridge (s.dropped stream e) with
      ⟨message, _, threw, -⟩ | ⟨client, opens⟩
    · simp [threw] at reopened
    · obtain rfl : s' = (s.dropped stream e).opened client := by
        simpa [opens] using reopened.symm
      have succeeds : ¬s.OpenFails bridge := by
        intro fails
        have threw : (s.dropped stream e).OpenFails bridge := fails
        obtain ⟨message, s', threw⟩ := openStream_threw_iff.mpr threw
        simp [opens] at threw
      -- the walk is restarted once only
      have stays : ¬((s.dropped stream e).opened client).Restarts bridge maxEntries := by
        rintro ⟨_, _, -, -, -, -, first⟩
        simp [HdfsListStream.opened, dropped] at first
      have later := @called_of_stays bridge maxEntries s.streams _ rfl stays
      rw [next_eq]
      refine ⟨fun keeps => later.keeps ?_, later.defined, ?_⟩
      · exact (keeps_dropped keeps handle_eq e).opened client _
      · exact later.lost_iff.trans
          (iff_of_false (fun fails => stays fails.1) fun fails => succeeds fails.2)

theorem kept_destroy (keeps : s.Keeps) : Kept s.destroy.trace none s.streams := by
  unfold destroy
  cases handle_eq : s.handle with
  | none => simpa [Keeps, handle_eq] using keeps
  | some stream =>
      rw [Keeps, handle_eq] at keeps
      exact keeps.freed

theorem keeps_nextAll (bridge : ListBridge) (keeps : s.Keeps) (calls : List Nat) :
    (s.nextAll bridge calls).2.Keeps := by
  induction calls generalizing s with
  | nil => exact keeps
  | cons maxEntries calls ih =>
      refine @ih (s.next bridge maxEntries).2 ?_
      cases handle_eq : s.handle with
      | none => rwa [next_of_none handle_eq]
      | some stream => exact (called_of_handle bridge maxEntries handle_eq).keeps keeps

/-- No call is made without a stream exactly if only the last one may fail to reopen its own. -/
theorem not_undefined_iff (handle_eq : s.handle ≠ none) (calls : List Nat) :
    .undefined ∉ (s.nextAll bridge calls).1 ↔
      ∀ front maxEntries later back, calls = front ++ maxEntries :: later :: back →
        ¬(s.nextAll bridge front).2.ReopenFails bridge maxEntries := by
  induction calls generalizing s with
  | nil => simp [nextAll]
  | cons maxEntries calls ih =>
      obtain ⟨stream, handle_eq⟩ := Option.ne_none_iff_exists'.mp handle_eq
      have called := called_of_handle bridge maxEntries handle_eq
      have results_eq : (s.nextAll bridge (maxEntries :: calls)).1 =
          (s.next bridge maxEntries).1 ::
            ((s.next bridge maxEntries).2.nextAll bridge calls).1 := rfl
      rw [results_eq, List.mem_cons, not_or, and_iff_right (Ne.symm called.defined)]
      cases calls with
      | nil =>
          refine iff_of_true (by simp [nextAll]) fun front first later back split => ?_
          have lengths := congrArg List.length split
          simp at lengths
          omega
      | cons next calls =>
          by_cases lost : (s.next bridge maxEntries).2.handle = none
          · -- the next call finds no stream
            refine iff_of_false ?_ fun never => ?_
            · rw [nextAll, next_of_none lost]
              simp
            · exact never [] maxEntries next calls rfl (called.lost_iff.mp lost)
          · rw [ih lost]
            constructor
            · intro never front first later back split
              cases front with
              | nil =>
                  obtain ⟨rfl, -⟩ : maxEntries = first ∧ _ := by simpa using split
                  exact called.lost_iff.not.mp lost
              | cons head front =>
                  obtain ⟨rfl, rest⟩ : maxEntries = head ∧
                      next :: calls = front ++ first :: later :: back := by simpa using split
                  exact never front first later back rest
            · intro never front first later back split
              exact never (maxEntries :: front) first later back (by rw [split]; rfl)

theorem keeps_openUrl {glob : Bool} {url : Text} {maxParallelism : Int} {options : WalkOptions}
    (opens : openUrl bridge glob url maxParallelism options = .ok s) :
    s.Keeps ∧ s.handle ≠ none := by
  unfold openUrl at opens
  simp only at opens
  generalize created_eq : create url (parseHdfsPath url).1 (parseHdfsPath url).2 glob
    maxParallelism options = created at opens
  have start : Kept created.trace created.handle created.streams := by
    rw [← created_eq]
    exact .nil
  rcases openStream_cases bridge created with ⟨message, s', threw, -⟩ | ⟨client, opened⟩
  · rw [threw] at opens
    contradiction
  · rw [opened] at opens
    obtain rfl : created.opened client = s := Except.ok.inj opens
    have no_handle : created.handle = none := by
      rw [← created_eq]
      rfl
    rw [no_handle] at start
    exact ⟨start.opened client _, by simp [HdfsListStream.opened]⟩

/-- Over any sequence of calls, those after an exception included, and the destruction of the
object, its handles are kept exactly if no call follows one whose restart failed to reopen the
stream. -/
theorem handlesKept_iff {bridge : ListBridge} {glob : Bool} {url : Text} {maxParallelism : Int}
    {options : WalkOptions} {s : HdfsListStream}
    (opens : openUrl bridge glob url maxParallelism options = .ok s) (calls : List Nat) :
    HandlesKept (s.nextAll bridge calls).1 (s.nextAll bridge calls).2.destroy.trace ↔
      ∀ front maxEntries later back, calls = front ++ maxEntries :: later :: back →
        ¬(s.nextAll bridge front).2.ReopenFails bridge maxEntries := by
  obtain ⟨keeps, handle_ne⟩ := keeps_openUrl opens
  have kept := kept_destroy (keeps_nextAll bridge keeps calls)
  rw [← not_undefined_iff handle_ne calls]
  constructor
  · exact HandlesKept.never_null
  · intro never_null
    exact ⟨never_null, kept.live, fun stream opens => kept.freed_once stream opens (by simp)⟩

/-- A first walk that loses its connection, which is then refused. -/
def lostBridge : ListBridge where
  display _ := "connection lost".toList
  get connect := if connect = 0 then .ok connect else .error "connection refused".toList
  globStreamOpen _ := .ok ()
  nextBatch _ _ _ := .error (.dataTransferError "connection lost".toList)
  nextBatch_length := by
    intro stream call maxEntries batch reply
    cases reply

/-- The stream `openListStream` yields on it. -/
def lostStream : HdfsListStream :=
  (create "hdfs://nn/d".toList "hdfs://nn".toList "/d".toList false 1 ⟨false, true⟩).opened 0

theorem openUrl_lostStream :
    openUrl lostBridge false "hdfs://nn/d".toList 1 ⟨false, true⟩ = .ok lostStream := by
  decide +kernel

/-- The first call throws because the reconnect fails; the second one passes no stream at all. -/
theorem not_handlesKept_lost :
    openUrl lostBridge false "hdfs://nn/d".toList 1 ⟨false, true⟩ = .ok lostStream ∧
      ¬HandlesKept (lostStream.nextAll lostBridge [1, 1]).1
        (lostStream.nextAll lostBridge [1, 1]).2.destroy.trace := by
  refine ⟨openUrl_lostStream, fun kept => kept.never_null ?_⟩
  decide +kernel

/-- One call alone, before the stream is destroyed. -/
theorem handlesKept_iff_lost :
    HandlesKept (lostStream.nextAll lostBridge [1]).1
        (lostStream.nextAll lostBridge [1]).2.destroy.trace ↔
      ∀ front maxEntries later back, [1] = front ++ maxEntries :: later :: back →
        ¬(lostStream.nextAll lostBridge front).2.ReopenFails lostBridge maxEntries :=
  handlesKept_iff openUrl_lostStream [1]

end HdfsListStream

end DuckdbHdfs
