import DuckdbHdfs.ListStream

/-!
# One walk is delivered

The calls of `Next` hand out what one bridge stream delivers.  A first stream that fails on the
connection before it has delivered anything leaves nothing behind but its trace.
-/

namespace DuckdbHdfs

namespace HdfsListStream

variable {bridge : ListBridge} {maxEntries stream : Nat} {s : HdfsListStream}

/-- What has happened before the bridge stream in use could deliver anything: it is the first
one, or the first one failed on the connection and that client has been dropped. -/
inductive Prelude (request : ListRequest) : Nat → List ListEvent → Prop
  | first {client : ClientId} : Prelude request 0 [.opened 0 client request]
  | second {client client' : ClientId} {e : HdfsError} (connection : classify e = .connection) :
      Prelude request 1
        [.opened 0 client request, .failed 0 e, .freed 0, .invalidated (some client),
          .opened 1 client' request]

/-- The bridge stream in use has delivered the batches that have been handed out. -/
structure Streaming (s : HdfsListStream) (handedOut : List HdfsEntry) (stream : Nat)
    (before : List ListEvent) (batches : List (List FileStatus)) : Prop where
  prelude : Prelude s.request stream before
  trace_eq : s.trace = before ++ batches.map (.batch stream)
  handle_eq : s.handle = some stream
  streams_eq : s.streams = stream + 1
  client_eq : ∀ client, before = [.opened stream client s.request] → s.client = some client
  emitted_iff : s.emittedAny = true ↔ batches ≠ []
  retried_iff : s.retried = true ↔ stream = 1
  handedOut_eq : handedOut = batches.flatten.map (toEntry s.authority)

/-- How the last call of `Next` ends, after some entries have been handed out. -/
inductive Ended (s : HdfsListStream) (handedOut : List HdfsEntry) : NextResult → Prop
  /-- The walk of the stream in use has ended cleanly. -/
  | done {stream : Nat} {before : List ListEvent} {batches : List (List FileStatus)}
      (prelude : Prelude s.request stream before)
      (trace_eq : s.trace = before ++ batches.map (.batch stream) ++ [.batch stream []])
      (handedOut_eq : handedOut = batches.flatten.map (toEntry s.authority)) :
      Ended s handedOut (.returned false [])
  /-- The walk of the stream in use has failed. -/
  | failed {stream : Nat} {before : List ListEvent} {batches : List (List FileStatus)}
      {e : HdfsError} {message : Text} (prelude : Prelude s.request stream before)
      (trace_eq : s.trace = before ++ batches.map (.batch stream) ++ [.failed stream e])
      (handedOut_eq : handedOut = batches.flatten.map (toEntry s.authority)) :
      Ended s handedOut (.threw message)
  /-- No second stream could be opened. -/
  | lost {client : ClientId} {e : HdfsError} {message : Text}
      (connection : classify e = .connection)
      (trace_eq : s.trace = [.opened 0 client s.request, .failed 0 e, .freed 0,
        .invalidated (some client)])
      (handedOut_eq : handedOut = []) : Ended s handedOut (.threw message)

/-- What one call of `Next` achieves. -/
def Serves (s s' : HdfsListStream) (handedOut : List HdfsEntry) (result : NextResult) : Prop :=
  s'.authority = s.authority ∧
    ((∃ out stream before batches, result = .returned true out ∧ out ≠ [] ∧
        Streaming s' (handedOut ++ out) stream before batches) ∨
      Ended s' handedOut result)

variable {s' : HdfsListStream} {handedOut : List HdfsEntry} {before : List ListEvent}
  {batches : List (List FileStatus)} {result : NextResult}

end HdfsListStream

/-! ## One walk is delivered -/

/-- The entries a bridge stream has delivered, in order. -/
def delivered (stream : Nat) (trace : List ListEvent) : List FileStatus :=
  trace.flatMap fun
    | .batch sender entries => if sender = stream then entries else []
    | _ => []

/-- The entries a call hands out. -/
def NextResult.out : NextResult → List HdfsEntry
  | .returned _ out => out
  | _ => []

section Traces

variable {request : ListRequest} {stream other : Nat} {before later : List ListEvent}
  {batches : List (List FileStatus)}

namespace HdfsListStream.Prelude

end HdfsListStream.Prelude

end Traces

namespace HdfsListStream

variable {outs : List (List HdfsEntry)} {last : NextResult}

end HdfsListStream

/-- The calls on a bridge stream whose answers a trace has. -/
def asked (stream : Nat) (trace : List ListEvent) : Nat :=
  trace.countP fun
    | .batch sender _ | .failed sender _ => sender = stream
    | _ => false

/-- Batches and failures are what the bridge has answered, call by call. -/
inductive ListBridge.Answered (bridge : ListBridge) : List ListEvent → Prop
  | nil : Answered bridge []
  | batch {trace : List ListEvent} {stream maxEntries : Nat} {batch : List FileStatus}
      (before : Answered bridge trace)
      (reply : bridge.nextBatch stream (asked stream trace) maxEntries = .ok batch) :
      Answered bridge (trace ++ [.batch stream batch])
  | failed {trace : List ListEvent} {stream maxEntries : Nat} {e : HdfsError}
      (before : Answered bridge trace)
      (reply : bridge.nextBatch stream (asked stream trace) maxEntries = .error e) :
      Answered bridge (trace ++ [.failed stream e])
  | other {trace : List ListEvent} {event : ListEvent} (before : Answered bridge trace)
      (quiet : ∀ stream, asked stream [event] = 0) : Answered bridge (trace ++ [event])

namespace HdfsListStream

variable {bridge : ListBridge} {maxEntries : Nat} {s s' : HdfsListStream} {result : NextResult}

@[simp]
theorem asked_append (stream : Nat) (front back : List ListEvent) :
    asked stream (front ++ back) = asked stream front + asked stream back :=
  List.countP_append

/-- The trace has the answers of the bridge, and the stream counts the calls on the bridge stream
that it uses. -/
structure Answered (bridge : ListBridge) (s : HdfsListStream) : Prop where
  answered : bridge.Answered s.trace
  current : ∀ stream, s.handle = some stream →
    stream < s.streams ∧ s.calls = asked stream s.trace
  later : ∀ stream, s.streams ≤ stream → asked stream s.trace = 0

theorem Answered.answer {event : ListEvent} {stream : Nat} (answered : s.Answered bridge)
    (handle_eq : s.handle = some stream) (calls_eq : s'.calls = s.calls + 1)
    (trace_eq : s'.trace = s.trace ++ [event]) (same_handle : s'.handle = s.handle)
    (same_streams : s'.streams = s.streams) (told : bridge.Answered s'.trace)
    (asks : ∀ other, asked other [event] = if other = stream then 1 else 0) :
    s'.Answered bridge := by
  obtain ⟨opened, calls⟩ := answered.current stream handle_eq
  refine ⟨told, fun other used => ?_, fun other unopened => ?_⟩
  · obtain rfl : stream = other :=
      Option.some.inj (handle_eq.symm.trans (same_handle.symm.trans used))
    rw [same_streams, calls_eq, trace_eq, asked_append, asks, if_pos rfl, calls]
    exact ⟨opened, rfl⟩
  · rw [same_streams] at unopened
    rw [trace_eq, asked_append, asks, if_neg (by omega), answered.later other unopened]

theorem answered_openStream {message : Option Text} (answered : bridge.Answered s.trace)
    (later : ∀ stream, s.streams ≤ stream → asked stream s.trace = 0) (unused : s.handle = none)
    (opened : s.openStream bridge = (message, s')) : s'.Answered bridge := by
  have unopened : ∀ connects client,
      ({ s with connects := connects, client := client } : HdfsListStream).Answered bridge :=
    fun _ _ => ⟨answered, by simp [unused], later⟩
  have opens : ∀ client, (s.opened client).Answered bridge := by
    intro client
    have quiet : ∀ stream, asked stream [.opened s.streams client s.request] = 0 := fun _ => rfl
    refine ⟨.other answered quiet, ?_, fun stream after => ?_⟩
    · rintro stream same
      obtain rfl : s.streams = stream := Option.some.inj same
      refine ⟨Nat.lt_succ_self _, ?_⟩
      change 0 = asked s.streams (s.trace ++ [_])
      rw [asked_append, later _ le_rfl, quiet]
    · change asked stream (s.trace ++ [_]) = 0
      rw [asked_append, later _ (Nat.le_of_succ_le after), quiet]
  rw [HdfsListStream.openStream] at opened
  split at opened
  · obtain ⟨-, rfl⟩ := Prod.mk.inj opened
    exact unopened _ _
  · simp only at opened
    split at opened
    · split at opened
      · obtain ⟨-, rfl⟩ := Prod.mk.inj opened
        exact opens _
      · obtain ⟨-, rfl⟩ := Prod.mk.inj opened
        exact unopened _ _
    · obtain ⟨-, rfl⟩ := Prod.mk.inj opened
      exact opens _

theorem Answered.dropped {stream : Nat} (answered : s.Answered bridge)
    (trace_eq : s'.trace = s.trace ++ [.freed stream, .invalidated s.client])
    (same_streams : s'.streams = s.streams) :
    bridge.Answered s'.trace ∧ ∀ other, s'.streams ≤ other → asked other s'.trace = 0 := by
  have quiet : ∀ other, asked other [.freed stream] = 0 ∧
      asked other [.invalidated s.client] = 0 := fun _ => ⟨rfl, rfl⟩
  rw [List.append_cons] at trace_eq
  rw [trace_eq, same_streams]
  refine ⟨.other (.other answered.answered fun other => (quiet other).1) fun other =>
    (quiet other).2, fun other unopened => ?_⟩
  rw [asked_append, asked_append, answered.later other unopened, (quiet other).1, (quiet other).2]

theorem answered_next (answered : s.Answered bridge)
    (ran : s.next bridge maxEntries = (result, s')) : s'.Answered bridge := by
  have answer_failed : ∀ {s failed : HdfsListStream} {stream maxEntries : Nat} {e : HdfsError},
      s.Answered bridge → s.handle = some stream →
        bridge.nextBatch stream s.calls maxEntries = .error e →
        failed = { s with calls := s.calls + 1, trace := s.trace ++ [.failed stream e] } →
        failed.Answered bridge := by
    rintro s failed stream maxEntries e answered handle_eq reply rfl
    rw [(answered.current stream handle_eq).2] at reply
    exact answered.answer handle_eq rfl rfl rfl rfl (.failed answered.answered reply)
      fun other => by simp [asked, eq_comm]
  fun_induction next bridge maxEntries s with
  | case1 =>
      obtain ⟨-, rfl⟩ := Prod.mk.inj ran
      exact answered
  | case2 s stream handle_eq batch reply count out =>
      obtain ⟨-, rfl⟩ := Prod.mk.inj ran
      rw [(answered.current stream handle_eq).2] at reply
      exact answered.answer handle_eq rfl rfl rfl rfl (.batch answered.answered reply)
        fun other => by simp [asked, eq_comm]
  | case3 s stream handle_eq e reply context status failed retry invalidated message s'' reopened =>
      obtain ⟨-, rfl⟩ := Prod.mk.inj ran
      have failed_answered := answer_failed answered handle_eq reply rfl
      obtain ⟨told, later⟩ := @Answered.dropped _ _ invalidated _ failed_answered rfl rfl
      exact answered_openStream told later rfl reopened
  | case4 s stream handle_eq e reply context status failed retry invalidated s'' reopened ih =>
      have failed_answered := answer_failed answered handle_eq reply rfl
      obtain ⟨told, later⟩ := @Answered.dropped _ _ invalidated _ failed_answered rfl rfl
      exact ih (answered_openStream told later rfl reopened) ran
  | case5 s stream handle_eq e reply =>
      obtain ⟨-, rfl⟩ := Prod.mk.inj ran
      exact answer_failed answered handle_eq reply rfl

theorem answered_run (answered : s.Answered bridge) (maxes : List Nat) :
    (s.run bridge maxes).2.Answered bridge := by
  induction maxes generalizing s with
  | nil => exact answered
  | cons maxEntries maxes ih =>
      rcases ran : s.next bridge maxEntries with ⟨result, s'⟩
      have stepped := answered_next answered ran
      rw [run, ran]
      cases result with
      | returned more out =>
          cases more with
          | true => exact ih stepped
          | false => exact stepped
      | threw message => exact stepped
      | undefined => exact stepped

/-- What the calls of `Next` are delivered is what the bridge has answered to them. -/
theorem answered_of_openUrl {glob : Bool} {url : Text} {maxParallelism : Int}
    {options : WalkOptions} (opened : openUrl bridge glob url maxParallelism options = .ok s)
    (maxes : List Nat) : bridge.Answered (s.run bridge maxes).2.trace := by
  refine (answered_run ?_ maxes).answered
  rw [openUrl] at opened
  simp only at opened
  split at opened
  · rename_i s'' opens
    obtain rfl := Except.ok.inj opened
    exact answered_openStream .nil (fun _ _ => rfl) rfl opens
  · cases opened

end HdfsListStream

end DuckdbHdfs
