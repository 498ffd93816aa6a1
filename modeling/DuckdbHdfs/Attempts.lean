import DuckdbHdfs.FileHandle
import DuckdbHdfs.Library.Repetition
import DuckdbHdfs.Mutations

/-!
# Attempts at a mutating call

A call of `Execute` makes at most two attempts.  On a namespace that no other client changes, each
of its mutating requests settles: it takes effect once, however often it arrives.
-/

namespace DuckdbHdfs

section Attempts

variable {σ : Type*} {get : Nat → Except Text ClientId} {op : Nat → ClientId → σ → CallOutcome × σ}

/-- The ways a call of `Execute` can go. -/
inductive Executes (get : Nat → Except Text ClientId) (op : Nat → ClientId → σ → CallOutcome × σ)
    (s : σ) : Executed → σ → Prop
  | unconnected {message : Text} (refused : get 0 = .error message) :
      Executes get op s (.threw message) s
  | once {client : ClientId} {outcome : CallOutcome} {s' : σ} (got : get 0 = .ok client)
      (ran : op 0 client s = (outcome, s')) (final : (statusOf outcome).isConnection = false) :
      Executes get op s (.returned (statusOf outcome)) s'
  | unreconnected {client : ClientId} {failure : Failure} {s' : σ} {message : Text}
      (got : get 0 = .ok client) (ran : op 0 client s = (.error failure, s'))
      (refused : get 1 = .error message) : Executes get op s (.threw message) s'
  | twice {client client' : ClientId} {failure : Failure} {outcome : CallOutcome} {s' s'' : σ}
      (got : get 0 = .ok client) (ran : op 0 client s = (.error failure, s'))
      (connection_lost : failure.status.isConnection = true) (got' : get 1 = .ok client')
      (ran' : op 1 client' s' = (outcome, s'')) :
      Executes get op s (.returned (statusOf outcome)) s''

theorem execute_of_unconnected {message : Text} {attempt : Nat} {s : σ}
    (refused : get attempt = .error message) :
    execute get op attempt s = (.threw message, s) := by
  rw [execute, refused]

theorem executes (get : Nat → Except Text ClientId) (op : Nat → ClientId → σ → CallOutcome × σ)
    (s : σ) : Executes get op s (execute get op 0 s).1 (execute get op 0 s).2 := by
  cases got : get 0 with
  | error message =>
      rw [execute_of_unconnected got]
      exact .unconnected got
  | ok client =>
      rcases ran : op 0 client s with ⟨outcome, s'⟩
      cases lost : (statusOf outcome).isConnection with
      | false =>
          rw [execute_of_final got ran (by simp [lost])]
          exact .once got ran lost
      | true =>
          cases outcome with
          | ok _ => cases lost
          | error failure =>
              rw [execute_of_lost got ran lost]
              cases got' : get 1 with
              | error message =>
                  rw [execute_of_unconnected got']
                  exact .unreconnected got ran got'
              | ok client' =>
                  rcases ran' : op 1 client' s' with ⟨outcome, s''⟩
                  rw [execute_of_final got' ran' (by simp)]
                  exact .twice got ran lost got' ran'

end Attempts

/-- A namespace server that changes nothing when it refuses, and that tells what its paths are. -/
structure AnsweringServer (σ : Type*) extends NamespaceServer σ where
  /-- The library's text of an error. -/
  display : HdfsError → Text
  getFileInfo : Text → σ → Except HdfsError FileStatus
  /-- Open a file for reading. -/
  read : Text → σ → Except HdfsError FileReader
  mkdirs_refused : ∀ {path permission createParent s e s'},
    mkdirs path permission createParent s = (.error e, s') → s' = s
  delete_refused : ∀ {path recursive s reply s'},
    delete path recursive s = (reply, s') → reply ≠ .ok true → s' = s
  rename_refused : ∀ {src dst overwrite s e s'},
    rename src dst overwrite s = (.error e, s') → s' = s
  missing_of_notFound : ∀ {path s e}, getFileInfo path s = .error e → classify e = .notFound →
    missing path s
  present_of_ok : ∀ {path s status}, getFileInfo path s = .ok status → ¬missing path s
  isdir_iff : ∀ {path s status}, getFileInfo path s = .ok status →
    (status.isdir = true ↔ isDirectory path s)
  present_of_isDirectory : ∀ {path s}, isDirectory path s → ¬missing path s
  missing_of_read : ∀ {path s e}, read path s = .error e → classify e = .notFound →
    missing path s
  file_of_read : ∀ {path s reader}, read path s = .ok reader →
    ¬missing path s ∧ ¬isDirectory path s

/-- What a call meets on its way: what `Get` answers on the connection of an authority, and what
happens to the request, at each attempt.  A lost request never looks like a missing path. -/
structure Meeting where
  get : (authority : Text) → (attempt : Nat) → Except Text ClientId
  delivery : (attempt : Nat) → Delivery
  lost_ne_notFound : ∀ {attempt applied e}, delivery attempt = .lost applied e →
    classify e ≠ .notFound

namespace Meeting

/-- Every request is answered. -/
def calm : Meeting where
  get _ attempt := .ok attempt
  delivery _ := .delivered
  lost_ne_notFound := by simp

/-- The first attempt connects and its request is answered. -/
def Calm (meeting : Meeting) (authority : Text) : Prop :=
  (∃ client, meeting.get authority 0 = .ok client) ∧ meeting.delivery 0 = .delivered

/-- Some reply is lost after the server has carried out the request. -/
def LosesReply (meeting : Meeting) : Prop :=
  ∃ attempt ≤ 1, ∃ e, meeting.delivery attempt = .lost true e

end Meeting

/-- The world that a call meets. -/
def AnsweringServer.world {σ : Type*} (server : AnsweringServer σ) (meeting : Meeting) :
    World σ where
  server := server.toNamespaceServer
  display := server.display
  get := meeting.get
  delivery := meeting.delivery

namespace BridgeCall

variable {σ : Type*} {call : BridgeCall σ} {s : σ}

/-- The bridge reports a reply as a success. -/
def Accepts (call : BridgeCall σ) (reply : Except HdfsError call.Reply) : Prop :=
  ∃ accepted, reply = .ok accepted ∧ call.accept accepted = .ok ()

/-- However often the request arrives, it takes effect once. -/
def Settles (call : BridgeCall σ) : Prop :=
  Repetition.Settles call.request call.Accepts

theorem report_eq_ok_iff {display : HdfsError → Text} {reply : Except HdfsError call.Reply} :
    call.report display reply = .ok () ↔ call.Accepts reply := by
  cases reply <;> simp [report, Accepts]

end BridgeCall

section Settles

variable {σ : Type*} (server : AnsweringServer σ)

theorem bridgeMkdirs_settles (path : Text) :
    (bridgeMkdirs server.toNamespaceServer path).Settles where
  refused s refused := by
    rcases made : server.mkdirs (cStr path) 0o755 true s with ⟨⟨e⟩ | ⟨⟩, s'⟩
    · obtain rfl := server.mkdirs_refused made
      exact congrArg Prod.snd made
    · exact absurd ⟨(), congrArg Prod.fst made, rfl⟩ refused
  repeated s := by
    rintro ⟨⟨⟩, replied, -⟩
    have made : server.mkdirs (cStr path) 0o755 true s =
        (.ok (), ((bridgeMkdirs server.toNamespaceServer path).request s).2) :=
      Prod.ext replied rfl
    have there := server.isDirectory_of_mkdirs made
    exact (Prod.ext_iff.mp (server.mkdirs_of_isDirectory there)).2

theorem bridgeDelete_settles (path : Text) (recursive : Bool) :
    (bridgeDelete server.toNamespaceServer path recursive).Settles where
  refused s refused := by
    rcases asked : server.delete (cStr path) recursive s with ⟨reply, s'⟩
    have not_deleted : reply ≠ .ok true := by
      rintro rfl
      exact refused ⟨true, congrArg Prod.fst asked, rfl⟩
    exact (congrArg Prod.snd asked).trans (server.delete_refused asked not_deleted)
  repeated s := by
    rintro ⟨deleted, replied, accepted⟩
    obtain rfl : deleted = true := by
      cases deleted with
      | false => cases accepted
      | true => rfl
    have gone : server.delete (cStr path) recursive s =
        (.ok true, ((bridgeDelete server.toNamespaceServer path recursive).request s).2) :=
      Prod.ext replied rfl
    have missing := server.missing_of_delete gone
    exact (Prod.ext_iff.mp (server.delete_of_missing missing)).2

theorem bridgeRename_settles (src dst : Text) (overwrite : Bool) :
    (bridgeRename server.toNamespaceServer src dst overwrite).Settles where
  refused s refused := by
    rcases asked : server.rename (cStr src) (cStr dst) overwrite s with ⟨⟨e⟩ | ⟨⟩, s'⟩
    · obtain rfl := server.rename_refused asked
      exact congrArg Prod.snd asked
    · exact absurd ⟨(), congrArg Prod.fst asked, rfl⟩ refused
  repeated s := by
    rintro ⟨⟨⟩, replied, -⟩
    have moved : server.rename (cStr src) (cStr dst) overwrite s =
        (.ok (), ((bridgeRename server.toNamespaceServer src dst overwrite).request s).2) :=
      Prod.ext replied rfl
    have missing := server.missing_of_rename moved
    obtain ⟨e, -, repeated⟩ : ∃ e, _ ∧ server.rename (cStr src) (cStr dst) overwrite _ = _ :=
      server.rename_of_missing missing
    exact (Prod.ext_iff.mp repeated).2

end Settles

section Mutating

variable {σ : Type*} {server : AnsweringServer σ} {meeting : Meeting} {authority failed : Text}
  {call : BridgeCall σ} {s s' : σ}

/-- An attempt delivers the request at most once, and it fails with the request accepted only if
the reply is lost. -/
theorem attempt_arrives {number : Nat} {client : ClientId} {outcome : CallOutcome}
    (ran : (server.world meeting).attempt call number client s = (outcome, s')) :
    ∃ times, s' = Repetition.arrive call.request times s ∧
      (outcome = .ok () → call.Accepts (call.request s).1 ∧ 0 < times) ∧
      (outcome ≠ .ok () → call.Accepts (call.request s).1 → 0 < times →
        ∃ e, meeting.delivery number = .lost true e) := by
  obtain ⟨rfl, rfl⟩ := Prod.mk.inj ran
  have delivery_eq : (server.world meeting).delivery = meeting.delivery := rfl
  rw [delivery_eq]
  cases meeting.delivery number with
  | delivered =>
      refine ⟨1, rfl, fun reported => ⟨BridgeCall.report_eq_ok_iff.mp reported, Nat.one_pos⟩, ?_⟩
      exact fun failed accepted => absurd (BridgeCall.report_eq_ok_iff.mpr accepted) failed
  | lost applied e =>
      have not_ok : call.report (server.world meeting).display (.error e) ≠ .ok () := by
        simp [BridgeCall.report]
      cases applied with
      | false => exact ⟨0, rfl, fun reported => absurd reported not_ok, by simp⟩
      | true => exact ⟨1, rfl, fun reported => absurd reported not_ok, fun _ _ _ => ⟨e, rfl⟩⟩

theorem executes_arrives (settles : call.Settles) {executed : Executed}
    (goes : Executes ((server.world meeting).get authority) ((server.world meeting).attempt call) s
      executed s') :
    ∃ times, s' = Repetition.arrive call.request times s ∧
      ((∃ status, executed = .returned status ∧ status.ok = true) →
        call.Accepts (call.request s).1 ∧ 0 < times) ∧
      ((∀ status, executed = .returned status → status.ok = false) →
        call.Accepts (call.request s).1 → 0 < times → meeting.LosesReply) := by
  have reported : ∀ {outcome : CallOutcome},
      (∃ status, Executed.returned (statusOf outcome) = .returned status ∧ status.ok = true) →
        outcome = .ok () := by
    rintro outcome ⟨status, same, ok⟩
    obtain rfl := Executed.returned.inj same
    exact (ok_statusOf outcome).mp ok
  have unreported : ∀ {outcome : CallOutcome},
      (∀ status, Executed.returned (statusOf outcome) = .returned status → status.ok = false) →
        outcome ≠ .ok () := by
    rintro outcome none_ok rfl
    exact absurd (none_ok _ rfl) (by simp [statusOf])
  cases goes with
  | unconnected => exact ⟨0, rfl, by simp, by simp⟩
  | once _ ran _ =>
      obtain ⟨times, arrived, accepted, lost⟩ := attempt_arrives ran
      refine ⟨times, arrived, fun ok => accepted (reported ok), fun not_ok accepts some => ?_⟩
      obtain ⟨e, lost_at⟩ := lost (unreported not_ok) accepts some
      exact ⟨0, by decide, e, lost_at⟩
  | unreconnected _ ran _ =>
      obtain ⟨times, arrived, -, lost⟩ := attempt_arrives ran
      refine ⟨times, arrived, by simp, fun _ accepts some => ?_⟩
      obtain ⟨e, lost_at⟩ := lost (by simp) accepts some
      exact ⟨0, by decide, e, lost_at⟩
  | twice _ ran _ _ ran' =>
      obtain ⟨times, rfl, -, lost⟩ := attempt_arrives ran
      obtain ⟨more, arrived, accepted', lost'⟩ := attempt_arrives ran'
      refine ⟨times + more, arrived.trans (Repetition.arrive_add ..), fun ok => ?_,
        fun not_ok accepts some => ?_⟩
      · obtain ⟨accepts, some⟩ := accepted' (reported ok)
        exact ⟨settles.accepted_of_arrive accepts, by omega⟩
      · rcases times.eq_zero_or_pos with rfl | first
        · obtain ⟨e, lost_at⟩ := lost' (unreported not_ok) accepts (by omega)
          exact ⟨1, le_rfl, e, lost_at⟩
        · obtain ⟨e, lost_at⟩ := lost (by simp) accepts first
          exact ⟨0, by decide, e, lost_at⟩

/-- A mutating call that reports success has taken effect once; one that throws has not, or it has
and its reply was lost. -/
theorem run_of_settles (settles : call.Settles) {result : Except Exception Unit}
    (ran : (server.world meeting).run authority call failed s = (result, s')) :
    (result = .ok () ∧ call.Accepts (call.request s).1 ∧ s' = (call.request s).2) ∨
      ∃ message, result = .error (.io message) ∧
        (s' = s ∨ s' = (call.request s).2 ∧ call.Accepts (call.request s).1 ∧
          meeting.LosesReply) := by
  have goes := executes ((server.world meeting).get authority)
    ((server.world meeting).attempt call) s
  rw [World.run] at ran
  generalize execute ((server.world meeting).get authority) ((server.world meeting).attempt call) 0
    s = went at ran goes
  obtain ⟨executed, after⟩ := went
  obtain ⟨times, arrived, accepted, lost⟩ := executes_arrives settles goes
  have failed_state : (∀ status, executed = .returned status → status.ok = false) →
      after = s ∨ after = (call.request s).2 ∧ call.Accepts (call.request s).1 ∧
        meeting.LosesReply := by
    intro not_ok
    rcases settles.arrive_eq times s with same | ⟨some, once⟩
    · exact .inl (arrived.trans same)
    · by_cases accepts : call.Accepts (call.request s).1
      · exact .inr ⟨arrived.trans once, accepts, lost not_ok accepts some⟩
      · exact .inl (arrived.trans (once.trans (settles.refused s accepts)))
  cases executed with
  | threw message =>
      obtain ⟨rfl, rfl⟩ := Prod.mk.inj ran
      exact .inr ⟨message, rfl, failed_state (by simp)⟩
  | returned status =>
      cases ok : status.ok with
      | true =>
          simp only [ok, if_true] at ran
          obtain ⟨rfl, rfl⟩ := Prod.mk.inj ran
          obtain ⟨accepts, some⟩ := accepted ⟨status, rfl, ok⟩
          obtain ⟨earlier, rfl⟩ := Nat.exists_eq_succ_of_ne_zero some.ne'
          exact .inl ⟨rfl, accepts, arrived.trans (settles.arrive_succ earlier s)⟩
      | false =>
          simp only [ok] at ran
          obtain ⟨rfl, rfl⟩ := Prod.mk.inj ran
          refine .inr ⟨_, rfl, failed_state ?_⟩
          rintro other same
          obtain rfl := Executed.returned.inj same
          exact ok

theorem run_of_calm (calm : meeting.Calm authority) (accepts : call.Accepts (call.request s).1) :
    (server.world meeting).run authority call failed s = (.ok (), (call.request s).2) := by
  obtain ⟨⟨client, connects⟩, delivered⟩ := calm
  have got : (server.world meeting).get authority 0 = .ok client := connects
  have ran : (server.world meeting).attempt call 0 client s = (.ok (), (call.request s).2) := by
    have reported : call.report server.display (call.request s).1 = .ok () :=
      BridgeCall.report_eq_ok_iff.mpr accepts
    have delivery_eq : (server.world meeting).delivery 0 = .delivered := delivered
    rw [World.attempt, delivery_eq]
    exact Prod.ext reported rfl
  rw [World.run, execute_of_final got ran (by simp [statusOf, BridgeStatus.isConnection,
    BridgeStatus.reset])]
  rfl

end Mutating

end DuckdbHdfs
