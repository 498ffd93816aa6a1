import DuckdbHdfs.Questions

/-!
# Calls on namespaces, one after another

The mutating calls of the file system and those that ask about a path, on any number of NameNodes
that no other client changes, over connections that may be lost at every attempt.  A mutating call
takes effect once or not at all, and an answer is that of the namespace.
-/

namespace DuckdbHdfs

/-- A call on a path. -/
inductive NamespaceCall
  | createDirectory (directory : Text)
  | removeDirectory (directory : Text)
  | removeFile (filename : Text)
  | moveFile (source target : Text)
  | fileExists (filename : Text)
  | directoryExists (directory : Text)
  | exists' (url : Text)
  | getLastModifiedTime (path : Text)
  | stat (url : Text)
  | openFile (path : Text) (returnNullIfNotExists : Bool)
  deriving DecidableEq, Repr

/-- What a call returns. -/
inductive Value (τ : Type*)
  | done
  | bool (value : Bool)
  | time (value : τ)
  | entry (entry : HdfsEntry)
  | handle (handle : Option HdfsFileHandle)
  deriving DecidableEq, Repr

def Answer.map {α β : Type*} (f : α → β) : Answer α → Answer β
  | .returned value => .returned (f value)
  | .threw thrown => .threw thrown
  | .undefined => .undefined

/-- How a mutating call ends. -/
def finished {τ : Type*} : Except Exception Unit → Answer (Value τ)
  | .ok () => .returned .done
  | .error e => .threw (.fileSystem e)

namespace NamespaceCall

/-- The path, for a move the source. -/
def url : NamespaceCall → Text
  | .createDirectory url | .removeDirectory url | .removeFile url | .moveFile url _
  | .fileExists url | .directoryExists url | .exists' url | .getLastModifiedTime url | .stat url
  | .openFile url _ => url

/-- The path that the bridge is asked about. -/
def hdfsPath (call : NamespaceCall) : Text :=
  cStr (parseHdfsPath call.url).2

def authority (call : NamespaceCall) : Text :=
  (parseHdfsPath call.url).1

section

variable {σ τ : Type*} (server : AnsweringServer σ) (db : Database τ) (meeting : Meeting)

/-- Make the call on the namespace of one NameNode. -/
def run (call : NamespaceCall) (s : σ) : Answer (Value τ) × σ :=
  match call with
  | .createDirectory directory =>
      ((server.world meeting).createDirectory directory s).map finished id
  | .removeDirectory directory =>
      ((server.world meeting).removeDirectory directory s).map finished id
  | .removeFile filename => ((server.world meeting).removeFile filename s).map finished id
  | .moveFile source target => ((server.world meeting).moveFile source target s).map finished id
  | .fileExists filename =>
      (HdfsFileSystem.fileExists server meeting filename s).map (Answer.map .bool) id
  | .directoryExists directory =>
      (HdfsFileSystem.directoryExists server meeting directory s).map (Answer.map .bool) id
  | .exists' url => (HdfsFileSystem.exists' server meeting url s).map (Answer.map .bool) id
  | .getLastModifiedTime path =>
      (HdfsFileSystem.getLastModifiedTime server meeting db path s).map (Answer.map .time) id
  | .stat url => (HdfsFileSystem.stat server meeting url s).map (Answer.map .entry) id
  | .openFile path returnNullIfNotExists =>
      (HdfsFileSystem.openFile server meeting path returnNullIfNotExists s).map
        (Answer.map .handle) id

/-- The request of a mutating call. -/
def request : NamespaceCall → Option (BridgeCall σ)
  | .createDirectory directory =>
      some (bridgeMkdirs server.toNamespaceServer (parseHdfsPath directory).2)
  | .removeDirectory directory =>
      some (bridgeDelete server.toNamespaceServer (parseHdfsPath directory).2 true)
  | .removeFile filename =>
      some (bridgeDelete server.toNamespaceServer (parseHdfsPath filename).2 false)
  | .moveFile source target =>
      if (parseHdfsPath source).1 = (parseHdfsPath target).1 then
        some (bridgeRename server.toNamespaceServer (parseHdfsPath source).2
          (parseHdfsPath target).2 true)
      else
        none
  | _ => none

/-- The namespace is as an answer says. -/
def Says (call : NamespaceCall) (value : Value τ) (s : σ) : Prop :=
  match call, value with
  | .fileExists _, .bool b =>
      b = true ↔ ¬server.missing call.hdfsPath s ∧ ¬server.isDirectory call.hdfsPath s
  | .directoryExists _, .bool b => b = true ↔ server.isDirectory call.hdfsPath s
  | .exists' _, .bool b => b = true ↔ ¬server.missing call.hdfsPath s
  | .getLastModifiedTime _, .time time =>
      ∃ status, server.getFileInfo call.hdfsPath s = .ok status ∧
        db.fromEpochMs status.modificationTime.toInt64 = .ok time
  | .stat _, .entry entry =>
      ∃ status, server.getFileInfo call.hdfsPath s = .ok status ∧
        entry = makeHdfsEntry call.authority (statusToEntry status)
  | .openFile _ returnNullIfNotExists, .handle none =>
      returnNullIfNotExists = true ∧ server.missing call.hdfsPath s
  | .openFile path _, .handle (some handle) =>
      ∃ reader, server.read call.hdfsPath s = .ok reader ∧
        handle = .openReader path reader ∧ ¬server.missing call.hdfsPath s ∧
          ¬server.isDirectory call.hdfsPath s
  | _, _ => False

/-- The server does not carry the call out, or has no answer to it. -/
def Refused (call : NamespaceCall) (s : σ) : Prop :=
  match call with
  | .fileExists _ | .directoryExists _ | .exists' _ =>
      ¬(bridgeGetFileInfo server (parseHdfsPath call.url).2).Granted true s
  | .getLastModifiedTime _ =>
      ¬(bridgeGetFileInfo server (parseHdfsPath call.url).2).Granted false s
  | .stat _ => ¬(bridgeStat server (parseHdfsPath call.url).2).Granted false s
  | .openFile _ returnNullIfNotExists =>
      ¬(bridgeOpen server (parseHdfsPath call.url).2).Granted returnNullIfNotExists s
  | _ => ∃ request, call.request server = some request ∧ ¬request.Accepts (request.request s).1

/-- A call as its caller may see it: it takes effect once or not at all, and what it says holds.
It throws after it has taken effect only if a reply was lost.  Otherwise it throws only if its
connection could not be opened or was lost, if the server has refused it, if it was to move a file
to another authority, or if it has asked for a time that is no timestamp. -/
inductive Atomic (call : NamespaceCall) (s : σ) : Answer (Value τ) → σ → Prop
  | carriedOut {request : BridgeCall σ} (request_eq : call.request server = some request)
      (accepts : request.Accepts (request.request s).1) :
      Atomic call s (.returned .done) (request.request s).2
  | answered {value : Value τ} (asks : call.request server = none)
      (truthful : call.Says server db value s) : Atomic call s (.returned value) s
  | failed (message : Text) (excused : ¬meeting.Calm call.authority ∨ call.Refused server s) :
      Atomic call s (.threw (.fileSystem (.io message))) s
  | unreported {request : BridgeCall σ} (request_eq : call.request server = some request)
      (accepts : request.Accepts (request.request s).1) (loses : meeting.LosesReply)
      (message : Text) :
      Atomic call s (.threw (.fileSystem (.io message))) (request.request s).2
  | elsewhere {source target : Text} (call_eq : call = .moveFile source target)
      (differ : (parseHdfsPath source).1 ≠ (parseHdfsPath target).1) (message : Text) :
      Atomic call s (.threw (.fileSystem (.notImplemented message))) s
  | untimed {path message : Text} {status : FileStatus}
      (call_eq : call = .getLastModifiedTime path)
      (found : server.getFileInfo call.hdfsPath s = .ok status)
      (unconverted : db.fromEpochMs status.modificationTime.toInt64 = .error message) :
      Atomic call s (.threw (.conversion message)) s

variable {server db meeting} {call : NamespaceCall} {s : σ}

theorem refused_of_request {request : BridgeCall σ}
    (request_eq : call.request server = some request)
    (refused : ¬request.Accepts (request.request s).1) : call.Refused server s := by
  cases call with
  | createDirectory | removeDirectory | removeFile | moveFile =>
      exact ⟨request, request_eq, refused⟩
  | _ => cases request_eq

theorem atomic_run {request : BridgeCall σ} {failed : Text}
    (request_eq : call.request server = some request) (settles : request.Settles) :
    call.Atomic server db meeting s
      (finished ((server.world meeting).run call.authority request failed s).1)
      ((server.world meeting).run call.authority request failed s).2 := by
  rcases ran : (server.world meeting).run call.authority request failed s with ⟨result, s'⟩
  rcases run_of_settles settles ran with ⟨rfl, accepts, rfl⟩ |
    ⟨message, rfl, rfl | ⟨rfl, accepts, loses⟩⟩
  · exact .carriedOut request_eq accepts
  · refine .failed message (or_iff_not_imp_left.mpr fun calm => ?_)
    refine refused_of_request request_eq fun accepts => ?_
    rw [run_of_calm (not_not.mp calm) accepts] at ran
    cases ran
  · exact .unreported request_eq accepts loses message

theorem atomic_inquire {α : Type*} {failed : Text} (question : BridgeCall σ)
    {meaning : question.Reply → α} {notFound : Option α} (form : Answer α → Answer (Value τ))
    (threw : ∀ thrown, form (.threw thrown) = .threw thrown) (pure : question.Asks)
    (refused : ¬question.Granted notFound.isSome s → call.Refused server s)
    (replies : ∀ reply, (question.request s).1 = .ok reply →
      call.Atomic server db meeting s (form (.returned (meaning reply))) s)
    (missing : ∀ e value, (question.request s).1 = .error e → classify e = .notFound →
      notFound = some value → call.Atomic server db meeting s (form (.returned value)) s) :
    call.Atomic server db meeting s
      (form (inquire server meeting call.authority question meaning notFound failed s).1)
      (inquire server meeting call.authority question meaning notFound failed s).2 := by
  rcases asked : inquire server meeting call.authority question meaning notFound failed s with
    ⟨answer, s'⟩
  obtain ⟨rfl, ⟨reply, replied, rfl⟩ | ⟨e, value, not_found, class_eq, there, rfl⟩ |
    ⟨message, rfl⟩⟩ := inquire_of_asks pure asked
  · exact replies reply replied
  · exact missing e value not_found class_eq there
  · rw [threw]
    refine .failed message (or_iff_not_imp_left.mpr fun calm => refused fun granted => ?_)
    obtain ⟨value, answered⟩ : ∃ value, inquire server meeting call.authority question meaning
        notFound failed s' = (.returned value, s') := inquire_of_calm pure (not_not.mp calm) granted
    rw [answered] at asked
    cases asked

end

end NamespaceCall

/-- Every call takes effect once or not at all, and what it says holds. -/
theorem NamespaceCall.atomic {σ τ : Type*} (server : AnsweringServer σ) (db : Database τ)
    (meeting : Meeting) (call : NamespaceCall) (s : σ) :
    call.Atomic server db meeting s (call.run server db meeting s).1
      (call.run server db meeting s).2 := by
  cases call with
  | createDirectory directory => exact atomic_run rfl (bridgeMkdirs_settles server _)
  | removeDirectory directory => exact atomic_run rfl (bridgeDelete_settles server _ _)
  | removeFile filename => exact atomic_run rfl (bridgeDelete_settles server _ _)
  | moveFile source target =>
      rw [run, World.moveFile]
      by_cases same : (parseHdfsPath source).1 = (parseHdfsPath target).1
      · have request_eq : (moveFile source target).request server = some (bridgeRename
            server.toNamespaceServer (parseHdfsPath source).2 (parseHdfsPath target).2 true) :=
          if_pos same
        simp only [ne_eq, same, not_true_eq_false, if_false]
        rw [← same]
        exact atomic_run request_eq (bridgeRename_settles server _ _ _)
      · simp only [ne_eq, same, not_false_eq_true, if_true]
        exact .elsewhere rfl same _
  | fileExists filename =>
      refine atomic_inquire (bridgeGetFileInfo server (parseHdfsPath filename).2)
        (Answer.map Value.bool) (fun _ => rfl) (bridgeGetFileInfo_asks server _) id
        (fun info found => .answered rfl ?_)
        fun e value refused class_eq there => .answered rfl ?_
      · have present := server.present_of_ok found
        have isdir := server.isdir_iff found
        simp [Says, hdfsPath, url, present, ← isdir]
      · obtain rfl := Option.some.inj there
        simp [Says, hdfsPath, url, server.missing_of_notFound refused class_eq]
  | directoryExists directory =>
      refine atomic_inquire (bridgeGetFileInfo server (parseHdfsPath directory).2)
        (Answer.map Value.bool) (fun _ => rfl) (bridgeGetFileInfo_asks server _) id
        (fun info found => .answered rfl ?_)
        fun e value refused class_eq there => .answered rfl ?_
      · exact server.isdir_iff found
      · obtain rfl := Option.some.inj there
        have gone := server.missing_of_notFound refused class_eq
        simp only [Says, Bool.false_eq_true, false_iff]
        exact fun there => server.present_of_isDirectory there gone
  | exists' url =>
      refine atomic_inquire (bridgeGetFileInfo server (parseHdfsPath url).2)
        (Answer.map Value.bool) (fun _ => rfl) (bridgeGetFileInfo_asks server _) id
        (fun info found => .answered rfl ?_)
        fun e value refused class_eq there => .answered rfl ?_
      · simpa [Says, hdfsPath, NamespaceCall.url] using server.present_of_ok found
      · obtain rfl := Option.some.inj there
        simpa [Says, hdfsPath, NamespaceCall.url] using
          server.missing_of_notFound refused class_eq
  | getLastModifiedTime path =>
      refine atomic_inquire (bridgeGetFileInfo server (parseHdfsPath path).2)
        (fun answer => (answer.bind (timestamp db)).map Value.time) (fun _ => rfl)
        (bridgeGetFileInfo_asks server _) id (fun info found => ?_)
        fun e value refused class_eq there => by cases there
      simp only [Answer.bind, timestamp]
      cases converted : db.fromEpochMs info.modificationTime.toInt64 with
      | ok time => exact .answered rfl ⟨info, found, converted⟩
      | error message => exact .untimed rfl found converted
  | stat url =>
      refine atomic_inquire (bridgeStat server (parseHdfsPath url).2) (Answer.map Value.entry)
        (fun _ => rfl) (bridgeStat_asks server _) id (fun entry found => .answered rfl ?_)
        fun e value refused class_eq there => by cases there
      simp only [bridgeStat] at found
      cases answered : server.getFileInfo (cStr (parseHdfsPath url).2) s with
      | error e => simp [answered, Except.map] at found
      | ok status =>
          rw [answered] at found
          exact ⟨status, answered, by rw [← Except.ok.inj found]; rfl⟩
  | openFile path returnNullIfNotExists =>
      refine atomic_inquire (bridgeOpen server (parseHdfsPath path).2) (Answer.map Value.handle)
        (fun _ => rfl) (bridgeOpen_asks server _) (fun refused => ?_)
        (fun reader found => .answered rfl ?_)
        fun e value refused class_eq there => .answered rfl ?_
      · cases returnNullIfNotExists <;> exact refused
      · exact ⟨reader, found, rfl, server.file_of_read found⟩
      · cases returnNullIfNotExists with
        | false => cases there
        | true =>
            obtain rfl := Option.some.inj there
            exact ⟨rfl, server.missing_of_read refused class_eq⟩

theorem NamespaceCall.Atomic.unchanged {σ τ : Type*} {server : AnsweringServer σ} {db : Database τ}
    {meeting : Meeting} {call : NamespaceCall} {answer : Answer (Value τ)} {s s' : σ}
    (atomic : call.Atomic server db meeting s answer s') (asks : call.request server = none) :
    s' = s := by
  cases atomic with
  | carriedOut request_eq => simp [asks] at request_eq
  | unreported request_eq => simp [asks] at request_eq
  | _ => rfl

/-! ## Runs over many NameNodes -/

/-- NameNodes `ν`, each with a namespace of its own; every authority leads to one of them. -/
structure Cluster (σ ν τ : Type*) where
  server : AnsweringServer σ
  db : Database τ
  host : (authority : Text) → ν

namespace Cluster

variable {σ ν τ : Type*} [DecidableEq ν] (cluster : Cluster σ ν τ)

/-- Make a call, on the NameNode of its authority. -/
def perform (call : NamespaceCall) (meeting : Meeting) (spaces : ν → σ) :
    Answer (Value τ) × (ν → σ) :=
  let host := cluster.host call.authority
  let (answer, s) := call.run cluster.server cluster.db meeting (spaces host)
  (answer, Function.update spaces host s)

/-- Make calls, one after another. -/
def performAll : List (NamespaceCall × Meeting) → (ν → σ) → List (Answer (Value τ)) × (ν → σ)
  | [], spaces => ([], spaces)
  | (call, meeting) :: calls, spaces =>
      let (answer, spaces) := cluster.perform call meeting spaces
      let (answers, spaces) := performAll calls spaces
      (answer :: answers, spaces)

/-- Calls that are atomic, each on the NameNode of its authority alone. -/
inductive AtomicRun : List (NamespaceCall × Meeting) → (ν → σ) → List (Answer (Value τ)) → (ν → σ) →
    Prop
  | nil (spaces : ν → σ) : AtomicRun [] spaces [] spaces
  | cons {call : NamespaceCall} {meeting : Meeting} {calls : List (NamespaceCall × Meeting)}
      {spaces spaces' : ν → σ} {answer : Answer (Value τ)} {answers : List (Answer (Value τ))}
      {s : σ}
      (first : call.Atomic cluster.server cluster.db meeting
        (spaces (cluster.host call.authority)) answer s)
      (rest : AtomicRun calls (Function.update spaces (cluster.host call.authority) s) answers
        spaces') : AtomicRun ((call, meeting) :: calls) spaces (answer :: answers) spaces'

/-- Whatever the calls meet, they are atomic. -/
theorem performAll_atomic (calls : List (NamespaceCall × Meeting)) (spaces : ν → σ) :
    cluster.AtomicRun calls spaces (cluster.performAll calls spaces).1
      (cluster.performAll calls spaces).2 := by
  induction calls generalizing spaces with
  | nil => exact .nil spaces
  | cons first calls ih =>
      obtain ⟨call, meeting⟩ := first
      exact .cons (call.atomic cluster.server cluster.db meeting _) (ih _)

theorem performAll_cons (call : NamespaceCall) (meeting : Meeting)
    (calls : List (NamespaceCall × Meeting)) (spaces : ν → σ) :
    cluster.performAll ((call, meeting) :: calls) spaces =
      ((cluster.perform call meeting spaces).1 ::
          (cluster.performAll calls (cluster.perform call meeting spaces).2).1,
        (cluster.performAll calls (cluster.perform call meeting spaces).2).2) := rfl

theorem performAll_append (calls calls' : List (NamespaceCall × Meeting)) (spaces : ν → σ) :
    cluster.performAll (calls ++ calls') spaces =
      ((cluster.performAll calls spaces).1 ++
          (cluster.performAll calls' (cluster.performAll calls spaces).2).1,
        (cluster.performAll calls' (cluster.performAll calls spaces).2).2) := by
  induction calls generalizing spaces with
  | nil => rfl
  | cons first calls ih =>
      obtain ⟨call, meeting⟩ := first
      simp [performAll_cons, ih]

theorem atomic_perform (call : NamespaceCall) (meeting : Meeting) (spaces : ν → σ) :
    call.Atomic cluster.server cluster.db meeting (spaces (cluster.host call.authority))
      (cluster.perform call meeting spaces).1
      ((cluster.perform call meeting spaces).2 (cluster.host call.authority)) := by
  have atomic :=
    call.atomic cluster.server cluster.db meeting (spaces (cluster.host call.authority))
  simpa [perform] using atomic

/-- A call that changes nothing on a NameNode: it only asks, or goes to another one. -/
def Spares (cluster : Cluster σ ν τ) (host : ν) (call : NamespaceCall) : Prop :=
  call.request cluster.server = none ∨ cluster.host call.authority ≠ host

variable {cluster} {calls : List (NamespaceCall × Meeting)} {spaces : ν → σ} {host : ν}

theorem spared_perform {call : NamespaceCall} (meeting : Meeting)
    (spares : cluster.Spares host call) :
    (cluster.perform call meeting spaces).2 host = spaces host := by
  by_cases same : cluster.host call.authority = host
  · have asks := spares.resolve_right (not_not_intro same)
    subst same
    exact (cluster.atomic_perform call meeting spaces).unchanged asks
  · exact Function.update_of_ne (Ne.symm same) _ _

theorem spared_performAll (spares : ∀ call ∈ calls, cluster.Spares host call.1) :
    (cluster.performAll calls spaces).2 host = spaces host := by
  induction calls generalizing spaces with
  | nil => rfl
  | cons first calls ih =>
      obtain ⟨call, meeting⟩ := first
      rw [List.forall_mem_cons] at spares
      exact (ih spares.2).trans (spared_perform meeting spares.1)

end Cluster

namespace NamespaceCall

variable {σ τ : Type*} {server : AnsweringServer σ} {db : Database τ} {meeting : Meeting}
  {call : NamespaceCall} {s s' : σ}

/-- What a mutating call leaves at its path: a new directory, or nothing at all. -/
def Leaves (server : AnsweringServer σ) (call : NamespaceCall) (s : σ) : Prop :=
  match call with
  | .createDirectory _ => server.isDirectory call.hdfsPath s
  | .removeDirectory _ | .removeFile _ | .moveFile _ _ => server.missing call.hdfsPath s
  | _ => True

theorem missing_of_accepts {path : Text} {recursive : Bool}
    (accepts : (bridgeDelete server.toNamespaceServer path recursive).Accepts
      ((bridgeDelete server.toNamespaceServer path recursive).request s).1) :
    server.missing (cStr path)
      ((bridgeDelete server.toNamespaceServer path recursive).request s).2 := by
  obtain ⟨deleted, replied, accepted⟩ := accepts
  obtain rfl : deleted = true := by
    cases deleted with
    | false => cases accepted
    | true => rfl
  have gone : server.delete (cStr path) recursive s =
      (.ok true, ((bridgeDelete server.toNamespaceServer path recursive).request s).2) :=
    Prod.ext replied rfl
  exact server.missing_of_delete gone

theorem Atomic.leaves (atomic : call.Atomic server db meeting s (.returned .done) s') :
    call.Leaves server s' := by
  cases atomic with
  | answered _ truthful => cases call <;> exact truthful.elim
  | carriedOut request_eq accepts =>
      cases call with
      | createDirectory directory =>
          obtain rfl := Option.some.inj request_eq
          obtain ⟨⟨⟩, replied, -⟩ := accepts
          have made : server.mkdirs _ 0o755 true s = (.ok (), _) := Prod.ext replied rfl
          exact server.isDirectory_of_mkdirs made
      | removeDirectory directory =>
          obtain rfl := Option.some.inj request_eq
          exact missing_of_accepts accepts
      | removeFile filename =>
          obtain rfl := Option.some.inj request_eq
          exact missing_of_accepts accepts
      | moveFile source target =>
          rw [request] at request_eq
          split at request_eq
          · obtain rfl := Option.some.inj request_eq
            obtain ⟨⟨⟩, replied, -⟩ := accepts
            have moved : server.rename _ (cStr (parseHdfsPath target).2) true s = (.ok (), _) :=
              Prod.ext replied rfl
            exact server.missing_of_rename moved
          · cases request_eq
      | _ => trivial

/-- What the answers to questions about a path are after a call on it. -/
inductive Decides (url : Text) : NamespaceCall → NamespaceCall → Bool → Prop
  | directory : Decides url (.createDirectory url) (.directoryExists url) true
  | present : Decides url (.createDirectory url) (.exists' url) true
  | no_file : Decides url (.createDirectory url) (.fileExists url) false
  | gone {call ask : NamespaceCall}
      (removes : call = .removeDirectory url ∨ call = .removeFile url ∨
        ∃ target, call = .moveFile url target)
      (asks : ask = .directoryExists url ∨ ask = .exists' url ∨ ask = .fileExists url) :
      Decides url call ask false

theorem Decides.url_eq {url : Text} {ask : NamespaceCall} {b : Bool}
    (decides : Decides url call ask b) : call.url = url ∧ ask.url = url := by
  cases decides with
  | gone removes asks =>
      obtain rfl | rfl | ⟨_, rfl⟩ := removes <;> obtain rfl | rfl | rfl := asks <;>
        exact ⟨rfl, rfl⟩
  | _ => exact ⟨rfl, rfl⟩

/-- An answer about what a call has left. -/
theorem Decides.eq_of_says {url : Text} {ask : NamespaceCall} {b answer : Bool}
    (decides : Decides url call ask b) (leaves : call.Leaves server s)
    (truthful : ask.Says server db (.bool answer) s) : answer = b := by
  cases decides with
  | directory => exact truthful.mpr leaves
  | present => exact truthful.mpr (server.present_of_isDirectory leaves)
  | no_file =>
      rw [← Bool.not_eq_true]
      exact fun there => (truthful.mp there).2 leaves
  | gone removes asks =>
      have gone : server.missing (cStr (parseHdfsPath url).2) s := by
        obtain rfl | rfl | ⟨_, rfl⟩ := removes <;> exact leaves
      rw [← Bool.not_eq_true]
      intro there
      obtain rfl | rfl | rfl := asks
      · exact server.present_of_isDirectory (truthful.mp there) gone
      · exact truthful.mp there gone
      · exact (truthful.mp there).1 gone

end NamespaceCall

/-- An answer agrees with the last call that has changed the NameNode and reported success,
whatever the calls have met. -/
theorem Cluster.performAll_remembers {σ ν τ : Type*} [DecidableEq ν]
    (cluster : Cluster σ ν τ)
    (url : Text) {call ask : NamespaceCall} {b answer : Bool} {meeting meeting' : Meeting}
    {between : List (NamespaceCall × Meeting)} {spaces : ν → σ} {answers : List (Answer (Value τ))}
    (decides : call.Decides url ask b)
    (spares : ∀ other ∈ between, cluster.Spares (cluster.host call.authority) other.1)
    (answered : (cluster.performAll ((call, meeting) :: (between ++ [(ask, meeting')])) spaces).1 =
      .returned .done :: (answers ++ [.returned (.bool answer)])) : answer = b := by
  rw [Cluster.performAll_cons, Cluster.performAll_append, Cluster.performAll_cons] at answered
  obtain ⟨done, rest⟩ := List.cons_eq_cons.mp answered
  obtain ⟨-, last⟩ := List.append_inj' rest rfl
  have left := cluster.atomic_perform call meeting spaces
  rw [done] at left
  have same_host : cluster.host ask.authority = cluster.host call.authority := by
    rw [NamespaceCall.authority, NamespaceCall.authority, decides.url_eq.1, decides.url_eq.2]
  have asked := cluster.atomic_perform ask meeting' (cluster.performAll between
    (cluster.perform call meeting spaces).2).2
  rw [(List.cons_eq_cons.mp last).1, same_host, Cluster.spared_performAll spares] at asked
  generalize (cluster.perform ask meeting' _).2 _ = s at asked
  cases asked with
  | answered _ truthful => exact decides.eq_of_says left.leaves truthful

namespace NameTree

variable {names src dst : List Text} {tree tree' : NameTree}

theorem mkdirs_refused {e : HdfsError} (refused : tree.mkdirs names = (.error e, tree')) :
    tree' = tree := by
  unfold mkdirs at refused
  simp only at refused
  split_ifs at refused with there file
  · cases refused
  · exact (Prod.mk.inj refused).2.symm
  · cases refused

theorem delete_refused {recursive : Bool} {reply : Except HdfsError Bool}
    (asked : tree.delete names recursive = (reply, tree')) (not_deleted : reply ≠ .ok true) :
    tree' = tree := by
  unfold delete at asked
  split_ifs at asked
  · exact (Prod.mk.inj asked).2.symm
  · exact (Prod.mk.inj asked).2.symm
  · exact absurd (Prod.mk.inj asked).1.symm not_deleted

theorem rename_refused {overwrite : Bool} {e : HdfsError}
    (refused : tree.rename src dst overwrite = (.error e, tree')) : tree' = tree := by
  unfold rename at refused
  split_ifs at refused
  all_goals simp_all

/-- A path of the tree, an empty file or a directory. -/
def getFileInfo (path : Text) (tree : NameTree) : Except HdfsError FileStatus :=
  match tree.find (splitPath path) with
  | some isdir => .ok ⟨path, 0, isdir, 0o755, [], [], 0, 0, none, none⟩
  | none => .error (.fileNotFound path)

/-- Read an empty file. -/
def read (path : Text) (tree : NameTree) : Except HdfsError FileReader :=
  match tree.find (splitPath path) with
  | some false => .ok ⟨fun _ => [], 0, fun _ _ => .ok []⟩
  | some true => .error (.other "IsADirectoryError".toList path)
  | none => .error (.fileNotFound path)

end NameTree

/-- The tree of names as a server that answers. -/
def answeringTree : AnsweringServer NameTree where
  toNamespaceServer := treeServer
  display _ := "failed".toList
  getFileInfo := NameTree.getFileInfo
  read := NameTree.read
  mkdirs_refused := NameTree.mkdirs_refused
  delete_refused := NameTree.delete_refused
  rename_refused := NameTree.rename_refused
  missing_of_notFound := by
    intro path tree e refused _
    unfold NameTree.getFileInfo at refused
    split at refused
    · cases refused
    · assumption
  present_of_ok := by
    intro path tree status found gone
    have gone : tree.find (splitPath path) = none := gone
    simp [NameTree.getFileInfo, gone] at found
  isdir_iff := by
    intro path tree status found
    unfold NameTree.getFileInfo at found
    split at found
    · rename_i isdir there
      obtain rfl := Except.ok.inj found
      simp [treeServer, there]
    · cases found
  present_of_isDirectory := by
    intro path tree there gone
    have there : tree.find (splitPath path) = some true := there
    have gone : tree.find (splitPath path) = none := gone
    simp [there] at gone
  missing_of_read := by
    intro path tree e refused class_eq
    unfold NameTree.read at refused
    split at refused
    · cases refused
    · obtain rfl := Except.error.inj refused
      cases class_eq
    · assumption
  file_of_read := by
    intro path tree reader opened
    unfold NameTree.read at opened
    split at opened
    · rename_i there
      simp [treeServer, there]
    · cases opened
    · cases opened

/-- Each authority leads to a tree of its own. -/
def treeCluster : Cluster NameTree Text Int64 where
  server := answeringTree
  db := .microseconds
  host := id

/-- The first reply is lost. -/
def lossyMeeting : Meeting where
  get _ attempt := .ok attempt
  delivery attempt :=
    if attempt = 0 then .lost true (.dataTransferError "connection lost".toList) else .delivered
  lost_ne_notFound := by
    intro attempt applied e lost
    split at lost
    · cases lost
      decide
    · cases lost

/-- The file. -/
def sampleUrl : Text :=
  "hdfs://a/d/x".toList

/-- A file is removed, another NameNode loses a directory behind a lost reply, and then the file is
asked for. -/
def sampleCalls : List (NamespaceCall × Meeting) :=
  (.removeFile sampleUrl, Meeting.calm) ::
    ([(.removeDirectory "hdfs://b/d".toList, lossyMeeting)] ++
      [(.exists' sampleUrl, lossyMeeting)])

/-- The file is still gone. -/
theorem performAll_remembers_treeCluster :
    ∃ answers answer, (treeCluster.performAll sampleCalls fun _ => sampleTree).1 =
      .returned .done :: (answers ++ [.returned (.bool answer)]) ∧ answer = false := by
  have answered : (treeCluster.performAll sampleCalls fun _ => sampleTree).1 =
      .returned .done :: ([.threw (.fileSystem (.io
        ("Failed to remove HDFS directory 'hdfs://b/d': ".toList ++
          "delete '/d': path not found".toList)))] ++ [.returned (.bool false)]) := by
    decide +kernel
  have decides :
      (NamespaceCall.removeFile sampleUrl).Decides sampleUrl (.exists' sampleUrl) false :=
    .gone (.inr (.inl rfl)) (.inr (.inl rfl))
  refine ⟨_, false, answered, treeCluster.performAll_remembers _ decides ?_ answered⟩
  intro other mem
  obtain rfl := List.mem_singleton.mp mem
  exact .inr (by decide)

end DuckdbHdfs
