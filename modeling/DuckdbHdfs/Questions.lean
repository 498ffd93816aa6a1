import DuckdbHdfs.Attempts
import DuckdbHdfs.Database

/-!
# Calls that ask about a path

`FileExists`, `DirectoryExists`, `Exists`, `GetLastModifiedTime`, `Stat` and `OpenFile` for reading
run a question of the bridge through `Execute`.  Only the server can say that a path is missing.
-/

namespace DuckdbHdfs

/-- How a call that asks ends. -/
inductive Answer (α : Type*)
  | returned (value : α)
  | threw (thrown : Thrown)
  /-- It uses a reply that it has not got. -/
  | undefined
  deriving DecidableEq, Repr

/-- Make something else of what is returned, or throw. -/
def Answer.bind {α β : Type*} (f : α → Except Thrown β) : Answer α → Answer β
  | .returned value =>
      match f value with
      | .ok value => .returned value
      | .error thrown => .threw thrown
  | .threw thrown => .threw thrown
  | .undefined => .undefined

section Asking

variable {σ : Type*}

/-- One attempt at a call, which leaves a reply to the caller. -/
def World.attemptOut (world : World σ) (call : BridgeCall σ) (attempt : Nat) (_client : ClientId)
    (s : σ × Option call.Reply) : CallOutcome × σ × Option call.Reply :=
  let (reply, after) := (world.delivery attempt).send call.request s.1
  (call.report world.display reply, after, reply.toOption.or s.2)

/-- Ask with a call of the bridge.  A path that is not found may be an answer, too; any other
failure is thrown, with a text in front. -/
def inquire {α : Type*} (server : AnsweringServer σ) (meeting : Meeting) (authority : Text)
    (call : BridgeCall σ) (meaning : call.Reply → α) (notFound : Option α) (failed : Text) (s : σ) :
    Answer α × σ :=
  match execute (meeting.get authority) ((server.world meeting).attemptOut call) 0 (s, none) with
  | (.threw message, s, _) => (.threw (.fileSystem (.io message)), s)
  | (.returned status, s, out) =>
      if status.ok then
        match out with
        | some reply => (.returned (meaning reply), s)
        | none => (.undefined, s)
      else
        match status.isNotFound, notFound with
        | true, some value => (.returned value, s)
        | _, _ => (.threw (.fileSystem (.io (failed ++ ": ".toList ++ status.message))), s)

variable (server : AnsweringServer σ)

/-- `hdfs_bridge_get_file_info` -/
def bridgeGetFileInfo (path : Text) : BridgeCall σ where
  Reply := FileStatus
  request s := (server.getFileInfo (cStr path) s, s)
  accept _ := .ok ()
  context := "stat '".toList ++ cStr path ++ "' failed".toList

/-- `hdfs_bridge_stat` -/
def bridgeStat (path : Text) : BridgeCall σ where
  Reply := DirEntry
  request s := ((server.getFileInfo (cStr path) s).map statusToEntry, s)
  accept _ := .ok ()
  context := "stat '".toList ++ cStr path ++ "' failed".toList

/-- `hdfs_bridge_open` -/
def bridgeOpen (path : Text) : BridgeCall σ where
  Reply := FileReader
  request s := (server.read (cStr path) s, s)
  accept _ := .ok ()
  context := "open '".toList ++ cStr path ++ "' for reading failed".toList

namespace HdfsFileSystem

variable (meeting : Meeting)

def fileExists (filename : Text) (s : σ) : Answer Bool × σ :=
  let (authority, hdfsPath) := parseHdfsPath filename
  inquire server meeting authority (bridgeGetFileInfo server hdfsPath)
    (fun (info : FileStatus) => !info.isdir) (some false)
    ("Failed to check HDFS file '".toList ++ filename ++ "'".toList) s

def directoryExists (directory : Text) (s : σ) : Answer Bool × σ :=
  let (authority, hdfsPath) := parseHdfsPath directory
  inquire server meeting authority (bridgeGetFileInfo server hdfsPath)
    (fun (info : FileStatus) => info.isdir) (some false)
    ("Failed to check HDFS directory '".toList ++ directory ++ "'".toList) s

/-- Whether there is a file or a directory, `Exists`. -/
def exists' (url : Text) (s : σ) : Answer Bool × σ :=
  let (authority, hdfsPath) := parseHdfsPath url
  inquire server meeting authority (bridgeGetFileInfo server hdfsPath) (fun _ => true) (some false)
    ("Failed to check HDFS path '".toList ++ url ++ "'".toList) s

/-- `GetLastModifiedTime` of an open file, by its path. -/
def getLastModifiedTime {τ : Type*} (db : Database τ) (path : Text) (s : σ) : Answer τ × σ :=
  let (authority, hdfsPath) := parseHdfsPath path
  let (answer, s) := inquire server meeting authority (bridgeGetFileInfo server hdfsPath)
    (fun (info : FileStatus) => info.modificationTime) none
    ("Failed to stat HDFS file '".toList ++ path ++ "'".toList) s
  (answer.bind (timestamp db), s)

def stat (url : Text) (s : σ) : Answer HdfsEntry × σ :=
  let (authority, hdfsPath) := parseHdfsPath url
  inquire server meeting authority (bridgeStat server hdfsPath) (makeHdfsEntry authority) none
    ("Failed to stat HDFS path '".toList ++ url ++ "'".toList) s

/-- `OpenFile` for reading; a missing file is nothing if the flags say so. -/
def openFile (path : Text) (returnNullIfNotExists : Bool) (s : σ) :
    Answer (Option HdfsFileHandle) × σ :=
  let (authority, hdfsPath) := parseHdfsPath path
  inquire server meeting authority (bridgeOpen server hdfsPath)
    (fun reader => some (.openReader path reader))
    (if returnNullIfNotExists then some none else none)
    ("Failed to open HDFS file for reading '".toList ++ path ++ "'".toList) s

end HdfsFileSystem
end Asking

section Answers

variable {σ : Type*} {server : AnsweringServer σ} {meeting : Meeting} {authority failed : Text}
  {call : BridgeCall σ} {s s' : σ}

/-- A call that only asks. -/
structure BridgeCall.Asks (call : BridgeCall σ) : Prop where
  unchanged : ∀ s, (call.request s).2 = s
  accepted : ∀ reply, call.accept reply = .ok ()

theorem bridgeGetFileInfo_asks (server : AnsweringServer σ) (path : Text) :
    (bridgeGetFileInfo server path).Asks :=
  ⟨fun _ => rfl, fun _ => rfl⟩

theorem bridgeStat_asks (server : AnsweringServer σ) (path : Text) :
    (bridgeStat server path).Asks :=
  ⟨fun _ => rfl, fun _ => rfl⟩

theorem bridgeOpen_asks (server : AnsweringServer σ) (path : Text) :
    (bridgeOpen server path).Asks :=
  ⟨fun _ => rfl, fun _ => rfl⟩

/-- An attempt that asks leaves the server's reply behind if it succeeds, and reports a missing
path only if the server does. -/
theorem attemptOut_asks (asks : call.Asks) {number : Nat} {client : ClientId}
    {out out' : Option call.Reply} {outcome : CallOutcome}
    (ran : (server.world meeting).attemptOut call number client (s, out) = (outcome, s', out')) :
    s' = s ∧ (outcome = .ok () → ∃ reply, out' = some reply ∧ (call.request s).1 = .ok reply) ∧
      ((statusOf outcome).isNotFound = true →
        ∃ e, (call.request s).1 = .error e ∧ classify e = .notFound) := by
  have delivery_eq : (server.world meeting).delivery = meeting.delivery := rfl
  rw [World.attemptOut, delivery_eq] at ran
  cases delivered : meeting.delivery number with
  | delivered =>
      rcases answered : call.request s with ⟨reply, after⟩
      obtain rfl : after = s := by
        rw [← asks.unchanged s, answered]
      simp only [delivered, Delivery.send, answered, Prod.mk.injEq] at ran
      obtain ⟨rfl, rfl, rfl⟩ := ran
      cases reply with
      | ok reply =>
          refine ⟨rfl, fun _ => ⟨reply, rfl, rfl⟩, ?_⟩
          simp [BridgeCall.report, asks.accepted, statusOf, BridgeStatus.reset,
            BridgeStatus.isNotFound]
      | error e =>
          refine ⟨rfl, by simp [BridgeCall.report], fun not_found => ⟨e, rfl, ?_⟩⟩
          simpa [BridgeCall.report, errorFailure, statusOf, BridgeStatus.isNotFound, setError,
            setStatus] using not_found
  | lost applied e =>
      simp only [delivered, Delivery.send, Prod.mk.injEq] at ran
      obtain ⟨rfl, rfl, rfl⟩ := ran
      refine ⟨?_, by simp [BridgeCall.report], fun not_found => ?_⟩
      · cases applied with
        | false => rfl
        | true => exact asks.unchanged s
      · refine absurd ?_ (meeting.lost_ne_notFound delivered)
        simpa [BridgeCall.report, errorFailure, statusOf, BridgeStatus.isNotFound, setError,
          setStatus] using not_found

/-- An answer is the server's, and what is not found is missing there. -/
theorem inquire_of_asks {α : Type*} (asks : call.Asks) {meaning : call.Reply → α}
    {notFound : Option α} {answer : Answer α}
    (asked : inquire server meeting authority call meaning notFound failed s = (answer, s')) :
    s' = s ∧
      ((∃ reply, (call.request s).1 = .ok reply ∧ answer = .returned (meaning reply)) ∨
        (∃ e value, (call.request s).1 = .error e ∧ classify e = .notFound ∧
          notFound = some value ∧ answer = .returned value) ∨
        ∃ message, answer = .threw (.fileSystem (.io message))) := by
  have goes := executes (meeting.get authority) ((server.world meeting).attemptOut call) (s, none)
  rw [inquire] at asked
  generalize execute (meeting.get authority) ((server.world meeting).attemptOut call) 0 (s, none)
    = went at asked goes
  obtain ⟨executed, after, out⟩ := went
  -- a call that returns has the server's reply, or the failure of its last attempt
  have returns : ∀ {outcome}, executed = .returned (statusOf outcome) → after = s →
      (outcome = .ok () → ∃ reply, out = some reply ∧ (call.request s).1 = .ok reply) →
      ((statusOf outcome).isNotFound = true →
        ∃ e, (call.request s).1 = .error e ∧ classify e = .notFound) →
      s' = s ∧
        ((∃ reply, (call.request s).1 = .ok reply ∧ answer = .returned (meaning reply)) ∨
          (∃ e value, (call.request s).1 = .error e ∧ classify e = .notFound ∧
            notFound = some value ∧ answer = .returned value) ∨
          ∃ message, answer = .threw (.fileSystem (.io message))) := by
    rintro outcome rfl rfl replied not_found
    cases ok : (statusOf outcome).ok with
    | true =>
        obtain ⟨reply, rfl, reply_eq⟩ := replied ((ok_statusOf outcome).mp ok)
        simp only [ok, if_true] at asked
        obtain ⟨rfl, rfl⟩ := Prod.mk.inj asked
        exact ⟨rfl, .inl ⟨reply, reply_eq, rfl⟩⟩
    | false =>
        simp only [ok, Bool.false_eq_true, if_false] at asked
        split at asked
        · rename_i value is_not_found
          obtain ⟨rfl, rfl⟩ := Prod.mk.inj asked
          obtain ⟨e, refused, class_eq⟩ := not_found is_not_found
          exact ⟨rfl, .inr (.inl ⟨e, value, refused, class_eq, rfl, rfl⟩)⟩
        · obtain ⟨rfl, rfl⟩ := Prod.mk.inj asked
          exact ⟨rfl, .inr (.inr ⟨_, rfl⟩)⟩
  have throws : ∀ {message}, executed = .threw message → after = s →
      s' = s ∧ ∃ message, answer = .threw (.fileSystem (.io message)) := by
    rintro message rfl rfl
    obtain ⟨rfl, rfl⟩ := Prod.mk.inj asked
    exact ⟨rfl, message, rfl⟩
  generalize before_eq : (s, (none : Option call.Reply)) = before at goes
  generalize after_eq : (after, out) = last at goes
  cases goes with
  | unconnected =>
      subst before_eq
      obtain ⟨rfl, rfl⟩ := Prod.mk.inj after_eq
      exact (throws rfl rfl).imp_right fun threw => .inr (.inr threw)
  | once _ ran _ =>
      subst before_eq after_eq
      obtain ⟨rfl, replied, not_found⟩ := attemptOut_asks asks ran
      exact returns rfl rfl replied not_found
  | @unreconnected _ _ middle _ _ ran _ =>
      subst before_eq after_eq
      obtain ⟨rfl, -⟩ := attemptOut_asks asks ran
      exact (throws rfl rfl).imp_right fun threw => .inr (.inr threw)
  | @twice _ _ _ _ middle _ _ ran _ _ ran' =>
      subst before_eq after_eq
      obtain ⟨there, between⟩ := middle
      obtain ⟨rfl, -⟩ := attemptOut_asks asks ran
      obtain ⟨rfl, replied, not_found⟩ := attemptOut_asks asks ran'
      exact returns rfl rfl replied not_found

/-- The server has an answer to a question, where a missing path may be one. -/
def BridgeCall.Granted (call : BridgeCall σ) (orMissing : Bool) (s : σ) : Prop :=
  (∃ reply, (call.request s).1 = .ok reply) ∨
    orMissing = true ∧ ∃ e, (call.request s).1 = .error e ∧ classify e = .notFound

theorem inquire_of_calm {α : Type*} (asks : call.Asks) {meaning : call.Reply → α}
    {notFound : Option α} (calm : meeting.Calm authority)
    (granted : call.Granted notFound.isSome s) :
    ∃ value, inquire server meeting authority call meaning notFound failed s =
      (.returned value, s) := by
  obtain ⟨⟨client, got⟩, delivered⟩ := calm
  have delivery_eq : (server.world meeting).delivery 0 = .delivered := delivered
  rcases granted with ⟨reply, replied⟩ | ⟨or_missing, e, refused, class_eq⟩
  · have ran : (server.world meeting).attemptOut call 0 client (s, none) =
        (.ok (), s, some reply) := by
      have reply_eq : call.request s = (.ok reply, s) := Prod.ext replied (asks.unchanged s)
      simp [World.attemptOut, delivery_eq, Delivery.send, reply_eq, BridgeCall.report,
        asks.accepted, Except.toOption]
    refine ⟨meaning reply, ?_⟩
    rw [inquire, execute_of_final got ran (by simp [statusOf, BridgeStatus.isConnection,
      BridgeStatus.reset])]
    rfl
  · have ran : (server.world meeting).attemptOut call 0 client (s, none) =
        (.error (errorFailure server.display call.context e), s, none) := by
      have reply_eq : call.request s = (.error e, s) := Prod.ext refused (asks.unchanged s)
      simp only [World.attemptOut, delivery_eq, Delivery.send, reply_eq, BridgeCall.report,
        Except.toOption, Option.none_or]
      rfl
    have not_found : (errorFailure server.display call.context e).status.isNotFound = true := by
      simp [errorFailure, BridgeStatus.isNotFound, setError, setStatus, class_eq]
    obtain ⟨value, rfl⟩ := Option.isSome_iff_exists.mp or_missing
    refine ⟨value, ?_⟩
    rw [inquire, execute_of_final got ran (by simp [statusOf, errorFailure, class_eq])]
    simp [statusOf, (errorFailure server.display call.context e).not_ok, not_found]

end Answers

end DuckdbHdfs
