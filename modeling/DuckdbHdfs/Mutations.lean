import DuckdbHdfs.Entries
import DuckdbHdfs.Execute
import DuckdbHdfs.NamespaceServer

/-!
# Mutating calls under a retry

`CreateDirectory`, `RemoveDirectory`, `RemoveFile` and `MoveFile` run a request of the bridge
through `Execute`.  A request may be carried out although its reply is lost with the connection;
the retry then meets a namespace that the first attempt has already changed.
-/

namespace DuckdbHdfs

/-- What happens to a request on its way. -/
inductive Delivery
  | delivered
  /-- The connection fails with `e`; `applied` tells whether the server has got the request. -/
  | lost (applied : Bool) (e : HdfsError)
  deriving DecidableEq, Repr

/-- Send a request. -/
def Delivery.send {σ α : Type*} (request : σ → Except HdfsError α × σ) (s : σ) :
    Delivery → Except HdfsError α × σ
  | .delivered => request s
  | .lost applied e => (.error e, if applied then (request s).2 else s)

/-- The failure written for an error, with a context in front. -/
def errorFailure (display : HdfsError → Text) (context : Text) (e : HdfsError) : Failure where
  status := setError display context e
  not_ok := ok_setError display context e

/-- A call of the bridge: its request, what it makes of a reply, and what it puts in front of an
error. -/
structure BridgeCall (σ : Type*) where
  Reply : Type
  request : σ → Except HdfsError Reply × σ
  accept : Reply → CallOutcome
  context : Text

/-- How a call of the bridge ends; `display` is the library's text of an error. -/
def BridgeCall.report {σ : Type*} (call : BridgeCall σ) (display : HdfsError → Text) :
    Except HdfsError call.Reply → CallOutcome
  | .ok reply => call.accept reply
  | .error e => .error (errorFailure display call.context e)

section Bridge

variable {σ : Type*} (server : NamespaceServer σ)

/-- `hdfs_bridge_mkdirs` -/
def bridgeMkdirs (path : Text) : BridgeCall σ where
  Reply := Unit
  request := server.mkdirs (cStr path) 0o755 true
  accept _ := .ok ()
  context := "mkdirs '".toList ++ cStr path ++ "' failed".toList

/-- The failure written when nothing was deleted. -/
def nothingDeleted (path : Text) : Failure where
  status := setStatus .notFound ("delete '".toList ++ path ++ "': path not found".toList)
  not_ok := rfl

/-- `hdfs_bridge_delete` -/
def bridgeDelete (path : Text) (recursive : Bool) : BridgeCall σ where
  Reply := Bool
  request := server.delete (cStr path) recursive
  accept deleted := if deleted then .ok () else .error (nothingDeleted (cStr path))
  context := "delete '".toList ++ cStr path ++ "' failed".toList

/-- `hdfs_bridge_rename` -/
def bridgeRename (src dst : Text) (overwrite : Bool) : BridgeCall σ where
  Reply := Unit
  request := server.rename (cStr src) (cStr dst) overwrite
  accept _ := .ok ()
  context := "rename '".toList ++ cStr src ++ "' -> '".toList ++ cStr dst ++ "' failed".toList

end Bridge

/-- What a call of the file system meets: the server, the library's text of an error, what `Get`
answers on the connection of an authority, and what happens to the request, at each attempt. -/
structure World (σ : Type*) where
  server : NamespaceServer σ
  display : HdfsError → Text
  get : (authority : Text) → (attempt : Nat) → Except Text ClientId
  delivery : (attempt : Nat) → Delivery

namespace World

variable {σ : Type*} (world : World σ)

/-- One attempt at a call. -/
def attempt (call : BridgeCall σ) (attempt : Nat) (_client : ClientId) (s : σ) : CallOutcome × σ :=
  let (reply, s) := (world.delivery attempt).send call.request s
  (call.report world.display reply, s)

/-- Execute a call and throw, with a text in front, if it is not OK in the end. -/
def run (authority : Text) (call : BridgeCall σ) (failed : Text) (s : σ) :
    Except Exception Unit × σ :=
  match execute (world.get authority) (world.attempt call) 0 s with
  | (.returned status, s) =>
      if status.ok then
        (.ok (), s)
      else
        (.error (.io (failed ++ ": ".toList ++ status.message)), s)
  | (.threw message, s) => (.error (.io message), s)

def createDirectory (directory : Text) (s : σ) : Except Exception Unit × σ :=
  let (authority, hdfsPath) := parseHdfsPath directory
  world.run authority (bridgeMkdirs world.server hdfsPath)
    ("Failed to create HDFS directory '".toList ++ directory ++ "'".toList) s

def removeDirectory (directory : Text) (s : σ) : Except Exception Unit × σ :=
  let (authority, hdfsPath) := parseHdfsPath directory
  world.run authority (bridgeDelete world.server hdfsPath true)
    ("Failed to remove HDFS directory '".toList ++ directory ++ "'".toList) s

def removeFile (filename : Text) (s : σ) : Except Exception Unit × σ :=
  let (authority, hdfsPath) := parseHdfsPath filename
  world.run authority (bridgeDelete world.server hdfsPath false)
    ("Failed to remove HDFS file '".toList ++ filename ++ "'".toList) s

/-- Rename within one authority. -/
def moveFile (source target : Text) (s : σ) : Except Exception Unit × σ :=
  let (srcAuthority, srcPath) := parseHdfsPath source
  let (dstAuthority, dstPath) := parseHdfsPath target
  if srcAuthority ≠ dstAuthority then
    (.error (.notImplemented ("Cannot move HDFS files across different NameNodes ('".toList ++
      source ++ "' -> '".toList ++ target ++ "')".toList)), s)
  else
    world.run srcAuthority (bridgeRename world.server srcPath dstPath true)
      ("Failed to move HDFS file '".toList ++ source ++ "' -> '".toList ++ target ++ "'".toList) s

/-! ## A lost reply -/

/-- The first attempt is carried out but its reply is lost; the second one gets a reply. -/
structure LosesReply (authority : Text) (call : BridgeCall σ) (s : σ) : Prop where
  connects : ∃ client, world.get authority 0 = .ok client
  carriedOut : call.report world.display (call.request s).1 = .ok ()
  lost : ∃ e, classify e = .connection ∧ world.delivery 0 = .lost true e
  reconnects : ∃ client, world.get authority 1 = .ok client
  answered : world.delivery 1 = .delivered

variable {world} {authority : Text} {call : BridgeCall σ} {s : σ}

theorem LosesReply.execute_eq (loses : world.LosesReply authority call s) :
    execute (world.get authority) (world.attempt call) 0 s =
      (.returned (statusOf (call.report world.display (call.request (call.request s).2).1)),
        (call.request (call.request s).2).2) := by
  obtain ⟨client, got⟩ := loses.connects
  obtain ⟨e, connection_lost, lost⟩ := loses.lost
  obtain ⟨client', got'⟩ := loses.reconnects
  have first : world.attempt call 0 client s =
      (.error (errorFailure world.display call.context e), (call.request s).2) := by
    rw [attempt, lost]
    rfl
  have second : world.attempt call 1 client' (call.request s).2 =
      (call.report world.display (call.request (call.request s).2).1,
        (call.request (call.request s).2).2) := by
    rw [attempt, loses.answered]
    rfl
  have is_connection : (errorFailure world.display call.context e).status.isConnection = true := by
    simpa [errorFailure] using connection_lost
  rw [execute_of_lost got first is_connection, execute_of_final got' second (by simp)]

theorem LosesReply.exists_reply (loses : world.LosesReply authority call s) :
    ∃ reply, call.request s = (.ok reply, (call.request s).2) ∧ call.accept reply = .ok () := by
  have carriedOut := loses.carriedOut
  cases reply_eq : (call.request s).1 with
  | error e =>
      rw [reply_eq] at carriedOut
      cases carriedOut
  | ok reply =>
      rw [reply_eq] at carriedOut
      exact ⟨reply, Prod.ext reply_eq rfl, carriedOut⟩

theorem LosesReply.run_ok {failed : Text} {s' : σ} {reply : call.Reply}
    (loses : world.LosesReply authority call s)
    (replied : call.request (call.request s).2 = (.ok reply, s'))
    (accepted : call.accept reply = .ok ()) :
    world.run authority call failed s = (.ok (), s') := by
  rw [run, loses.execute_eq, replied]
  simp [BridgeCall.report, accepted, statusOf]

theorem LosesReply.run_error {failed : Text} {s' : σ} {reply : Except HdfsError call.Reply}
    {failure : Failure} (loses : world.LosesReply authority call s)
    (replied : call.request (call.request s).2 = (reply, s'))
    (refused : call.report world.display reply = .error failure) :
    world.run authority call failed s =
      (.error (.io (failed ++ ": ".toList ++ failure.status.message)), s') := by
  rw [run, loses.execute_eq, replied]
  simp [refused, statusOf, failure.not_ok]

/-- A directory that has been created is there for the second attempt. -/
theorem createDirectory_of_losesReply {directory : Text}
    (loses : world.LosesReply (parseHdfsPath directory).1
      (bridgeMkdirs world.server (parseHdfsPath directory).2) s) :
    world.createDirectory directory s =
      (.ok (), ((bridgeMkdirs world.server (parseHdfsPath directory).2).request s).2) := by
  obtain ⟨_, made, -⟩ := loses.exists_reply
  have there := world.server.isDirectory_of_mkdirs made
  exact loses.run_ok (world.server.mkdirs_of_isDirectory there) rfl

theorem run_bridgeDelete_of_losesReply {path failed : Text} {recursive : Bool}
    (loses : world.LosesReply authority (bridgeDelete world.server path recursive) s) :
    world.run authority (bridgeDelete world.server path recursive) failed s =
      (.error (.io (failed ++ ": ".toList ++ (nothingDeleted (cStr path)).status.message)),
        ((bridgeDelete world.server path recursive).request s).2) := by
  obtain ⟨deleted, replied, accepted⟩ := loses.exists_reply
  obtain rfl : deleted = true := by
    cases deleted with
    | false => cases accepted
    | true => rfl
  have gone := world.server.missing_of_delete replied
  exact loses.run_error (world.server.delete_of_missing gone) rfl

theorem moveFile_of_losesReply {source target : Text}
    (same_authority : (parseHdfsPath source).1 = (parseHdfsPath target).1)
    (loses : world.LosesReply (parseHdfsPath source).1
      (bridgeRename world.server (parseHdfsPath source).2 (parseHdfsPath target).2 true) s) :
    ∃ e, classify e = .notFound ∧
      world.moveFile source target s =
        (.error (.io ("Failed to move HDFS file '".toList ++ source ++ "' -> '".toList ++ target ++
          "'".toList ++ ": ".toList ++ (errorFailure world.display
            (bridgeRename world.server (parseHdfsPath source).2 (parseHdfsPath target).2
              true).context e).status.message)),
          ((bridgeRename world.server (parseHdfsPath source).2 (parseHdfsPath target).2
            true).request s).2) := by
  obtain ⟨_, moved, -⟩ := loses.exists_reply
  have gone := world.server.missing_of_rename moved
  obtain ⟨e, not_found, replied⟩ := world.server.rename_of_missing gone
  refine ⟨e, not_found, ?_⟩
  rw [moveFile]
  simp only [same_authority, ne_eq, not_true_eq_false, if_false]
  exact (same_authority ▸ loses).run_error replied rfl

/-- What the four calls report when the first attempt was carried out and its reply was lost, each
with the namespace that one application leaves: `CreateDirectory` succeeds, and the others report
that there is nothing to remove or to move. -/
theorem report_of_losesReply (world : World σ) (s : σ) :
    (∀ directory,
      let call := bridgeMkdirs world.server (parseHdfsPath directory).2
      world.LosesReply (parseHdfsPath directory).1 call s →
        world.createDirectory directory s = (.ok (), (call.request s).2)) ∧
    (∀ directory,
      let call := bridgeDelete world.server (parseHdfsPath directory).2 true
      world.LosesReply (parseHdfsPath directory).1 call s →
        world.removeDirectory directory s =
          (.error (.io ("Failed to remove HDFS directory '".toList ++ directory ++ "'".toList ++
            ": ".toList ++ (nothingDeleted (cStr (parseHdfsPath directory).2)).status.message)),
            (call.request s).2)) ∧
    (∀ filename,
      let call := bridgeDelete world.server (parseHdfsPath filename).2 false
      world.LosesReply (parseHdfsPath filename).1 call s →
        world.removeFile filename s =
          (.error (.io ("Failed to remove HDFS file '".toList ++ filename ++ "'".toList ++
            ": ".toList ++ (nothingDeleted (cStr (parseHdfsPath filename).2)).status.message)),
            (call.request s).2)) ∧
    (∀ source target, (parseHdfsPath source).1 = (parseHdfsPath target).1 →
      let call := bridgeRename world.server (parseHdfsPath source).2 (parseHdfsPath target).2 true
      world.LosesReply (parseHdfsPath source).1 call s →
        ∃ e, classify e = .notFound ∧
          world.moveFile source target s =
            (.error (.io ("Failed to move HDFS file '".toList ++ source ++ "' -> '".toList ++
              target ++ "'".toList ++ ": ".toList ++
              (errorFailure world.display call.context e).status.message)),
              (call.request s).2)) := by
  refine ⟨?_, ?_, ?_, ?_⟩
  · intro directory call loses
    exact createDirectory_of_losesReply loses
  · intro directory call loses
    exact run_bridgeDelete_of_losesReply loses
  · intro filename call loses
    exact run_bridgeDelete_of_losesReply loses
  · intro source target same_authority call loses
    exact moveFile_of_losesReply same_authority loses

end World

/-- A directory with a file in it. -/
def sampleTree : NameTree :=
  [(["d".toList], true), (["d".toList, "x".toList], false)]

/-- A world that loses the reply of every first attempt. -/
def lossyWorld : World NameTree where
  server := treeServer
  display _ := "rename source not found".toList
  get _ attempt := .ok attempt
  delivery attempt :=
    if attempt = 0 then .lost true (.dataTransferError "connection lost".toList) else .delivered

theorem lossyWorld_losesReply {authority : Text} {call : BridgeCall NameTree} {tree : NameTree}
    (carriedOut : call.report lossyWorld.display (call.request tree).1 = .ok ()) :
    lossyWorld.LosesReply authority call tree where
  connects := ⟨0, rfl⟩
  carriedOut := carriedOut
  lost := ⟨_, rfl, rfl⟩
  reconnects := ⟨1, rfl⟩
  answered := rfl

/-- All four calls on the sample tree. -/
theorem report_of_losesReply_lossyWorld :
    lossyWorld.createDirectory "hdfs://nn/d/e".toList sampleTree =
        (.ok (), sampleTree ++ [(["d".toList, "e".toList], true)]) ∧
      lossyWorld.removeDirectory "hdfs://nn/d".toList sampleTree =
        (.error (.io ("Failed to remove HDFS directory 'hdfs://nn/d': ".toList ++
          "delete '/d': path not found".toList)), []) ∧
      lossyWorld.removeFile "hdfs://nn/d/x".toList sampleTree =
        (.error (.io ("Failed to remove HDFS file 'hdfs://nn/d/x': ".toList ++
          "delete '/d/x': path not found".toList)), [(["d".toList], true)]) ∧
      ∃ message,
        lossyWorld.moveFile "hdfs://nn/d/x".toList "hdfs://nn/d/y".toList sampleTree =
          (.error (.io message), [(["d".toList], true), (["d".toList, "y".toList], false)]) := by
  obtain ⟨created, removedDirectory, removedFile, moved⟩ :=
    World.report_of_losesReply lossyWorld sampleTree
  refine ⟨?_, ?_, ?_, ?_⟩
  · rw [created "hdfs://nn/d/e".toList (lossyWorld_losesReply (by decide))]
    decide +kernel
  · rw [removedDirectory "hdfs://nn/d".toList (lossyWorld_losesReply (by decide))]
    decide +kernel
  · rw [removedFile "hdfs://nn/d/x".toList (lossyWorld_losesReply (by decide))]
    decide +kernel
  · obtain ⟨e, -, moved⟩ := moved "hdfs://nn/d/x".toList "hdfs://nn/d/y".toList (by decide)
      (lossyWorld_losesReply (by decide))
    have tree_eq : ((bridgeRename treeServer "/d/x".toList "/d/y".toList true).request
        sampleTree).2 = [(["d".toList], true), (["d".toList, "y".toList], false)] := by
      decide
    exact ⟨_, moved.trans (congrArg (Prod.mk _) tree_eq)⟩

/-- The retry is not transparent: a file, a directory and a source that were there and are gone are
reported as not found. -/
theorem not_transparent_lossyWorld :
    lossyWorld.LosesReply "hdfs://nn".toList (bridgeDelete treeServer "/d/x".toList false)
        sampleTree ∧
      (lossyWorld.removeFile "hdfs://nn/d/x".toList sampleTree).1 ≠ .ok () ∧
      lossyWorld.LosesReply "hdfs://nn".toList (bridgeDelete treeServer "/d".toList true)
        sampleTree ∧
      (lossyWorld.removeDirectory "hdfs://nn/d".toList sampleTree).1 ≠ .ok () ∧
      lossyWorld.LosesReply "hdfs://nn".toList
        (bridgeRename treeServer "/d/x".toList "/d/y".toList true) sampleTree ∧
      (lossyWorld.moveFile "hdfs://nn/d/x".toList "hdfs://nn/d/y".toList sampleTree).1 ≠
        .ok () := by
  refine ⟨lossyWorld_losesReply (by decide), ?_, lossyWorld_losesReply (by decide), ?_,
    lossyWorld_losesReply (by decide), ?_⟩
  all_goals decide +kernel

end DuckdbHdfs
