import DuckdbHdfs.DiscoveryResults
import DuckdbHdfs.Questions
import DuckdbHdfs.Urls

/-!
# The metadata functions

`hdfs_ls` streams the entries of a walk as rows, chunk by chunk, and `hdfs_stat` returns the row of
one path.  A scan of `hdfs_ls` returns one complete walk, as `Glob` does for the files of a
pattern, and `hdfs_stat` confirms its rows.
-/

namespace DuckdbHdfs

universe u

variable {τ : Type u} {σ : Type*}

/-- Three permission bits. -/
def rwx (bits : Nat) : Text :=
  (["---", "--x", "-w-", "-wx", "r--", "r-x", "rw-", "rwx"].getD (bits &&& 0x7) "").toList

/-- The permission bits as `rwxr-xr-x`. -/
def permissionString (mode : UInt16) : Text :=
  rwx (mode.toNat >>> 6) ++ rwx (mode.toNat >>> 3) ++ rwx mode.toNat

/-- A row of the metadata functions; replication and block size are null where they do not
apply. -/
structure MetaRow (τ : Type u) where
  path : Text
  name : Text
  type : Text
  size : Int64
  owner : Text
  group : Text
  permissions : Text
  mode : UInt16
  replication : Option Int32
  blockSize : Option Int64
  lastModified : τ
  lastAccessed : τ
  deriving DecidableEq, Repr

/-- The row of an entry. -/
def metaRow (db : Database τ) (entry : HdfsEntry) : Except Thrown (MetaRow τ) := do
  let lastModified ← timestamp db entry.mtime
  let lastAccessed ← timestamp db entry.atime
  .ok
    { path := entry.url
      name := entry.name
      type := typeName entry.isDir
      size := entry.size
      owner := entry.owner
      group := entry.group
      permissions := permissionString entry.permission
      mode := entry.permission
      replication := if entry.replication < 0 then none else some entry.replication
      blockSize := if entry.blockSize < 0 then none else some entry.blockSize
      lastModified
      lastAccessed }

/-- The call behind a metadata function. -/
inductive HdfsMetaOp
  | list
  | stat
  deriving DecidableEq, Repr

/-- What a call of a metadata function asks for; the overrides are null where they are not set. -/
structure HdfsMetaBindData where
  op : HdfsMetaOp
  path : Text
  skipPermissionErrors : Option Bool
  includeHidden : Option Bool
  deriving DecidableEq, Repr

/-- Take over a named parameter. -/
def HdfsMetaBindData.override (result : HdfsMetaBindData) (kv : Text × Option Bool) :
    HdfsMetaBindData :=
  if kv.1 = "skip_permission_errors".toList then
    { result with skipPermissionErrors := kv.2 }
  else if kv.1 = "include_hidden".toList then
    { result with includeHidden := kv.2 }
  else
    result

/-- Take over the parameters of a call. -/
def hdfsMetaBind (op : HdfsMetaOp) (path : Text) (namedParameters : List (Text × Option Bool)) :
    HdfsMetaBindData :=
  namedParameters.foldl HdfsMetaBindData.override ⟨op, path, none, none⟩

/-- One flag of a walk: the override wins, then the setting; both may be unset. -/
def walkFlag (overrideValue setting : Option Bool) : Bool :=
  match overrideValue with
  | some flag => flag
  | none => setting.getD false

/-- The behavior of the walk. -/
def HdfsMetaBindData.walkOptions (bindData : HdfsMetaBindData) (settings : Settings) :
    WalkOptions where
  skipPermissionErrors := walkFlag bindData.skipPermissionErrors settings.skipPermissionErrors
  includeHidden := walkFlag bindData.includeHidden settings.includeHidden

/-- A path with glob characters, escaped or not. -/
def hasGlobCharacter (path : Text) : Bool :=
  path.any fun c => c ∈ ['*', '?', '[', '{']

/-- The state of a scan: a stream, or rows that are there already. -/
structure HdfsMetaGlobalState where
  stream : Option HdfsListStream
  entries : List HdfsEntry
  offset : Nat
  deriving DecidableEq, Repr

/-- What a metadata function works on: streams of the bridge, and a namespace that answers its
question. -/
structure MetaContext (σ : Type*) where
  bridge : ListBridge
  settings : Settings
  server : AnsweringServer σ
  meeting : Meeting
  state : σ

/-- Open the walk of a list, or ask for the entry of a path. -/
def hdfsMetaInit (context : MetaContext σ) (bindData : HdfsMetaBindData) :
    Answer HdfsMetaGlobalState :=
  match bindData.op with
  | .list =>
      let opened :=
        if hasGlobCharacter bindData.path then
          HdfsListStream.openGlobStream context.bridge bindData.path
            context.settings.maxParallelism (bindData.walkOptions context.settings)
        else
          HdfsListStream.openListStream context.bridge bindData.path
            context.settings.maxParallelism (bindData.walkOptions context.settings)
      match opened with
      | .ok stream => .returned ⟨some stream, [], 0⟩
      | .error message => .threw (.fileSystem (.io message))
  | .stat =>
      match (HdfsFileSystem.stat context.server context.meeting bindData.path context.state).1 with
      | .returned entry => .returned ⟨none, [entry], 0⟩
      | .threw thrown => .threw thrown
      | .undefined => .undefined

/-- The next chunk of rows; none of them is returned if one is an exception. -/
def hdfsMetaExecute (bridge : ListBridge) (db : Database τ) (state : HdfsMetaGlobalState) :
    Option (Except Thrown (List (MetaRow τ)) × HdfsMetaGlobalState) :=
  match state.stream with
  | some stream =>
      match stream.next bridge db.standardVectorSize with
      | (.returned _ batch, stream) =>
          some (batch.mapM (metaRow db), { state with stream := some stream })
      | (.threw message, stream) =>
          some (.error (.fileSystem (.io message)), { state with stream := some stream })
      | (.undefined, _) => none
  | none =>
      let count := min db.standardVectorSize (state.entries.length - state.offset)
      some (((state.entries.drop state.offset).take count).mapM (metaRow db),
        { state with offset := state.offset + count })

/-- Ask for chunks until one is empty, as the database does; `none` if that takes more calls than
given. -/
def scanRows (bridge : ListBridge) (db : Database τ) :
    (calls : Nat) → List (MetaRow τ) → HdfsMetaGlobalState →
      Option (Except Thrown (List (MetaRow τ)))
  | 0, _, _ => none
  | calls + 1, rows, state =>
      match hdfsMetaExecute bridge db state with
      | some (.ok [], _) => some (.ok rows)
      | some (.ok chunk, state) => scanRows bridge db calls (rows ++ chunk) state
      | some (.error thrown, _) => some (.error thrown)
      | none => none

/-- The rows of a metadata function. -/
def hdfsMeta (context : MetaContext σ) (db : Database τ) (bindData : HdfsMetaBindData)
    (calls : Nat) : Option (Except Thrown (List (MetaRow τ))) :=
  match hdfsMetaInit context bindData with
  | .returned state => scanRows context.bridge db calls [] state
  | .threw thrown => some (.error thrown)
  | .undefined => none

/-- `hdfs_ls` -/
def hdfsLs (context : MetaContext σ) (db : Database τ) (path : Text)
    (namedParameters : List (Text × Option Bool)) (calls : Nat) :
    Option (Except Thrown (List (MetaRow τ))) :=
  hdfsMeta context db (hdfsMetaBind .list path namedParameters) calls

/-- `hdfs_stat` -/
def hdfsStat (context : MetaContext σ) (db : Database τ) (path : Text) (calls : Nat) :
    Option (Except Thrown (List (MetaRow τ))) :=
  hdfsMeta context db (hdfsMetaBind .stat path []) calls

/-- A call of `Next` says that there is more exactly when it hands out an entry. -/
theorem HdfsListStream.more_iff {bridge : ListBridge} {maxEntries : Nat} {s s' : HdfsListStream}
    {more : Bool} {out : List HdfsEntry}
    (ran : s.next bridge maxEntries = (.returned more out, s')) : more = true ↔ out ≠ [] := by
  fun_induction next bridge maxEntries s with
  | case1 => cases ran
  | case2 s stream handle_eq batch reply count handed =>
      obtain ⟨rfl, rfl⟩ := NextResult.returned.inj (Prod.mk.inj ran).1
      have length_pos : 0 < count → batch ≠ [] := by
        rintro positive rfl
        have none_counted : count = 0 := castInt32_of_lt (n := 0) (by decide)
        omega
      rw [decide_eq_true_iff]
      constructor
      · intro positive
        simp [handed, length_pos positive]
        omega
      · intro some_out
        by_contra none
        have zero : count.toNat = 0 := by omega
        simp [handed, zero] at some_out
  | case3 => cases ran
  | case4 s stream handle_eq e reply context status failed retry invalidated s'' reopened ih =>
      exact ih ran
  | case5 => cases ran

section Rows

variable {bridge : ListBridge} {db : Database τ}

/-- What a list makes of an entry. -/
def giveRow (db : Database τ) (entry : HdfsEntry) : Option (Except Thrown (MetaRow τ)) :=
  some (metaRow db entry)

/-- A batch in a loop that collects rows is a chunk. -/
theorem forBatch_giveRow (rows : List (MetaRow τ)) (batch : List HdfsEntry) :
    collected (forBatch (collect (giveRow db)) rows batch) =
      (batch.mapM (metaRow db)).map (rows ++ ·) := by
  induction batch generalizing rows with
  | nil => simp [forBatch, collected, Except.map, pure, Except.pure]
  | cons entry batch ih =>
      rw [forBatch, List.mapM_cons]
      cases given : metaRow db entry with
      | error thrown => simp [collect, giveRow, given, collected, Except.map, bind, Except.bind]
      | ok row =>
          simp only [collect, giveRow, given]
          refine (ih _).trans ?_
          cases batch.mapM (metaRow db) <;>
            simp [Except.map, bind, Except.bind, pure, Except.pure]

theorem scanRows_stream (calls : Nat) (rows : List (MetaRow τ)) (stream : HdfsListStream)
    (entries : List HdfsEntry) (offset : Nat) :
    scanRows bridge db calls rows ⟨some stream, entries, offset⟩ =
      (stream.forEach (collect (giveRow db)) bridge db.standardVectorSize calls rows).map
        collected := by
  induction calls generalizing rows stream with
  | zero => rfl
  | succ calls ih =>
      rcases ran : stream.next bridge db.standardVectorSize with ⟨result, stream'⟩
      cases result with
      | threw message =>
          have executed : hdfsMetaExecute bridge db ⟨some stream, entries, offset⟩ =
              some (.error (.fileSystem (.io message)), ⟨some stream', entries, offset⟩) := by
            simp only [hdfsMetaExecute, ran]
          rw [scanRows, executed, HdfsListStream.forEach, ran]
          rfl
      | undefined =>
          have executed : hdfsMetaExecute bridge db ⟨some stream, entries, offset⟩ = none := by
            simp only [hdfsMetaExecute, ran]
          rw [scanRows, executed, HdfsListStream.forEach, ran]
          rfl
      | returned more batch =>
          have executed : hdfsMetaExecute bridge db ⟨some stream, entries, offset⟩ =
              some (batch.mapM (metaRow db), ⟨some stream', entries, offset⟩) := by
            simp only [hdfsMetaExecute, ran]
          have more_iff := HdfsListStream.more_iff ran
          have chunk : collected (forBatch (collect (giveRow db)) rows batch) =
              (batch.mapM (metaRow db)).map (rows ++ ·) := forBatch_giveRow rows batch
          rw [scanRows, executed, HdfsListStream.forEach, ran]
          cases more with
          | false =>
              obtain rfl : batch = [] := by simpa using more_iff
              rfl
          | true =>
              rcases looped : forBatch (collect (giveRow db)) rows batch with ⟨rows', thrown⟩
              rw [looped] at chunk
              cases thrown with
              | some thrown =>
                  cases rows_eq : batch.mapM (metaRow db) with
                  | ok chunk_rows => simp [rows_eq, collected, Except.map] at chunk
                  | error thrown' =>
                      obtain rfl : thrown = thrown' := by
                        simpa [rows_eq, collected, Except.map] using chunk
                      simp [looped, collected]
              | none =>
                  cases rows_eq : batch.mapM (metaRow db) with
                  | error thrown' => simp [rows_eq, collected, Except.map] at chunk
                  | ok chunk_rows =>
                      obtain rfl : rows' = rows ++ chunk_rows := by
                        simpa [rows_eq, collected, Except.map] using chunk
                      have lengths := (List.mapM_except_eq_ok_iff.mp rows_eq).length_eq
                      obtain ⟨row, rest, rfl⟩ : ∃ row rest, chunk_rows = row :: rest := by
                        refine List.exists_cons_of_ne_nil ?_
                        rintro rfl
                        exact more_iff.mp rfl (List.length_eq_zero_iff.mp lengths)
                      simpa [looped] using ih (rows ++ row :: rest) stream'

end Rows

/-! ## Scans of `hdfs_ls` -/

theorem HdfsMetaBindData.override_eq (result : HdfsMetaBindData) (kv : Text × Option Bool) :
    (result.override kv).op = result.op ∧ (result.override kv).path = result.path := by
  unfold override
  split_ifs <;> exact ⟨rfl, rfl⟩

theorem hdfsMetaBind_eq (op : HdfsMetaOp) (path : Text)
    (namedParameters : List (Text × Option Bool)) :
    (hdfsMetaBind op path namedParameters).op = op ∧
      (hdfsMetaBind op path namedParameters).path = path := by
  induction namedParameters using List.reverseRecOn with
  | nil => exact ⟨rfl, rfl⟩
  | append_singleton front kv ih =>
      obtain ⟨op_eq, path_eq⟩ := (hdfsMetaBind op path front).override_eq kv
      rw [hdfsMetaBind, List.foldl_append]
      exact ⟨op_eq.trans ih.1, path_eq.trans ih.2⟩

section List

variable {context : MetaContext σ} {db : Database τ} {path : Text}
  {namedParameters : List (Text × Option Bool)} {calls : Nat} {rows : List (MetaRow τ)}

/-- What `hdfs_ls` asks of the bridge. -/
def lsRequest (settings : Settings) (path : Text) (namedParameters : List (Text × Option Bool)) :
    ListRequest :=
  urlRequest (hasGlobCharacter path) path settings.maxParallelism
    ((hdfsMetaBind .list path namedParameters).walkOptions settings)

theorem hdfsLs_eq :
    hdfsLs context db path namedParameters calls =
      collectAll context.bridge (hasGlobCharacter path) path context.settings.maxParallelism
        ((hdfsMetaBind .list path namedParameters).walkOptions context.settings)
        db.standardVectorSize (giveRow db) calls := by
  obtain ⟨op_eq, path_eq⟩ := hdfsMetaBind_eq .list path namedParameters
  rw [hdfsLs, hdfsMeta, hdfsMetaInit, collectAll]
  simp only [op_eq, path_eq, HdfsListStream.openGlobStream, HdfsListStream.openListStream]
  cases globs : hasGlobCharacter path with
  | true =>
      simp only [if_true]
      cases HdfsListStream.openUrl context.bridge true path _ _ with
      | error message => rfl
      | ok stream => exact scanRows_stream calls [] stream [] 0
  | false =>
      simp only [Bool.false_eq_true, if_false]
      cases HdfsListStream.openUrl context.bridge false path _ _ with
      | error message => rfl
      | ok stream => exact scanRows_stream calls [] stream [] 0

theorem forall₂_giveRow {authority : Text} {entries : List FileStatus} :
    List.Forall₂ (fun given row => given = .ok row)
        ((entries.map (toEntry authority)).filterMap (giveRow db)) rows ↔
      List.Forall₂ (fun entry row => metaRow db (toEntry authority entry) = .ok row) entries
        rows := by
  rw [show giveRow db = some ∘ metaRow db from rfl, List.filterMap_eq_map,
    List.forall₂_map_left_iff, List.forall₂_map_left_iff]

section Scans

variable {server : Nat → NameNode}
  (fed : context.bridge.FedBy db.standardVectorSize server
    (lsRequest context.settings path namedParameters))

include fed

theorem exists_outcome_of_hdfsLs :
    ∃ outcome enough, ∀ calls, enough ≤ calls →
      hdfsLs context db path namedParameters calls = some outcome := by
  simp only [hdfsLs_eq]
  exact exists_collectAll (giveRow db) db.vectorSize_pos db.vectorSize_lt fed

/-- A scan that has returned rows has returned those of a complete walk. -/
theorem exists_scanned_of_hdfsLs
    (listed : hdfsLs context db path namedParameters calls = some (.ok rows)) :
    ∃ stream entries,
      Scanned context.bridge db.standardVectorSize server
        (lsRequest context.settings path namedParameters) stream entries none ∧
      List.Forall₂ (fun entry row => metaRow db (toEntry (parseHdfsPath path).1 entry) = .ok row)
        entries rows := by
  rw [hdfsLs_eq] at listed
  obtain ⟨stream, entries, scanned, all⟩ :=
    exists_scanned_of_collectAll db.vectorSize_pos db.vectorSize_lt fed listed
  exact ⟨stream, entries, scanned, forall₂_giveRow.mp all⟩

theorem cause_of_hdfsLs {thrown : Thrown}
    (threw : hdfsLs context db path namedParameters calls = some (.error thrown)) :
    (∃ message, context.bridge.get 0 = .error message) ∨
      (hasGlobCharacter path = true ∧ ∃ e, Glob.GlobPlan.parse (cStr (parseHdfsPath path).2)
        (lsRequest context.settings path namedParameters).options.includeHidden = .error e) ∨
      (∃ e, (lsRequest context.settings path namedParameters).Fatal (server 0) e) ∨
      ∃ stream entry thrown, stream ≤ 1 ∧
        (lsRequest context.settings path namedParameters).Due (server stream) entry ∧
        metaRow db (toEntry (parseHdfsPath path).1 entry) = .error thrown := by
  rw [hdfsLs_eq] at threw
  refine (cause_of_collectAll db.vectorSize_pos db.vectorSize_lt fed threw).imp_right
    (Or.imp_right (Or.imp_right ?_))
  rintro ⟨stream, entry, thrown, stream_le, due, given⟩
  exact ⟨stream, entry, thrown, stream_le, due, Option.some.inj given⟩

theorem parses_of_hdfsLs
    (listed : hdfsLs context db path namedParameters calls = some (.ok rows)) :
    (lsRequest context.settings path namedParameters).Parses := by
  rw [hdfsLs_eq] at listed
  exact parses_of_collectAll fed listed

end Scans

/-- With enough calls a scan of `hdfs_ls` comes to an end.  If it returns rows, they are those of
the entries that one complete walk was to send, each once: the matches of a pattern, or the entries
of a path without glob characters.  It throws without a connection, for an invalid pattern, for an
error that ends the walk, or for a time that is no timestamp. -/
theorem hdfsLs_returns {server : Nat → NameNode}
    (fed : context.bridge.FedBy db.standardVectorSize server
      (lsRequest context.settings path namedParameters)) :
    ∃ outcome,
      (∃ enough, ∀ calls, enough ≤ calls →
        hdfsLs context db path namedParameters calls = some outcome) ∧
      (∀ rows, outcome = .ok rows → ∃ stream entries,
        Scanned context.bridge db.standardVectorSize server
          (lsRequest context.settings path namedParameters) stream entries none ∧
          List.Forall₂
            (fun entry row => metaRow db (toEntry (parseHdfsPath path).1 entry) = .ok row) entries
            rows) ∧
      (∀ thrown, outcome = .error thrown →
        (∃ message, context.bridge.get 0 = .error message) ∨
        (hasGlobCharacter path = true ∧ ∃ e, Glob.GlobPlan.parse (cStr (parseHdfsPath path).2)
          (lsRequest context.settings path namedParameters).options.includeHidden = .error e) ∨
        (∃ e, (lsRequest context.settings path namedParameters).Fatal (server 0) e) ∨
        ∃ stream entry thrown, stream ≤ 1 ∧
          (lsRequest context.settings path namedParameters).Due (server stream) entry ∧
          metaRow db (toEntry (parseHdfsPath path).1 entry) = .error thrown) := by
  obtain ⟨outcome, enough, ends⟩ := exists_outcome_of_hdfsLs fed
  have ended := ends enough le_rfl
  refine ⟨outcome, ⟨enough, ends⟩, ?_, ?_⟩
  · rintro rows rfl
    exact exists_scanned_of_hdfsLs fed ended
  · rintro thrown rfl
    exact cause_of_hdfsLs fed ended

end List

section Snapshots

variable {context : MetaContext σ} {db : Database τ} {path : Text} {snapshot : Snapshot}
  {namedParameters : List (Text × Option Bool)}

theorem exists_metaRow {authority : Text} {status : FileStatus}
    (modified : ∃ time, db.fromEpochMs status.modificationTime.toInt64 = .ok time)
    (accessed : ∃ time, db.fromEpochMs status.accessTime.toInt64 = .ok time) :
    ∃ row, metaRow db (toEntry authority status) = .ok row := by
  obtain ⟨lastModified, modified⟩ := modified
  obtain ⟨lastAccessed, accessed⟩ := accessed
  have mtime_eq : (toEntry authority status).mtime = status.modificationTime := rfl
  have atime_eq : (toEntry authority status).atime = status.accessTime := rfl
  simp [metaRow, timestamp, mtime_eq, atime_eq, modified, accessed, bind, Except.bind]

/-- The times of the nodes are timestamps. -/
def Snapshot.Dated (snapshot : Snapshot) (db : Database τ) : Prop :=
  ∀ node ∈ snapshot.nodes, (∃ time, db.fromEpochMs node.modificationTime.toInt64 = .ok time) ∧
    ∃ time, db.fromEpochMs node.accessTime.toInt64 = .ok time

theorem Snapshot.Dated.exists_row {status : FileStatus} {maxParallelism : Int}
    {options : WalkOptions} {glob : Bool} (dated : snapshot.Dated db)
    (due : (urlRequest glob path maxParallelism options).Due snapshot.nameNode status) :
    ∃ row, metaRow db (toEntry (parseHdfsPath path).1 status) = .ok row := by
  obtain ⟨node, node_mem, modified, accessed⟩ : ∃ node ∈ snapshot.nodes,
      node.modificationTime = status.modificationTime ∧ node.accessTime = status.accessTime := by
    cases glob with
    | true =>
        obtain ⟨plan, parsed, -⟩ := id due
        exact ⟨status, ((due_urlRequest_glob_iff parsed).mp due).1, rfl, rfl⟩
    | false =>
        obtain ⟨node, found, mem⟩ := exists_listing_of_due due
        exact Snapshot.exists_node_of_mem_listing found mem
  exact exists_metaRow (modified ▸ (dated node node_mem).1) (accessed ▸ (dated node node_mem).2)

/-- Where nothing changes and the times of the entries convert, a scan returns rows exactly if its
pattern is valid and nothing ends the walk, and they are those of the entries that are due, each
once. -/
theorem exists_hdfsLs {server : NameNode}
    (connected : ∃ client, context.bridge.get 0 = .ok client)
    (converts : ∀ entry, (lsRequest context.settings path namedParameters).Due server entry →
      ∃ row, metaRow db (toEntry (parseHdfsPath path).1 entry) = .ok row)
    (fed : context.bridge.FedBy db.standardVectorSize (fun _ => server)
      (lsRequest context.settings path namedParameters)) :
    ∃ outcome,
      (∃ enough, ∀ calls, enough ≤ calls →
        hdfsLs context db path namedParameters calls = some outcome) ∧
      ((∃ rows, outcome = .ok rows) ↔
        (lsRequest context.settings path namedParameters).Parses ∧
          ∀ e, ¬(lsRequest context.settings path namedParameters).Fatal server e) ∧
      ∀ rows, outcome = .ok rows → ∃ entries : List FileStatus, entries.Nodup ∧
        (∀ entry, entry ∈ entries ↔
          (lsRequest context.settings path namedParameters).Due server entry) ∧
        List.Forall₂ (fun entry row => metaRow db (toEntry (parseHdfsPath path).1 entry) = .ok row)
          entries rows := by
  obtain ⟨outcome, enough, ends⟩ := exists_outcome_of_hdfsLs fed
  have ended := ends enough le_rfl
  refine ⟨outcome, ⟨enough, ends⟩, ?_, ?_⟩
  · cases outcome with
    | ok rows =>
        obtain ⟨stream, entries, scanned, -⟩ := exists_scanned_of_hdfsLs fed ended
        exact iff_of_true ⟨rows, rfl⟩ ⟨parses_of_hdfsLs fed ended, scanned.clean_iff.mp rfl⟩
    | error thrown =>
        refine iff_of_false (by simp) ?_
        rintro ⟨parses, clean⟩
        rcases cause_of_hdfsLs fed ended with ⟨message, unconnected⟩ | ⟨globs, e, invalid⟩ |
          ⟨e, fatal⟩ | ⟨stream, entry, thrown, -, due, failed⟩
        · obtain ⟨client, got⟩ := connected
          simp [got] at unconnected
        · obtain ⟨plan, parsed⟩ := parses globs
          exact absurd (invalid.symm.trans parsed) (by simp)
        · exact clean e fatal
        · obtain ⟨row, given⟩ := converts entry due
          exact absurd (given.symm.trans failed) (by simp)
  · rintro rows rfl
    obtain ⟨stream, entries, scanned, all⟩ := exists_scanned_of_hdfsLs fed ended
    exact ⟨entries, .of_map _ scanned.nodup,
      fun entry => ⟨scanned.sound entry, scanned.complete rfl entry⟩, all⟩

/-- The entries of a snapshot that `hdfs_ls` is to list: the nodes whose names a pattern describes;
of a path without glob characters the file itself, or the children of the directory, without the
hidden ones unless they are to be included. -/
def Snapshot.IsListed (snapshot : Snapshot) (path : Text) (options : WalkOptions)
    (entry : FileStatus) : Prop :=
  if hasGlobCharacter path then
    entry ∈ snapshot.nodes ∧
      Matches (cStr (parseHdfsPath path).2) options.includeHidden entry.names
  else
    ∃ node, snapshot.find (splitPath (cStr (parseHdfsPath path).2)) = some node ∧
      (node.isdir = false ∧ entry = { node with path := cStr (parseHdfsPath path).2 } ∨
        node.isdir = true ∧
          ∃ child ∈ snapshot.children (splitPath (cStr (parseHdfsPath path).2)),
            Shown options [baseName child.path] ∧
              entry = Snapshot.childAt (cStr (parseHdfsPath path).2) child)

theorem due_lsRequest_iff {settings : Settings} {entry : FileStatus}
    (parses : (lsRequest settings path namedParameters).Parses) :
    (lsRequest settings path namedParameters).Due snapshot.nameNode entry ↔
      snapshot.IsListed path (lsRequest settings path namedParameters).options entry := by
  cases globs : hasGlobCharacter path with
  | true =>
      obtain ⟨plan, parsed⟩ := parses globs
      rw [Snapshot.IsListed, if_pos globs, lsRequest, globs]
      exact due_urlRequest_glob_iff parsed
  | false =>
      rw [Snapshot.IsListed, if_neg (by simp [globs]), lsRequest, globs]
      exact listed_snapshot_iff

theorem clean_lsRequest_iff {settings : Settings} :
    (∀ e, ¬(lsRequest settings path namedParameters).Fatal snapshot.nameNode e) ↔
      hasGlobCharacter path = false →
        ∃ node, snapshot.find (splitPath (cStr (parseHdfsPath path).2)) = some node := by
  rw [lsRequest]
  cases globs : hasGlobCharacter path with
  | true => simpa using fun e => not_fatal_urlRequest_glob e
  | false =>
      have fatal_iff : ∀ e, (urlRequest false path settings.maxParallelism
          ((hdfsMetaBind .list path namedParameters).walkOptions settings)).Fatal
            snapshot.nameNode e ↔
          snapshot.find (splitPath (cStr (parseHdfsPath path).2)) = none ∧
            e = .fileNotFound (cStr (parseHdfsPath path).2) :=
        fun e => listingFatal_snapshot_iff
      simp only [fatal_iff, not_and, forall_true_left, ← Option.isSome_iff_exists,
        ← Option.ne_none_iff_isSome]
      exact ⟨fun clean missing => clean _ missing rfl, fun there e missing => absurd missing there⟩

/-- `hdfs_ls` of a snapshot throws for an invalid pattern and for a missing path without glob
characters.  Otherwise it returns the rows of the entries it is to list, each once. -/
theorem hdfsLs_snapshot (connected : ∃ client, context.bridge.get 0 = .ok client)
    (dated : snapshot.Dated db)
    (fed : context.bridge.FedBy db.standardVectorSize (fun _ => snapshot.nameNode)
      (lsRequest context.settings path namedParameters)) :
    ∃ outcome,
      (∃ enough, ∀ calls, enough ≤ calls →
        hdfsLs context db path namedParameters calls = some outcome) ∧
      ((∃ rows, outcome = .ok rows) ↔
        if hasGlobCharacter path then
          ∃ plan, Glob.GlobPlan.parse (cStr (parseHdfsPath path).2)
            (lsRequest context.settings path namedParameters).options.includeHidden = .ok plan
        else
          ∃ node, snapshot.find (splitPath (cStr (parseHdfsPath path).2)) = some node) ∧
      ∀ rows, outcome = .ok rows → ∃ entries : List FileStatus, entries.Nodup ∧
        (∀ entry, entry ∈ entries ↔ snapshot.IsListed path
          (lsRequest context.settings path namedParameters).options entry) ∧
        List.Forall₂ (fun entry row => metaRow db (toEntry (parseHdfsPath path).1 entry) = .ok row)
          entries rows := by
  obtain ⟨outcome, ends, returns_iff, returns⟩ :=
    exists_hdfsLs connected (fun _ => dated.exists_row) fed
  refine ⟨outcome, ends, ?_, fun rows same => ?_⟩
  · rw [returns_iff, clean_lsRequest_iff, ListRequest.Parses]
    cases globs : hasGlobCharacter path <;> simp [lsRequest, urlRequest, globs]
  · obtain ⟨parses, -⟩ := returns_iff.mp ⟨rows, same⟩
    obtain ⟨entries, nodup, mem_iff, all⟩ := returns rows same
    exact ⟨entries, nodup, fun entry => (mem_iff entry).trans (due_lsRequest_iff parses), all⟩

end Snapshots

section Agreement

variable {context : MetaContext σ} {db : Database τ} {entry : HdfsEntry} {row : MetaRow τ}

theorem metaRow_eq_ok (given : metaRow db entry = .ok row) :
    row.path = entry.url ∧ row.type = typeName entry.isDir ∧ row.size = entry.size ∧
      timestamp db entry.mtime = .ok row.lastModified := by
  obtain ⟨lastModified, modified, rest⟩ := Except.bind_eq_ok_iff.mp given
  obtain ⟨lastAccessed, -, row_eq⟩ := Except.bind_eq_ok_iff.mp rest
  obtain rfl := Except.ok.inj row_eq
  exact ⟨rfl, rfl, rfl, modified⟩

/-- The row of a file. -/
def MetaRow.isFile (row : MetaRow τ) : Bool :=
  row.type = "file".toList

theorem isFile_eq (given : metaRow db entry = .ok row) : row.isFile = !entry.isDir := by
  rw [MetaRow.isFile, (metaRow_eq_ok given).2.1]
  cases entry.isDir <;> decide

/-- What both `Glob` and `hdfs_ls` report of a file. -/
def fileKey (db : Database τ) (authority : Text) (status : FileStatus) :
    Except Thrown (Text × Int64 × τ) :=
  (timestamp db status.modificationTime).map fun time =>
    ((toEntry authority status).url, (toEntry authority status).size, time)

theorem fileKey_of_rows {authority : Text} {entries : List FileStatus} {rows : List (MetaRow τ)}
    (all : List.Forall₂ (fun status row => metaRow db (toEntry authority status) = .ok row) entries
      rows) :
    ((rows.filter MetaRow.isFile).map fun row =>
        Except.ok (row.path, row.size, row.lastModified)) =
      (entries.filter fun status => !status.isdir).map (fileKey db authority) := by
  induction all with
  | nil => rfl
  | @cons status row entries rows given _ ih =>
      obtain ⟨path_eq, -, size_eq, modified⟩ := metaRow_eq_ok given
      have isDir_eq : (toEntry authority status).isDir = status.isdir := rfl
      have mtime_eq : (toEntry authority status).mtime = status.modificationTime := rfl
      rw [mtime_eq] at modified
      have key : fileKey db authority status = .ok (row.path, row.size, row.lastModified) := by
        rw [fileKey, modified, path_eq, size_eq]
        rfl
      have is_file := isFile_eq given
      rw [isDir_eq] at is_file
      cases isdir : status.isdir with
      | true => simp [is_file, isdir, ih]
      | false => simp [is_file, isdir, ih, key]

theorem fileKey_of_files {authority : Text} {entries : List FileStatus}
    {files : List (OpenFileInfo τ)}
    (all : List.Forall₂ (fun given file => given = .ok file) (entries.map (fileOf db authority))
      files) :
    (files.map fun file =>
        Except.ok (file.path, file.extendedInfo.fileSize, file.extendedInfo.lastModified)) =
      entries.map (fileKey db authority) := by
  rw [List.forall₂_map_left_iff] at all
  induction all with
  | nil => rfl
  | @cons status file entries files given _ ih =>
      have mtime_eq : (toEntry authority status).mtime = status.modificationTime := rfl
      have key : fileKey db authority status =
          .ok (file.path, file.extendedInfo.fileSize, file.extendedInfo.lastModified) := by
        rw [fileKey, timestamp]
        rw [fileOf, openFileInfo, makeExtendedInfo, mtime_eq] at given
        cases converted : db.fromEpochMs status.modificationTime.toInt64 with
        | error message => simp [converted, Except.map] at given
        | ok time =>
            rw [converted] at given
            obtain rfl := Except.ok.inj given
            rfl
      rw [List.map_cons, List.map_cons, ih, key]

/-- While nothing changes, `hdfs_ls` of a pattern lists the files that `Glob` returns under the
same settings, with the same sizes and times. -/
theorem hdfsLs_agrees_with_glob {server : NameNode} {bridge : ListBridge} {path : Text}
    {calls calls' : Nat} {rows : List (MetaRow τ)} {files : List (OpenFileInfo τ)}
    (globs : hasGlobCharacter path = true)
    (fed : context.bridge.FedBy db.standardVectorSize (fun _ => server)
      (lsRequest context.settings path []))
    (fed' : bridge.FedBy db.standardVectorSize (fun _ => server)
      (globRequest context.settings path))
    (listed : hdfsLs context db path [] calls = some (.ok rows))
    (globbed : HdfsFileSystem.glob bridge db context.settings path calls' = some (.ok files)) :
    ((rows.filter MetaRow.isFile).map fun row =>
        (row.path, row.size, row.lastModified)).Perm
      (files.map fun file =>
        (file.path, file.extendedInfo.fileSize, file.extendedInfo.lastModified)) := by
  obtain ⟨stream, entries, scanned, all⟩ := exists_scanned_of_hdfsLs fed listed
  obtain ⟨stream', entries', scanned', all'⟩ := exists_scanned_of_glob fed' globbed
  have request_eq : lsRequest context.settings path [] = globRequest context.settings path := by
    rw [lsRequest, globs]
    rfl
  rw [request_eq] at scanned
  have same : entries.Perm entries' := by
    refine (List.perm_ext_iff_of_nodup (.of_map _ scanned.nodup) (.of_map _ scanned'.nodup)).mpr
      fun status => ?_
    exact ⟨fun mem => scanned'.complete rfl status (scanned.sound status mem),
      fun mem => scanned.complete rfl status (scanned'.sound status mem)⟩
  refine (List.map_perm_map_iff (f := (Except.ok : _ → Except Thrown _))
    fun _ _ => Except.ok.inj).mp ?_
  rw [List.map_map, List.map_map]
  refine (List.Perm.of_eq (fileKey_of_rows all)).trans (.trans ?_
    (List.Perm.of_eq (fileKey_of_files all').symm))
  exact (same.filter _).map _

end Agreement

/-! ## Agreement with `hdfs_stat` -/

section Stat

variable {context : MetaContext σ} {db : Database τ} {path : Text} {snapshot : Snapshot}
  {status : FileStatus} {row : MetaRow τ}

theorem stat_of_calm {server : AnsweringServer σ} {meeting : Meeting} {s : σ} {url : Text}
    (calm : meeting.Calm (parseHdfsPath url).1)
    (found : server.getFileInfo (cStr (parseHdfsPath url).2) s = .ok status) :
    (HdfsFileSystem.stat server meeting url s).1 =
      .returned (toEntry (parseHdfsPath url).1 status) := by
  have asks := bridgeStat_asks server (parseHdfsPath url).2
  have replied : ((bridgeStat server (parseHdfsPath url).2).request s).1 =
      .ok (statusToEntry status) := by
    simp [bridgeStat, found, Except.map]
  have answered : ∃ value, HdfsFileSystem.stat server meeting url s = (.returned value, s) :=
    inquire_of_calm asks calm (.inl ⟨_, replied⟩)
  obtain ⟨value, answered⟩ := answered
  obtain ⟨-, ⟨reply, replied', value_eq⟩ | ⟨_, _, _, -, none_eq, -⟩ | ⟨_, threw⟩⟩ :=
    inquire_of_asks asks answered
  · obtain rfl := Except.ok.inj (replied.symm.trans replied')
    rw [answered, value_eq]
    rfl
  · cases none_eq
  · cases threw

theorem hdfsStat_of_stat {entry : HdfsEntry} {calls : Nat}
    (answered : (HdfsFileSystem.stat context.server context.meeting path context.state).1 =
      .returned entry)
    (given : metaRow db entry = .ok row) (twice : 2 ≤ calls) :
    hdfsStat context db path calls = some (.ok [row]) := by
  obtain ⟨calls, rfl⟩ := Nat.exists_eq_add_of_le' twice
  have positive := db.vectorSize_pos
  have first : hdfsMetaExecute context.bridge db ⟨none, [entry], 0⟩ =
      some (.ok [row], ⟨none, [entry], 1⟩) := by
    have count : min db.standardVectorSize 1 = 1 := min_eq_right positive
    simp [hdfsMetaExecute, count, given, bind, Except.bind, pure, Except.pure]
  have second : hdfsMetaExecute context.bridge db ⟨none, [entry], 1⟩ =
      some (.ok [], ⟨none, [entry], 1⟩) := by
    simp [hdfsMetaExecute, pure, Except.pure]
  rw [hdfsStat, hdfsMeta, hdfsMetaInit]
  simp only [hdfsMetaBind, List.foldl_nil, answered]
  rw [scanRows, first]
  simp only [List.nil_append]
  rw [scanRows, second]

theorem head?_parseHdfsPath (scheme : hdfsScheme <+: path) :
    (parseHdfsPath path).2.head? = some '/' := by
  rcases hdfsUrl_cases path with foreign | ⟨host, rest, no_slash, rfl⟩ | ⟨host, no_slash, rfl⟩
  · exact absurd scheme foreign
  · rw [parseHdfsPath_append no_slash]
    rfl
  · rw [parseHdfsPath_of_no_slash no_slash]
    rfl

theorem head?_cStr (absolute : path.head? = some '/') : (cStr path).head? = some '/' := by
  obtain ⟨rest, rfl⟩ : ∃ rest, path = '/' :: rest := List.head?_eq_some_iff.mp absolute
  rfl

theorem nul_not_mem_cStr (path : Text) : '\x00' ∉ cStr path := by
  intro mem
  simpa using List.mem_takeWhile_imp mem

theorem cStr_of_plain (plain : '\x00' ∉ path) : cStr path = path := by
  refine List.takeWhile_eq_self_iff.mpr fun c mem => ?_
  simpa using fun equality : c = '\x00' => plain (equality ▸ mem)

theorem toCString_of_plain (plain : '\x00' ∉ path) : toCString path = path :=
  if_neg plain

theorem head?_childPath {name : Text} (absolute : path.head? = some '/') :
    (childPath path name).head? = some '/' := by
  obtain ⟨rest, rfl⟩ : ∃ rest, path = '/' :: rest := List.head?_eq_some_iff.mp absolute
  rw [childPath]
  cases dropped : List.rdropWhile (· = '/') ('/' :: rest) with
  | nil => rfl
  | cons c front =>
      have kept : (c :: front) <+: '/' :: rest := dropped ▸ List.rdropWhile_prefix _ _
      rw [List.cons_append, List.head?_cons, (List.cons_prefix_cons.mp kept).1]

theorem nul_not_mem_childPath {name : Text} (plain : '\x00' ∉ path) (name_plain : '\x00' ∉ name) :
    '\x00' ∉ childPath path name := by
  rw [childPath, List.mem_append, List.mem_cons]
  rintro (mem | mem | mem)
  · exact plain ((List.rdropWhile_prefix _ _).subset mem)
  · cases mem
  · exact name_plain mem

theorem Snapshot.plain_of_mem_nodes (plain : ∀ entry ∈ snapshot.entries, '\x00' ∉ entry.path)
    (mem : status ∈ snapshot.nodes) : status.path.head? = some '/' ∧ '\x00' ∉ status.path := by
  refine ⟨by rw [path_of_mem_nodes mem]; rfl, ?_⟩
  rcases List.mem_cons.mp mem with rfl | below
  · rw [root_path]
    decide
  · exact plain status below

/-- Entries that a snapshot hands out have absolute paths without NULs under which it knows them,
if the entries below the root have. -/
theorem known_of_due {maxParallelism : Int} {options : WalkOptions} {glob : Bool}
    (scheme : hdfsScheme <+: path)
    (plain : ∀ entry ∈ snapshot.entries, '\x00' ∉ entry.path)
    (due : (urlRequest glob path maxParallelism options).Due snapshot.nameNode status) :
    status.path.head? = some '/' ∧ '\x00' ∉ status.path ∧
      snapshot.nameNode.getFileInfo status.path = .ok status := by
  cases glob with
  | true =>
      obtain ⟨plan, parsed, -⟩ := id due
      have mem := ((due_urlRequest_glob_iff parsed).mp due).1
      obtain ⟨absolute, status_plain⟩ := Snapshot.plain_of_mem_nodes plain mem
      refine ⟨absolute, status_plain, ?_⟩
      rw [Snapshot.path_of_mem_nodes mem]
      exact (Snapshot.getFileInfo_pathOf_iff (Snapshot.names_valid status)).mpr ⟨mem, rfl⟩
  | false =>
      obtain ⟨node, found, mem⟩ := exists_listing_of_due due
      have absolute := head?_cStr (head?_parseHdfsPath scheme)
      have path_plain := nul_not_mem_cStr (parseHdfsPath path).2
      rw [Snapshot.listing] at mem
      split at mem
      · obtain ⟨child, child_mem, rfl⟩ := List.mem_map.mp mem
        refine ⟨head?_childPath absolute, nul_not_mem_childPath path_plain ?_, ?_⟩
        · intro in_name
          refine plain child (Snapshot.mem_children_iff.mp child_mem).1 ?_
          exact (List.rtakeWhile_suffix _ _).subset in_name
        · simp only [Snapshot.nameNode, Snapshot.getFileInfo, Snapshot.find_childAt child_mem]
          rfl
      · obtain rfl := List.mem_singleton.mp mem
        refine ⟨absolute, path_plain, ?_⟩
        simp only [Snapshot.nameNode, Snapshot.getFileInfo, found]

/-- While nothing changes, `hdfs_stat` of a path that `hdfs_ls` has listed returns the same row. -/
theorem hdfsStat_of_mem_hdfsLs {namedParameters : List (Text × Option Bool)} {calls calls' : Nat}
    {rows : List (MetaRow τ)} (scheme : hdfsScheme <+: path) (named : path ≠ hdfsScheme)
    (plain : ∀ entry ∈ snapshot.entries, '\x00' ∉ entry.path)
    (fed : context.bridge.FedBy db.standardVectorSize (fun _ => snapshot.nameNode)
      (lsRequest context.settings path namedParameters))
    (same_answers : ∀ p, context.server.getFileInfo p context.state =
      snapshot.nameNode.getFileInfo p)
    (calm : ∀ authority, context.meeting.Calm authority)
    (listed : hdfsLs context db path namedParameters calls = some (.ok rows)) (mem : row ∈ rows)
    (twice : 2 ≤ calls') : hdfsStat context db row.path calls' = some (.ok [row]) := by
  obtain ⟨stream, entries, scanned, all⟩ := exists_scanned_of_hdfsLs fed listed
  obtain ⟨status, status_mem, given⟩ := all.exists_left_of_mem mem
  obtain ⟨absolute, status_plain, known⟩ :=
    known_of_due scheme plain (scanned.sound status status_mem)
  have isAuthority : IsAuthority (parseHdfsPath path).1 := isAuthority_parseHdfsPath_iff.mpr named
  have returned : parseHdfsPath row.path = ((parseHdfsPath path).1, status.path) := by
    rw [(metaRow_eq_ok given).1]
    simp only [toEntry, makeHdfsEntry, statusToEntry, toCString_of_plain status_plain]
    exact parseHdfsPath_makeUrl isAuthority absolute
  refine hdfsStat_of_stat ?_ given twice
  have found : context.server.getFileInfo (cStr (parseHdfsPath row.path).2) context.state =
      .ok status := by
    rw [returned, cStr_of_plain status_plain, same_answers, known]
  have answered := stat_of_calm (calm _) found
  rwa [returned] at answered

end Stat

/-- The refusal of a server in safe mode. -/
def safeMode : HdfsError :=
  .rpcError "org.apache.hadoop.hdfs.server.namenode.SafeModeException".toList []

/-- A snapshot as a server in safe mode: it answers and changes nothing. -/
def Snapshot.server (snapshot : Snapshot) : AnsweringServer Unit where
  missing path _ := snapshot.find (splitPath path) = none
  isDirectory path _ := ∃ node, snapshot.find (splitPath path) = some node ∧ node.isdir = true
  mkdirs path _ _ _ :=
    if (snapshot.find (splitPath path)).any FileStatus.isdir then (.ok (), ()) else
      (.error safeMode, ())
  delete path _ _ :=
    if snapshot.find (splitPath path) = none then (.ok false, ()) else (.error safeMode, ())
  rename src _ _ _ :=
    if snapshot.find (splitPath src) = none then (.error (.fileNotFound src), ()) else
      (.error safeMode, ())
  isDirectory_of_mkdirs := by
    intro path permission createParent s s' made
    split at made
    · rename_i there
      simpa [Option.any_eq_true] using there
    · cases made
  mkdirs_of_isDirectory := by
    rintro path permission createParent s ⟨node, found, isdir⟩
    simp [found, isdir]
  missing_of_delete := by
    intro path recursive s s' deleted
    split at deleted <;> cases deleted
  delete_of_missing gone := if_pos gone
  missing_of_rename := by
    intro src dst overwrite s s' moved
    split at moved <;> cases moved
  rename_of_missing gone := ⟨_, rfl, if_pos gone⟩
  display _ := []
  getFileInfo path _ := snapshot.nameNode.getFileInfo path
  read path _ := (snapshot.nameNode.getFileInfo path).bind fun status =>
    if status.isdir then
      .error (.other "IsADirectoryError".toList path)
    else
      .ok ⟨fun _ => [], status.length, fun _ _ => .error safeMode⟩
  mkdirs_refused _ := rfl
  delete_refused _ _ := rfl
  rename_refused _ := rfl
  missing_of_notFound := by
    intro path s e refused class_eq
    simp only [nameNode, getFileInfo] at refused
    split at refused
    · cases refused
    · assumption
  present_of_ok := by
    intro path s status found gone
    simp [nameNode, getFileInfo, gone] at found
  isdir_iff := by
    intro path s status found
    simp only [nameNode, getFileInfo] at found
    split at found
    · rename_i node there
      obtain rfl := Except.ok.inj found
      simp [there]
    · cases found
  present_of_isDirectory := by
    rintro path s ⟨node, found, -⟩ gone
    simp [found] at gone
  missing_of_read := by
    intro path s e refused class_eq
    simp only [nameNode, getFileInfo] at refused
    split at refused
    · simp only [Except.bind] at refused
      split at refused
      · obtain rfl := Except.error.inj refused
        cases class_eq
      · cases refused
    · assumption
  file_of_read := by
    intro path s reader opened
    simp only [nameNode, getFileInfo] at opened
    split at opened
    · rename_i node there
      simp only [Except.bind] at opened
      split at opened
      · cases opened
      · rename_i file
        simpa [there] using file
    · cases opened

/-- The sample snapshot on a calm connection, listed by a bridge. -/
def MetaContext.sample (bridge : ListBridge) : MetaContext Unit where
  bridge := bridge
  settings := ⟨none, none, none⟩
  server := Snapshot.sample.server
  meeting := .calm
  state := ()

theorem MetaContext.exists_sample :
    ∃ bridge : ListBridge, (∀ connect, bridge.get connect = .ok connect) ∧
      (MetaContext.sample bridge).bridge.FedBy Database.microseconds.standardVectorSize
        (fun _ => Snapshot.sample.nameNode)
        (lsRequest (MetaContext.sample bridge).settings "hdfs://nn/d/*".toList []) :=
  ListBridge.exists_fedBy _ _ (lsRequest ⟨none, none, none⟩ "hdfs://nn/d/*".toList [])

theorem sample_dated : Snapshot.sample.Dated Database.microseconds := by
  have epoch : ∀ node ∈ Snapshot.sample.nodes, node.modificationTime = 0 ∧ node.accessTime = 0 := by
    decide
  intro node mem
  rw [(epoch node mem).1, (epoch node mem).2]
  exact ⟨⟨0, rfl⟩, 0, rfl⟩

theorem isListed_sample_iff {entry : FileStatus} :
    Snapshot.sample.IsListed "hdfs://nn/d/*".toList
        (lsRequest ⟨none, none, none⟩ "hdfs://nn/d/*".toList []).options entry ↔
      entry ∈ sampleEntries := by
  rw [Snapshot.IsListed, if_pos (by decide)]
  exact sample_matches_iff parse_samplePath samplePlan_decided

theorem sample_rows {entries : List FileStatus} {rows : List (MetaRow Int64)}
    (nodup : entries.Nodup)
    (mem_iff : ∀ entry, entry ∈ entries ↔ Snapshot.sample.IsListed "hdfs://nn/d/*".toList
      (lsRequest ⟨none, none, none⟩ "hdfs://nn/d/*".toList []).options entry)
    (all : List.Forall₂ (fun entry row => metaRow .microseconds
      (toEntry (parseHdfsPath "hdfs://nn/d/*".toList).1 entry) = .ok row) entries rows) :
    (rows.map MetaRow.path).Perm ["hdfs://nn/d/x".toList, "hdfs://nn/d/e".toList] := by
  have perm : entries.Perm sampleEntries :=
    (List.perm_ext_iff_of_nodup nodup (by decide)).mpr
      fun entry => (mem_iff entry).trans isListed_sample_iff
  have paths_eq : rows.map MetaRow.path = entries.map fun entry =>
      (toEntry (parseHdfsPath "hdfs://nn/d/*".toList).1 entry).url :=
    all.map_eq_map fun _ _ given => (metaRow_eq_ok given).1
  rw [paths_eq]
  exact (perm.map _).trans (.of_eq (by decide +kernel))

theorem MetaContext.exists_sampleRows {bridge : ListBridge}
    (connects : ∀ connect, bridge.get connect = .ok connect)
    (fed : (MetaContext.sample bridge).bridge.FedBy Database.microseconds.standardVectorSize
      (fun _ => Snapshot.sample.nameNode)
      (lsRequest (MetaContext.sample bridge).settings "hdfs://nn/d/*".toList [])) :
    ∃ rows : List (MetaRow Int64),
      (rows.map MetaRow.path).Perm ["hdfs://nn/d/x".toList, "hdfs://nn/d/e".toList] ∧
      ∃ enough, ∀ calls, enough ≤ calls →
        hdfsLs (.sample bridge) .microseconds "hdfs://nn/d/*".toList [] calls =
          some (.ok rows) := by
  obtain ⟨outcome, ends, returns_iff, returns⟩ :=
    exists_hdfsLs ⟨0, connects 0⟩ (fun _ => sample_dated.exists_row) fed
  have parses : (lsRequest (MetaContext.sample bridge).settings "hdfs://nn/d/*".toList
      []).Parses := fun _ => ⟨samplePlan, parse_samplePath⟩
  have globs : hasGlobCharacter "hdfs://nn/d/*".toList = true := by decide
  obtain ⟨rows, rfl⟩ := returns_iff.mpr
    ⟨parses, clean_lsRequest_iff.mpr fun literal => absurd (globs.symm.trans literal) (by simp)⟩
  obtain ⟨entries, nodup, mem_iff, all⟩ := returns rows rfl
  have listed := fun entry => (mem_iff entry).trans (due_lsRequest_iff parses)
  exact ⟨rows, sample_rows nodup listed all, ends⟩

/-- `/d/*` in the sample snapshot, listed as rows. -/
theorem hdfsLs_returns_sample :
    ∃ (bridge : ListBridge) (rows : List (MetaRow Int64)),
      (rows.map MetaRow.path).Perm ["hdfs://nn/d/x".toList, "hdfs://nn/d/e".toList] ∧
      ∃ enough, ∀ calls, enough ≤ calls →
        hdfsLs (.sample bridge) .microseconds "hdfs://nn/d/*".toList [] calls =
          some (.ok rows) := by
  obtain ⟨bridge, connects, fed⟩ := MetaContext.exists_sample
  obtain ⟨outcome, ⟨enough, ends⟩, -⟩ := hdfsLs_returns fed
  obtain ⟨rows, paths, enough', ends'⟩ := MetaContext.exists_sampleRows connects fed
  have same : outcome = .ok rows := Option.some.inj
    ((ends _ (le_max_left enough enough')).symm.trans (ends' _ (le_max_right enough enough')))
  rw [same] at ends
  exact ⟨bridge, rows, paths, enough, ends⟩

/-- In a snapshot `/d/*` lists the file and the directory. -/
theorem hdfsLs_snapshot_sample :
    ∃ (bridge : ListBridge) (rows : List (MetaRow Int64)),
      (rows.map MetaRow.path).Perm ["hdfs://nn/d/x".toList, "hdfs://nn/d/e".toList] ∧
      ∃ enough, ∀ calls, enough ≤ calls →
        hdfsLs (.sample bridge) .microseconds "hdfs://nn/d/*".toList [] calls =
          some (.ok rows) := by
  obtain ⟨bridge, connects, fed⟩ := MetaContext.exists_sample
  obtain ⟨outcome, ends, returns_iff, returns⟩ :=
    hdfsLs_snapshot ⟨0, connects 0⟩ sample_dated fed
  rw [if_pos (by decide)] at returns_iff
  obtain ⟨rows, rfl⟩ := returns_iff.mpr ⟨samplePlan, parse_samplePath⟩
  obtain ⟨entries, nodup, mem_iff, all⟩ := returns rows rfl
  exact ⟨bridge, rows, sample_rows nodup mem_iff all, ends⟩

/-- `hdfs_ls` and `Glob` of `/d/*` agree on the files. -/
theorem hdfsLs_agrees_with_glob_sample :
    ∃ (bridge : ListBridge) (rows : List (MetaRow Int64)) (files : List (OpenFileInfo Int64))
        (calls : Nat),
      hdfsLs (.sample bridge) .microseconds "hdfs://nn/d/*".toList [] calls = some (.ok rows) ∧
      HdfsFileSystem.glob bridge .microseconds ⟨none, none, none⟩ "hdfs://nn/d/*".toList calls =
        some (.ok files) ∧
      ((rows.filter MetaRow.isFile).map fun row =>
          (row.path, row.size, row.lastModified)).Perm
        (files.map fun file =>
          (file.path, file.extendedInfo.fileSize, file.extendedInfo.lastModified)) := by
  obtain ⟨bridge, connects, fed⟩ := MetaContext.exists_sample
  obtain ⟨rows, -, enough, ends⟩ := MetaContext.exists_sampleRows connects fed
  obtain ⟨files, -, ⟨enough', ends'⟩, -⟩ :=
    HdfsFileSystem.exists_glob ⟨0, connects 0⟩ fed (sample_timed _) parse_samplePath
  have listed := ends (max enough enough') (le_max_left _ _)
  have globbed := ends' (max enough enough') (le_max_right _ _)
  exact ⟨bridge, rows, files, _, listed, globbed,
    hdfsLs_agrees_with_glob (by decide) fed fed listed globbed⟩

/-- `hdfs_stat` confirms the row of `/d/e`. -/
theorem hdfsStat_of_mem_hdfsLs_sample :
    ∃ (bridge : ListBridge) (row : MetaRow Int64), row.path = "hdfs://nn/d/e".toList ∧
      hdfsStat (.sample bridge) .microseconds row.path 2 = some (.ok [row]) := by
  obtain ⟨bridge, connects, fed⟩ := MetaContext.exists_sample
  obtain ⟨rows, paths, enough, ends⟩ := MetaContext.exists_sampleRows connects fed
  obtain ⟨row, row_mem, path_eq⟩ : ∃ row ∈ rows, row.path = "hdfs://nn/d/e".toList :=
    List.mem_map.mp (paths.mem_iff.mpr (by simp))
  exact ⟨bridge, row, path_eq,
    hdfsStat_of_mem_hdfsLs (by decide) (by decide) (by decide) fed (fun _ => rfl)
      (fun _ => ⟨⟨0, rfl⟩, rfl⟩) (ends enough le_rfl) row_mem le_rfl⟩

end DuckdbHdfs
