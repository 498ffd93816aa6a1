import DuckdbHdfs.Discovery
import DuckdbHdfs.Walk.Snapshots

/-!
# Results of discovery

`Glob` and `ListFilesExtended` come to an end, normally only with all that one walk has to send.
While nothing changes, they return exactly the files whose names the pattern describes, and exactly
the children of the directory.
-/

namespace DuckdbHdfs

universe u

open Glob

variable {τ : Type u} {snapshot : Snapshot} {bridge : ListBridge} {db : Database τ}

/-- The modification times of the nodes that are handed out are timestamps. -/
def Snapshot.Timed (snapshot : Snapshot) (db : Database τ) (handedOut : FileStatus → Prop) : Prop :=
  ∀ node ∈ snapshot.nodes, handedOut node →
    ∃ time, db.fromEpochMs node.modificationTime.toInt64 = .ok time

theorem sample_timed (handedOut : FileStatus → Prop) :
    Snapshot.sample.Timed .microseconds handedOut := by
  have epoch : ∀ node ∈ Snapshot.sample.nodes, node.modificationTime = 0 := by decide
  intro node mem _
  exact ⟨0, by rw [epoch node mem]; rfl⟩

theorem sample_path : cStr (parseHdfsPath "hdfs://nn/d/*".toList).2 = "/d/*".toList := by
  decide +kernel

theorem parse_samplePath :
    GlobPlan.parse (cStr (parseHdfsPath "hdfs://nn/d/*".toList).2) false = .ok samplePlan :=
  sample_path ▸ parse_samplePlan

theorem samplePlan_decided : ∀ node ∈ Snapshot.sample.nodes,
    (∃ components ∈ samplePlan.patterns, completes false components node.names = true) ↔
      node ∈ sampleEntries := by
  decide +kernel

theorem path_of_openFileInfo {path : Text} {entry : HdfsEntry} {info : OpenFileInfo τ}
    (given : openFileInfo db path entry = .ok info) : info.path = path := by
  rw [openFileInfo] at given
  cases made : makeExtendedInfo db entry with
  | error thrown => simp [made, Except.map] at given
  | ok extendedInfo =>
      rw [made] at given
      rw [← Except.ok.inj given]

theorem openFileInfo_eq_error {authority path : Text} {status : FileStatus} {thrown : Thrown}
    (failed : openFileInfo db path (toEntry authority status) = .error thrown) :
    ∀ time, db.fromEpochMs status.modificationTime.toInt64 ≠ .ok time := by
  intro time converted
  have mtime_eq : (toEntry authority status).mtime = status.modificationTime := rfl
  simp [openFileInfo, makeExtendedInfo, mtime_eq, converted, Except.map] at failed

section Globs

variable {settings : Settings} {path : Text} {plan : GlobPlan} {entry : FileStatus}
  {maxParallelism : Int} {options : WalkOptions}

theorem due_urlRequest_glob_iff
    (parsed : GlobPlan.parse (cStr (parseHdfsPath path).2) options.includeHidden = .ok plan) :
    (urlRequest true path maxParallelism options).Due snapshot.nameNode entry ↔
      entry ∈ snapshot.nodes ∧
        Matches (cStr (parseHdfsPath path).2) options.includeHidden entry.names := by
  rw [← globbed_snapshot_iff parsed]
  simp only [ListRequest.Due, urlRequest, parsed, Except.ok.injEq, exists_eq_left']

theorem not_fatal_urlRequest_glob (e : HdfsError) :
    ¬(urlRequest true path maxParallelism options).Fatal snapshot.nameNode e := by
  rintro ⟨plan, -, fatal⟩
  exact not_globFatal_snapshot e fatal

theorem parses_of_collectAll {α : Type u} {server : Nat → NameNode} {glob : Bool} {url : Text}
    {maxParallelism : Int} {options : WalkOptions} {maxEntries calls : Nat}
    {give : HdfsEntry → Option (Except Thrown α)} {result : List α}
    (fed : bridge.FedBy maxEntries server (urlRequest glob url maxParallelism options))
    (collected : collectAll bridge glob url maxParallelism options maxEntries give calls =
      some (.ok result)) : (urlRequest glob url maxParallelism options).Parses := by
  rw [collectAll] at collected
  split at collected
  · simp at collected
  · rename_i s opens
    obtain ⟨client, rfl⟩ := HdfsListStream.eq_opened_of_openUrl opens
    exact HdfsListStream.parses_of_openUrl opens fed

/-- `Glob` of a valid pattern returns the files of the snapshot whose names match. -/
theorem HdfsFileSystem.exists_glob (connected : ∃ client, bridge.get 0 = .ok client)
    (fed : bridge.FedBy db.standardVectorSize (fun _ => snapshot.nameNode)
      (globRequest settings path))
    (timed : snapshot.Timed db fun node => node.isdir = false)
    (parsed : GlobPlan.parse (cStr (parseHdfsPath path).2) settings.walkOptions.includeHidden =
      .ok plan) :
    ∃ (files : List (OpenFileInfo τ)) (nodes : List FileStatus),
      (∃ enough, ∀ calls, enough ≤ calls →
        glob bridge db settings path calls = some (.ok files)) ∧
      nodes.Nodup ∧
      (∀ node, node ∈ nodes ↔ node ∈ snapshot.nodes ∧ node.isdir = false ∧
        Matches (cStr (parseHdfsPath path).2) settings.walkOptions.includeHidden node.names) ∧
      List.Forall₂ (fun node file => fileOf db (parseHdfsPath path).1 node = .ok file) nodes
        files := by
  obtain ⟨outcome, enough, ends⟩ :=
    exists_collectAll (globFile db) db.vectorSize_pos db.vectorSize_lt fed
  have ended := ends enough le_rfl
  cases outcome with
  | ok files =>
      obtain ⟨stream, entries, scanned, all⟩ := exists_scanned_of_glob fed ended
      refine ⟨files, entries.filter fun entry => !entry.isdir, ⟨enough, ends⟩,
        (List.Nodup.of_map _ scanned.nodup).filter _, fun node => ?_,
        List.forall₂_map_left_iff.mp all⟩
      have found : node ∈ entries ↔ (globRequest settings path).Due snapshot.nameNode node :=
        ⟨scanned.sound node, scanned.complete rfl node⟩
      rw [List.mem_filter, found, globRequest, due_urlRequest_glob_iff parsed]
      simp [and_assoc, and_comm]
  | error thrown =>
      rcases cause_of_glob fed ended with ⟨message, unconnected⟩ | ⟨e, invalid⟩ | ⟨e, fatal⟩ |
        ⟨stream, entry, thrown, -, due, file, failed⟩
      · obtain ⟨client, got⟩ := connected
        simp [got] at unconnected
      · simp [parsed] at invalid
      · exact absurd fatal (not_fatal_urlRequest_glob e)
      · have node_mem := ((due_urlRequest_glob_iff parsed).mp due).1
        obtain ⟨time, converted⟩ := timed entry node_mem file
        exact absurd converted (openFileInfo_eq_error failed time)

theorem sample_files {pattern authority : Text} {plan : GlobPlan} {nodes : List FileStatus}
    {files : List (OpenFileInfo Int64)} (parsed : GlobPlan.parse pattern false = .ok plan)
    (decided : ∀ node ∈ Snapshot.sample.nodes,
      (∃ components ∈ plan.patterns, completes false components node.names = true) ↔
        node ∈ sampleEntries)
    (authority_eq : authority = "hdfs://nn".toList) (nodup : nodes.Nodup)
    (mem_iff : ∀ node, node ∈ nodes ↔ node ∈ Snapshot.sample.nodes ∧ node.isdir = false ∧
      Matches pattern false node.names)
    (all : List.Forall₂ (fun node file => fileOf .microseconds authority node = .ok file) nodes
      files) :
    files = [⟨"hdfs://nn/d/x".toList, ⟨"file".toList, 3, 0⟩⟩] := by
  have nodes_eq : nodes = [NameNode.sampleStatus "/d/x".toList 3 false] := by
    refine List.perm_singleton.mp <|
      (List.perm_ext_iff_of_nodup nodup (by decide)).mpr fun node => ?_
    rw [mem_iff, ← and_assoc, and_right_comm, sample_matches_iff parsed decided]
    simp only [sampleEntries, List.mem_cons, List.not_mem_nil, or_false]
    constructor
    · rintro ⟨rfl | rfl, file⟩
      · rfl
      · cases file
    · rintro rfl
      exact ⟨.inl rfl, rfl⟩
  subst nodes_eq authority_eq
  obtain ⟨file, rest, given, nothing, rfl⟩ := List.forall₂_cons_left_iff.mp all
  obtain rfl := List.forall₂_nil_left_iff.mp nothing
  have given' : fileOf .microseconds "hdfs://nn".toList
      (NameNode.sampleStatus "/d/x".toList 3 false) =
        .ok ⟨"hdfs://nn/d/x".toList, ⟨"file".toList, 3, 0⟩⟩ := by
    decide +kernel
  rw [Except.ok.inj (given.symm.trans given')]

/-- With enough calls `Glob` comes to an end.  If it returns files, they are those that one
complete walk was to send, each once; the walk is the second one only if the first has lost its
connection.  It throws without a connection, for an invalid pattern, for an error that ends the
walk, or for a file whose time is no timestamp. -/
theorem HdfsFileSystem.glob_returns
    (fed : bridge.FedBy db.standardVectorSize server (globRequest settings path)) :
    ∃ outcome,
      (∃ enough, ∀ calls, enough ≤ calls →
        glob bridge db settings path calls = some outcome) ∧
      (∀ files, outcome = .ok files → ∃ stream entries,
        Scanned bridge db.standardVectorSize server (globRequest settings path) stream entries
          none ∧
          List.Forall₂ (fun given file => given = .ok file)
            ((entries.filter fun entry => !entry.isdir).map
              (fileOf db (parseHdfsPath path).1)) files) ∧
      (∀ thrown, outcome = .error thrown →
        (∃ message, bridge.get 0 = .error message) ∨
        (∃ e, Glob.GlobPlan.parse (cStr (parseHdfsPath path).2) settings.walkOptions.includeHidden =
          .error e) ∨
        (∃ e, (globRequest settings path).Fatal (server 0) e) ∨
        ∃ stream entry thrown, stream ≤ 1 ∧ (globRequest settings path).Due (server stream) entry ∧
          entry.isdir = false ∧ fileOf db (parseHdfsPath path).1 entry = .error thrown) := by
  obtain ⟨outcome, enough, ends⟩ :=
    exists_collectAll (globFile db) db.vectorSize_pos db.vectorSize_lt fed
  have ended := ends enough le_rfl
  refine ⟨outcome, ⟨enough, ends⟩, ?_, ?_⟩
  · rintro files rfl
    exact exists_scanned_of_glob fed ended
  · rintro thrown rfl
    exact cause_of_glob fed ended

/-- The file in `/d`, by a bridge that its namespace feeds. -/
theorem HdfsFileSystem.glob_returns_sample :
    ∃ bridge, ∃ enough, ∀ calls, enough ≤ calls →
      glob bridge .microseconds ⟨none, none, none⟩ "hdfs://nn/d/*".toList calls =
        some (.ok [⟨"hdfs://nn/d/x".toList, ⟨"file".toList, 3, 0⟩⟩]) := by
  obtain ⟨bridge, connects, fed⟩ :=
    ListBridge.exists_fedBy Database.microseconds.standardVectorSize
      (fun _ => Snapshot.sample.nameNode) (globRequest ⟨none, none, none⟩ "hdfs://nn/d/*".toList)
  obtain ⟨outcome, ⟨enough, ends⟩, -⟩ := glob_returns fed
  obtain ⟨files, nodes, ⟨enough', ends'⟩, nodup, mem_iff, all⟩ :=
    exists_glob ⟨0, connects 0⟩ fed (sample_timed _) parse_samplePath
  have same : outcome = .ok files := Option.some.inj
    ((ends _ (le_max_left enough enough')).symm.trans (ends' _ (le_max_right enough enough')))
  have files_eq :=
    sample_files parse_samplePath samplePlan_decided (by decide +kernel) nodup mem_iff all
  rw [same, files_eq] at ends
  exact ⟨bridge, enough, ends⟩

/-- `Glob` ends normally exactly on a valid pattern, and it returns the files of the snapshot whose
names match, each once. -/
theorem HdfsFileSystem.glob_snapshot (connected : ∃ client, bridge.get 0 = .ok client)
    (fed : bridge.FedBy db.standardVectorSize (fun _ => snapshot.nameNode)
      (globRequest settings path))
    (timed : snapshot.Timed db fun node => node.isdir = false) :
    ∃ outcome,
      (∃ enough, ∀ calls, enough ≤ calls →
        glob bridge db settings path calls = some outcome) ∧
      ((∃ files, outcome = .ok files) ↔
        ∃ plan, GlobPlan.parse (cStr (parseHdfsPath path).2) settings.walkOptions.includeHidden =
          .ok plan) ∧
      ∀ files, outcome = .ok files → ∃ nodes : List FileStatus, nodes.Nodup ∧
        (∀ node, node ∈ nodes ↔ node ∈ snapshot.nodes ∧ node.isdir = false ∧
          Matches (cStr (parseHdfsPath path).2) settings.walkOptions.includeHidden node.names) ∧
        List.Forall₂ (fun node file => fileOf db (parseHdfsPath path).1 node = .ok file) nodes
          files := by
  cases parsed : GlobPlan.parse (cStr (parseHdfsPath path).2)
      settings.walkOptions.includeHidden with
  | ok plan =>
      obtain ⟨files, nodes, ends, nodup, mem_iff, all⟩ := exists_glob connected fed timed parsed
      refine ⟨.ok files, ends, iff_of_true ⟨files, rfl⟩ ⟨plan, rfl⟩, ?_⟩
      rintro files' same
      obtain rfl := Except.ok.inj same
      exact ⟨nodes, nodup, mem_iff, all⟩
  | error e =>
      obtain ⟨outcome, enough, ends⟩ :=
        exists_collectAll (globFile db) db.vectorSize_pos db.vectorSize_lt fed
      have not_returned : ∀ files, outcome ≠ .ok files := by
        rintro files rfl
        obtain ⟨plan, valid⟩ := parses_of_collectAll fed (ends enough le_rfl) rfl
        exact absurd (parsed.symm.trans valid) (by simp)
      refine ⟨outcome, ⟨enough, ends⟩, iff_of_false ?_ (by simp), fun files same => ?_⟩
      · rintro ⟨files, same⟩
        exact not_returned files same
      · exact absurd same (not_returned files)

/-- The file in `/d` of a snapshot. -/
theorem HdfsFileSystem.glob_snapshot_sample :
    ∃ bridge, ∃ enough, ∀ calls, enough ≤ calls →
      glob bridge .microseconds ⟨none, none, none⟩ "hdfs://nn/d/*".toList calls =
        some (.ok [⟨"hdfs://nn/d/x".toList, ⟨"file".toList, 3, 0⟩⟩]) := by
  obtain ⟨bridge, connects, fed⟩ :=
    ListBridge.exists_fedBy Database.microseconds.standardVectorSize
      (fun _ => Snapshot.sample.nameNode) (globRequest ⟨none, none, none⟩ "hdfs://nn/d/*".toList)
  obtain ⟨outcome, ends, returns_iff, returns⟩ :=
    glob_snapshot ⟨0, connects 0⟩ fed (sample_timed _)
  obtain ⟨files, rfl⟩ := returns_iff.mpr ⟨samplePlan, parse_samplePath⟩
  obtain ⟨nodes, nodup, mem_iff, all⟩ := returns files rfl
  have files_eq :=
    sample_files parse_samplePath samplePlan_decided (by decide +kernel) nodup mem_iff all
  rw [files_eq] at ends
  exact ⟨bridge, ends⟩

end Globs

section Listings

variable {directory : Text} {entry : FileStatus} {maxParallelism : Int} {options : WalkOptions}

/-- The entries that a directory, or a file, is listed with. -/
def Snapshot.listing (snapshot : Snapshot) (path : Text) (node : FileStatus) : List FileStatus :=
  if node.isdir then
    (snapshot.children (splitPath path)).map (childAt path)
  else
    [{ node with path := path }]

theorem Snapshot.listing_nodup (path : Text) (node : FileStatus) :
    (snapshot.listing path node).Nodup := by
  rw [listing]
  split
  · exact List.Nodup.of_map _ (childAt_nodup path)
  · exact List.nodup_singleton _

theorem Snapshot.exists_node_of_mem_listing {path : Text} {node : FileStatus}
    (found : snapshot.find (splitPath path) = some node)
    (mem : entry ∈ snapshot.listing path node) :
    ∃ other ∈ snapshot.nodes, other.modificationTime = entry.modificationTime ∧
      other.accessTime = entry.accessTime := by
  rw [listing] at mem
  split at mem
  · obtain ⟨child, child_mem, rfl⟩ := List.mem_map.mp mem
    exact ⟨child, .tail _ (mem_children_iff.mp child_mem).1, rfl, rfl⟩
  · obtain rfl := List.mem_singleton.mp mem
    exact ⟨node, (find_eq_some_iff.mp found).1, rfl, rfl⟩

theorem exists_listing_of_due
    (due : (urlRequest false directory maxParallelism options).Due snapshot.nameNode entry) :
    ∃ node, snapshot.find (splitPath (cStr (parseHdfsPath directory).2)) = some node ∧
      entry ∈ snapshot.listing (cStr (parseHdfsPath directory).2) node := by
  obtain ⟨node, found, ⟨file, rfl⟩ | ⟨isdir, child, mem, -, rfl⟩⟩ := listed_snapshot_iff.mp due
  · exact ⟨node, found, by simp [Snapshot.listing, file, urlRequest]⟩
  · refine ⟨node, found, ?_⟩
    rw [Snapshot.listing, if_pos isdir]
    exact List.mem_map_of_mem mem

theorem due_listRequest_iff :
    (listRequest directory).Due snapshot.nameNode entry ↔
      ∃ node, snapshot.find (splitPath (cStr (parseHdfsPath directory).2)) = some node ∧
        entry ∈ snapshot.listing (cStr (parseHdfsPath directory).2) node := by
  refine ⟨exists_listing_of_due, fun ⟨node, found, mem⟩ => ?_⟩
  refine listed_snapshot_iff.mpr ⟨node, found, ?_⟩
  rw [Snapshot.listing] at mem
  split at mem
  · rename_i isdir
    obtain ⟨child, child_mem, rfl⟩ := List.mem_map.mp mem
    exact .inr ⟨isdir, child, child_mem, .inl rfl, rfl⟩
  · rename_i file
    exact .inl ⟨by simpa using file, List.mem_singleton.mp mem⟩

theorem fatal_listRequest_iff {e : HdfsError} :
    (listRequest directory).Fatal snapshot.nameNode e ↔
      snapshot.find (splitPath (cStr (parseHdfsPath directory).2)) = none ∧
        e = .fileNotFound (cStr (parseHdfsPath directory).2) :=
  listingFatal_snapshot_iff

/-- `ListFilesExtended` of a path that is there calls back for what is listed. -/
theorem HdfsFileSystem.exists_listFilesExtended {node : FileStatus}
    (connected : ∃ client, bridge.get 0 = .ok client)
    (fed : bridge.FedBy db.standardVectorSize (fun _ => snapshot.nameNode) (listRequest directory))
    (timed : snapshot.Timed db fun _ => True)
    (there : snapshot.find (splitPath (cStr (parseHdfsPath directory).2)) = some node) :
    ∃ called entries,
      (∃ enough, ∀ calls, enough ≤ calls → listFilesExtended bridge db directory calls =
        some (called, .ok (decide (entries ≠ [])))) ∧
      entries.Perm (snapshot.listing (cStr (parseHdfsPath directory).2) node) ∧
      List.Forall₂ (fun entry info => childOf db (parseHdfsPath directory).1 entry = .ok info)
        entries called := by
  obtain ⟨called, outcome, ends, calledBack⟩ := exists_calledBack fed
  cases calledBack with
  | unconnected refused =>
      obtain ⟨client, got⟩ := connected
      simp [got] at refused
  | @complete stream entries called scanned all =>
      refine ⟨called, entries, ends, ?_, List.forall₂_map_left_iff.mp all⟩
      refine (List.perm_ext_iff_of_nodup (.of_map _ scanned.nodup)
        (Snapshot.listing_nodup _ _)).mpr fun entry => ?_
      have found : entry ∈ entries ↔ (listRequest directory).Due snapshot.nameNode entry :=
        ⟨scanned.sound entry, scanned.complete rfl entry⟩
      rw [found, due_listRequest_iff, there]
      simp
  | @stopped stream visited left ended called thrown scanned all cause =>
      rcases cause with ⟨e, fatal⟩ | ⟨entry, mem, thrown', failed⟩
      · obtain ⟨missing, -⟩ := fatal_listRequest_iff.mp fatal
        simp [missing] at there
      · obtain ⟨node, found, listed⟩ := due_listRequest_iff.mp (scanned.sound entry mem)
        obtain ⟨other, other_mem, time_eq, -⟩ := Snapshot.exists_node_of_mem_listing found listed
        obtain ⟨time, converted⟩ := timed other other_mem trivial
        exact absurd (time_eq ▸ converted) (openFileInfo_eq_error failed time)

theorem HdfsFileSystem.exists_listFilesExtended_error
    (fed : bridge.FedBy db.standardVectorSize (fun _ => snapshot.nameNode) (listRequest directory))
    (missing : snapshot.find (splitPath (cStr (parseHdfsPath directory).2)) = none) :
    ∃ thrown enough, ∀ calls, enough ≤ calls →
      listFilesExtended bridge db directory calls = some ([], .error thrown) := by
  obtain ⟨called, outcome, ends, calledBack⟩ := exists_calledBack fed
  cases calledBack with
  | unconnected => exact ⟨_, ends⟩
  | complete scanned =>
      exact absurd (fatal_listRequest_iff.mpr ⟨missing, rfl⟩) (scanned.clean_iff.mp rfl _)
  | @stopped stream visited left ended called thrown scanned all cause =>
      obtain rfl : visited = [] := by
        refine List.eq_nil_iff_forall_not_mem.mpr fun entry mem => ?_
        obtain ⟨node, found, -⟩ :=
          due_listRequest_iff.mp (scanned.sound entry (List.mem_append_left _ mem))
        simp [missing] at found
      obtain rfl : called = [] := by simpa using all
      exact ⟨thrown, ends⟩

theorem sample_children {entries : List FileStatus} {called : List (OpenFileInfo Int64)}
    (perm : entries.Perm (Snapshot.sample.listing (cStr (parseHdfsPath "hdfs://nn/d".toList).2)
      (NameNode.sampleStatus "/d".toList 0 true)))
    (all : List.Forall₂ (fun entry info =>
      childOf .microseconds (parseHdfsPath "hdfs://nn/d".toList).1 entry = .ok info) entries
        called) :
    (called.map OpenFileInfo.path).Perm ["x".toList, ".h".toList, "e".toList] := by
  have names_eq : called.map OpenFileInfo.path = entries.map fun entry =>
      (toEntry (parseHdfsPath "hdfs://nn/d".toList).1 entry).name :=
    all.map_eq_map fun _ _ => path_of_openFileInfo
  rw [names_eq]
  exact (perm.map _).trans (.of_eq (by decide +kernel))

theorem sample_directory :
    Snapshot.sample.find (splitPath (cStr (parseHdfsPath "hdfs://nn/d".toList).2)) =
      some (NameNode.sampleStatus "/d".toList 0 true) := by
  decide +kernel

theorem nonempty_of_sample {entries : List FileStatus}
    (perm : entries.Perm (Snapshot.sample.listing (cStr (parseHdfsPath "hdfs://nn/d".toList).2)
      (NameNode.sampleStatus "/d".toList 0 true))) : entries ≠ [] := by
  rintro rfl
  exact absurd perm.symm.eq_nil (by decide +kernel)

/-- With enough calls `ListFilesExtended` comes to an end.  If it returns, it has called back for
the entries that one complete walk was to send, each once, and it returns false only if there are
none; it throws without a connection, for an error that ends the walk, or for a time that is no
timestamp.  Whatever happens, it only calls back for entries of the directory, each at most once. -/
theorem HdfsFileSystem.listFilesExtended_returns
    (fed : bridge.FedBy db.standardVectorSize server (listRequest directory)) :
    ∃ called outcome,
      (∃ enough, ∀ calls, enough ≤ calls →
        listFilesExtended bridge db directory calls = some (called, outcome)) ∧
      (∃ (stream : Nat) (visited : List FileStatus), stream ≤ 1 ∧
        (visited.map FileStatus.path).Nodup ∧
        (∀ entry ∈ visited, (listRequest directory).Due (server stream) entry) ∧
        List.Forall₂ (fun given info => given = .ok info)
          (visited.map (childOf db (parseHdfsPath directory).1)) called) ∧
      (∀ any, outcome = .ok any → ∃ stream entries,
        Scanned bridge db.standardVectorSize server (listRequest directory) stream entries none ∧
          (any = true ↔ entries ≠ []) ∧
          List.Forall₂ (fun given info => given = .ok info)
            (entries.map (childOf db (parseHdfsPath directory).1)) called) ∧
      (∀ thrown, outcome = .error thrown →
        (∃ message, bridge.get 0 = .error message) ∨
        (∃ e, (listRequest directory).Fatal (server 0) e) ∨
        ∃ stream entry thrown, stream ≤ 1 ∧ (listRequest directory).Due (server stream) entry ∧
          childOf db (parseHdfsPath directory).1 entry = .error thrown) := by
  obtain ⟨called, outcome, ends, calledBack⟩ := exists_calledBack fed
  refine ⟨called, outcome, ends, ?_⟩
  cases calledBack with
  | unconnected refused =>
      exact ⟨⟨0, [], by decide, List.nodup_nil, by simp, .nil⟩, by simp,
        fun _ _ => .inl ⟨_, refused⟩⟩
  | @complete stream entries called scanned all =>
      refine ⟨⟨stream, entries, scanned.stream_le, scanned.nodup, scanned.sound, all⟩, ?_, by simp⟩
      rintro any same
      obtain rfl := Except.ok.inj same
      exact ⟨stream, entries, scanned, by simp, all⟩
  | @stopped stream visited left ended called thrown scanned all cause =>
      have nodup : (visited.map FileStatus.path).Nodup :=
        scanned.nodup.sublist ((List.sublist_append_left visited left).map _)
      have sound : ∀ entry ∈ visited, (listRequest directory).Due (server stream) entry :=
        fun entry mem => scanned.sound entry (List.mem_append_left _ mem)
      refine ⟨⟨stream, visited, scanned.stream_le, nodup, sound, all⟩, by simp, fun _ _ => ?_⟩
      refine .inr (cause.imp_right ?_)
      rintro ⟨entry, mem, thrown', failed⟩
      exact ⟨stream, entry, thrown', scanned.stream_le, scanned.sound entry mem, failed⟩

/-- The children of `/d`, by a bridge that its namespace feeds. -/
theorem HdfsFileSystem.listFilesExtended_returns_sample :
    ∃ bridge called, (called.map OpenFileInfo.path).Perm ["x".toList, ".h".toList, "e".toList] ∧
      ∃ enough, ∀ calls, enough ≤ calls →
        listFilesExtended bridge .microseconds "hdfs://nn/d".toList calls =
          some (called, .ok true) := by
  obtain ⟨bridge, connects, fed⟩ :=
    ListBridge.exists_fedBy Database.microseconds.standardVectorSize
      (fun _ => Snapshot.sample.nameNode) (listRequest "hdfs://nn/d".toList)
  obtain ⟨called, outcome, ⟨enough, ends⟩, -⟩ := listFilesExtended_returns fed
  obtain ⟨called', entries, ⟨enough', ends'⟩, perm, all⟩ :=
    exists_listFilesExtended ⟨0, connects 0⟩ fed (sample_timed _) sample_directory
  have same := Option.some.inj
    ((ends _ (le_max_left enough enough')).symm.trans (ends' _ (le_max_right enough enough')))
  obtain ⟨rfl, rfl⟩ := Prod.mk.inj same
  have nonempty := nonempty_of_sample perm
  exact ⟨bridge, called, sample_children perm all, enough, by simpa [nonempty] using ends⟩

/-- `ListFilesExtended` throws for a missing path.  Otherwise it calls back for the children of the
directory, hidden ones included, each once, or for the file itself, and tells whether there was
one. -/
theorem HdfsFileSystem.listFilesExtended_snapshot (connected : ∃ client, bridge.get 0 = .ok client)
    (fed : bridge.FedBy db.standardVectorSize (fun _ => snapshot.nameNode) (listRequest directory))
    (timed : snapshot.Timed db fun _ => True) :
    ∃ called outcome,
      (∃ enough, ∀ calls, enough ≤ calls →
        listFilesExtended bridge db directory calls = some (called, outcome)) ∧
      (snapshot.find (splitPath (cStr (parseHdfsPath directory).2)) = none →
        called = [] ∧ ∃ thrown, outcome = .error thrown) ∧
      ∀ node, snapshot.find (splitPath (cStr (parseHdfsPath directory).2)) = some node →
        ∃ entries, entries.Perm (snapshot.listing (cStr (parseHdfsPath directory).2) node) ∧
          List.Forall₂ (fun entry info => childOf db (parseHdfsPath directory).1 entry = .ok info)
            entries called ∧
          outcome = .ok (decide (entries ≠ [])) := by
  cases there : snapshot.find (splitPath (cStr (parseHdfsPath directory).2)) with
  | none =>
      obtain ⟨thrown, ends⟩ := exists_listFilesExtended_error fed there
      exact ⟨[], .error thrown, ends, fun _ => ⟨rfl, thrown, rfl⟩, by simp⟩
  | some node =>
      obtain ⟨called, entries, ends, perm, all⟩ :=
        exists_listFilesExtended connected fed timed there
      refine ⟨called, _, ends, by simp, ?_⟩
      rintro node' same
      obtain rfl := Option.some.inj same
      exact ⟨entries, perm, all, rfl⟩

/-- The children of `/d` in a snapshot. -/
theorem HdfsFileSystem.listFilesExtended_snapshot_sample :
    ∃ bridge called, (called.map OpenFileInfo.path).Perm ["x".toList, ".h".toList, "e".toList] ∧
      ∃ enough, ∀ calls, enough ≤ calls →
        listFilesExtended bridge .microseconds "hdfs://nn/d".toList calls =
          some (called, .ok true) := by
  obtain ⟨bridge, connects, fed⟩ :=
    ListBridge.exists_fedBy Database.microseconds.standardVectorSize
      (fun _ => Snapshot.sample.nameNode) (listRequest "hdfs://nn/d".toList)
  obtain ⟨called, outcome, ends, -, lists⟩ :=
    listFilesExtended_snapshot ⟨0, connects 0⟩ fed (sample_timed _)
  obtain ⟨entries, perm, all, rfl⟩ := lists _ sample_directory
  have nonempty := nonempty_of_sample perm
  exact ⟨bridge, called, sample_children perm all, by simpa [nonempty] using ends⟩

end Listings

end DuckdbHdfs
