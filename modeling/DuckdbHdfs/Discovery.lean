import DuckdbHdfs.Scans

/-!
# File discovery

`Glob` returns the files that a pattern matches, `ListFilesExtended` calls back for the children of
a directory.  Either ends normally only with all that one walk has to send; a walk that fails ends
it with an exception instead.
-/

namespace DuckdbHdfs

universe u

variable {τ : Type u}

/-- The metadata handed to the database with a path. -/
structure ExtendedInfo (τ : Type u) where
  type : Text
  fileSize : Int64
  lastModified : τ
  deriving DecidableEq, Repr

/-- A path with its metadata. -/
structure OpenFileInfo (τ : Type u) where
  path : Text
  extendedInfo : ExtendedInfo τ
  deriving DecidableEq, Repr

/-- What an entry is called in results. -/
def typeName (isDir : Bool) : Text :=
  if isDir then "directory".toList else "file".toList

/-- The extended metadata of a listing or glob entry. -/
def makeExtendedInfo (db : Database τ) (entry : HdfsEntry) : Except Thrown (ExtendedInfo τ) :=
  match db.fromEpochMs entry.mtime.toInt64 with
  | .ok lastModified =>
      .ok { type := typeName entry.isDir, fileSize := entry.size, lastModified := lastModified }
  | .error message => .error (.conversion message)

/-- An entry under the path it is returned with. -/
def openFileInfo (db : Database τ) (path : Text) (entry : HdfsEntry) :
    Except Thrown (OpenFileInfo τ) :=
  (makeExtendedInfo db entry).map fun extendedInfo => ⟨path, extendedInfo⟩

/-- The settings of a session, where it has them. -/
structure Settings where
  listParallelism : Option UInt64
  skipPermissionErrors : Option Bool
  includeHidden : Option Bool
  deriving DecidableEq, Repr

/-- `DEFAULT_HDFS_LIST_PARALLELISM` -/
def defaultHdfsListParallelism : UInt64 := 16

namespace Settings

/-- The bound on concurrent listings, capped at the largest 32-bit integer. -/
def maxParallelism (settings : Settings) : Int :=
  match settings.listParallelism with
  | some setting => castInt32 (min setting.toNat (2 ^ 31 - 1))
  | none => castInt32 defaultHdfsListParallelism.toNat

/-- The behavior of a walk; both flags are off where they are not set. -/
def walkOptions (settings : Settings) : WalkOptions where
  skipPermissionErrors := settings.skipPermissionErrors.getD false
  includeHidden := settings.includeHidden.getD false

end Settings

/-- A loop body that appends what an entry gives, if it gives anything. -/
def collect {α : Type u} (give : HdfsEntry → Option (Except Thrown α)) (result : List α)
    (entry : HdfsEntry) : List α × Option Thrown :=
  match give entry with
  | none => (result, none)
  | some (.ok info) => (result ++ [info], none)
  | some (.error thrown) => (result, some thrown)

/-- What a loop has collected, unless it was left by an exception. -/
def collected {α : Type u} : List α × Option Thrown → Except Thrown (List α)
  | (result, none) => .ok result
  | (_, some thrown) => .error thrown

/-- Open a stream and collect what its entries give; `none` if that takes more calls of `Next`
than given. -/
def collectAll {α : Type u} (bridge : ListBridge) (glob : Bool) (url : Text) (maxParallelism : Int)
    (options : WalkOptions) (maxEntries : Nat) (give : HdfsEntry → Option (Except Thrown α))
    (calls : Nat) : Option (Except Thrown (List α)) :=
  match HdfsListStream.openUrl bridge glob url maxParallelism options with
  | .error message => some (.error (.fileSystem (.io message)))
  | .ok stream => (stream.forEach (collect give) bridge maxEntries calls []).map collected

/-- What `Glob` makes of an entry: directories are dropped. -/
def globFile (db : Database τ) (entry : HdfsEntry) : Option (Except Thrown (OpenFileInfo τ)) :=
  if entry.isDir then none else some (openFileInfo db entry.url entry)

/-- The loop body of `ListFilesExtended`: it calls back with the bare name, and notes that there
was an entry. -/
def listFile (db : Database τ) (state : List (OpenFileInfo τ) × Bool) (entry : HdfsEntry) :
    (List (OpenFileInfo τ) × Bool) × Option Thrown :=
  match openFileInfo db entry.name entry with
  | .ok info => ((state.1 ++ [info], true), none)
  | .error thrown => (state, some thrown)

namespace HdfsFileSystem

/-- The files that a pattern matches; `none` if that takes more calls of `Next` than given. -/
def glob (bridge : ListBridge) (db : Database τ) (settings : Settings) (path : Text)
    (calls : Nat) : Option (Except Thrown (List (OpenFileInfo τ))) :=
  collectAll bridge true path settings.maxParallelism settings.walkOptions db.standardVectorSize
    (globFile db) calls

/-- The calls back for a directory, and whether there was an entry. -/
def listFilesExtended (bridge : ListBridge) (db : Database τ) (directory : Text) (calls : Nat) :
    Option (List (OpenFileInfo τ) × Except Thrown Bool) :=
  let options : WalkOptions := { skipPermissionErrors := false, includeHidden := true }
  match HdfsListStream.openListStream bridge directory 1 options with
  | .error message => some ([], .error (.fileSystem (.io message)))
  | .ok stream =>
      (stream.forEach (listFile db) bridge db.standardVectorSize calls ([], false)).map fun
        | ((called, any), none) => (called, .ok any)
        | ((called, _), some thrown) => (called, .error thrown)

end HdfsFileSystem

/-! ## What a loop collects -/

section Collect

variable {α : Type u} {give : HdfsEntry → Option (Except Thrown α)}

/-- The loop collects what a beginning of the entries gives; unless it throws, all of them. -/
theorem forBatch_collect (give : HdfsEntry → Option (Except Thrown α)) (result : List α)
    (entries : List HdfsEntry) :
    ∃ front back infos, entries = front ++ back ∧
      List.Forall₂ (fun given info => given = Except.ok info) (front.filterMap give) infos ∧
      (forBatch (collect give) result entries).1 = result ++ infos ∧
      ((forBatch (collect give) result entries).2 = none ↔ back = []) ∧
      (back ≠ [] → ∃ entry ∈ entries, ∃ thrown, give entry = some (.error thrown)) := by
  induction entries generalizing result with
  | nil => exact ⟨[], [], [], rfl, .nil, by simp [forBatch], by simp [forBatch], by simp⟩
  | cons entry entries ih =>
      rw [forBatch]
      cases given : give entry with
      | none =>
          obtain ⟨front, back, infos, rfl, all, result_eq, none_iff, bad⟩ := ih result
          refine ⟨entry :: front, back, infos, rfl, ?_, ?_, ?_, ?_⟩
          · simpa [given] using all
          · simpa [collect, given] using result_eq
          · simpa [collect, given] using none_iff
          · exact fun more => (bad more).imp fun _ found => ⟨.tail _ found.1, found.2⟩
      | some outcome =>
          cases outcome with
          | ok info =>
              obtain ⟨front, back, infos, rfl, all, result_eq, none_iff, bad⟩ :=
                ih (result ++ [info])
              refine ⟨entry :: front, back, info :: infos, rfl, ?_, ?_, ?_, ?_⟩
              · simpa [given] using all
              · simpa [collect, given] using result_eq
              · simpa [collect, given] using none_iff
              · exact fun more => (bad more).imp fun _ found => ⟨.tail _ found.1, found.2⟩
          | error thrown =>
              refine ⟨[], entry :: entries, [], rfl, .nil, ?_, ?_, ?_⟩
              · simp [collect, given]
              · simp [collect, given]
              · exact fun _ => ⟨entry, List.mem_cons_self, thrown, given⟩

variable {bridge : ListBridge} {server : Nat → NameNode} {glob : Bool} {url : Text}
  {maxParallelism : Int} {options : WalkOptions} {maxEntries : Nat}

theorem HdfsListStream.openUrl_error {message : Text}
    (failed : openUrl bridge glob url maxParallelism options = .error message) :
    (∃ message, bridge.get 0 = .error message) ∨
      glob = true ∧ ∃ e, bridge.globStreamOpen 0 = .error e := by
  cases got : bridge.get 0 with
  | error message => exact .inl ⟨message, rfl⟩
  | ok client =>
      simp only [openUrl, openStream, create, got] at failed
      cases glob with
      | false => simp at failed
      | true =>
          cases opened : bridge.globStreamOpen 0 with
          | error e => exact .inr ⟨rfl, e, rfl⟩
          | ok _ => simp [opened] at failed

/-- What is asked of the bridge for an URL. -/
def urlRequest (glob : Bool) (url : Text) (maxParallelism : Int) (options : WalkOptions) :
    ListRequest where
  glob := glob
  hdfsPath := cStr (parseHdfsPath url).2
  recursive := false
  maxParallelism := maxParallelism
  options := options

theorem collectAll_mono {give : HdfsEntry → Option (Except Thrown α)} {calls more : Nat}
    {outcome : Except Thrown (List α)}
    (ends : collectAll bridge glob url maxParallelism options maxEntries give calls = some outcome)
    (enough : calls ≤ more) :
    collectAll bridge glob url maxParallelism options maxEntries give more = some outcome := by
  rw [collectAll] at ends ⊢
  split at ends
  · exact ends
  · obtain ⟨looped, scanned, rfl⟩ := Option.map_eq_some_iff.mp ends
    rw [HdfsListStream.forEach_mono scanned enough]
    rfl

/-- With enough calls a stream is collected to its end.  If all goes well, the result is what the
entries of one complete walk give; it throws without a connection, for an invalid pattern, for an
error that ends the walk, or where an entry gives an exception. -/
theorem collectAll_returns (give : HdfsEntry → Option (Except Thrown α)) (positive : 1 ≤ maxEntries)
    (small : maxEntries < 2 ^ 31)
    (fed : bridge.FedBy maxEntries server (urlRequest glob url maxParallelism options)) :
    ∃ outcome,
      (∃ enough, ∀ calls, enough ≤ calls →
        collectAll bridge glob url maxParallelism options maxEntries give calls = some outcome) ∧
      (∀ result, outcome = .ok result → ∃ stream entries,
        Scanned bridge maxEntries server (urlRequest glob url maxParallelism options) stream
          entries none ∧
          List.Forall₂ (fun given info => given = .ok info)
            ((entries.map (toEntry (parseHdfsPath url).1)).filterMap give) result) ∧
      (∀ thrown, outcome = .error thrown →
        (∃ message, bridge.get 0 = .error message) ∨
        (glob = true ∧ ∃ e, Glob.GlobPlan.parse (cStr (parseHdfsPath url).2) options.includeHidden =
          .error e) ∨
        (∃ e, (urlRequest glob url maxParallelism options).Fatal (server 0) e) ∨
        ∃ stream entry thrown, stream ≤ 1 ∧
          (urlRequest glob url maxParallelism options).Due (server stream) entry ∧
          give (toEntry (parseHdfsPath url).1 entry) = some (.error thrown)) := by
  cases opens : HdfsListStream.openUrl bridge glob url maxParallelism options with
  | error message =>
      refine ⟨.error (.fileSystem (.io message)), ⟨0, fun calls _ => ?_⟩, by simp, fun _ _ => ?_⟩
      · rw [collectAll, opens]
      · rcases HdfsListStream.openUrl_error opens with unconnected | ⟨globs, e, refused⟩
        · exact .inl unconnected
        · rw [fed.open_eq globs] at refused
          refine .inr (.inl ⟨globs, ?_⟩)
          cases parsed : Glob.GlobPlan.parse (cStr (parseHdfsPath url).2) options.includeHidden with
          | error e => exact ⟨e, rfl⟩
          | ok plan => simp [urlRequest, parsed, Except.map] at refused
  | ok s =>
      obtain ⟨client, rfl⟩ := HdfsListStream.eq_opened_of_openUrl opens
      obtain ⟨stream, entries, ended, scanned, enough, scans⟩ :=
        HdfsListStream.forEach_scanned positive small opens fed (collect give) []
      obtain ⟨front, back, infos, entries_eq, all, result_eq, none_iff, bad⟩ :=
        forBatch_collect give [] (entries.map (toEntry (parseHdfsPath url).1))
      cases thrown_eq : (forBatch (collect give) []
          (entries.map (toEntry (parseHdfsPath url).1))).2.or ended with
      | none =>
          obtain ⟨not_left, rfl⟩ := Option.or_eq_none_iff.mp thrown_eq
          refine ⟨.ok infos, ⟨enough, fun calls many => ?_⟩, fun result same => ?_, by simp⟩
          · rw [collectAll, opens]
            simp only [scans calls many, endingIn, thrown_eq, result_eq]
            rfl
          · obtain rfl : infos = result := Except.ok.inj same
            obtain rfl := none_iff.mp not_left
            rw [List.append_nil] at entries_eq
            rw [← entries_eq] at all
            exact ⟨stream, entries, scanned, all⟩
      | some thrown =>
          refine ⟨.error thrown, ⟨enough, fun calls many => ?_⟩, by simp, fun _ _ => ?_⟩
          · rw [collectAll, opens]
            simp only [scans calls many, endingIn, thrown_eq]
            rfl
          · by_cases left : back = []
            · -- the walk itself has failed
              rw [none_iff.mpr left, Option.none_or] at thrown_eq
              subst thrown_eq
              exact .inr (.inr (.inl scanned.exists_fatal))
            · obtain ⟨entry, mem, thrown', given⟩ := bad left
              obtain ⟨status, status_mem, rfl⟩ := List.mem_map.mp mem
              exact .inr (.inr (.inr ⟨stream, status, thrown', scanned.stream_le,
                scanned.sound status status_mem, given⟩))

theorem exists_collectAll (give : HdfsEntry → Option (Except Thrown α)) (positive : 1 ≤ maxEntries)
    (small : maxEntries < 2 ^ 31)
    (fed : bridge.FedBy maxEntries server (urlRequest glob url maxParallelism options)) :
    ∃ outcome enough, ∀ calls, enough ≤ calls →
      collectAll bridge glob url maxParallelism options maxEntries give calls = some outcome := by
  obtain ⟨outcome, ⟨enough, ends⟩, -⟩ := collectAll_returns give positive small fed
  exact ⟨outcome, enough, ends⟩

section Outcomes

variable {give : HdfsEntry → Option (Except Thrown α)} {calls : Nat} (positive : 1 ≤ maxEntries)
  (small : maxEntries < 2 ^ 31)
  (fed : bridge.FedBy maxEntries server (urlRequest glob url maxParallelism options))

include positive small fed

/-- What is collected comes from a complete walk. -/
theorem exists_scanned_of_collectAll {result : List α}
    (returned : collectAll bridge glob url maxParallelism options maxEntries give calls =
      some (.ok result)) :
    ∃ stream entries,
      Scanned bridge maxEntries server (urlRequest glob url maxParallelism options) stream entries
        none ∧
        List.Forall₂ (fun given info => given = .ok info)
          ((entries.map (toEntry (parseHdfsPath url).1)).filterMap give) result := by
  obtain ⟨outcome, ⟨enough, ends⟩, returns, -⟩ := collectAll_returns give positive small fed
  have later := ends (max calls enough) (le_max_right _ _)
  rw [collectAll_mono returned (le_max_left _ _)] at later
  exact returns result (Option.some.inj later).symm

theorem cause_of_collectAll {thrown : Thrown}
    (threw : collectAll bridge glob url maxParallelism options maxEntries give calls =
      some (.error thrown)) :
    (∃ message, bridge.get 0 = .error message) ∨
      (glob = true ∧ ∃ e, Glob.GlobPlan.parse (cStr (parseHdfsPath url).2) options.includeHidden =
        .error e) ∨
      (∃ e, (urlRequest glob url maxParallelism options).Fatal (server 0) e) ∨
      ∃ stream entry thrown, stream ≤ 1 ∧
        (urlRequest glob url maxParallelism options).Due (server stream) entry ∧
        give (toEntry (parseHdfsPath url).1 entry) = some (.error thrown) := by
  obtain ⟨outcome, ⟨enough, ends⟩, -, throws⟩ := collectAll_returns give positive small fed
  have later := ends (max calls enough) (le_max_right _ _)
  rw [collectAll_mono threw (le_max_left _ _)] at later
  exact throws thrown (Option.some.inj later).symm

end Outcomes

end Collect

section Results

variable {bridge : ListBridge} {db : Database τ} {server : Nat → NameNode}

/-- The file handed out for a status. -/
def fileOf (db : Database τ) (authority : Text) (status : FileStatus) :
    Except Thrown (OpenFileInfo τ) :=
  openFileInfo db (toEntry authority status).url (toEntry authority status)

/-- The child handed to the callback for a status. -/
def childOf (db : Database τ) (authority : Text) (status : FileStatus) :
    Except Thrown (OpenFileInfo τ) :=
  openFileInfo db (toEntry authority status).name (toEntry authority status)

/-- What `Glob` asks of the bridge. -/
def globRequest (settings : Settings) (path : Text) : ListRequest :=
  urlRequest true path settings.maxParallelism settings.walkOptions

/-- What `ListFilesExtended` asks of the bridge. -/
def listRequest (directory : Text) : ListRequest :=
  urlRequest false directory 1 { skipPermissionErrors := false, includeHidden := true }

theorem filterMap_globFile (authority : Text) (entries : List FileStatus) :
    (entries.map (toEntry authority)).filterMap (globFile db) =
      (entries.filter fun entry => !entry.isdir).map (fileOf db authority) := by
  induction entries with
  | nil => rfl
  | cons entry entries ih =>
      have isDir_eq : (toEntry authority entry).isDir = entry.isdir := rfl
      cases isdir : entry.isdir <;> simp [globFile, isDir_eq, isdir, ih, fileOf]

theorem globFile_error {authority : Text} {entry : FileStatus} {thrown : Thrown}
    (given : globFile db (toEntry authority entry) = some (.error thrown)) :
    entry.isdir = false ∧ fileOf db authority entry = .error thrown := by
  have isDir_eq : (toEntry authority entry).isDir = entry.isdir := rfl
  cases isdir : entry.isdir with
  | true => simp [globFile, isDir_eq, isdir] at given
  | false =>
      rw [globFile, isDir_eq, isdir, if_neg (by simp)] at given
      exact ⟨rfl, Option.some.inj given⟩

theorem forBatch_listFile (entries : List HdfsEntry) :
    forBatch (listFile db) ([], false) entries =
      let looped := forBatch (collect fun entry => some (openFileInfo db entry.name entry)) []
        entries
      ((looped.1, !looped.1.isEmpty), looped.2) := by
  refine forBatch_map (collect fun entry => some (openFileInfo db entry.name entry))
    (fun called => (called, !called.isEmpty)) (fun called entry => ?_) [] entries
  cases given : openFileInfo db entry.name entry <;> simp [listFile, collect, given]

variable {settings : Settings} {path directory : Text} {calls : Nat}

theorem exists_scanned_of_glob {files : List (OpenFileInfo τ)}
    (fed : bridge.FedBy db.standardVectorSize server (globRequest settings path))
    (globbed : HdfsFileSystem.glob bridge db settings path calls = some (.ok files)) :
    ∃ stream entries,
      Scanned bridge db.standardVectorSize server (globRequest settings path) stream entries none ∧
      List.Forall₂ (fun given file => given = .ok file)
        ((entries.filter fun entry => !entry.isdir).map (fileOf db (parseHdfsPath path).1))
        files := by
  obtain ⟨stream, entries, scanned, all⟩ :=
    exists_scanned_of_collectAll db.vectorSize_pos db.vectorSize_lt fed globbed
  rw [filterMap_globFile] at all
  exact ⟨stream, entries, scanned, all⟩

theorem cause_of_glob {thrown : Thrown}
    (fed : bridge.FedBy db.standardVectorSize server (globRequest settings path))
    (threw : HdfsFileSystem.glob bridge db settings path calls = some (.error thrown)) :
    (∃ message, bridge.get 0 = .error message) ∨
      (∃ e, Glob.GlobPlan.parse (cStr (parseHdfsPath path).2) settings.walkOptions.includeHidden =
        .error e) ∨
      (∃ e, (globRequest settings path).Fatal (server 0) e) ∨
      ∃ stream entry thrown, stream ≤ 1 ∧ (globRequest settings path).Due (server stream) entry ∧
        entry.isdir = false ∧ fileOf db (parseHdfsPath path).1 entry = .error thrown := by
  refine (cause_of_collectAll db.vectorSize_pos db.vectorSize_lt fed threw).imp_right
    (Or.imp (fun invalid => invalid.2) (Or.imp_right ?_))
  rintro ⟨stream, entry, thrown, stream_le, due, given⟩
  obtain ⟨file, failed⟩ := globFile_error given
  exact ⟨stream, entry, thrown, stream_le, due, file, failed⟩

/-- What `ListFilesExtended` makes of a walk: the callbacks, and how it ends. -/
inductive CalledBack (bridge : ListBridge) (db : Database τ) (server : Nat → NameNode)
    (directory : Text) : List (OpenFileInfo τ) → Except Thrown Bool → Prop
  | unconnected {message : Text} {thrown : Thrown} (refused : bridge.get 0 = .error message) :
      CalledBack bridge db server directory [] (.error thrown)
  | complete {stream : Nat} {entries : List FileStatus} {called : List (OpenFileInfo τ)}
      (scanned : Scanned bridge db.standardVectorSize server (listRequest directory) stream entries
        none)
      (all : List.Forall₂ (fun given info => given = .ok info)
        (entries.map (childOf db (parseHdfsPath directory).1)) called) :
      CalledBack bridge db server directory called (.ok (decide (entries ≠ [])))
  | stopped {stream : Nat} {visited left : List FileStatus} {ended : Option Thrown}
      {called : List (OpenFileInfo τ)} {thrown : Thrown}
      (scanned : Scanned bridge db.standardVectorSize server (listRequest directory) stream
        (visited ++ left) ended)
      (all : List.Forall₂ (fun given info => given = .ok info)
        (visited.map (childOf db (parseHdfsPath directory).1)) called)
      (cause : (∃ e, (listRequest directory).Fatal (server 0) e) ∨ ∃ entry ∈ visited ++ left,
        ∃ thrown, childOf db (parseHdfsPath directory).1 entry = .error thrown) :
      CalledBack bridge db server directory called (.error thrown)

/-- With enough calls `ListFilesExtended` comes to an end. -/
theorem exists_calledBack
    (fed : bridge.FedBy db.standardVectorSize server (listRequest directory)) :
    ∃ called outcome,
      (∃ enough, ∀ calls, enough ≤ calls →
        HdfsFileSystem.listFilesExtended bridge db directory calls = some (called, outcome)) ∧
      CalledBack bridge db server directory called outcome := by
  cases opens : HdfsListStream.openListStream bridge directory 1 ⟨false, true⟩ with
  | error message =>
      obtain ⟨reason, refused⟩ : ∃ reason, bridge.get 0 = .error reason := by
        rcases HdfsListStream.openUrl_error opens with unconnected | ⟨impossible, -⟩
        · exact unconnected
        · cases impossible
      refine ⟨[], .error (.fileSystem (.io message)), ⟨0, fun calls _ => ?_⟩, .unconnected refused⟩
      simp [HdfsFileSystem.listFilesExtended, opens]
  | ok s =>
      obtain ⟨client, rfl⟩ := HdfsListStream.eq_opened_of_openUrl opens
      obtain ⟨stream, entries, ended, scanned, enough, scans⟩ :=
        HdfsListStream.forEach_scanned db.vectorSize_pos db.vectorSize_lt opens fed
          (listFile db) ([], false)
      obtain ⟨front, back, called, split, all, called_eq, none_iff, bad⟩ :=
        forBatch_collect (fun entry => some (openFileInfo db entry.name entry)) []
          (entries.map (toEntry (parseHdfsPath directory).1))
      rw [List.nil_append] at called_eq
      obtain ⟨visited, left, rfl, rfl, rfl⟩ := List.map_eq_append_iff.mp split
      rw [List.filterMap_eq_map', List.map_map] at all
      simp only [endingIn, forBatch_listFile, called_eq] at scans
      have called_all : List.Forall₂ (fun given info => given = .ok info)
          (visited.map (childOf db (parseHdfsPath directory).1)) called := all
      cases thrown_eq : (forBatch (collect fun entry => some (openFileInfo db entry.name entry)) []
          ((visited ++ left).map (toEntry (parseHdfsPath directory).1))).2.or ended with
      | none =>
          obtain ⟨not_left, rfl⟩ := Option.or_eq_none_iff.mp thrown_eq
          obtain rfl : left = [] := by simpa using none_iff.mp not_left
          rw [List.append_nil] at scanned
          have some_called : (!called.isEmpty) = decide (visited ≠ []) := by
            have lengths := all.length_eq
            rw [List.length_map] at lengths
            cases called <;> cases visited <;> simp_all
          refine ⟨called, _, ⟨enough, fun calls many => ?_⟩, .complete scanned called_all⟩
          simp only [HdfsFileSystem.listFilesExtended, opens, scans calls many, thrown_eq,
            Option.map_some, some_called]
      | some thrown =>
          refine ⟨called, .error thrown, ⟨enough, fun calls many => ?_⟩,
            .stopped scanned called_all ?_⟩
          · simp only [HdfsFileSystem.listFilesExtended, opens, scans calls many, thrown_eq,
              Option.map_some]
          · by_cases visited_all : left = []
            · have not_left := none_iff.mpr (by simpa using visited_all)
              rw [not_left, Option.none_or] at thrown_eq
              subst thrown_eq
              exact .inl scanned.exists_fatal
            · obtain ⟨entry, mem, thrown', given⟩ := bad (by simpa using visited_all)
              obtain ⟨status, status_mem, rfl⟩ := List.mem_map.mp mem
              exact .inr ⟨status, status_mem, thrown', Option.some.inj given⟩

end Results

end DuckdbHdfs
