import DuckdbHdfs.Entries

/-!
# The namespace behind a walk

A walk sees the file system through the answers of the NameNode.  A `NameNode` fixes the answer
for every path, as it is when nothing changes during the walk: the directories form a finite tree
and the children of one directory have distinct names.  Any path may answer with any error.
-/

namespace DuckdbHdfs

/-- The answers of the server, one for each path. -/
structure NameNode where
  getFileInfo : Text → Except HdfsError FileStatus
  listStatus : Text → Except HdfsError (List FileStatus)
  /-- Paths whose listing, if there is one, is that of a directory. -/
  isDir : Text → Bool
  /-- Number of directory levels below a path. -/
  height : Text → Nat
  names_getFileInfo : ∀ {path status}, getFileInfo path = .ok status →
    status.names = splitPath path
  /-- Listing a file returns the file itself. -/
  listStatus_file : ∀ {path entries}, isDir path = false → listStatus path = .ok entries →
    ∃ entry, entries = [entry] ∧ entry.path = path ∧ entry.isdir = false
  /-- Listing a directory returns its children. -/
  listStatus_child : ∀ {path entries}, isDir path = true → listStatus path = .ok entries →
    ∀ child ∈ entries, ∃ name, ValidName name ∧ child.path = childPath path name
  isDir_child : ∀ {path entries}, isDir path = true → listStatus path = .ok entries →
    ∀ child ∈ entries, isDir child.path = child.isdir
  listStatus_nodup : ∀ {path entries}, isDir path = true → listStatus path = .ok entries →
    (entries.map (·.path)).Nodup
  height_lt : ∀ {path entries}, isDir path = true → listStatus path = .ok entries →
    ∀ child ∈ entries, child.isdir = true → height child.path < height path

theorem childPath_ne {path name : Text} (valid : ValidName name) : childPath path name ≠ path := by
  intro equality
  have names : splitPath (childPath path name) = splitPath path ++ [name] :=
    splitPath_childPath valid
  rw [equality] at names
  simpa using congrArg List.length names

namespace NameNode

variable {server : NameNode} {path : Text} {entries : List FileStatus} {child : FileStatus}

theorem child_name (dir : server.isDir path = true) (listed : server.listStatus path = .ok entries)
    (mem : child ∈ entries) :
    ∃ name, ValidName name ∧ child.path = childPath path name ∧ baseName child.path = name ∧
      child.names = splitPath path ++ [name] ∧ child.path ≠ path := by
  obtain ⟨name, valid, path_eq⟩ := server.listStatus_child dir listed child mem
  refine ⟨name, valid, path_eq, ?_, ?_, ?_⟩
  · rw [path_eq, baseName_childPath valid]
  · rw [FileStatus.names, path_eq, splitPath_childPath valid]
  · rw [path_eq]
    exact childPath_ne valid

/-- Entries of one listing lie at different places. -/
theorem names_nodup (listed : server.listStatus path = .ok entries) :
    (entries.map FileStatus.names).Nodup := by
  cases dir : server.isDir path with
  | false =>
      obtain ⟨entry, rfl, -⟩ := server.listStatus_file dir listed
      simp
  | true =>
      have distinct := server.listStatus_nodup dir listed
      rw [List.Nodup, List.pairwise_map] at distinct ⊢
      refine distinct.imp_of_mem fun {first second} first_mem second_mem apart names_eq => apart ?_
      obtain ⟨name, -, path_eq, -, names, -⟩ := child_name dir listed first_mem
      obtain ⟨name', -, path_eq', -, names', -⟩ := child_name dir listed second_mem
      rw [names, names'] at names_eq
      obtain rfl : name = name' := by simpa using names_eq
      rw [path_eq, path_eq']

theorem isDir_of_child_isdir (listed : server.listStatus path = .ok entries)
    (mem : child ∈ entries) (isdir : child.isdir = true) : server.isDir path = true := by
  cases dir : server.isDir path with
  | true => rfl
  | false =>
      obtain ⟨entry, rfl, -, not_dir⟩ := server.listStatus_file dir listed
      rw [List.mem_singleton.mp mem, not_dir] at isdir
      exact absurd isdir (by simp)

/-- Listing returns the path itself exactly when it is a file. -/
theorem path_eq_iff (listed : server.listStatus path = .ok entries) (mem : child ∈ entries) :
    child.path = path ↔ server.isDir path = false := by
  cases dir : server.isDir path with
  | false =>
      obtain ⟨entry, rfl, path_eq, -⟩ := server.listStatus_file dir listed
      rw [List.mem_singleton.mp mem, path_eq]
      simp
  | true =>
      obtain ⟨_, -, -, -, -, different⟩ := child_name dir listed mem
      simp [different]

/-- A server that answers every request with one error. -/
def failing (e : HdfsError) : NameNode where
  getFileInfo _ := .error e
  listStatus _ := .error e
  isDir _ := true
  height _ := 0
  names_getFileInfo := by simp
  listStatus_file := by simp
  listStatus_child := by simp
  isDir_child := by simp
  listStatus_nodup := by simp
  height_lt := by simp

/-- A directory, or a file of some length. -/
def sampleStatus (path : Text) (length : UInt64) (isdir : Bool) : FileStatus where
  path := path
  length := length
  isdir := isdir
  permission := 493
  owner := "hdfs".toList
  group := "supergroup".toList
  modificationTime := 0
  accessTime := 0
  replication := some 3
  blocksize := some 134217728

/-- The children of `/d`: a file, a hidden file, and a directory that refuses to be listed. -/
def sampleChildren : List FileStatus :=
  [sampleStatus "/d/x".toList 3 false, sampleStatus "/d/.h".toList 5 false,
    sampleStatus "/d/e".toList 0 true]

/-- The refusal of a directory that may not be listed. -/
def sampleDenied : HdfsError :=
  .rpcError "org.apache.hadoop.security.AccessControlException".toList "Permission denied".toList

/-- A namespace with the directory `/d`. -/
def sample : NameNode where
  getFileInfo path :=
    if path = "/d".toList then
      .ok (sampleStatus path 0 true)
    else
      .error (.fileNotFound path)
  listStatus path :=
    if path = "/d".toList then
      .ok sampleChildren
    else if path = "/d/e".toList then
      .error sampleDenied
    else
      .error (.fileNotFound path)
  isDir path := path = "/d".toList || path = "/d/e".toList
  height path := if path = "/d".toList then 1 else 0
  names_getFileInfo := by
    intro path status found
    split at found
    · obtain rfl := Except.ok.inj found
      rfl
    · simp at found
  listStatus_file := by
    intro path entries file listed
    have other : path ≠ "/d".toList := by
      rintro rfl
      simp at file
    rw [if_neg other] at listed
    split at listed <;> simp at listed
  listStatus_child := by
    intro path entries _ listed
    split at listed
    · rename_i here
      obtain rfl := Except.ok.inj listed
      subst here
      intro child mem
      simp only [sampleChildren, List.mem_cons, List.not_mem_nil, or_false] at mem
      rcases mem with rfl | rfl | rfl
      · exact ⟨"x".toList, ⟨by decide, by decide⟩, by decide⟩
      · exact ⟨".h".toList, ⟨by decide, by decide⟩, by decide⟩
      · exact ⟨"e".toList, ⟨by decide, by decide⟩, by decide⟩
    · split at listed <;> simp at listed
  isDir_child := by
    intro path entries _ listed
    split at listed
    · obtain rfl := Except.ok.inj listed
      decide
    · split at listed <;> simp at listed
  listStatus_nodup := by
    intro path entries _ listed
    split at listed
    · obtain rfl := Except.ok.inj listed
      decide
    · split at listed <;> simp at listed
  height_lt := by
    intro path entries _ listed
    split at listed
    · rename_i here
      obtain rfl := Except.ok.inj listed
      subst here
      decide
    · split at listed <;> simp at listed

end NameNode
end DuckdbHdfs
