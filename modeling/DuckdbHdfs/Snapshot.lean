import DuckdbHdfs.Namespace
import Mathlib.Data.List.Nodup

/-!
# Snapshots

A snapshot is a file system in which nothing changes and nothing fails: a finite set of entries, of
which each lies in a directory.  It answers the requests of a walk as a `NameNode`, and what a walk
should find can be read off its entries.
-/

namespace DuckdbHdfs

/-- The entries below the root, under their absolute paths. -/
structure Snapshot where
  root : FileStatus
  entries : List FileStatus
  root_path : root.path = ['/']
  root_isdir : root.isdir = true
  spelled : ∀ entry ∈ entries, entry.names ≠ [] ∧ entry.path = pathOf entry.names
  nodup : (entries.map FileStatus.names).Nodup
  /-- Every entry lies in the root or in a directory. -/
  parent : ∀ entry ∈ entries, entry.names.dropLast ≠ [] →
    ∃ dir ∈ entries, dir.isdir = true ∧ dir.names = entry.names.dropLast

namespace Snapshot

variable (snapshot : Snapshot)

/-- The root and all entries below it. -/
def nodes : List FileStatus :=
  snapshot.root :: snapshot.entries

/-- The node with some names. -/
def find (names : List Text) : Option FileStatus :=
  snapshot.nodes.find? fun node => node.names = names

/-- The entries of a directory. -/
def children (names : List Text) : List FileStatus :=
  snapshot.entries.filter fun entry => entry.names.dropLast = names

/-- An entry as the listing of a path reports it. -/
def childAt (path : Text) (entry : FileStatus) : FileStatus :=
  { entry with path := childPath path (baseName entry.path) }

variable {snapshot} {node entry : FileStatus} {names : List Text} {name path : Text}

theorem root_names : snapshot.root.names = [] := by
  rw [FileStatus.names, snapshot.root_path]
  rfl

theorem names_valid (entry : FileStatus) : ∀ name ∈ entry.names, ValidName name :=
  fun _ mem => validName_of_mem_splitPath mem

theorem path_of_mem_nodes (mem : node ∈ snapshot.nodes) : node.path = pathOf node.names := by
  rcases List.mem_cons.mp mem with rfl | below
  · rw [root_names, snapshot.root_path]
    rfl
  · exact (snapshot.spelled node below).2

theorem nodes_nodup : (snapshot.nodes.map FileStatus.names).Nodup := by
  rw [nodes, List.map_cons, List.nodup_cons, root_names]
  refine ⟨fun mem => ?_, snapshot.nodup⟩
  obtain ⟨entry, entry_mem, names_eq⟩ := List.mem_map.mp mem
  exact (snapshot.spelled entry entry_mem).1 names_eq

theorem find_eq_some_iff :
    snapshot.find names = some node ↔ node ∈ snapshot.nodes ∧ node.names = names := by
  constructor
  · intro found
    exact ⟨List.mem_of_find?_eq_some found, by simpa using List.find?_some found⟩
  · rintro ⟨mem, rfl⟩
    obtain ⟨other, found⟩ : ∃ other, snapshot.find node.names = some other :=
      Option.isSome_iff_exists.mp (List.find?_isSome.mpr ⟨node, mem, by simp⟩)
    have same : other.names = node.names := by
      simpa using List.find?_some found
    rw [found, List.inj_on_of_nodup_map nodes_nodup (List.mem_of_find?_eq_some found) mem same]

theorem mem_children_iff :
    entry ∈ snapshot.children names ↔ entry ∈ snapshot.entries ∧ entry.names.dropLast = names := by
  simp [children]

theorem names_of_mem_children (mem : entry ∈ snapshot.children names) :
    ValidName (baseName entry.path) ∧ entry.names = names ++ [baseName entry.path] := by
  obtain ⟨below, rfl⟩ := mem_children_iff.mp mem
  obtain ⟨nonempty, path_eq⟩ := snapshot.spelled entry below
  have split := List.dropLast_append_getLast nonempty
  have valid : ValidName (entry.names.getLast nonempty) :=
    names_valid entry _ (List.getLast_mem nonempty)
  have above_valid : ∀ name ∈ entry.names.dropLast, ValidName name :=
    fun name mem => names_valid entry name (List.dropLast_subset _ mem)
  have base : baseName entry.path = entry.names.getLast nonempty := by
    have spelled : childPath (pathOf entry.names.dropLast) (entry.names.getLast nonempty) =
        entry.path := by
      rw [childPath_pathOf above_valid, split, path_eq]
    rw [← spelled, baseName_childPath valid]
  rw [base, split]
  exact ⟨valid, rfl⟩

/-- A child is reported under its own path by the listing of its directory's. -/
theorem childAt_pathOf (mem : entry ∈ snapshot.children names) :
    childAt (pathOf names) entry = entry := by
  obtain ⟨-, names_eq⟩ := names_of_mem_children mem
  have above_valid : ∀ name ∈ names, ValidName name := by
    intro name name_mem
    exact names_valid entry name (by simp [names_eq, name_mem])
  have path_eq := (snapshot.spelled entry (mem_children_iff.mp mem).1).2
  rw [childAt, childPath_pathOf above_valid, ← names_eq, ← path_eq]

theorem exists_parent (mem : entry ∈ snapshot.entries) :
    ∃ dir ∈ snapshot.nodes, dir.isdir = true ∧ dir.names = entry.names.dropLast := by
  by_cases top : entry.names.dropLast = []
  · exact ⟨snapshot.root, List.mem_cons_self, snapshot.root_isdir, by rw [root_names, top]⟩
  · obtain ⟨dir, dir_mem, isdir, names_eq⟩ := snapshot.parent entry mem top
    exact ⟨dir, .tail _ dir_mem, isdir, names_eq⟩

theorem mem_entries_of_names (mem : node ∈ snapshot.nodes) (below : node.names ≠ []) :
    node ∈ snapshot.entries := by
  rcases List.mem_cons.mp mem with rfl | inside
  · exact absurd root_names below
  · exact inside

theorem exists_dir_above {above : List Text} (below : List Text) (mem : node ∈ snapshot.nodes)
    (names_eq : node.names = above ++ below) (deeper : below ≠ []) :
    ∃ dir ∈ snapshot.nodes, dir.isdir = true ∧ dir.names = above := by
  induction below using List.reverseRecOn generalizing node with
  | nil => exact absurd rfl deeper
  | append_singleton below last ih =>
      have inside := mem_entries_of_names mem (by simp [names_eq])
      obtain ⟨dir, dir_mem, isdir, dir_names⟩ := exists_parent inside
      rw [names_eq, ← List.append_assoc, List.dropLast_concat] at dir_names
      by_cases direct : below = []
      · exact ⟨dir, dir_mem, isdir, by rw [dir_names, direct, List.append_nil]⟩
      · exact ih dir_mem dir_names direct

theorem mem_children_of_names (mem : node ∈ snapshot.nodes)
    (names_eq : node.names = names ++ [name]) :
    node ∈ snapshot.children names ∧ baseName node.path = name := by
  have below := mem_entries_of_names mem (by simp [names_eq])
  have child : node ∈ snapshot.children names :=
    mem_children_iff.mpr ⟨below, by rw [names_eq, List.dropLast_concat]⟩
  obtain ⟨-, own_eq⟩ := names_of_mem_children child
  exact ⟨child, by simpa [names_eq] using own_eq.symm⟩

theorem childAt_names (mem : entry ∈ snapshot.children (splitPath path)) :
    (childAt path entry).names = entry.names := by
  obtain ⟨valid, names_eq⟩ := names_of_mem_children mem
  rw [names_eq, FileStatus.names, childAt, splitPath_childPath valid]

theorem childAt_nodup (path : Text) :
    (((snapshot.children (splitPath path)).map (childAt path)).map FileStatus.path).Nodup := by
  have names_eq : ((snapshot.children (splitPath path)).map (childAt path)).map FileStatus.names =
      (snapshot.children (splitPath path)).map FileStatus.names := by
    rw [List.map_map]
    exact List.map_congr_left fun entry mem => childAt_names mem
  have nodup : (((snapshot.children (splitPath path)).map (childAt path)).map
      FileStatus.names).Nodup := by
    rw [names_eq]
    exact snapshot.nodup.sublist (List.filter_sublist.map _)
  refine List.Nodup.of_map splitPath ?_
  rw [List.map_map]
  exact nodup

theorem find_childAt (mem : entry ∈ snapshot.children (splitPath path)) :
    snapshot.find (splitPath (childAt path entry).path) = some entry :=
  find_eq_some_iff.mpr ⟨.tail _ (mem_children_iff.mp mem).1, (childAt_names mem).symm⟩

/-- The number of levels below a path, bounded by the depth of the whole tree. -/
def levels (snapshot : Snapshot) (path : Text) : Nat :=
  (snapshot.entries.map fun entry => entry.names.length).foldr max 0 + 1 - (splitPath path).length

theorem length_le_depth (mem : entry ∈ snapshot.entries) :
    entry.names.length ≤ (snapshot.entries.map fun entry => entry.names.length).foldr max 0 := by
  generalize snapshot.entries = entries at mem
  induction entries with
  | nil => cases mem
  | cons first entries ih =>
      rw [List.map_cons, List.foldr_cons]
      rcases List.mem_cons.mp mem with rfl | later
      · exact le_max_left _ _
      · exact (ih later).trans (le_max_right _ _)

def getFileInfo (snapshot : Snapshot) (path : Text) : Except HdfsError FileStatus :=
  match snapshot.find (splitPath path) with
  | some node => .ok { node with path := path }
  | none => .error (.fileNotFound path)

/-- The children of a directory, or the file itself. -/
def listStatus (snapshot : Snapshot) (path : Text) : Except HdfsError (List FileStatus) :=
  match snapshot.find (splitPath path) with
  | some node =>
      if node.isdir then
        .ok ((snapshot.children (splitPath path)).map (childAt path))
      else
        .ok [{ node with path := path }]
  | none => .error (.fileNotFound path)

def isDir (snapshot : Snapshot) (path : Text) : Bool :=
  ((snapshot.find (splitPath path)).map FileStatus.isdir).getD true

section Answers

variable {status child : FileStatus} {entries : List FileStatus}

theorem names_of_getFileInfo (answered : snapshot.getFileInfo path = .ok status) :
    status.names = splitPath path := by
  rw [getFileInfo] at answered
  split at answered
  · obtain rfl := Except.ok.inj answered
    rfl
  · cases answered

theorem listStatus_of_file (file : snapshot.isDir path = false)
    (listed : snapshot.listStatus path = .ok entries) :
    ∃ entry, entries = [entry] ∧ entry.path = path ∧ entry.isdir = false := by
  rw [listStatus] at listed
  split at listed
  · rename_i node found
    have not_dir : node.isdir = false := by simpa [isDir, found] using file
    rw [if_neg (by simp [not_dir])] at listed
    obtain rfl := Except.ok.inj listed
    exact ⟨_, rfl, rfl, not_dir⟩
  · cases listed

theorem listStatus_of_isDir (dir : snapshot.isDir path = true)
    (listed : snapshot.listStatus path = .ok entries) :
    entries = (snapshot.children (splitPath path)).map (childAt path) := by
  rw [listStatus] at listed
  split at listed
  · rename_i node found
    rw [if_pos (by simpa [isDir, found] using dir)] at listed
    exact (Except.ok.inj listed).symm
  · cases listed

theorem exists_child_of_mem (dir : snapshot.isDir path = true)
    (listed : snapshot.listStatus path = .ok entries) (mem : child ∈ entries) :
    ∃ entry ∈ snapshot.children (splitPath path), child = childAt path entry := by
  rw [listStatus_of_isDir dir listed] at mem
  obtain ⟨entry, entry_mem, rfl⟩ := List.mem_map.mp mem
  exact ⟨entry, entry_mem, rfl⟩

theorem childPath_of_listed (dir : snapshot.isDir path = true)
    (listed : snapshot.listStatus path = .ok entries) (child : FileStatus)
    (mem : child ∈ entries) : ∃ name, ValidName name ∧ child.path = childPath path name := by
  obtain ⟨entry, entry_mem, rfl⟩ := exists_child_of_mem dir listed mem
  exact ⟨_, (names_of_mem_children entry_mem).1, rfl⟩

theorem isDir_of_listed (dir : snapshot.isDir path = true)
    (listed : snapshot.listStatus path = .ok entries) (child : FileStatus)
    (mem : child ∈ entries) : snapshot.isDir child.path = child.isdir := by
  obtain ⟨entry, entry_mem, rfl⟩ := exists_child_of_mem dir listed mem
  rw [isDir, find_childAt entry_mem]
  rfl

theorem nodup_of_listed (dir : snapshot.isDir path = true)
    (listed : snapshot.listStatus path = .ok entries) :
    (entries.map FileStatus.path).Nodup := by
  rw [listStatus_of_isDir dir listed]
  exact childAt_nodup path

theorem levels_lt (dir : snapshot.isDir path = true)
    (listed : snapshot.listStatus path = .ok entries) (child : FileStatus)
    (mem : child ∈ entries) (_ : child.isdir = true) :
    snapshot.levels child.path < snapshot.levels path := by
  obtain ⟨entry, entry_mem, rfl⟩ := exists_child_of_mem dir listed mem
  have deeper := congrArg List.length (names_of_mem_children entry_mem).2
  have depth := length_le_depth (mem_children_iff.mp entry_mem).1
  have child_names := childAt_names entry_mem
  rw [FileStatus.names] at child_names
  rw [List.length_append, List.length_singleton] at deeper
  rw [levels, levels, child_names]
  omega

end Answers

/-- The NameNode that serves a snapshot. -/
def nameNode (snapshot : Snapshot) : NameNode where
  getFileInfo := snapshot.getFileInfo
  listStatus := snapshot.listStatus
  isDir := snapshot.isDir
  height := snapshot.levels
  names_getFileInfo := names_of_getFileInfo
  listStatus_file := listStatus_of_file
  listStatus_child := childPath_of_listed
  isDir_child := isDir_of_listed
  listStatus_nodup := nodup_of_listed
  height_lt := levels_lt

theorem listStatus_of_dir {dir : FileStatus} (mem : dir ∈ snapshot.nodes)
    (isdir : dir.isdir = true) :
    snapshot.nameNode.listStatus dir.path = .ok (snapshot.children dir.names) := by
  have found : snapshot.find (splitPath dir.path) = some dir := find_eq_some_iff.mpr ⟨mem, rfl⟩
  have same : (snapshot.children dir.names).map (childAt dir.path) =
      snapshot.children dir.names := by
    refine (List.map_congr_left fun entry entry_mem => ?_).trans (List.map_id _)
    rw [path_of_mem_nodes mem, childAt_pathOf entry_mem, id]
  simp only [nameNode, listStatus, found, isdir, if_true]
  exact congrArg Except.ok same

/-- Requests fail for missing paths only. -/
theorem listStatus_eq_error_iff {e : HdfsError} :
    snapshot.nameNode.listStatus path = .error e ↔
      snapshot.find (splitPath path) = none ∧ e = .fileNotFound path := by
  cases found : snapshot.find (splitPath path) with
  | none =>
      simp only [nameNode, listStatus, found, Except.error.injEq, true_and]
      exact eq_comm
  | some node =>
      simp only [nameNode, listStatus, found]
      split <;> simp

theorem eq_fileNotFound_of_getFileInfo {e : HdfsError}
    (failed : snapshot.nameNode.getFileInfo path = .error e) : e = .fileNotFound path := by
  simp only [nameNode, getFileInfo] at failed
  split at failed
  · cases failed
  · exact (Except.error.inj failed).symm

theorem listStatus_eq_ok_iff {entries : List FileStatus} :
    snapshot.nameNode.listStatus path = .ok entries ↔
      ∃ node, snapshot.find (splitPath path) = some node ∧
        (node.isdir = true ∧ entries = (snapshot.children (splitPath path)).map (childAt path) ∨
          node.isdir = false ∧ entries = [{ node with path := path }]) := by
  cases found : snapshot.find (splitPath path) with
  | none => simp [nameNode, listStatus, found]
  | some node =>
      cases isdir : node.isdir with
      | true =>
          simp only [nameNode, listStatus, found, isdir, if_true, Except.ok.injEq,
            Option.some.injEq, exists_eq_left', true_and, Bool.true_eq_false, false_and, or_false]
          exact eq_comm
      | false =>
          simp only [nameNode, listStatus, found, isdir, Bool.false_eq_true, if_false,
            Except.ok.injEq, Option.some.injEq, exists_eq_left', false_and, true_and, false_or]
          exact eq_comm

theorem listStatus_pathOf {entries : List FileStatus} (valid : ∀ name ∈ names, ValidName name)
    (listed : snapshot.nameNode.listStatus (pathOf names) = .ok entries) :
    ∃ node ∈ snapshot.nodes, node.names = names ∧
      (node.isdir = true ∧ entries = snapshot.children names ∨
        node.isdir = false ∧ entries = [node]) := by
  obtain ⟨node, found, ⟨isdir, rfl⟩ | ⟨file, rfl⟩⟩ := listStatus_eq_ok_iff.mp listed
  all_goals
    rw [splitPath_pathOf valid] at found
    obtain ⟨mem, rfl⟩ := find_eq_some_iff.mp found
    refine ⟨node, mem, rfl, ?_⟩
  · refine .inl ⟨isdir, ?_⟩
    rw [splitPath_pathOf valid]
    exact (List.map_congr_left fun entry entry_mem => childAt_pathOf entry_mem).trans
      (List.map_id _)
  · refine .inr ⟨file, ?_⟩
    rw [← path_of_mem_nodes mem]

theorem getFileInfo_pathOf_iff (valid : ∀ name ∈ names, ValidName name) :
    snapshot.nameNode.getFileInfo (pathOf names) = .ok node ↔
      node ∈ snapshot.nodes ∧ node.names = names := by
  simp only [nameNode, getFileInfo, splitPath_pathOf valid]
  constructor
  · intro found
    split at found
    · rename_i other found'
      obtain ⟨mem, rfl⟩ := find_eq_some_iff.mp found'
      obtain rfl := Except.ok.inj found
      have same : ({ other with path := pathOf other.names } : FileStatus) = other := by
        rw [← path_of_mem_nodes mem]
      rw [same]
      exact ⟨mem, rfl⟩
    · cases found
  · intro there
    rw [find_eq_some_iff.mpr there]
    simp only [Except.ok.injEq]
    rw [← there.2, ← path_of_mem_nodes there.1]

/-- The directory `/d` with a file, a hidden file and an empty directory in it. -/
def sample : Snapshot where
  root := NameNode.sampleStatus ['/'] 0 true
  entries := [NameNode.sampleStatus "/d".toList 0 true, NameNode.sampleStatus "/d/x".toList 3 false,
    NameNode.sampleStatus "/d/.h".toList 5 false, NameNode.sampleStatus "/d/e".toList 0 true]
  root_path := rfl
  root_isdir := rfl
  spelled := by decide
  nodup := by decide
  parent := by decide

end Snapshot

end DuckdbHdfs
