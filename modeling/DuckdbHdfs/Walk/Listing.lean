import DuckdbHdfs.Walk.Results

/-!
# The listing walk

`stream_walk` sends the entries below its root, down to one level or all of them, whatever order
its listings complete in.
-/

namespace DuckdbHdfs

open Glob WorkStack

/-- Entries below the root, with the names leading from the root to them. -/
inductive Below (server : NameNode) (root : Text) : List Text → FileStatus → Prop
  | child {entries : List FileStatus} {entry : FileStatus} {name : Text}
      (listed : server.listStatus root = .ok entries) (mem : entry ∈ entries)
      (valid : ValidName name) (path_eq : entry.path = childPath root name) :
      Below server root [name] entry
  | deeper {names : List Text} {dir : FileStatus} {entries : List FileStatus} {entry : FileStatus}
      {name : Text} (above : Below server root names dir) (isdir : dir.isdir = true)
      (listed : server.listStatus dir.path = .ok entries) (mem : entry ∈ entries)
      (valid : ValidName name) (path_eq : entry.path = childPath dir.path name) :
      Below server root (names ++ [name]) entry

/-- Hidden names stay out unless the options ask for them. -/
def Shown (options : WalkOptions) (names : List Text) : Prop :=
  options.includeHidden = true ∨ ∀ name ∈ names, ¬HiddenName name

/-- The entries a listing of `root` should return. -/
def Listed (server : NameNode) (root : Text) (recursive : Bool) (options : WalkOptions)
    (entry : FileStatus) : Prop :=
  (∃ entries, server.listStatus root = .ok entries ∧ entry ∈ entries ∧ entry.path = root) ∨
    ∃ names, Below server root names entry ∧ (recursive = true ∨ names.length = 1) ∧
      Shown options names

/-- The directories below `root` a recursive listing visits. -/
def ListedDir (server : NameNode) (root : Text) (options : WalkOptions) (dir : FileStatus) : Prop :=
  dir.isdir = true ∧ ∃ names, Below server root names dir ∧ Shown options names

/-- The errors that end a listing: any error of the root, and those of visited directories that
do not just prune them. -/
def ListingFatal (server : NameNode) (root : Text) (recursive : Bool) (options : WalkOptions)
    (e : HdfsError) : Prop :=
  server.listStatus root = .error e ∨
    recursive = true ∧ ∃ dir, ListedDir server root options dir ∧
      server.listStatus dir.path = .error e ∧ ¬Prunable options e

/-- The filter on the entries of one listing. -/
def streamKeeps (options : WalkOptions) (path : Text) (child : FileStatus) : Bool :=
  options.includeHidden || child.path = path || !isHidden (baseName child.path)

variable {server : NameNode} {recursive : Bool} {options : WalkOptions} {root path : Text}
  {entries : List FileStatus} {entry : FileStatus} {item : StreamItem} {maxParallelism : Nat}

theorem streamChildren_eq (children : List FileStatus) :
    streamChildren recursive options path children =
      { pushed := (children.filter fun child =>
            streamKeeps options path child && (recursive && child.isdir)).map
              fun child => ⟨child.path, false⟩
        sent := children.filter (streamKeeps options path)
        exit := none } := by
  induction children with
  | nil => rfl
  | cons child children ih =>
      have dropped : (!options.includeHidden && decide (child.path ≠ path) &&
          isHidden (baseName child.path)) = !streamKeeps options path child := by
        simp [streamKeeps]
      rw [streamChildren, dropped, ih]
      cases kept : streamKeeps options path child with
      | false => simp [kept]
      | true => cases descends : recursive && child.isdir <;> simp [kept, descends]

/-- A failed listing pushes and sends nothing; only a prunable error below the root goes on. -/
theorem streamVisit_of_error (recursive : Bool) (options : WalkOptions) (item : StreamItem)
    {e : HdfsError} (failed : server.listStatus item.path = .error e) :
    ∃ exit, streamVisit server recursive options item =
        { pushed := [], sent := [], exit := exit } ∧
      (exit = none ∧ item.isRoot = false ∧ Prunable options e ∨
        exit = some (.failed e) ∧ ¬(item.isRoot = false ∧ Prunable options e)) := by
  have prunable : (!item.isRoot && (e.isFileNotFound ||
      (options.skipPermissionErrors && isPermission e))) = true ↔
        item.isRoot = false ∧ Prunable options e := by
    simp [Prunable, ← isFileNotFound_iff, isPermission]
  simp only [streamVisit, failed]
  by_cases prune : item.isRoot = false ∧ Prunable options e
  · exact ⟨none, by rw [if_pos (prunable.mpr prune)], .inl ⟨rfl, prune⟩⟩
  · exact ⟨some (.failed e), by rw [if_neg (prunable.not.mpr prune)], .inr ⟨rfl, prune⟩⟩

theorem streamVisit_of_ok (listed : server.listStatus item.path = .ok entries) :
    streamVisit server recursive options item =
      { pushed := (entries.filter fun child =>
            streamKeeps options item.path child && (recursive && child.isdir)).map
              fun child => ⟨child.path, false⟩
        sent := entries.filter (streamKeeps options item.path)
        exit := none } := by
  simp only [streamVisit, listed, streamChildren_eq]

theorem mem_streamVisit_pushed {child : StreamItem} :
    child ∈ (streamVisit server recursive options item).pushed ↔
      recursive = true ∧ ∃ entries, server.listStatus item.path = .ok entries ∧
        ∃ dir ∈ entries, dir.isdir = true ∧ streamKeeps options item.path dir = true ∧
          child = ⟨dir.path, false⟩ := by
  cases listed : server.listStatus item.path with
  | error e =>
      obtain ⟨exit, visit_eq, -⟩ := streamVisit_of_error recursive options item listed
      simp [visit_eq]
  | ok entries =>
      simp only [streamVisit_of_ok listed, List.mem_map, List.mem_filter, Bool.and_eq_true,
        Except.ok.injEq, exists_eq_left']
      constructor
      · rintro ⟨dir, ⟨mem, kept, deep, isdir⟩, rfl⟩
        exact ⟨deep, dir, mem, isdir, kept, rfl⟩
      · rintro ⟨deep, dir, mem, isdir, kept, rfl⟩
        exact ⟨dir, ⟨mem, kept, deep, isdir⟩, rfl⟩

theorem mem_streamVisit_sent :
    entry ∈ (streamVisit server recursive options item).sent ↔
      ∃ entries, server.listStatus item.path = .ok entries ∧ entry ∈ entries ∧
        streamKeeps options item.path entry = true := by
  cases listed : server.listStatus item.path with
  | error e =>
      obtain ⟨exit, visit_eq, -⟩ := streamVisit_of_error recursive options item listed
      simp [visit_eq]
  | ok entries => simp [streamVisit_of_ok listed]

theorem streamVisit_exit_iff {exit : Exit HdfsError} :
    (streamVisit server recursive options item).exit = some exit ↔
      ∃ e, server.listStatus item.path = .error e ∧
        ¬(item.isRoot = false ∧ Prunable options e) ∧ exit = .failed e := by
  cases listed : server.listStatus item.path with
  | ok entries => simp [streamVisit_of_ok listed]
  | error e =>
      obtain ⟨exit', visit_eq, ⟨rfl, prune⟩ | ⟨rfl, strict⟩⟩ :=
        streamVisit_of_error recursive options item listed
      · simp [visit_eq, prune]
      · simp only [visit_eq, Option.some.injEq, Except.error.injEq, exists_eq_left', strict,
          not_false_eq_true, true_and]
        exact eq_comm

theorem streamKeeps_iff (listed : server.listStatus path = .ok entries) (mem : entry ∈ entries) :
    streamKeeps options path entry = true ↔
      entry.path = path ∨
        ∃ name, ValidName name ∧ entry.path = childPath path name ∧ Shown options [name] := by
  cases dir : server.isDir path with
  | false =>
      have same : entry.path = path := (NameNode.path_eq_iff listed mem).mpr dir
      simp [streamKeeps, same]
  | true =>
      obtain ⟨name, valid, path_eq, base, -, different⟩ := NameNode.child_name dir listed mem
      have kept : streamKeeps options path entry = true ↔ Shown options [name] := by
        simp [streamKeeps, Shown, different, base, isHidden_eq_false_iff]
      rw [kept]
      constructor
      · exact fun shown => .inr ⟨name, valid, path_eq, shown⟩
      · rintro (same | ⟨name', valid', path_eq', shown⟩)
        · exact absurd same different
        · rw [path_eq', baseName_childPath valid'] at base
          exact base ▸ shown

theorem Below.ne_nil {names : List Text} (below : Below server root names entry) : names ≠ [] := by
  cases below <;> simp

theorem Below.root_listed {names : List Text} (below : Below server root names entry) :
    ∃ entries, server.listStatus root = .ok entries := by
  induction below with
  | child listed => exact ⟨_, listed⟩
  | deeper _ _ _ _ _ _ ih => exact ih

theorem Shown.append_iff {names : List Text} {name : Text} :
    Shown options (names ++ [name]) ↔ Shown options names ∧ Shown options [name] := by
  simp only [Shown, List.mem_append, List.mem_singleton]
  grind

theorem isDir_of_child {name : Text} (listed : server.listStatus path = .ok entries)
    (mem : entry ∈ entries) (valid : ValidName name) (path_eq : entry.path = childPath path name) :
    server.isDir path = true := by
  have different : entry.path ≠ path := path_eq ▸ childPath_ne valid
  simpa using (NameNode.path_eq_iff listed mem).not.mp different

theorem Below.isDir {names : List Text} (below : Below server root names entry) :
    server.isDir entry.path = entry.isdir := by
  cases below with
  | child listed mem valid path_eq =>
      exact server.isDir_child (isDir_of_child listed mem valid path_eq) listed _ mem
  | deeper _ _ listed mem valid path_eq =>
      exact server.isDir_child (isDir_of_child listed mem valid path_eq) listed _ mem

/-- The items of the walk are the root and the directories a recursive listing visits. -/
theorem streamReached_iff :
    Reached (streamVisit server recursive options) [⟨root, true⟩] item ↔
      item = ⟨root, true⟩ ∨ recursive = true ∧
        ∃ dir, ListedDir server root options dir ∧ item = ⟨dir.path, false⟩ := by
  constructor
  · intro reached
    induction reached with
    | initial mem => exact .inl (List.mem_singleton.mp mem)
    | @pushed parent child _ mem ih =>
        obtain ⟨deep, entries, listed, dir, dir_mem, isdir, kept, rfl⟩ :=
          mem_streamVisit_pushed.mp mem
        have parent_dir := NameNode.isDir_of_child_isdir listed dir_mem isdir
        have different : dir.path ≠ parent.path := by
          simp [NameNode.path_eq_iff listed dir_mem, parent_dir]
        obtain ⟨name, valid, path_eq, shown⟩ :=
          ((streamKeeps_iff listed dir_mem).mp kept).resolve_left different
        refine .inr ⟨deep, dir, ⟨isdir, ?_⟩, rfl⟩
        rcases ih with rfl | ⟨-, above, ⟨above_isdir, names, below, above_shown⟩, rfl⟩
        · exact ⟨[name], .child listed dir_mem valid path_eq, shown⟩
        · exact ⟨names ++ [name], .deeper below above_isdir listed dir_mem valid path_eq,
            Shown.append_iff.mpr ⟨above_shown, shown⟩⟩
  · rintro (rfl | ⟨deep, dir, ⟨isdir, names, below, shown⟩, rfl⟩)
    · exact .initial (List.mem_singleton_self _)
    · induction below with
      | child listed mem valid path_eq =>
          refine .pushed (.initial (List.mem_singleton_self _)) (mem_streamVisit_pushed.mpr ?_)
          have kept := (streamKeeps_iff listed mem).mpr (.inr ⟨_, valid, path_eq, shown⟩)
          exact ⟨deep, _, listed, _, mem, isdir, kept, rfl⟩
      | deeper above above_isdir listed mem valid path_eq ih =>
          obtain ⟨above_shown, name_shown⟩ := Shown.append_iff.mp shown
          refine .pushed (ih above_isdir above_shown) (mem_streamVisit_pushed.mpr ?_)
          have kept := (streamKeeps_iff listed mem).mpr (.inr ⟨_, valid, path_eq, name_shown⟩)
          exact ⟨deep, _, listed, _, mem, isdir, kept, rfl⟩

theorem isRoot_of_file
    (reached : Reached (streamVisit server recursive options) [⟨root, true⟩] item)
    (file : server.isDir item.path = false) : item = ⟨root, true⟩ := by
  rcases streamReached_iff.mp reached with root_item | ⟨-, dir, ⟨isdir, _, below, -⟩, rfl⟩
  · exact root_item
  · rw [below.isDir, isdir] at file
    exact absurd file (by simp)

theorem streamForest (server : NameNode) (recursive : Bool) (options : WalkOptions) (root : Text) :
    Forest (streamVisit server recursive options) [⟨root, true⟩] []
      (fun item => splitPath item.path) FileStatus.names where
  single := by simp
  child_address item _ child mem := by
    obtain ⟨-, entries, listed, dir, dir_mem, isdir, -, rfl⟩ := mem_streamVisit_pushed.mp mem
    have parent_dir := NameNode.isDir_of_child_isdir listed dir_mem isdir
    obtain ⟨name, -, -, -, names, -⟩ := NameNode.child_name parent_dir listed dir_mem
    exact ⟨name, names⟩
  pushed_nodup item _ := by
    cases listed : server.listStatus item.path with
    | error e =>
        obtain ⟨exit, visit_eq, -⟩ := streamVisit_of_error recursive options item listed
        simp [visit_eq]
    | ok entries =>
        rw [streamVisit_of_ok listed, List.map_map]
        exact (NameNode.names_nodup listed).sublist (List.filter_sublist.map _)
  place_eq item reached entry mem := by
    obtain ⟨entries, listed, entry_mem, -⟩ := mem_streamVisit_sent.mp mem
    cases dir : server.isDir item.path with
    | true =>
        obtain ⟨name, -, -, -, names, -⟩ := NameNode.child_name dir listed entry_mem
        exact .inl ⟨name, names⟩
    | false =>
        have same := (NameNode.path_eq_iff listed entry_mem).mpr dir
        refine .inr ⟨rfl, List.mem_singleton.mpr (isRoot_of_file reached dir), ?_⟩
        rw [FileStatus.names, same]
  sent_nodup item _ := by
    cases listed : server.listStatus item.path with
    | error e =>
        obtain ⟨exit, visit_eq, -⟩ := streamVisit_of_error recursive options item listed
        simp [visit_eq]
    | ok entries =>
        rw [streamVisit_of_ok listed]
        exact (NameNode.names_nodup listed).sublist (List.filter_sublist.map _)
  before_single := by simp
  before_place := by simp

theorem streamDue_iff :
    Due (streamVisit server recursive options) [⟨root, true⟩] [] entry ↔
      Listed server root recursive options entry := by
  constructor
  · rintro (none | ⟨item, reached, mem⟩)
    · simp at none
    · obtain ⟨entries, listed, entry_mem, kept⟩ := mem_streamVisit_sent.mp mem
      rcases streamReached_iff.mp reached with rfl | ⟨deep, dir, ⟨isdir, names, below, shown⟩, rfl⟩
      · rcases (streamKeeps_iff listed entry_mem).mp kept with same | ⟨name, valid, path_eq, shown⟩
        · exact .inl ⟨entries, listed, entry_mem, same⟩
        · exact .inr ⟨[name], .child listed entry_mem valid path_eq, .inr rfl, shown⟩
      · have different : entry.path ≠ dir.path := by
          simp [NameNode.path_eq_iff listed entry_mem, below.isDir, isdir]
        obtain ⟨name, valid, path_eq, name_shown⟩ :=
          ((streamKeeps_iff listed entry_mem).mp kept).resolve_left different
        exact .inr ⟨names ++ [name], .deeper below isdir listed entry_mem valid path_eq,
          .inl deep, Shown.append_iff.mpr ⟨shown, name_shown⟩⟩
  · have root_reached :
        Reached (streamVisit server recursive options) [⟨root, true⟩] ⟨root, true⟩ :=
      .initial (List.mem_singleton_self _)
    rintro (⟨entries, listed, mem, same⟩ | ⟨names, below, levels, shown⟩)
    · have kept := (@streamKeeps_iff _ options _ _ _ listed mem).mpr (.inl same)
      exact .inr ⟨_, root_reached, mem_streamVisit_sent.mpr ⟨entries, listed, mem, kept⟩⟩
    · cases below with
      | child listed mem valid path_eq =>
          have kept := (streamKeeps_iff listed mem).mpr (.inr ⟨_, valid, path_eq, shown⟩)
          exact .inr ⟨_, root_reached, mem_streamVisit_sent.mpr ⟨_, listed, mem, kept⟩⟩
      | @deeper names dir _ _ name above isdir listed mem valid path_eq =>
          obtain ⟨above_shown, name_shown⟩ := Shown.append_iff.mp shown
          have deep : recursive = true := by
            have above_length := List.length_pos_of_ne_nil above.ne_nil
            rw [List.length_append, List.length_singleton] at levels
            exact levels.resolve_right (by omega)
          have kept := (streamKeeps_iff listed mem).mpr (.inr ⟨_, valid, path_eq, name_shown⟩)
          refine .inr ⟨⟨dir.path, false⟩, streamReached_iff.mpr (.inr ?_),
            mem_streamVisit_sent.mpr ⟨_, listed, mem, kept⟩⟩
          exact ⟨deep, dir, ⟨isdir, names, above, above_shown⟩, rfl⟩

theorem streamExit_iff (exit : Exit HdfsError) :
    (∃ item, Reached (streamVisit server recursive options) [⟨root, true⟩] item ∧
        (streamVisit server recursive options item).exit = some exit) ↔
      ∃ e, ListingFatal server root recursive options e ∧ exit = .failed e := by
  simp only [streamVisit_exit_iff, streamReached_iff]
  constructor
  · rintro ⟨item, rfl | ⟨deep, dir, listed, rfl⟩, e, failed, strict, rfl⟩
    · exact ⟨e, .inl failed, rfl⟩
    · exact ⟨e, .inr ⟨deep, dir, listed, failed, fun prunable => strict ⟨rfl, prunable⟩⟩, rfl⟩
  · rintro ⟨e, failed | ⟨deep, dir, listed, failed, strict⟩, rfl⟩
    · exact ⟨_, .inl rfl, e, failed, by simp, rfl⟩
    · exact ⟨_, .inr ⟨deep, dir, listed, rfl⟩, e, failed, fun prune => strict prune.2, rfl⟩

theorem streamVisit_height {child : StreamItem}
    (mem : child ∈ (streamVisit server recursive options item).pushed) :
    server.height child.path < server.height item.path := by
  obtain ⟨-, entries, listed, dir, dir_mem, isdir, -, rfl⟩ := mem_streamVisit_pushed.mp mem
  have inside := NameNode.isDir_of_child_isdir listed dir_mem isdir
  exact server.height_lt inside listed dir dir_mem isdir

theorem streamWalk_ends (positive : 0 < maxParallelism) :
    Relation.EndsIn (streamWalkTurn server recursive maxParallelism options)
      (Exact (Listed server root recursive options) (ListingFatal server root recursive options))
      (streamWalkStart root) :=
  ((streamForest server recursive options root).endsIn positive
      fun _ _ _ mem => streamVisit_height mem).mono
    fun _ delivered => .of_delivered delivered (fun _ => streamDue_iff) streamExit_iff

/-- Whatever the tree, its failures and the order of completions, `stream_walk` ends and sends
exactly what is listed, each entry once.  A failure of the root is its only message; otherwise a
failure that does not just prune a directory is its last one. -/
theorem streamWalk_exact (server : NameNode) (root : Text) (recursive : Bool)
    (options : WalkOptions) {maxParallelism : Nat} (positive : 0 < maxParallelism) :
    Relation.EndsIn (streamWalkTurn server recursive maxParallelism options)
      (fun final =>
        Exact (Listed server root recursive options) (ListingFatal server root recursive options)
            final ∧
          ∀ e, server.listStatus root = .error e → final.sent = [.error e])
      (streamWalkStart root) := by
  refine (streamWalk_ends positive).mono fun _ exact_ => ⟨exact_, fun e failed => ?_⟩
  have nothing_below : ∀ names entry, ¬Below server root names entry := by
    intro names entry below
    obtain ⟨entries, listed⟩ := below.root_listed
    simp [failed] at listed
  obtain ⟨e', entries, fatal, -, sent_eq, -, due⟩ := exact_.failed ⟨e, .inl failed⟩
  have nothing_sent : entries = [] := by
    apply List.eq_nil_iff_forall_not_mem.mpr
    intro entry mem
    rcases due entry mem with ⟨entries, listed, -⟩ | ⟨names, below, -⟩
    · simp [failed] at listed
    · exact nothing_below names entry below
  have same : e' = e := by
    rcases fatal with failed' | ⟨-, dir, ⟨-, names, below, -⟩, -⟩
    · simpa [failed] using failed'.symm
    · exact absurd below (nothing_below names dir)
  rw [sent_eq, nothing_sent, same]
  rfl

/-- Two listings in flight under `/d`, whose subdirectory is pruned. -/
theorem streamWalk_exact_sample :
    Relation.EndsIn (streamWalkTurn NameNode.sample true 2 ⟨true, false⟩)
      (fun final =>
        Exact (Listed NameNode.sample "/d".toList true ⟨true, false⟩)
            (ListingFatal NameNode.sample "/d".toList true ⟨true, false⟩) final ∧
          ∀ e, NameNode.sample.listStatus "/d".toList = .error e → final.sent = [.error e])
      (streamWalkStart "/d".toList) :=
  streamWalk_exact NameNode.sample "/d".toList true ⟨true, false⟩ (by decide)

end DuckdbHdfs
