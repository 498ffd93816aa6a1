import DuckdbHdfs.Library.StackDepth
import DuckdbHdfs.Walk.Listing

/-!
# The work stack of a listing

`stream_walk` lists the freshest discovery next, which is meant to keep its stack within depth
times fan-out.  A listing that is slow to complete pushes its subdirectories on top of what deeper
levels have left, so with several listings in flight the stack grows with a binomial coefficient
of the depth and the parallelism.
-/

namespace DuckdbHdfs

open WorkStack

/-- The directories of the tree below a root, with their level. -/
inductive DirectoryAt (server : NameNode) (root : Text) : ℕ → Text → Prop
  | root : DirectoryAt server root 0 root
  | child {level : ℕ} {path : Text} {entries : List FileStatus} {child : FileStatus}
      (above : DirectoryAt server root level path) (listed : server.listStatus path = .ok entries)
      (mem : child ∈ entries) (isdir : child.isdir = true) :
      DirectoryAt server root (level + 1) child.path

/-- A tree with a number of directory levels, the root's counted, and a bound on the
subdirectories of any directory. -/
structure DirectoryTree (server : NameNode) (root : Text) (levels fanout : ℕ) : Prop where
  level_lt : ∀ {level path}, DirectoryAt server root level path → level < levels
  deepest : ∃ level path, DirectoryAt server root level path ∧ level + 1 = levels
  fanout_le : ∀ {level path entries}, DirectoryAt server root level path →
    server.listStatus path = .ok entries → (entries.filter (·.isdir)).length ≤ fanout

/-- How many levels of a tree lie below the one of an item. -/
def levelsBelow (root : Text) (levels : ℕ) (item : StreamItem) : ℕ :=
  levels - 1 - ((splitPath item.path).length - (splitPath root).length)

section DirectoryTree

variable {server : NameNode} {root : Text} {levels fanout maxParallelism : ℕ}
  {options : WalkOptions}

theorem DirectoryAt.length_splitPath {level : ℕ} {path : Text}
    (here : DirectoryAt server root level path) :
    (splitPath path).length = (splitPath root).length + level := by
  induction here with
  | root => rfl
  | child above listed mem isdir ih =>
      have dir := NameNode.isDir_of_child_isdir listed mem isdir
      obtain ⟨name, -, -, -, names, -⟩ := NameNode.child_name dir listed mem
      rw [FileStatus.names] at names
      rw [names, List.length_append, ih, List.length_singleton, Nat.add_assoc]

theorem directoryAt_of_reached {item : StreamItem}
    (reached : Reached (streamVisit server true options) [⟨root, true⟩] item) :
    ∃ level, DirectoryAt server root level item.path := by
  induction reached with
  | initial mem =>
      rw [List.mem_singleton.mp mem]
      exact ⟨0, .root⟩
  | pushed _ mem ih =>
      obtain ⟨level, here⟩ := ih
      obtain ⟨-, entries, listed, dir, dir_mem, isdir, -, rfl⟩ := mem_streamVisit_pushed.mp mem
      exact ⟨level + 1, here.child listed dir_mem isdir⟩

theorem DirectoryTree.ranked (tree : DirectoryTree server root levels fanout) :
    Ranked (streamVisit server true options) ⟨root, true⟩ (levelsBelow root levels) fanout where
  child_rank := by
    intro item reached child mem
    obtain ⟨level, here⟩ := directoryAt_of_reached reached
    obtain ⟨-, entries, listed, dir, dir_mem, isdir, -, rfl⟩ := mem_streamVisit_pushed.mp mem
    have below := here.child listed dir_mem isdir
    have inside := tree.level_lt below
    rw [levelsBelow, levelsBelow, here.length_splitPath, below.length_splitPath]
    omega
  narrow := by
    intro item reached
    obtain ⟨level, here⟩ := directoryAt_of_reached reached
    cases listed : server.listStatus item.path with
    | error e =>
        obtain ⟨exit, visit_eq, -⟩ := streamVisit_of_error true options item listed
        rw [visit_eq]
        exact Nat.zero_le _
    | ok entries =>
        have fewer : (entries.filter fun child =>
            streamKeeps options item.path child && (true && child.isdir)).length ≤
              (entries.filter (·.isdir)).length := by
          apply List.Sublist.length_le
          apply List.monotone_filter_right
          intro child kept
          simp at kept
          exact kept.2
        rw [streamVisit_of_ok listed, List.length_map]
        exact fewer.trans (tree.fanout_le here listed)

/-- The stack of a recursive walk, in every state of every run. -/
theorem DirectoryTree.pending_length_le (tree : DirectoryTree server root levels fanout)
    (positive : 0 < maxParallelism) {state : StreamWalk}
    (reach : Relation.ReflTransGen (streamWalkTurn server true maxParallelism options)
      (streamWalkStart root) state) :
    state.pending.length ≤ max 1 (fanout * (levels - 1).multichoose maxParallelism) := by
  have ranked : Ranked (streamVisit server true options) ⟨root, true⟩ (levelsBelow root levels)
      fanout := tree.ranked
  have bound := ranked.pending_length_le positive reach
  have root_rank : levelsBelow root levels ⟨root, true⟩ = levels - 1 := by
    simp [levelsBelow]
  rwa [root_rank] at bound

end DirectoryTree

/-- The name of a subdirectory of a full tree. -/
def siblingName (index : ℕ) : Text :=
  List.replicate (index + 1) 'd'

theorem validName_siblingName (index : ℕ) : ValidName (siblingName index) where
  ne_nil := by simp [siblingName]
  no_slash := by simp [siblingName]

theorem siblingName_injective : Function.Injective siblingName := by
  intro first second same
  have lengths := congrArg List.length same
  simpa [siblingName] using lengths

theorem isHidden_siblingName (index : ℕ) : Glob.isHidden (siblingName index) = false := by
  simp [Glob.isHidden, siblingName, List.replicate_succ]

theorem length_splitPath_sibling (path : Text) (index : ℕ) :
    (splitPath (childPath path (siblingName index))).length = (splitPath path).length + 1 := by
  rw [splitPath_childPath (validName_siblingName index), List.length_append,
    List.length_singleton]

/-- The subdirectories of a directory in a full tree: none at the last level. -/
def siblings (levels fanout : ℕ) (path : Text) : List FileStatus :=
  if (splitPath path).length + 1 < levels then
    (List.range fanout).map fun index =>
      NameNode.sampleStatus (childPath path (siblingName index)) 0 true
  else
    []

theorem mem_siblings {levels fanout : ℕ} {path : Text} {child : FileStatus}
    (mem : child ∈ siblings levels fanout path) :
    (splitPath path).length + 1 < levels ∧
      ∃ index, child = NameNode.sampleStatus (childPath path (siblingName index)) 0 true := by
  rw [siblings] at mem
  split at mem
  · rename_i inner
    obtain ⟨index, -, rfl⟩ := List.mem_map.mp mem
    exact ⟨inner, index, rfl⟩
  · simp at mem

theorem siblings_length_le (levels fanout : ℕ) (path : Text) :
    (siblings levels fanout path).length ≤ fanout := by
  rw [siblings]
  split <;> simp

theorem siblings_nodup (levels fanout : ℕ) (path : Text) :
    ((siblings levels fanout path).map (·.path)).Nodup := by
  rw [siblings]
  split
  · rw [List.map_map]
    apply List.Nodup.map _ List.nodup_range
    intro first second same
    have names : splitPath (childPath path (siblingName first)) =
        splitPath (childPath path (siblingName second)) := congrArg splitPath same
    rw [splitPath_childPath (validName_siblingName first),
      splitPath_childPath (validName_siblingName second), List.append_cancel_left_eq] at names
    exact siblingName_injective (List.singleton_inj.mp names)
  · exact List.nodup_nil

/-- A server where every directory above the last level has `fanout` subdirectories. -/
def NameNode.fullTree (levels fanout : ℕ) : NameNode where
  getFileInfo path := .ok (sampleStatus path 0 true)
  listStatus path := .ok (siblings levels fanout path)
  isDir _ := true
  height path := levels - (splitPath path).length
  names_getFileInfo := by
    intro path status found
    obtain rfl := Except.ok.inj found
    rfl
  listStatus_file := by simp
  listStatus_child := by
    intro path entries _ listed child mem
    obtain rfl := Except.ok.inj listed
    obtain ⟨-, index, rfl⟩ := mem_siblings mem
    exact ⟨siblingName index, validName_siblingName index, rfl⟩
  isDir_child := by
    intro path entries _ listed child mem
    obtain rfl := Except.ok.inj listed
    obtain ⟨-, index, rfl⟩ := mem_siblings mem
    rfl
  listStatus_nodup := by
    intro path entries _ listed
    obtain rfl := Except.ok.inj listed
    exact siblings_nodup levels fanout path
  height_lt := by
    intro path entries _ listed child mem _
    obtain rfl := Except.ok.inj listed
    obtain ⟨inner, index, rfl⟩ := mem_siblings mem
    have longer := length_splitPath_sibling path index
    rw [sampleStatus, longer]
    omega

section fullTree

variable {levels fanout : ℕ} {options : WalkOptions}

theorem directoryTree_fullTree (some_level : 0 < levels) (some_child : 0 < fanout) :
    DirectoryTree (.fullTree levels fanout) ['/'] levels fanout where
  level_lt := by
    intro level path here
    cases here with
    | root => exact some_level
    | child above listed mem isdir =>
        obtain rfl := Except.ok.inj listed
        obtain ⟨inner, -⟩ := mem_siblings mem
        rw [above.length_splitPath, splitPath_slash, splitPath_nil, List.length_nil] at inner
        omega
  deepest := by
    have at_level : ∀ level < levels,
        ∃ path, DirectoryAt (.fullTree levels fanout) ['/'] level path := by
      intro level
      induction level with
      | zero => exact fun _ => ⟨_, .root⟩
      | succ level ih =>
          intro inside
          obtain ⟨path, here⟩ := ih (by omega)
          have inner : (splitPath path).length + 1 < levels := by
            rw [here.length_splitPath, splitPath_slash, splitPath_nil, List.length_nil]
            omega
          have first : NameNode.sampleStatus (childPath path (siblingName 0)) 0 true ∈
              siblings levels fanout path := by
            rw [siblings, if_pos inner]
            exact List.mem_map.mpr ⟨0, List.mem_range.mpr some_child, rfl⟩
          exact ⟨_, here.child rfl first rfl⟩
    obtain ⟨path, here⟩ := at_level (levels - 1) (by omega)
    exact ⟨levels - 1, path, here, by omega⟩
  fanout_le := by
    intro level path entries _ listed
    obtain rfl := Except.ok.inj listed
    exact (List.length_filter_le _ _).trans (siblings_length_le levels fanout path)

theorem full_fullTree :
    Full (streamVisit (.fullTree levels fanout) true options) (levelsBelow ['/'] levels)
      fanout := by
  constructor
  · intro item
    have kept : (siblings levels fanout item.path).filter (fun child =>
        streamKeeps options item.path child && (true && child.isdir)) =
          siblings levels fanout item.path := by
      apply List.filter_eq_self.mpr
      intro child mem
      obtain ⟨-, index, rfl⟩ := mem_siblings mem
      have base := @baseName_childPath item.path _ (validName_siblingName index)
      simp [streamKeeps, NameNode.sampleStatus, base, isHidden_siblingName]
    have below : ∀ item, levelsBelow ['/'] levels item =
        levels - 1 - (splitPath item.path).length := by
      intro item
      rw [levelsBelow, splitPath_slash, splitPath_nil, List.length_nil, Nat.sub_zero]
    rw [streamVisit_of_ok rfl]
    simp only [kept, List.map_map]
    by_cases inner : (splitPath item.path).length + 1 < levels
    · obtain ⟨lower, lower_eq⟩ : ∃ lower, levelsBelow ['/'] levels item = lower + 1 :=
        ⟨levels - (splitPath item.path).length - 2, by rw [below]; omega⟩
      rw [lower_eq, offspring, siblings, if_pos inner, List.map_map]
      rw [below] at lower_eq
      apply List.eq_replicate_iff.mpr
      refine ⟨by simp, ?_⟩
      intro level mem
      obtain ⟨index, -, rfl⟩ := List.mem_map.mp mem
      have longer := length_splitPath_sibling item.path index
      simp only [Function.comp_apply, below, NameNode.sampleStatus, longer]
      omega
    · have last : levelsBelow ['/'] levels item = 0 := by
        rw [below]
        omega
      rw [last, offspring, siblings, if_neg inner, List.map_nil]
  · intro item
    rw [streamVisit_of_ok rfl]

end fullTree

section Bound

variable {levels maxParallelism : ℕ}

theorem multichoose_levels (some_level : 0 < levels) (some_slot : 0 < maxParallelism) :
    (levels - 1).multichoose maxParallelism =
      (levels + maxParallelism - 2).choose maxParallelism := by
  rw [Nat.multichoose_eq]
  congr 1
  omega

/-- Beyond the binomial bound, a wide enough tree and some order of completions exceed depth times
fan-out times parallelism. -/
theorem exists_pending_length_lt (some_level : 0 < levels) (some_slot : 0 < maxParallelism)
    (options : WalkOptions) {fanout : ℕ} (wide : maxParallelism ≤ fanout)
    (exceeds : maxParallelism * levels * fanout <
      (fanout - maxParallelism) * (levels + maxParallelism - 2).choose maxParallelism) :
    ∃ state, Relation.ReflTransGen
        (streamWalkTurn (.fullTree levels fanout) true maxParallelism options)
        (streamWalkStart ['/']) state ∧
      maxParallelism * levels * fanout < state.pending.length := by
  have full : Full (streamVisit (.fullTree levels fanout) true options)
      (levelsBelow ['/'] levels) fanout := full_fullTree
  obtain ⟨state, reach, high⟩ := full.exists_pending_length some_slot wide ⟨['/'], true⟩ []
  have root_rank : levelsBelow ['/'] levels ⟨['/'], true⟩ = levels - 1 := by
    simp [levelsBelow]
  rw [root_rank, multichoose_levels some_level some_slot] at high
  exact ⟨state, reach, exceeds.trans_le high⟩

/-- Seven levels of seven subdirectories each, walked with two listings in flight, hold more than
`2 * 7 * 7` pending paths at some point. -/
theorem fullTree_seven_exceeds :
    DirectoryTree (.fullTree 7 7) ['/'] 7 7 ∧
      ∃ state, Relation.ReflTransGen (streamWalkTurn (.fullTree 7 7) true 2 ⟨false, false⟩)
          (streamWalkStart ['/']) state ∧
        2 * 7 * 7 < state.pending.length :=
  ⟨directoryTree_fullTree (by decide) (by decide),
    exists_pending_length_lt (by decide) (by decide) _ (by decide) (by decide)⟩

/-- The stack of a recursive walk stays within parallelism times depth times fan-out, for every
tree with so many levels and every order of completions, exactly if the binomial coefficient
does. -/
theorem streamWalk_pending_le_iff (some_level : 0 < levels) (some_slot : 0 < maxParallelism) :
    (∀ server root options fanout, 0 < fanout → DirectoryTree server root levels fanout →
        ∀ state, Relation.ReflTransGen (streamWalkTurn server true maxParallelism options)
            (streamWalkStart root) state →
          state.pending.length ≤ maxParallelism * levels * fanout) ↔
      (levels + maxParallelism - 2).choose maxParallelism ≤ maxParallelism * levels := by
  constructor
  · intro bounded
    by_contra exceeds
    let groups := (levels + maxParallelism - 2).choose maxParallelism
    have more : maxParallelism * levels + 1 ≤ groups := Nat.lt_of_not_le exceeds
    -- Wide enough for the surplus group to outweigh what the slots take from all groups.
    let fanout := maxParallelism * groups + 1
    have some_child : 0 < fanout := Nat.succ_pos _
    have wide : maxParallelism ≤ fanout := by
      have := Nat.mul_le_mul_left maxParallelism (show 1 ≤ groups by omega)
      omega
    have surplus : maxParallelism * levels * fanout < (fanout - maxParallelism) * groups := by
      have taken : fanout * (maxParallelism * levels + 1) ≤ fanout * groups :=
        Nat.mul_le_mul_left _ more
      rw [Nat.sub_mul]
      rw [Nat.mul_add, Nat.mul_comm fanout] at taken
      omega
    obtain ⟨state, reach, high⟩ :=
      exists_pending_length_lt some_level some_slot ⟨false, false⟩ wide surplus
    have low := bounded _ _ _ fanout some_child (directoryTree_fullTree some_level some_child)
      state reach
    omega
  · intro small server root options fanout some_child tree state reach
    have bound := tree.pending_length_le some_slot reach
    rw [multichoose_levels some_level some_slot] at bound
    have one : 1 ≤ maxParallelism * levels * fanout :=
      Nat.mul_pos (Nat.mul_pos some_slot some_level) some_child
    have groups := Nat.mul_le_mul_left fanout small
    rw [Nat.mul_comm fanout (maxParallelism * levels)] at groups
    exact bound.trans (max_le one groups)

/-- Two listings in flight keep the bound up to five levels. -/
theorem streamWalk_pending_le_iff_five :
    (∀ server root options fanout, 0 < fanout → DirectoryTree server root 5 fanout →
        ∀ state, Relation.ReflTransGen (streamWalkTurn server true 2 options)
            (streamWalkStart root) state →
          state.pending.length ≤ 2 * 5 * fanout) ↔
      (5 + 2 - 2).choose 2 ≤ 2 * 5 :=
  streamWalk_pending_le_iff (by decide) (by decide)

end Bound

end DuckdbHdfs
