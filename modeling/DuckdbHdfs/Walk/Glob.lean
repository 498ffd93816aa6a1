import DuckdbHdfs.Glob.Parsing
import DuckdbHdfs.Walk.Results

/-!
# The glob walk

`glob_walk` sends the root's own entry, if the pattern matches it, and the children its plan
emits in the directories it reaches, whatever order its listings complete in.  The states it
carries stay valid, so no step takes the task down.
-/

namespace DuckdbHdfs

open Glob WorkStack

/-- The directories a glob reaches, with the states for their children. -/
inductive GlobReached (server : NameNode) (plan : GlobPlan) : Text → List Pos → Prop
  | root (more : plan.initial ≠ []) : GlobReached server plan plan.root plan.initial
  | child {path : Text} {states : List Pos} {entries : List FileStatus} {dir : FileStatus}
      {step : Step} (reached : GlobReached server plan path states)
      (listed : server.listStatus path = .ok entries) (mem : dir ∈ entries)
      (isdir : dir.isdir = true) (stepped : plan.step states (baseName dir.path) true = some step)
      (more : step.next ≠ []) : GlobReached server plan dir.path step.next

/-- The entries a glob should return: the root if the pattern spells it out, and what the plan
emits in the reached directories. -/
def Globbed (server : NameNode) (plan : GlobPlan) (entry : FileStatus) : Prop :=
  (plan.emitRoot = true ∧ server.getFileInfo plan.root = .ok entry) ∨
    ∃ path states entries step, GlobReached server plan path states ∧
      server.listStatus path = .ok entries ∧ entry ∈ entries ∧ entry.path ≠ path ∧
      plan.step states (baseName entry.path) entry.isdir = some step ∧ step.emit = true

/-- An error of the root's own stat that ends the walk before it lists anything. -/
def StatFatal (server : NameNode) (plan : GlobPlan) (e : HdfsError) : Prop :=
  plan.emitRoot = true ∧ server.getFileInfo plan.root = .error e ∧ ∀ path, e ≠ .fileNotFound path

/-- The errors that end a glob: those of the root's stat, and those of reached directories that
neither mean the directory is gone nor, below the root, may be skipped. -/
def GlobFatal (server : NameNode) (plan : GlobPlan) (options : WalkOptions) (e : HdfsError) :
    Prop :=
  StatFatal server plan e ∨
    ∃ path states, GlobReached server plan path states ∧ server.listStatus path = .error e ∧
      (∀ path, e ≠ .fileNotFound path) ∧
      ¬(path ≠ plan.root ∧ options.skipPermissionErrors = true ∧ classify e = .permission)

/-- The states a child is entered with. -/
def globNext (plan : GlobPlan) (states : List Pos) (child : FileStatus) : List Pos :=
  ((plan.step states (baseName child.path) child.isdir).map Step.next).getD []

/-- Whether a child is a match. -/
def globEmits (plan : GlobPlan) (states : List Pos) (child : FileStatus) : Bool :=
  ((plan.step states (baseName child.path) child.isdir).map Step.emit).getD false

/-- The initial entries of the walk. -/
def globBefore (server : NameNode) (plan : GlobPlan) : List FileStatus :=
  if plan.emitRoot then (server.getFileInfo plan.root).toOption.toList else []

variable {server : NameNode} {plan : GlobPlan} {options : WalkOptions} {path : Text}
  {states : List Pos} {entries : List FileStatus} {entry : FileStatus} {item : GlobItem}
  {maxParallelism : Nat}

theorem step_of_valid (wellFormed : plan.WellFormed) (valid : plan.Valid states)
    (child : FileStatus) :
    ∃ step, plan.step states (baseName child.path) child.isdir = some step ∧
      globNext plan states child = step.next ∧ globEmits plan states child = step.emit := by
  obtain ⟨step, stepped, -⟩ :=
    GlobPlan.step_spec (baseName child.path) child.isdir wellFormed valid
  exact ⟨step, stepped, by simp [globNext, stepped], by simp [globEmits, stepped]⟩

/-- With valid states the loop over a listing filters it twice: directories with states to be
entered with, and matches. -/
theorem globChildren_eq (wellFormed : plan.WellFormed) (valid : plan.Valid states)
    (children : List FileStatus) :
    globChildren plan path states children =
      { pushed := (children.filter fun child =>
            child.path ≠ path && (child.isdir && !(globNext plan states child).isEmpty)).map
              fun child => ⟨child.path, globNext plan states child, false⟩
        sent := children.filter fun child => child.path ≠ path && globEmits plan states child
        exit := none } := by
  induction children with
  | nil => rfl
  | cons child children ih =>
      obtain ⟨step, stepped, next_eq, emit_eq⟩ := step_of_valid wellFormed valid child
      rw [globChildren]
      by_cases same : child.path = path
      · rw [if_pos same, ih]
        simp [same]
      · rw [if_neg same]
        simp only [stepped, ih, ← next_eq, ← emit_eq]
        cases descends : child.isdir && !(globNext plan states child).isEmpty <;>
          cases emits : globEmits plan states child <;> simp [same, descends, emits]

/-- A failed listing pushes and sends nothing; it goes on if the directory is gone or, below the
root, may be skipped. -/
theorem globVisit_of_error (plan : GlobPlan) (options : WalkOptions) (item : GlobItem)
    {e : HdfsError} (failed : server.listStatus item.path = .error e) :
    ∃ exit, globVisit server plan options item = { pushed := [], sent := [], exit := exit } ∧
      (exit = none ∧ ((∃ path, e = .fileNotFound path) ∨
          item.isRoot = false ∧ options.skipPermissionErrors = true ∧ classify e = .permission) ∨
        exit = some (.failed e) ∧ (∀ path, e ≠ .fileNotFound path) ∧
          ¬(item.isRoot = false ∧ options.skipPermissionErrors = true ∧
            classify e = .permission)) := by
  have skipped : (!item.isRoot && options.skipPermissionErrors && isPermission e) = true ↔
      item.isRoot = false ∧ options.skipPermissionErrors = true ∧ classify e = .permission := by
    simp [isPermission, and_assoc]
  simp only [globVisit, failed]
  by_cases gone : ∃ path, e = .fileNotFound path
  · exact ⟨none, by rw [if_pos (isFileNotFound_iff.mpr gone)], .inl ⟨rfl, .inl gone⟩⟩
  · rw [if_neg (isFileNotFound_iff.not.mpr gone)]
    by_cases skip : item.isRoot = false ∧ options.skipPermissionErrors = true ∧
        classify e = .permission
    · exact ⟨none, by rw [if_pos (skipped.mpr skip)], .inl ⟨rfl, .inr skip⟩⟩
    · refine ⟨some (.failed e), by rw [if_neg (skipped.not.mpr skip)], .inr ⟨rfl, ?_, skip⟩⟩
      exact not_exists.mp gone

theorem globVisit_of_ok (wellFormed : plan.WellFormed) (valid : plan.Valid item.states)
    (listed : server.listStatus item.path = .ok entries) :
    globVisit server plan options item =
      { pushed := (entries.filter fun child => child.path ≠ item.path &&
            (child.isdir && !(globNext plan item.states child).isEmpty)).map
              fun child => ⟨child.path, globNext plan item.states child, false⟩
        sent := entries.filter fun child =>
          child.path ≠ item.path && globEmits plan item.states child
        exit := none } := by
  simp only [globVisit, listed, globChildren_eq wellFormed valid]

theorem mem_globVisit_pushed (wellFormed : plan.WellFormed) (valid : plan.Valid item.states)
    {child : GlobItem} :
    child ∈ (globVisit server plan options item).pushed ↔
      ∃ entries, server.listStatus item.path = .ok entries ∧ ∃ dir ∈ entries, dir.isdir = true ∧
        ∃ step, plan.step item.states (baseName dir.path) true = some step ∧ step.next ≠ [] ∧
          child = ⟨dir.path, step.next, false⟩ := by
  cases listed : server.listStatus item.path with
  | error e =>
      obtain ⟨exit, visit_eq, -⟩ := globVisit_of_error plan options item listed
      simp [visit_eq]
  | ok entries =>
      simp only [globVisit_of_ok wellFormed valid listed, List.mem_map, List.mem_filter,
        Bool.and_eq_true, decide_eq_true_eq, Except.ok.injEq, exists_eq_left']
      constructor
      · rintro ⟨dir, ⟨mem, -, isdir, more⟩, rfl⟩
        obtain ⟨step, stepped, next_eq, -⟩ := step_of_valid wellFormed valid dir
        rw [isdir] at stepped
        rw [next_eq] at more ⊢
        exact ⟨dir, mem, isdir, step, stepped, by simpa using more, rfl⟩
      · rintro ⟨dir, mem, isdir, step, stepped, more, rfl⟩
        have next_eq : globNext plan item.states dir = step.next := by
          simp [globNext, isdir, stepped]
        have parent_dir := NameNode.isDir_of_child_isdir listed mem isdir
        have different : dir.path ≠ item.path := by
          simp [NameNode.path_eq_iff listed mem, parent_dir]
        exact ⟨dir, ⟨mem, different, isdir, by simpa [next_eq] using more⟩, by rw [next_eq]⟩

theorem mem_globVisit_sent (wellFormed : plan.WellFormed) (valid : plan.Valid item.states) :
    entry ∈ (globVisit server plan options item).sent ↔
      ∃ entries, server.listStatus item.path = .ok entries ∧ entry ∈ entries ∧
        entry.path ≠ item.path ∧
        ∃ step, plan.step item.states (baseName entry.path) entry.isdir = some step ∧
          step.emit = true := by
  cases listed : server.listStatus item.path with
  | error e =>
      obtain ⟨exit, visit_eq, -⟩ := globVisit_of_error plan options item listed
      simp [visit_eq]
  | ok entries =>
      obtain ⟨step, stepped, -, emit_eq⟩ := step_of_valid wellFormed valid entry
      simp [globVisit_of_ok wellFormed valid listed, stepped, emit_eq]

theorem globVisit_exit_iff (wellFormed : plan.WellFormed) (valid : plan.Valid item.states)
    {exit : Exit HdfsError} :
    (globVisit server plan options item).exit = some exit ↔
      ∃ e, server.listStatus item.path = .error e ∧ (∀ path, e ≠ .fileNotFound path) ∧
        ¬(item.isRoot = false ∧ options.skipPermissionErrors = true ∧ classify e = .permission) ∧
        exit = .failed e := by
  cases listed : server.listStatus item.path with
  | ok entries => simp [globVisit_of_ok wellFormed valid listed]
  | error e =>
      obtain ⟨exit', visit_eq, ⟨rfl, goes_on⟩ | ⟨rfl, present, strict⟩⟩ :=
        globVisit_of_error plan options item listed
      · rcases goes_on with ⟨path, rfl⟩ | skip
        · simp [visit_eq]
        · simp [visit_eq, skip]
      · simp only [visit_eq, Option.some.injEq, Except.error.injEq, exists_eq_left', present,
          strict, ne_eq, not_false_eq_true, implies_true, true_and]
        exact eq_comm

/-- Every reached directory carries states that stand for remaining components. -/
theorem GlobReached.valid (sound : plan.Sound)
    (reached : GlobReached server plan path states) : plan.Valid states := by
  induction reached with
  | root => exact sound.initial_valid
  | child _ _ _ _ stepped _ ih => exact GlobPlan.step_valid sound.wellFormed ih stepped

theorem GlobReached.extends_root (reached : GlobReached server plan path states) :
    splitPath plan.root <+: splitPath path := by
  induction reached with
  | root => exact List.prefix_rfl
  | child _ listed mem isdir _ _ ih =>
      have parent_dir := NameNode.isDir_of_child_isdir listed mem isdir
      obtain ⟨name, -, -, -, names, -⟩ := NameNode.child_name parent_dir listed mem
      rw [FileStatus.names] at names
      rw [names]
      exact ih.trans (List.prefix_append _ _)

theorem GlobReached.child_ne_root (reached : GlobReached server plan path states)
    (listed : server.listStatus path = .ok entries) (mem : entry ∈ entries)
    (isdir : entry.isdir = true) : entry.path ≠ plan.root := by
  intro same
  have parent_dir := NameNode.isDir_of_child_isdir listed mem isdir
  obtain ⟨name, -, -, -, names, -⟩ := NameNode.child_name parent_dir listed mem
  have longer := reached.extends_root.length_le
  rw [← same] at longer
  simp only [FileStatus.names] at names
  rw [names, List.length_append, List.length_singleton] at longer
  omega

/-- The items of the walk are the reached directories, the root marked as such. -/
theorem globReached_iff (sound : plan.Sound) :
    Reached (globVisit server plan options) (globInitial plan) item ↔
      GlobReached server plan item.path item.states ∧
        item.isRoot = decide (item.path = plan.root) := by
  constructor
  · intro reached
    induction reached with
    | @initial item mem =>
        by_cases nothing : plan.initial = []
        · simp [globInitial, nothing] at mem
        · obtain rfl : item = ⟨plan.root, plan.initial, true⟩ := by
            simpa [globInitial, nothing] using mem
          exact ⟨.root nothing, by simp⟩
    | pushed _ mem ih =>
        obtain ⟨parent_reached, -⟩ := ih
        have valid := parent_reached.valid sound
        obtain ⟨entries, listed, dir, dir_mem, isdir, step, stepped, more, rfl⟩ :=
          (mem_globVisit_pushed sound.wellFormed valid).mp mem
        have below := parent_reached.child_ne_root listed dir_mem isdir
        exact ⟨.child parent_reached listed dir_mem isdir stepped more, by simp [below]⟩
  · obtain ⟨path, states, isRoot⟩ := item
    rintro ⟨reached, isRoot_eq⟩
    obtain rfl : isRoot = decide (path = plan.root) := isRoot_eq
    simp only at reached
    induction reached with
    | root more => exact .initial (by simp [globInitial, more])
    | child parent_reached listed mem isdir stepped more ih =>
        have valid := parent_reached.valid sound
        have below := parent_reached.child_ne_root listed mem isdir
        rw [decide_eq_false below]
        exact .pushed ih ((mem_globVisit_pushed sound.wellFormed valid).mpr
          ⟨_, listed, _, mem, isdir, _, stepped, more, rfl⟩)

theorem globItem_valid (sound : plan.Sound)
    (reached : Reached (globVisit server plan options) (globInitial plan) item) :
    plan.Valid item.states :=
  ((globReached_iff sound).mp reached).1.valid sound

theorem globForest (sound : plan.Sound) (server : NameNode) (options : WalkOptions) :
    Forest (globVisit server plan options) (globInitial plan) (globBefore server plan)
      (fun item => splitPath item.path) FileStatus.names where
  single := by
    rw [globInitial]
    split <;> simp
  child_address item reached child mem := by
    have valid := globItem_valid sound reached
    obtain ⟨entries, listed, dir, dir_mem, isdir, step, -, -, rfl⟩ :=
      (mem_globVisit_pushed sound.wellFormed valid).mp mem
    have parent_dir := NameNode.isDir_of_child_isdir listed dir_mem isdir
    obtain ⟨name, -, -, -, names, -⟩ := NameNode.child_name parent_dir listed dir_mem
    exact ⟨name, names⟩
  pushed_nodup item reached := by
    have valid := globItem_valid sound reached
    cases listed : server.listStatus item.path with
    | error e =>
        obtain ⟨exit, visit_eq, -⟩ := globVisit_of_error plan options item listed
        simp [visit_eq]
    | ok entries =>
        rw [globVisit_of_ok sound.wellFormed valid listed, List.map_map]
        exact (NameNode.names_nodup listed).sublist (List.filter_sublist.map _)
  place_eq item reached entry mem := by
    have valid := globItem_valid sound reached
    obtain ⟨entries, listed, entry_mem, different, -⟩ :=
      (mem_globVisit_sent sound.wellFormed valid).mp mem
    have parent_dir : server.isDir item.path = true := by
      simpa using (NameNode.path_eq_iff listed entry_mem).not.mp different
    obtain ⟨name, -, -, -, names, -⟩ := NameNode.child_name parent_dir listed entry_mem
    exact .inl ⟨name, names⟩
  sent_nodup item reached := by
    have valid := globItem_valid sound reached
    cases listed : server.listStatus item.path with
    | error e =>
        obtain ⟨exit, visit_eq, -⟩ := globVisit_of_error plan options item listed
        simp [visit_eq]
    | ok entries =>
        rw [globVisit_of_ok sound.wellFormed valid listed]
        exact (NameNode.names_nodup listed).sublist (List.filter_sublist.map _)
  before_single := by
    rw [globBefore]
    split
    · cases (server.getFileInfo plan.root).toOption <;> simp
    · simp
  before_place entry mem root root_mem := by
    have found : server.getFileInfo plan.root = .ok entry := by
      cases info : server.getFileInfo plan.root <;> simp_all [globBefore, Except.toOption]
    have root_eq : root.path = plan.root := by
      by_cases nothing : plan.initial = []
      · simp [globInitial, nothing] at root_mem
      · simp only [globInitial, List.isEmpty_iff, nothing, if_false, List.mem_singleton] at root_mem
        rw [root_mem]
    rw [server.names_getFileInfo found, root_eq]

theorem globDue_iff (sound : plan.Sound) :
    Due (globVisit server plan options) (globInitial plan) (globBefore server plan) entry ↔
      Globbed server plan entry := by
  have root_entry : entry ∈ globBefore server plan ↔
      plan.emitRoot = true ∧ server.getFileInfo plan.root = .ok entry := by
    rw [globBefore]
    cases info : server.getFileInfo plan.root with
    | error e => simp [Except.toOption]
    | ok status => cases plan.emitRoot <;> simp [Except.toOption, eq_comm]
  rw [Due, Globbed, root_entry]
  apply or_congr_right
  constructor
  · rintro ⟨item, item_reached, mem⟩
    have valid := globItem_valid sound item_reached
    obtain ⟨reached, -⟩ := (globReached_iff sound).mp item_reached
    obtain ⟨entries, listed, entry_mem, different, step, stepped, emitted⟩ :=
      (mem_globVisit_sent sound.wellFormed valid).mp mem
    exact ⟨_, _, entries, step, reached, listed, entry_mem, different, stepped, emitted⟩
  · rintro ⟨path, states, entries, step, reached, listed, mem, different, stepped, emitted⟩
    have valid := reached.valid sound
    exact ⟨⟨path, states, decide (path = plan.root)⟩,
      (globReached_iff sound).mpr ⟨reached, rfl⟩,
      (mem_globVisit_sent sound.wellFormed valid).mpr
        ⟨entries, listed, mem, different, step, stepped, emitted⟩⟩

theorem globExit_iff (sound : plan.Sound) (no_stat : ∀ e, ¬StatFatal server plan e)
    (exit : Exit HdfsError) :
    (∃ item, Reached (globVisit server plan options) (globInitial plan) item ∧
        (globVisit server plan options item).exit = some exit) ↔
      ∃ e, GlobFatal server plan options e ∧ exit = .failed e := by
  constructor
  · rintro ⟨item, item_reached, item_exit⟩
    have valid := globItem_valid sound item_reached
    obtain ⟨reached, isRoot_eq⟩ := (globReached_iff sound).mp item_reached
    obtain ⟨e, failed, present, strict, rfl⟩ :=
      (globVisit_exit_iff sound.wellFormed valid).mp item_exit
    refine ⟨e, .inr ⟨_, _, reached, failed, present, fun skip => strict ⟨?_, skip.2⟩⟩, rfl⟩
    rw [isRoot_eq, decide_eq_false skip.1]
  · rintro ⟨e, stat | ⟨path, states, reached, failed, present, strict⟩, rfl⟩
    · exact absurd stat (no_stat e)
    · have valid := reached.valid sound
      refine ⟨⟨path, states, decide (path = plan.root)⟩,
        (globReached_iff sound).mpr ⟨reached, rfl⟩,
        (globVisit_exit_iff sound.wellFormed valid).mpr ⟨e, failed, present, fun skip => ?_, rfl⟩⟩
      exact strict ⟨by simpa using skip.1, skip.2⟩

theorem globVisit_height (sound : plan.Sound) {child : GlobItem}
    (reached : Reached (globVisit server plan options) (globInitial plan) item)
    (mem : child ∈ (globVisit server plan options item).pushed) :
    server.height child.path < server.height item.path := by
  have valid := globItem_valid sound reached
  obtain ⟨entries, listed, dir, dir_mem, isdir, -, -, -, rfl⟩ :=
    (mem_globVisit_pushed sound.wellFormed valid).mp mem
  have inside := NameNode.isDir_of_child_isdir listed dir_mem isdir
  exact server.height_lt inside listed dir dir_mem isdir

theorem globWalkStart_cases (server : NameNode) (plan : GlobPlan) :
    (∃ e, StatFatal server plan e ∧ globWalkStart server plan =
        { pending := [], inFlight := [], sent := [.error e], exit := some (.failed e) }) ∨
      (∀ e, ¬StatFatal server plan e) ∧
        globWalkStart server plan = .start (globInitial plan) (globBefore server plan) := by
  cases emits : plan.emitRoot with
  | false => exact .inr ⟨by simp [StatFatal, emits], by simp [globWalkStart, globBefore, emits]⟩
  | true =>
      cases info : server.getFileInfo plan.root with
      | ok status =>
          refine .inr ⟨by simp [StatFatal, info], ?_⟩
          simp [globWalkStart, globBefore, emits, info, Except.toOption]
      | error e =>
          by_cases gone : ∃ path, e = .fileNotFound path
          · refine .inr ⟨fun e' stat => ?_, ?_⟩
            · obtain ⟨-, info', present⟩ := stat
              obtain rfl : e = e' := by simpa [info] using info'
              exact not_exists.mpr present gone
            · have seen := isFileNotFound_iff.mpr gone
              simp [globWalkStart, globBefore, emits, info, seen, Except.toOption]
          · refine .inl ⟨e, ⟨emits, info, not_exists.mp gone⟩, ?_⟩
            have other := isFileNotFound_iff.not.mpr gone
            simp [globWalkStart, emits, info, other]

/-- Every run of the walk ends and is exact. -/
theorem globWalk_ends (sound : plan.Sound) (positive : 0 < maxParallelism) :
    Relation.EndsIn (globWalkTurn server plan maxParallelism options)
      (Exact (Globbed server plan) (GlobFatal server plan options))
      (globWalkStart server plan) := by
  rcases globWalkStart_cases server plan with ⟨e, stat, start_eq⟩ | ⟨no_stat, start_eq⟩
  · rw [start_eq]
    refine .intro (fun _ => ⟨fun none_fatal => absurd (.inl stat) (none_fatal e), fun _ => ?_⟩) ?_
    · exact ⟨e, [], .inl stat, rfl, rfl, List.nodup_nil, by simp⟩
    · rintro next ⟨choice, turn⟩
      simp [State.turn] at turn
  · rw [start_eq]
    refine ((globForest sound server options).endsIn positive
      fun _ reached _ mem => globVisit_height sound reached mem).mono fun _ delivered => ?_
    exact .of_delivered delivered (fun _ => globDue_iff sound) (globExit_iff sound no_stat)

/-- For a parsed pattern, whatever the tree, its failures and the order of completions,
`glob_walk` ends and sends exactly what the pattern matches, each entry once; an error that
does not just mean an empty branch is sent last. -/
theorem globWalk_exact {pattern : Text} {includeHidden : Bool} {plan : GlobPlan}
    (parsed : GlobPlan.parse pattern includeHidden = .ok plan) (server : NameNode)
    (options : WalkOptions) {maxParallelism : Nat} (positive : 0 < maxParallelism) :
    Relation.EndsIn (globWalkTurn server plan maxParallelism options)
      (Exact (Globbed server plan) (GlobFatal server plan options))
      (globWalkStart server plan) :=
  globWalk_ends (GlobPlan.parse_sound parsed) positive

/-- `/d/{x,e/*}` with two listings in flight. -/
theorem globWalk_exact_sample :
    ∃ plan, GlobPlan.parse "/d/{x,e/*}".toList false = .ok plan ∧
      Relation.EndsIn (globWalkTurn NameNode.sample plan 2 ⟨true, false⟩)
        (Exact (Globbed NameNode.sample plan) (GlobFatal NameNode.sample plan ⟨true, false⟩))
        (globWalkStart NameNode.sample plan) := by
  let plan : GlobPlan :=
    { patterns := [[.literal ['d'], .literal ['x']],
        [.literal ['d'], .literal ['e'], .pattern ['*']]]
      root := "/d".toList, initial := [⟨0, 1⟩, ⟨1, 1⟩], emitRoot := false, includeHidden := false }
  have parsed : GlobPlan.parse "/d/{x,e/*}".toList false = .ok plan := by decide +kernel
  exact ⟨plan, parsed, globWalk_exact parsed NameNode.sample ⟨true, false⟩ (by decide)⟩

end DuckdbHdfs
