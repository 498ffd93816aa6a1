import DuckdbHdfs.Glob.PlanLanguage
import DuckdbHdfs.Snapshot
import DuckdbHdfs.Walk.Glob
import DuckdbHdfs.Walk.Listing

/-!
# Walks over snapshots

Over a snapshot a walk cannot fail.  A glob finds exactly the nodes whose names some expansion of
its pattern describes, and a listing the children of its directory.
-/

namespace DuckdbHdfs

open Glob

/-- Some brace expansion of the pattern describes the names. -/
def Matches (pattern : Text) (includeHidden : Bool) (names : List Text) : Prop :=
  ∃ expansions, expandBraces pattern = .ok expansions ∧
    ∃ expanded ∈ expansions, PathMatches includeHidden (splitPath expanded) names

section Plan

variable {pattern : Text} {includeHidden : Bool} {plan : GlobPlan} {names : List Text}

theorem matches_iff_completes (parsed : GlobPlan.parse pattern includeHidden = .ok plan) :
    Matches pattern includeHidden names ↔
      ∃ components ∈ plan.patterns, completes includeHidden components names = true :=
  GlobPlan.exists_expansion_iff parsed

/-- A parsed plan starts at a path that all matches lie on or below, and tells from the names below
it whether they match. -/
theorem parse_matches (parsed : GlobPlan.parse pattern includeHidden = .ok plan) :
    ∃ shared, (∀ name ∈ shared, ValidName name) ∧ plan.root = pathOf shared ∧
      (plan.emitRoot = true ↔ Matches pattern includeHidden shared) ∧
      (∀ below lastIsDir, below ≠ [] → (plan.run plan.initial below lastIsDir = some true ↔
        Matches pattern includeHidden (shared ++ below))) ∧
      ∀ names, Matches pattern includeHidden names → ∃ below, names = shared ++ below := by
  have plan_valid := (GlobPlan.parse_sound parsed).initial_valid
  have described := fun names => @matches_iff_completes pattern includeHidden plan names parsed
  obtain ⟨expansions, expanded_eq, rfl, wellFormed⟩ := GlobPlan.parse_eq_ok parsed
  refine ⟨sharedPrefix (expansions.map componentsOf), fun name mem => ?_, rfl, ?_, ?_, ?_⟩
  · exact GlobPlan.sharedPrefix_valid (expandBraces_ne_nil expanded_eq) mem
  · rw [described]
    exact GlobPlan.emitRoot_iff_completes
  · intro below lastIsDir nonempty
    obtain ⟨emitted, ran, emitted_iff⟩ :=
      GlobPlan.run_spec lastIsDir wellFormed plan_valid nonempty
    rw [described, ran, Option.some.injEq, emitted_iff]
    exact GlobPlan.completes_initial_iff nonempty
  · intro names matched
    obtain ⟨components, mem, completed⟩ := (described names).mp matched
    obtain ⟨rest, rest_eq⟩ := literals_prefix_of_mem mem
    obtain ⟨below, names_eq, -⟩ := completes_literals.mp (rest_eq.symm ▸ completed)
    exact ⟨below, names_eq⟩

theorem run_nil_states (plan : GlobPlan) (names : List Text) (lastIsDir : Bool) :
    plan.run [] names lastIsDir = some false := by
  induction names with
  | nil => rfl
  | cons name names ih =>
      cases names with
      | nil => rfl
      | cons next names => exact ih

end Plan

section Globs

variable {snapshot : Snapshot} {pattern : Text} {includeHidden : Bool} {plan : GlobPlan}
  {options : WalkOptions} {shared : List Text} {path : Text} {states : List Pos}
  {entry : FileStatus}

/-- A reached directory carries the states that the names below the root lead to. -/
theorem GlobReached.run_eq {server : NameNode} (reached : GlobReached server plan path states)
    (root_eq : plan.root = pathOf shared) (shared_valid : ∀ name ∈ shared, ValidName name) :
    ∃ below, splitPath path = shared ++ below ∧
      ∀ more lastIsDir, more ≠ [] →
        plan.run plan.initial (below ++ more) lastIsDir = plan.run states more lastIsDir := by
  induction reached with
  | root more =>
      refine ⟨[], ?_, fun _ _ _ => rfl⟩
      rw [root_eq, splitPath_pathOf shared_valid, List.append_nil]
  | @child path states entries dir step _ listed mem isdir stepped _ ih =>
      obtain ⟨below, split, run_eq⟩ := ih
      have parent_dir := NameNode.isDir_of_child_isdir listed mem isdir
      obtain ⟨name, -, -, base, names, -⟩ := NameNode.child_name parent_dir listed mem
      rw [FileStatus.names, split] at names
      refine ⟨below ++ [name], by rw [names, List.append_assoc], fun more lastIsDir nonempty => ?_⟩
      obtain ⟨next, later, rfl⟩ := List.exists_cons_of_ne_nil nonempty
      rw [List.append_assoc, run_eq _ _ (by simp), List.singleton_append, GlobPlan.run, ← base,
        stepped]
      rfl

/-- On the way to a match every directory is reached. -/
theorem exists_globReached (parsed : GlobPlan.parse pattern includeHidden = .ok plan)
    (root_eq : plan.root = pathOf shared) {lastIsDir : Bool} {last : Text} (below : List Text)
    (ran : plan.run plan.initial (below ++ [last]) lastIsDir = some true)
    (dirs : ∀ front, front <+: below → ∃ dir ∈ snapshot.nodes, dir.isdir = true ∧
      dir.names = shared ++ front) :
    ∃ states, GlobReached snapshot.nameNode plan (pathOf (shared ++ below)) states ∧
      plan.run states [last] lastIsDir = some true := by
  have sound := GlobPlan.parse_sound parsed
  suffices reached : ∀ front back, below = front ++ back → ∃ states,
      GlobReached snapshot.nameNode plan (pathOf (shared ++ front)) states ∧
        plan.run states (back ++ [last]) lastIsDir = some true by
    simpa using reached below [] (by simp)
  intro front
  induction front using List.reverseRecOn with
  | nil =>
      rintro back rfl
      have more : plan.initial ≠ [] := by
        intro nothing
        rw [nothing, run_nil_states] at ran
        cases ran
      rw [List.append_nil, ← root_eq]
      exact ⟨plan.initial, .root more, ran⟩
  | append_singleton front name ih =>
      intro back below_eq
      obtain ⟨states, reached, ran⟩ := ih (name :: back) (by simpa using below_eq)
      obtain ⟨step, stepped, -⟩ := GlobPlan.step_spec name true sound.wellFormed
        (reached.valid sound)
      have ran_next : plan.run step.next (back ++ [last]) lastIsDir = some true := by
        cases back with
        | nil => simpa [GlobPlan.run, stepped] using ran
        | cons next back => simpa [GlobPlan.run, stepped] using ran
      have more : step.next ≠ [] := by
        intro nothing
        rw [nothing, run_nil_states] at ran_next
        cases ran_next
      obtain ⟨dir, dir_mem, isdir, dir_names⟩ := dirs front (by simp [below_eq])
      obtain ⟨child, child_mem, child_isdir, child_names⟩ := dirs (front ++ [name])
        (by simp [below_eq])
      rw [← List.append_assoc] at child_names
      obtain ⟨listed_mem, base⟩ := Snapshot.mem_children_of_names child_mem child_names
      have listed := Snapshot.listStatus_of_dir dir_mem isdir
      rw [dir_names] at listed
      rw [Snapshot.path_of_mem_nodes dir_mem, dir_names] at listed
      rw [← List.append_assoc, ← child_names, ← Snapshot.path_of_mem_nodes child_mem]
      exact ⟨step.next, .child reached listed listed_mem child_isdir (base ▸ stepped) more,
        ran_next⟩

theorem GlobReached.path_eq (reached : GlobReached snapshot.nameNode plan path states)
    (root_eq : plan.root = pathOf shared) (shared_valid : ∀ name ∈ shared, ValidName name) :
    path = pathOf (splitPath path) := by
  induction reached with
  | root => rw [root_eq, splitPath_pathOf shared_valid]
  | @child path states entries dir step _ listed mem isdir _ _ ih =>
      rw [ih] at listed
      obtain ⟨node, -, -, ⟨-, rfl⟩ | ⟨file, rfl⟩⟩ :=
        Snapshot.listStatus_pathOf (fun _ => validName_of_mem_splitPath) listed
      · exact (snapshot.spelled dir (Snapshot.mem_children_iff.mp mem).1).2
      · rw [List.mem_singleton.mp mem, file] at isdir
        cases isdir

theorem globbed_snapshot_iff (parsed : GlobPlan.parse pattern includeHidden = .ok plan) :
    Globbed snapshot.nameNode plan entry ↔
      entry ∈ snapshot.nodes ∧ Matches pattern includeHidden entry.names := by
  obtain ⟨shared, shared_valid, root_eq, emitRoot_iff, run_iff, extends_shared⟩ :=
    parse_matches parsed
  constructor
  · rintro (⟨emitted, found⟩ | ⟨path, states, entries, step, reached, listed, mem, different,
      stepped, emitted⟩)
    · rw [root_eq] at found
      obtain ⟨node_mem, rfl⟩ := (Snapshot.getFileInfo_pathOf_iff shared_valid).mp found
      exact ⟨node_mem, emitRoot_iff.mp emitted⟩
    · obtain ⟨below, split, run_eq⟩ := reached.run_eq root_eq shared_valid
      have path_eq := reached.path_eq root_eq shared_valid
      rw [path_eq] at listed different
      obtain ⟨node, node_mem, node_names, ⟨-, rfl⟩ | ⟨-, rfl⟩⟩ :=
        Snapshot.listStatus_pathOf (fun _ => validName_of_mem_splitPath) listed
      · obtain ⟨-, names_eq⟩ := Snapshot.names_of_mem_children mem
        refine ⟨.tail _ (Snapshot.mem_children_iff.mp mem).1, ?_⟩
        rw [names_eq, split, List.append_assoc]
        refine (run_iff _ entry.isdir (by simp)).mp ?_
        rw [run_eq _ _ (by simp), GlobPlan.run, stepped, Option.map_some, emitted]
      · rw [List.mem_singleton.mp mem, Snapshot.path_of_mem_nodes node_mem, node_names] at different
        exact absurd rfl different
  · rintro ⟨node_mem, matched⟩
    obtain ⟨below, names_eq⟩ := extends_shared entry.names matched
    rw [names_eq] at matched
    rcases List.eq_nil_or_concat' below with rfl | ⟨front, last, rfl⟩
    · rw [List.append_nil] at names_eq matched
      refine .inl ⟨emitRoot_iff.mpr matched, ?_⟩
      rw [root_eq]
      exact (Snapshot.getFileInfo_pathOf_iff shared_valid).mpr ⟨node_mem, names_eq⟩
    · have ran := (run_iff _ entry.isdir (by simp)).mpr matched
      rw [← List.append_assoc] at names_eq
      have dirs : ∀ above, above <+: front → ∃ dir ∈ snapshot.nodes, dir.isdir = true ∧
          dir.names = shared ++ above := by
        rintro above ⟨rest, rfl⟩
        exact Snapshot.exists_dir_above (rest ++ [last]) node_mem (by simpa using names_eq)
          (by simp)
      obtain ⟨states, reached, emitted⟩ := exists_globReached parsed root_eq front ran dirs
      obtain ⟨dir, dir_mem, isdir, dir_names⟩ := dirs front List.prefix_rfl
      obtain ⟨listed_mem, base⟩ := Snapshot.mem_children_of_names node_mem names_eq
      have listed := Snapshot.listStatus_of_dir dir_mem isdir
      rw [Snapshot.path_of_mem_nodes dir_mem, dir_names] at listed
      obtain ⟨step, stepped, step_emits⟩ : ∃ step,
          plan.step states last entry.isdir = some step ∧ step.emit = true := by
        simpa [GlobPlan.run] using emitted
      refine .inr ⟨_, states, _, step, reached, listed, listed_mem, ?_, base ▸ stepped, step_emits⟩
      intro same
      rw [← dir_names, ← Snapshot.path_of_mem_nodes dir_mem] at same
      have same_names : entry.names = dir.names := congrArg splitPath same
      rw [names_eq, dir_names] at same_names
      simp at same_names

/-- Nothing ends a glob over a snapshot. -/
theorem not_globFatal_snapshot (e : HdfsError) : ¬GlobFatal snapshot.nameNode plan options e := by
  rintro (⟨-, failed, present⟩ | ⟨path, states, -, failed, present, -⟩)
  · exact present _ (Snapshot.eq_fileNotFound_of_getFileInfo failed)
  · exact present _ (Snapshot.listStatus_eq_error_iff.mp failed).2

end Globs

section Listings

variable {snapshot : Snapshot} {options : WalkOptions} {path : Text} {entry : FileStatus}

theorem listed_iff_kept {server : NameNode} :
    Listed server path false options entry ↔
      ∃ entries, server.listStatus path = .ok entries ∧ entry ∈ entries ∧
        streamKeeps options path entry = true := by
  rw [← streamDue_iff]
  constructor
  · rintro (none | ⟨item, reached, mem⟩)
    · simp at none
    · obtain rfl : item = ⟨path, true⟩ := by simpa using streamReached_iff.mp reached
      exact mem_streamVisit_sent.mp mem
  · exact fun kept => .inr ⟨⟨path, true⟩, .initial (List.mem_singleton_self _),
      mem_streamVisit_sent.mpr kept⟩

/-- A listing over a snapshot is to find the file itself, or the children of the directory that the
options show. -/
theorem listed_snapshot_iff :
    Listed snapshot.nameNode path false options entry ↔
      ∃ node, snapshot.find (splitPath path) = some node ∧
        (node.isdir = false ∧ entry = { node with path := path } ∨
          node.isdir = true ∧ ∃ child ∈ snapshot.children (splitPath path),
            Shown options [baseName child.path] ∧ entry = Snapshot.childAt path child) := by
  have shown_iff : ∀ child ∈ snapshot.children (splitPath path),
      streamKeeps options path (Snapshot.childAt path child) = true ↔
        Shown options [baseName child.path] := by
    intro child mem
    obtain ⟨valid, -⟩ := Snapshot.names_of_mem_children mem
    have different : (Snapshot.childAt path child).path ≠ path := childPath_ne valid
    have base : baseName (Snapshot.childAt path child).path = baseName child.path :=
      baseName_childPath valid
    simp [streamKeeps, Shown, different, base, isHidden_eq_false_iff]
  rw [listed_iff_kept]
  constructor
  · rintro ⟨entries, listed, mem, kept⟩
    obtain ⟨node, found, ⟨isdir, rfl⟩ | ⟨file, rfl⟩⟩ := Snapshot.listStatus_eq_ok_iff.mp listed
    · obtain ⟨child, child_mem, rfl⟩ := List.mem_map.mp mem
      exact ⟨node, found, .inr ⟨isdir, child, child_mem, (shown_iff child child_mem).mp kept, rfl⟩⟩
    · exact ⟨node, found, .inl ⟨file, List.mem_singleton.mp mem⟩⟩
  · rintro ⟨node, found, ⟨file, rfl⟩ | ⟨isdir, child, child_mem, shown, rfl⟩⟩
    · exact ⟨_, Snapshot.listStatus_eq_ok_iff.mpr ⟨node, found, .inr ⟨file, rfl⟩⟩,
        List.mem_singleton_self _, by simp [streamKeeps]⟩
    · exact ⟨_, Snapshot.listStatus_eq_ok_iff.mpr ⟨node, found, .inl ⟨isdir, rfl⟩⟩,
        List.mem_map_of_mem child_mem, (shown_iff child child_mem).mpr shown⟩

theorem listingFatal_snapshot_iff {e : HdfsError} :
    ListingFatal snapshot.nameNode path false options e ↔
      snapshot.find (splitPath path) = none ∧ e = .fileNotFound path := by
  simp [ListingFatal, Snapshot.listStatus_eq_error_iff]

end Listings

/-- The plan of `/d/*`. -/
def samplePlan : GlobPlan where
  patterns := [[.literal ['d'], .pattern ['*']]]
  root := "/d".toList
  initial := [⟨0, 1⟩]
  emitRoot := false
  includeHidden := false

theorem parse_samplePlan : GlobPlan.parse "/d/*".toList false = .ok samplePlan := by
  decide +kernel

/-- The file and the directory in `/d`. -/
def sampleEntries : List FileStatus :=
  [NameNode.sampleStatus "/d/x".toList 3 false, NameNode.sampleStatus "/d/e".toList 0 true]

theorem sample_matches_iff {pattern : Text} {plan : GlobPlan} {node : FileStatus}
    (parsed : GlobPlan.parse pattern false = .ok plan)
    (decided : ∀ node ∈ Snapshot.sample.nodes,
      (∃ components ∈ plan.patterns, completes false components node.names = true) ↔
        node ∈ sampleEntries) :
    node ∈ Snapshot.sample.nodes ∧ Matches pattern false node.names ↔ node ∈ sampleEntries := by
  have there : ∀ node ∈ sampleEntries, node ∈ Snapshot.sample.nodes := by decide
  rw [matches_iff_completes parsed]
  exact ⟨fun found => (decided node found.1).mp found.2,
    fun mem => ⟨there node mem, (decided node (there node mem)).mpr mem⟩⟩

end DuckdbHdfs
