import DuckdbHdfs.Walk.Glob
import DuckdbHdfs.Walk.Listing

/-!
# A listing and the glob that replaces it

The pattern `D/**` compiles to a plan with a single state that stays on every shown directory, and
`D/*` to one that matches a single level.  Both globs reach the directories the listing of `D`
visits, and return the entries it returns.
-/

namespace DuckdbHdfs

open Glob WorkStack

/-- A name without the characters a pattern gives a meaning to. -/
def PlainName (name : Text) : Prop :=
  ∀ c ∈ name, c ∉ ['*', '?', '[', '{', '\\']

/-- The last component of the pattern that replaces a listing. -/
def levelPattern (recursive : Bool) : Text :=
  if recursive then ['*', '*'] else ['*']

/-- The component it compiles to. -/
def levelComponent (recursive : Bool) : Component :=
  if recursive then .crawl else .pattern ['*']

/-- The plan of the pattern that replaces a listing. -/
def levelPlan (names : List Text) (recursive includeHidden : Bool) : GlobPlan where
  patterns := [names.map .literal ++ [levelComponent recursive]]
  root := pathOf names
  initial := [⟨0, names.length⟩]
  emitRoot := false
  includeHidden := includeHidden

theorem splitBrace_eq_none {text : Text} (plain : ∀ c ∈ text, c ≠ '{' ∧ c ≠ '\\') :
    splitBrace text = none := by
  fun_induction splitBrace text with
  | case1 => rfl
  | case2 => rfl
  | case3 => exact absurd rfl (plain '\\' List.mem_cons_self).2
  | case4 => exact absurd rfl (plain '{' List.mem_cons_self).1
  | case5 c rest _ _ ih => rw [ih fun d mem => plain d (.tail _ mem), Option.map_none]

theorem PlainName.spells {name : Text} (plain : PlainName name) : Spells name name := by
  induction name with
  | nil => exact .nil
  | cons c name ih =>
      have ordinary := plain c List.mem_cons_self
      have rest := ih fun d mem => plain d (.tail _ mem)
      exact .plain (fun wild => ordinary (by simp at wild ⊢; tauto)) rest

theorem mem_pathOf {names : List Text} {c : Char} (mem : c ∈ pathOf names) :
    c = '/' ∨ ∃ name ∈ names, c ∈ name := by
  by_cases nonempty : names = []
  · subst nonempty
    exact .inl (by simpa [pathOf] using mem)
  · rw [pathOf_eq_flatMap nonempty] at mem
    obtain ⟨name, name_mem, mem⟩ := List.mem_flatMap.mp mem
    exact (List.mem_cons.mp mem).imp_right fun mem => ⟨name, name_mem, mem⟩

theorem growPrefix_level (names : List Text) (recursive : Bool) (k : Nat) :
    growPrefix [] k (names.map .literal ++ [levelComponent recursive]) = names := by
  induction names generalizing k with
  | nil => cases recursive <;> rfl
  | cons name names ih =>
      rw [List.map_cons, List.cons_append, growPrefix, ih]
      rfl

theorem ofPatterns_level (names : List Text) (recursive includeHidden : Bool) :
    GlobPlan.ofPatterns [names.map .literal ++ [levelComponent recursive]] includeHidden =
      levelPlan names recursive includeHidden := by
  simp [GlobPlan.ofPatterns, levelPlan, sharedPrefix, growPrefix_level]

theorem parseComponent_level (recursive : Bool) :
    parseComponent (levelPattern recursive) = levelComponent recursive := by
  cases recursive <;> decide

theorem levelPattern_valid (recursive : Bool) : ValidName (levelPattern recursive) := by
  cases recursive <;> exact ⟨by decide, by decide⟩

theorem count_level (names : List Text) (recursive : Bool) :
    (names.map Component.literal ++ [levelComponent recursive]).count .crawl ≤ 1 := by
  have none : (names.map Component.literal).count .crawl = 0 := by
    rw [List.count_eq_zero]
    simp
  rw [List.count_append, none, Nat.zero_add]
  exact List.count_le_length

section Level

variable {names : List Text} {recursive : Bool}

theorem parse_level (valid : ∀ name ∈ names, ValidName name)
    (plain : ∀ name ∈ names, PlainName name) (includeHidden : Bool) :
    GlobPlan.parse (pathOf (names ++ [levelPattern recursive])) includeHidden =
      .ok (levelPlan names recursive includeHidden) := by
  have brace_free : splitBrace (pathOf (names ++ [levelPattern recursive])) = none := by
    apply splitBrace_eq_none
    intro c mem
    rcases mem_pathOf mem with rfl | ⟨name, name_mem, mem⟩
    · decide
    · rcases List.mem_append.mp name_mem with above | last
      · have ordinary := plain name above c mem
        simp at ordinary
        tauto
      · rw [List.mem_singleton.mp last] at mem
        have stars : c = '*' := by
          cases recursive <;> simpa [levelPattern] using mem
        subst stars
        decide
  have split : splitPath (pathOf (names ++ [levelPattern recursive])) =
      names ++ [levelPattern recursive] := by
    apply splitPath_pathOf
    intro name mem
    rcases List.mem_append.mp mem with above | last
    · exact valid name above
    · rw [List.mem_singleton.mp last]
      exact levelPattern_valid recursive
  have literals : names.map parseComponent = names.map .literal := by
    apply List.map_congr_left
    intro name mem
    exact parseComponent_literal_iff.mpr (plain name mem).spells
  have components : componentsOf (pathOf (names ++ [levelPattern recursive])) =
      names.map .literal ++ [levelComponent recursive] := by
    rw [componentsOf, split, List.map_append, literals, List.map_singleton, parseComponent_level]
  have compiled : parseExpansion (pathOf (names ++ [levelPattern recursive]))
      (pathOf (names ++ [levelPattern recursive])) =
        .ok (names.map .literal ++ [levelComponent recursive]) :=
    parseExpansion_eq_ok_iff.mpr ⟨components.symm, count_level names recursive⟩
  rw [GlobPlan.parse, expandBraces_of_splitBrace_none brace_free]
  simp [bind, Except.bind, compiled, pure, Except.pure, ofPatterns_level]

theorem levelPlan_residual (names : List Text) (recursive includeHidden : Bool) :
    (levelPlan names recursive includeHidden).Residual ⟨0, names.length⟩
      [levelComponent recursive] := by
  refine ⟨names.map .literal ++ [levelComponent recursive], rfl, by simp, ?_⟩
  rw [List.drop_left' (by simp)]

theorem levelPlan_sound (names : List Text) (recursive includeHidden : Bool) :
    (levelPlan names recursive includeHidden).Sound := by
  constructor
  · intro components mem
    rw [List.mem_singleton.mp mem]
    exact count_level names recursive
  · intro pos mem
    rw [List.mem_singleton.mp mem]
    exact ⟨_, levelPlan_residual names recursive includeHidden⟩

end Level

theorem matchComponent_star (name : Text) : matchComponent name ['*'] = true := by
  rw [matchComponent]
  cases name <;> simp [matchChars]

theorem shown_iff_visible {options : WalkOptions} {name : Text} :
    Shown options [name] ↔ visible options.includeHidden name = true := by
  simp [Shown, visible, isHidden_eq_false_iff]

/-- One step of the plan: it emits every shown name, and only the crawl stays, on the shown
directories. -/
theorem levelPlan_step (names : List Text) (recursive : Bool) (options : WalkOptions) (name : Text)
    (isDir : Bool) :
    ∃ step, (levelPlan names recursive options.includeHidden).step [⟨0, names.length⟩] name isDir =
        some step ∧
      (step.emit = true ↔ Shown options [name]) ∧
      (step.next ≠ [] ↔ recursive = true ∧ isDir = true ∧ Shown options [name]) ∧
      (step.next ≠ [] → step.next = [⟨0, names.length⟩]) := by
  have sound := levelPlan_sound names recursive options.includeHidden
  have residual := levelPlan_residual names recursive options.includeHidden
  obtain ⟨step, stepped, emit_iff, mem_next, nodup⟩ :=
    GlobPlan.step_spec name isDir sound.wellFormed sound.initial_valid
  have only : ∀ rest, (levelPlan names recursive options.includeHidden).Residual
      ⟨0, names.length⟩ rest ↔ rest = [levelComponent recursive] := fun rest =>
    ⟨fun residual' => residual'.unique residual, fun equality => equality ▸ residual⟩
  have emits_iff : emits options.includeHidden name [levelComponent recursive] = true ↔
      Shown options [name] := by
    rw [shown_iff_visible]
    cases recursive with
    | true => simp [levelComponent, emits]
    | false =>
        simp [levelComponent, emits_cons, Component.accepts, matchComponent_star,
          explicitHiddenPrefix]
  have advances_iff : ∀ count, count ∈ advances options.includeHidden name
      [levelComponent recursive] ↔ recursive = true ∧ Shown options [name] ∧ count = 0 := by
    intro count
    rw [shown_iff_visible]
    cases recursive with
    | true => simp [levelComponent, mem_advances_lastCrawl]
    | false => simp [levelComponent, mem_advances_cons]
  have next_iff : ∀ other, other ∈ step.next ↔
      recursive = true ∧ isDir = true ∧ Shown options [name] ∧ other = ⟨0, names.length⟩ := by
    intro other
    rw [mem_next]
    simp only [GlobPlan.Descends, levelPlan, List.mem_singleton, exists_eq_left]
    simp only [levelPlan] at only
    simp only [only, exists_eq_left, advances_iff]
    constructor
    · rintro ⟨dir, _, ⟨deep, shown, rfl⟩, rfl⟩
      exact ⟨deep, dir, shown, rfl⟩
    · rintro ⟨deep, dir, shown, rfl⟩
      exact ⟨dir, 0, ⟨deep, shown, rfl⟩, rfl⟩
  refine ⟨step, stepped, ?_, ?_, fun more => ?_⟩
  · rw [emit_iff]
    simp only [GlobPlan.Emits, levelPlan, List.mem_singleton, exists_eq_left]
    simp only [levelPlan] at only
    simp only [only, exists_eq_left, emits_iff]
  · constructor
    · intro more
      obtain ⟨other, mem⟩ := List.exists_mem_of_ne_nil _ more
      obtain ⟨deep, dir, shown, -⟩ := (next_iff other).mp mem
      exact ⟨deep, dir, shown⟩
    · rintro ⟨deep, dir, shown⟩
      exact List.ne_nil_of_mem ((next_iff _).mpr ⟨deep, dir, shown, rfl⟩)
  · obtain ⟨other, mem⟩ := List.exists_mem_of_ne_nil _ more
    obtain ⟨-, -, -, rfl⟩ := (next_iff other).mp mem
    by_contra different
    obtain ⟨other, other_mem, apart⟩ :=
      (nodup.ne_singleton_iff _).mp different |>.resolve_left more
    exact apart ((next_iff other).mp other_mem).2.2.2

section Walks

variable {server : NameNode} {names : List Text} {recursive : Bool} {options : WalkOptions}
  {entries : List FileStatus} {entry : FileStatus} {path : Text} {states : List Pos}

/-- The items of both walks correspond. -/
theorem levelReached_iff :
    GlobReached server (levelPlan names recursive options.includeHidden) path states ↔
      states = [⟨0, names.length⟩] ∧ ∃ isRoot,
        Reached (streamVisit server recursive options) [⟨pathOf names, true⟩] ⟨path, isRoot⟩ := by
  constructor
  · intro reached
    induction reached with
    | root => exact ⟨rfl, true, .initial (List.mem_singleton_self _)⟩
    | @child _ _ _ dir step _ listed mem isdir stepped more ih =>
        obtain ⟨rfl, isRoot, reached⟩ := ih
        obtain ⟨step', stepped', -, more_iff, next_eq⟩ :=
          levelPlan_step names recursive options (baseName dir.path) true
        obtain rfl : step' = step := by simpa [stepped'] using stepped
        obtain ⟨deep, -, shown⟩ := more_iff.mp more
        have parent_dir := NameNode.isDir_of_child_isdir listed mem isdir
        obtain ⟨name, valid, path_eq, base, -, -⟩ := NameNode.child_name parent_dir listed mem
        have kept : streamKeeps options _ dir = true :=
          (streamKeeps_iff listed mem).mpr (.inr ⟨name, valid, path_eq, base ▸ shown⟩)
        exact ⟨next_eq more, false,
          .pushed reached
            (mem_streamVisit_pushed.mpr ⟨deep, _, listed, dir, mem, isdir, kept, rfl⟩)⟩
  · rintro ⟨rfl, isRoot, reached⟩
    generalize item_eq : (⟨path, isRoot⟩ : StreamItem) = item at reached
    induction reached generalizing path isRoot with
    | initial mem =>
        obtain ⟨rfl, -⟩ : path = pathOf names ∧ isRoot = true := by
          simpa [← item_eq] using mem
        exact .root (by simp [levelPlan])
    | @pushed parent _ _ mem ih =>
        obtain ⟨deep, entries, listed, dir, dir_mem, isdir, kept, rfl⟩ :=
          mem_streamVisit_pushed.mp mem
        obtain ⟨rfl, -⟩ : path = dir.path ∧ isRoot = false := by simpa using item_eq
        have parent_dir := NameNode.isDir_of_child_isdir listed dir_mem isdir
        obtain ⟨name, -, -, base, -, different⟩ := NameNode.child_name parent_dir listed dir_mem
        have shown : Shown options [baseName dir.path] := by
          obtain ⟨name', valid', path_eq', shown⟩ :=
            ((streamKeeps_iff listed dir_mem).mp kept).resolve_left different
          rwa [path_eq', baseName_childPath valid']
        obtain ⟨step, stepped, -, more_iff, next_eq⟩ :=
          levelPlan_step names recursive options (baseName dir.path) true
        have more := more_iff.mpr ⟨deep, rfl, shown⟩
        have parent_reached := @ih parent.path parent.isRoot rfl
        have child_reached := GlobReached.child parent_reached listed dir_mem isdir stepped more
        rwa [next_eq more] at child_reached

theorem isDir_of_reached (dir : server.isDir (pathOf names) = true) {item : StreamItem}
    (reached : Reached (streamVisit server recursive options) [⟨pathOf names, true⟩] item) :
    server.isDir item.path = true := by
  by_contra file
  have root_item := isRoot_of_file reached (by simpa using file)
  rw [root_item] at file
  exact file dir

theorem globbed_level_iff (dir : server.isDir (pathOf names) = true) :
    Globbed server (levelPlan names recursive options.includeHidden) entry ↔
      Listed server (pathOf names) recursive options entry := by
  rw [← streamDue_iff]
  constructor
  · rintro (⟨emits, -⟩ | ⟨path, states, entries, step, reached, listed, mem, different, stepped,
      emitted⟩)
    · simp [levelPlan] at emits
    · obtain ⟨rfl, isRoot, reached⟩ := levelReached_iff.mp reached
      obtain ⟨step', stepped', emit_iff, -, -⟩ :=
        levelPlan_step names recursive options (baseName entry.path) entry.isdir
      obtain rfl : step' = step := by simpa [stepped'] using stepped
      have shown := emit_iff.mp emitted
      have parent_dir := isDir_of_reached dir reached
      obtain ⟨name, valid, path_eq, base, -, -⟩ := NameNode.child_name parent_dir listed mem
      have kept := (streamKeeps_iff listed mem).mpr (.inr ⟨name, valid, path_eq, base ▸ shown⟩)
      exact .inr ⟨_, reached, mem_streamVisit_sent.mpr ⟨entries, listed, mem, kept⟩⟩
  · rintro (none | ⟨item, reached, mem⟩)
    · simp at none
    · obtain ⟨entries, listed, entry_mem, kept⟩ := mem_streamVisit_sent.mp mem
      have parent_dir := isDir_of_reached dir reached
      obtain ⟨name, -, -, -, -, different⟩ := NameNode.child_name parent_dir listed entry_mem
      obtain ⟨name', valid', path_eq', shown⟩ :=
        ((streamKeeps_iff listed entry_mem).mp kept).resolve_left different
      obtain ⟨step, stepped, emit_iff, -, -⟩ :=
        levelPlan_step names recursive options (baseName entry.path) entry.isdir
      have emitted : step.emit = true := by
        apply emit_iff.mpr
        rwa [path_eq', baseName_childPath valid']
      exact .inr ⟨item.path, _, entries, step, levelReached_iff.mpr ⟨rfl, item.isRoot, reached⟩,
        listed, entry_mem, different, stepped, emitted⟩

theorem globFatal_level_iff (listed : server.listStatus (pathOf names) = .ok entries)
    (e : HdfsError) :
    GlobFatal server (levelPlan names recursive options.includeHidden) options e ↔
      ListingFatal server (pathOf names) recursive options e := by
  have below_root : ∀ path, server.listStatus path = .error e → path ≠ pathOf names := by
    rintro path failed rfl
    simp [listed] at failed
  constructor
  · rintro (⟨emits, -⟩ | ⟨path, states, reached, failed, present, strict⟩)
    · simp [levelPlan] at emits
    · obtain ⟨rfl, isRoot, reached⟩ := levelReached_iff.mp reached
      have below := below_root path failed
      rcases streamReached_iff.mp reached with root_item | ⟨deep, dir, listed_dir, item_eq⟩
      · simp [below] at root_item
      · obtain ⟨rfl, -⟩ : path = dir.path ∧ isRoot = false := by simpa using item_eq
        refine .inr ⟨deep, dir, listed_dir, failed, ?_⟩
        rintro (⟨gone, equality⟩ | skip)
        · exact present gone equality
        · exact strict ⟨below, skip⟩
  · rintro (failed | ⟨deep, dir, listed_dir, failed, strict⟩)
    · simp [listed] at failed
    · have reached : Reached (streamVisit server recursive options) [⟨pathOf names, true⟩]
          ⟨dir.path, false⟩ := streamReached_iff.mpr (.inr ⟨deep, dir, listed_dir, rfl⟩)
      refine .inr ⟨dir.path, _, levelReached_iff.mpr ⟨rfl, false, reached⟩, failed, ?_, ?_⟩
      · exact fun gone equality => strict (.inl ⟨gone, equality⟩)
      · exact fun skip => strict (.inr skip.2)

end Walks

/-- Two walks agree: both fail, or neither does and they send the same entries, each once. -/
def Agree {ι ι' : Type*} (listing : State ι FileStatus HdfsError)
    (glob : State ι' FileStatus HdfsError) : Prop :=
  ((∃ e, .error e ∈ listing.sent) ↔ ∃ e, .error e ∈ glob.sent) ∧
    ((¬∃ e, .error e ∈ listing.sent) → ∃ entries entries' : List FileStatus,
      listing.sent = entries.map .ok ∧ glob.sent = entries'.map .ok ∧
        (entries.map FileStatus.path).Nodup ∧ (entries'.map FileStatus.path).Nodup ∧
        ∀ entry, entry ∈ entries ↔ entry ∈ entries')

theorem Exact.agree {ι ι' : Type*} {due due' : FileStatus → Prop} {fatal fatal' : HdfsError → Prop}
    {listing : State ι FileStatus HdfsError} {glob : State ι' FileStatus HdfsError}
    (left : Exact due fatal listing) (right : Exact due' fatal' glob)
    (due_iff : ∀ entry, due' entry ↔ due entry) (fatal_iff : ∀ e, fatal' e ↔ fatal e) :
    Agree listing glob := by
  have same_failure : (∃ e, fatal e) ↔ ∃ e, fatal' e :=
    exists_congr fun e => (fatal_iff e).symm
  refine ⟨by rw [left.error_iff, right.error_iff, same_failure], fun clean => ?_⟩
  rw [left.error_iff] at clean
  obtain ⟨-, entries, sent_eq, nodup, mem_iff⟩ := left.complete (not_exists.mp clean)
  rw [same_failure] at clean
  obtain ⟨-, entries', sent_eq', nodup', mem_iff'⟩ := right.complete (not_exists.mp clean)
  refine ⟨entries, entries', sent_eq, sent_eq', nodup, nodup', fun entry => ?_⟩
  rw [mem_iff, mem_iff', due_iff]

/-- `D/**` and the recursive listing of `D`, as well as `D/*` and the plain one, agree for any
two schedules of their listings. -/
theorem listing_agrees_with_glob (server : NameNode) (options : WalkOptions) (recursive : Bool)
    {names : List Text} (valid : ∀ name ∈ names, ValidName name)
    (plain : ∀ name ∈ names, PlainName name) (dir : server.isDir (pathOf names) = true)
    {entries : List FileStatus} (listed : server.listStatus (pathOf names) = .ok entries)
    {maxParallelism maxParallelism' : Nat} (positive : 0 < maxParallelism)
    (positive' : 0 < maxParallelism') :
    ∃ plan, GlobPlan.parse (pathOf (names ++ [levelPattern recursive])) options.includeHidden =
        .ok plan ∧
      Relation.EndsIn (streamWalkTurn server recursive maxParallelism options)
        (fun listing =>
          Relation.EndsIn (globWalkTurn server plan maxParallelism' options)
            (fun glob => Agree listing glob) (globWalkStart server plan))
        (streamWalkStart (pathOf names)) := by
  refine ⟨_, parse_level valid plain options.includeHidden, ?_⟩
  refine (streamWalk_ends positive).mono fun _ listing_exact => ?_
  have sound := levelPlan_sound names recursive options.includeHidden
  refine (globWalk_ends sound positive').mono fun _ glob_exact => ?_
  exact listing_exact.agree glob_exact (fun _ => globbed_level_iff dir)
    (globFatal_level_iff listed)

/-- The listing of `/d` and its glob, the one with two listings in flight and the other with
one. -/
theorem listing_agrees_with_glob_sample :
    ∃ plan, GlobPlan.parse (pathOf (["d".toList] ++ [levelPattern true])) false = .ok plan ∧
      Relation.EndsIn (streamWalkTurn NameNode.sample true 2 ⟨true, false⟩)
        (fun listing =>
          Relation.EndsIn (globWalkTurn NameNode.sample plan 1 ⟨true, false⟩)
            (fun glob => Agree listing glob) (globWalkStart NameNode.sample plan))
        (streamWalkStart (pathOf ["d".toList])) := by
  have listed : NameNode.sample.listStatus (pathOf ["d".toList]) = .ok NameNode.sampleChildren := by
    rfl
  refine listing_agrees_with_glob NameNode.sample ⟨true, false⟩ true ?_ ?_ rfl listed
    (by decide) (by decide)
  · intro name mem
    rw [List.mem_singleton.mp mem]
    exact ⟨by decide, by decide⟩
  · intro name mem
    rw [List.mem_singleton.mp mem]
    intro c c_mem
    obtain rfl : c = 'd' := by simpa using c_mem
    decide

end DuckdbHdfs
