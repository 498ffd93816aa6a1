import DuckdbHdfs.Glob.Parsing

/-!
# The language of a glob pattern

`PathMatches` says which paths an expanded pattern describes, component by component and without
states.  The plan compiled from a pattern selects exactly the paths some expansion describes.
-/

namespace DuckdbHdfs
namespace Glob

/-- A component that names a hidden first character, possibly escaped. -/
def HiddenPrefix (comp : Text) : Prop :=
  ∃ c rest, (comp = c :: rest ∨ comp = '\\' :: c :: rest) ∧ (c = '.' ∨ c = '_')

/-- The raw components of an expanded pattern describe a list of names. -/
inductive PathMatches (includeHidden : Bool) : List Text → List Text → Prop
  | done : PathMatches includeHidden [] []
  /-- A literal consumes one name equal to its unescaped text. -/
  | literal {comp name : Text} {comps names : List Text} (spells : Spells comp name)
      (rest : PathMatches includeHidden comps names) :
      PathMatches includeHidden (comp :: comps) (name :: names)
  /-- A wildcard component consumes one name; a hidden one only if the component names it. -/
  | wildcard {comp name : Text} {comps names : List Text} (not_crawl : comp ≠ ['*', '*'])
      (wild : ∀ text, ¬Spells comp text) (matched : matchComponent name comp = true)
      (seen : HiddenName name → includeHidden = true ∨ HiddenPrefix comp)
      (rest : PathMatches includeHidden comps names) :
      PathMatches includeHidden (comp :: comps) (name :: names)
  /-- A `**` before other components consumes any number of visible names. -/
  | crawl {comps skipped left names : List Text} (more : comps ≠ [])
      (split : names = skipped ++ left)
      (seen : ∀ name ∈ skipped, HiddenName name → includeHidden = true)
      (rest : PathMatches includeHidden comps left) :
      PathMatches includeHidden (['*', '*'] :: comps) names
  /-- A final `**` consumes at least one visible name. -/
  | lastCrawl {skipped : List Text} (nonempty : skipped ≠ [])
      (seen : ∀ name ∈ skipped, HiddenName name → includeHidden = true) :
      PathMatches includeHidden [['*', '*']] skipped

theorem explicitHiddenPrefix_iff {comp : Text} :
    explicitHiddenPrefix comp = true ↔ HiddenPrefix comp := by
  unfold explicitHiddenPrefix HiddenPrefix
  split
  · simp
  · rename_i c rest
    split
    · rename_i escape
      subst escape
      cases rest with
      | nil => simp
      | cons d rest => simp [and_comm, or_and_left]
    · rename_i not_escape
      simp [not_escape]

theorem visible_iff {includeHidden : Bool} {name : Text} :
    visible includeHidden name = true ↔ (HiddenName name → includeHidden = true) := by
  cases includeHidden <;> simp [visible, isHidden_eq_false_iff]

variable {includeHidden : Bool} {comps names : List Text} {comp name : Text}

theorem pathMatches_nil_iff : PathMatches includeHidden [] names ↔ names = [] := by
  constructor
  · intro matched
    cases matched
    rfl
  · rintro rfl
    exact .done

theorem pathMatches_nil_names (matched : PathMatches includeHidden comps []) : comps = [] := by
  generalize names_eq : ([] : List Text) = names at matched
  induction matched with
  | done => rfl
  | literal => simp at names_eq
  | wildcard => simp at names_eq
  | crawl more split _ _ ih =>
      obtain ⟨-, rfl⟩ : _ = [] ∧ _ = [] := by simpa [← names_eq] using split
      exact absurd (ih rfl) more
  | lastCrawl nonempty _ => exact absurd names_eq.symm nonempty

theorem pathMatches_cons_iff (single : parseComponent comp ≠ .crawl) :
    PathMatches includeHidden (comp :: comps) (name :: names) ↔
      (parseComponent comp).accepts includeHidden name = true ∧
        PathMatches includeHidden comps names := by
  have not_crawl : comp ≠ ['*', '*'] := fun crawls => single (parseComponent_crawl_iff.mpr crawls)
  constructor
  · intro matched
    cases matched with
    | literal spells rest =>
        simp [parseComponent_literal_iff.mpr spells, Component.accepts, rest]
    | wildcard _ wild matched seen rest =>
        have parsed := parseComponent_pattern_iff.mpr ⟨rfl, not_crawl, wild⟩
        have shown : visible includeHidden name = true ∨ explicitHiddenPrefix comp = true := by
          rw [explicitHiddenPrefix_iff, visible_iff]
          by_cases hidden : HiddenName name
          · exact (seen hidden).imp_left fun included _ => included
          · exact .inl fun hidden' => absurd hidden' hidden
        simpa [parsed, Component.accepts, matched, rest] using shown
    | crawl => exact absurd rfl not_crawl
    | lastCrawl => exact absurd rfl not_crawl
  · rintro ⟨accepted, rest⟩
    cases parsed : parseComponent comp with
    | crawl => exact absurd parsed single
    | literal text =>
        obtain rfl : name = text := by simpa [parsed, Component.accepts] using accepted
        exact .literal (parseComponent_literal_iff.mp parsed) rest
    | pattern raw =>
        obtain ⟨rfl, -, wild⟩ := parseComponent_pattern_iff.mp parsed
        obtain ⟨shown, matched⟩ : (visible includeHidden name = true ∨
            explicitHiddenPrefix raw = true) ∧ matchComponent name raw = true := by
          simpa [parsed, Component.accepts] using accepted
        rw [explicitHiddenPrefix_iff, visible_iff] at shown
        refine .wildcard not_crawl wild matched (fun hidden => ?_) rest
        exact shown.imp_left fun seen => seen hidden

/-- Inversion at a `**`: it consumes the skipped names, all of them visible. -/
theorem pathMatches_crawl_inv (matched : PathMatches includeHidden (['*', '*'] :: comps) names) :
    (comps ≠ [] ∧ ∃ skipped left, names = skipped ++ left ∧
      (∀ name ∈ skipped, visible includeHidden name = true) ∧
      PathMatches includeHidden comps left) ∨
    (comps = [] ∧ names ≠ [] ∧ ∀ name ∈ names, visible includeHidden name = true) := by
  simp only [visible_iff]
  cases matched with
  | literal spells _ =>
      cases spells with
      | plain ordinary _ => simp at ordinary
  | wildcard not_crawl => exact absurd rfl not_crawl
  | crawl more split seen rest => exact .inl ⟨more, _, _, split, seen, rest⟩
  | lastCrawl nonempty seen => exact .inr ⟨rfl, nonempty, seen⟩

/-- A `**` before other components is skipped, or consumes a visible name and stays. -/
theorem pathMatches_crawl_iff (more : comps ≠ []) :
    PathMatches includeHidden (['*', '*'] :: comps) (name :: names) ↔
      PathMatches includeHidden comps (name :: names) ∨
        (visible includeHidden name = true ∧
          PathMatches includeHidden (['*', '*'] :: comps) names) := by
  constructor
  · intro matched
    rcases pathMatches_crawl_inv matched with
      ⟨-, skipped, left, split, seen, rest⟩ | ⟨none, -⟩
    · cases skipped with
      | nil => exact .inl (by simpa [split] using rest)
      | cons first skipped =>
          obtain ⟨rfl, rfl⟩ : name = first ∧ names = skipped ++ left := by simpa using split
          refine .inr ⟨seen name List.mem_cons_self, .crawl more rfl (fun other mem => ?_) rest⟩
          exact visible_iff.mp (seen other (.tail _ mem))
    · exact absurd none more
  · rintro (zero | ⟨seen, rest⟩)
    · exact @PathMatches.crawl _ _ [] _ _ more rfl (by simp) zero
    · rcases pathMatches_crawl_inv rest with ⟨-, skipped, left, rfl, later, rest⟩ | ⟨none, -⟩
      · refine @PathMatches.crawl _ _ (name :: skipped) _ _ more rfl (fun other mem => ?_) rest
        rcases List.mem_cons.mp mem with rfl | mem
        · exact visible_iff.mp seen
        · exact visible_iff.mp (later other mem)
      · exact absurd none more

/-- A final `**` consumes a visible name and stays, unless the path ends there. -/
theorem pathMatches_lastCrawl_iff :
    PathMatches includeHidden [['*', '*']] (name :: names) ↔
      visible includeHidden name = true ∧
        (names = [] ∨ PathMatches includeHidden [['*', '*']] names) := by
  constructor
  · intro matched
    rcases pathMatches_crawl_inv matched with ⟨more, -⟩ | ⟨-, -, seen⟩
    · exact absurd rfl more
    · refine ⟨seen name List.mem_cons_self, ?_⟩
      by_cases none : names = []
      · exact .inl none
      · exact .inr (.lastCrawl none fun other mem => visible_iff.mp (seen other (.tail _ mem)))
  · rintro ⟨seen, rest⟩
    refine .lastCrawl (by simp) fun other mem => ?_
    rcases List.mem_cons.mp mem with rfl | mem
    · exact visible_iff.mp seen
    · rcases rest with rfl | rest
      · simp at mem
      · rcases pathMatches_crawl_inv rest with ⟨more, -⟩ | ⟨-, -, later⟩
        · exact absurd rfl more
        · exact visible_iff.mp (later other mem)

/-- The names complete the remaining components. -/
def completes (includeHidden : Bool) : List Component → List Text → Bool
  | rest, [] => rest.isEmpty
  | rest, name :: names =>
      (names.isEmpty && emits includeHidden name rest) ||
        (advances includeHidden name rest).any fun count =>
          completes includeHidden (rest.drop count) names

theorem completes_cons_iff {rest : List Component} :
    completes includeHidden rest (name :: names) = true ↔
      (names = [] ∧ emits includeHidden name rest = true) ∨
        ∃ count ∈ advances includeHidden name rest,
          completes includeHidden (rest.drop count) names = true := by
  simp [completes]

theorem completes_nil_iff : completes includeHidden [] names = true ↔ names = [] := by
  cases names with
  | nil => simp [completes]
  | cons name names => simp [completes_cons_iff, emits, advances]

theorem accepted_and_completes_iff {accepted : Prop} {rest : List Component} :
    accepted ∧ completes includeHidden rest names = true ↔
      (names = [] ∧ accepted ∧ rest = []) ∨
        (accepted ∧ rest ≠ [] ∧ completes includeHidden rest names = true) := by
  by_cases last : rest = []
  · subst last
    simp [completes_nil_iff, and_comm]
  · simp [last]

/-- The declarative relation is decided by running the residuals of the parsed components. -/
theorem pathMatches_iff_completes (few : (comps.map parseComponent).count .crawl ≤ 1) :
    PathMatches includeHidden comps names ↔
      completes includeHidden (comps.map parseComponent) names = true := by
  induction names generalizing comps with
  | nil =>
      constructor
      · intro matched
        simp [pathMatches_nil_names matched, completes]
      · intro empty
        obtain rfl : comps = [] := by simpa [completes] using empty
        exact .done
  | cons name names ih =>
      cases comps with
      | nil => simp [pathMatches_nil_iff, completes_nil_iff]
      | cons comp comps =>
          have later := ih ((List.sublist_cons_self _ _).count_le _ |>.trans few)
          rw [completes_cons_iff, List.map_cons]
          by_cases crawls : parseComponent comp = .crawl
          · obtain rfl := parseComponent_crawl_iff.mp crawls
            have stays := ih few
            rw [List.map_cons, crawls] at stays
            rw [crawls]
            cases comps with
            | nil =>
                simp only [List.map_nil] at stays ⊢
                simp only [pathMatches_lastCrawl_iff, stays, emits, mem_advances_lastCrawl]
                constructor
                · rintro ⟨seen, rfl | rest⟩
                  · exact .inl ⟨rfl, seen⟩
                  · exact .inr ⟨0, ⟨seen, rfl⟩, rest⟩
                · rintro (⟨rfl, seen⟩ | ⟨_, ⟨seen, rfl⟩, rest⟩)
                  · exact ⟨seen, .inl rfl⟩
                  · exact ⟨seen, .inr rest⟩
            | cons next comps =>
                have single : parseComponent next ≠ .crawl := fun second => by
                  simp [crawls, second] at few
                have after := ih ((List.sublist_cons_self _ _).count_le _ |>.trans
                  ((List.sublist_cons_self _ _).count_le _ |>.trans few))
                rw [pathMatches_crawl_iff (by simp), pathMatches_cons_iff single, stays, after,
                  accepted_and_completes_iff]
                simp only [List.map_cons, emits, mem_advances_crawl, Bool.and_eq_true,
                  List.isEmpty_iff]
                constructor
                · rintro ((ends | ⟨accepted, more, rest⟩) | ⟨seen, rest⟩)
                  · exact .inl ends
                  · exact .inr ⟨2, .inl ⟨accepted, more, rfl⟩, rest⟩
                  · exact .inr ⟨0, .inr ⟨seen, rfl⟩, rest⟩
                · rintro (ends | ⟨_, ⟨accepted, more, rfl⟩ | ⟨seen, rfl⟩, rest⟩)
                  · exact .inl (.inl ends)
                  · exact .inl (.inr ⟨accepted, more, rest⟩)
                  · exact .inr ⟨seen, rest⟩
          · rw [pathMatches_cons_iff crawls, later, accepted_and_completes_iff]
            simp [emits_cons crawls, mem_advances_cons crawls, and_assoc]

theorem completes_literal_cons {text : Text} {rest : List Component} :
    completes includeHidden (.literal text :: rest) (name :: names) = true ↔
      name = text ∧ completes includeHidden rest names = true := by
  rw [accepted_and_completes_iff, completes_cons_iff]
  simp [emits_cons, mem_advances_cons, Component.accepts, and_assoc]

theorem completes_literals {texts : List Text} {rest : List Component} :
    completes includeHidden (texts.map .literal ++ rest) names = true ↔
      ∃ below, names = texts ++ below ∧ completes includeHidden rest below = true := by
  induction texts generalizing names with
  | nil => simp
  | cons text texts ih =>
      cases names with
      | nil => simp [completes]
      | cons name names =>
          rw [List.map_cons, List.cons_append, completes_literal_cons, ih]
          simp [and_assoc]

theorem completes_singleton {rest : List Component} :
    completes includeHidden rest [name] = true ↔ emits includeHidden name rest = true := by
  rw [completes_cons_iff]
  constructor
  · rintro (⟨-, emitted⟩ | ⟨count, mem, ends⟩)
    · exact emitted
    · exact absurd (by simpa [completes] using ends) (drop_advances_ne_nil mem)
  · exact fun emitted => .inl ⟨rfl, emitted⟩

namespace GlobPlan

/-- Feed names to `step` one by one, all but the last as directories; the answer is whether the
last one is emitted. -/
def run (plan : GlobPlan) (states : List Pos) : List Text → Bool → Option Bool
  | [], _ => some false
  | [name], lastIsDir => (plan.step states name lastIsDir).map (·.emit)
  | name :: next :: names, lastIsDir => do
      let step ← plan.step states name true
      plan.run step.next (next :: names) lastIsDir

/-- The plan selects a path: it is the root and the root is emitted, or the names below the root
lead to an emission. -/
def Selects (plan : GlobPlan) (names : List Text) (lastIsDir : Bool) : Prop :=
  (pathOf names = plan.root ∧ plan.emitRoot = true) ∨
    ∃ above below, names = above ++ below ∧ pathOf above = plan.root ∧ below ≠ [] ∧
      plan.run plan.initial below lastIsDir = some true

/-- Some state of the set has a residual the names complete. -/
def Completes (plan : GlobPlan) (states : List Pos) (names : List Text) : Prop :=
  ∃ pos ∈ states, ∃ rest, plan.Residual pos rest ∧
    completes plan.includeHidden rest names = true

/-- The state set after some names holds exactly the partial matches of the patterns, so the run
emits exactly when one of them is completed. -/
theorem run_spec {plan : GlobPlan} {states : List Pos} (lastIsDir : Bool)
    (wellFormed : plan.WellFormed) (valid : plan.Valid states) (nonempty : names ≠ []) :
    ∃ emitted, plan.run states names lastIsDir = some emitted ∧
      (emitted = true ↔ plan.Completes states names) := by
  induction names generalizing states with
  | nil => exact absurd rfl nonempty
  | cons name names ih =>
      cases names with
      | nil =>
          obtain ⟨after, stepped, emit_iff, -⟩ :=
            step_spec name lastIsDir wellFormed valid
          refine ⟨after.emit, by simp [run, stepped], ?_⟩
          rw [emit_iff]
          simp [Emits, Completes, completes_singleton]
      | cons next names =>
          obtain ⟨after, stepped, -, mem_next, -⟩ :=
            step_spec name true wellFormed valid
          obtain ⟨emitted, ran, emitted_iff⟩ :=
            ih (step_valid wellFormed valid stepped) (by simp)
          refine ⟨emitted, by simp [run, stepped, ran], emitted_iff.trans ?_⟩
          constructor
          · rintro ⟨other, mem, rest', residual', completed⟩
            obtain ⟨-, pos, pos_mem, rest, residual, count, count_mem, rfl⟩ :=
              (mem_next other).mp mem
            obtain rfl :=
              residual'.unique (residual.drop count (drop_advances_ne_nil count_mem))
            exact ⟨pos, pos_mem, rest, residual,
              completes_cons_iff.mpr (.inr ⟨count, count_mem, completed⟩)⟩
          · rintro ⟨pos, pos_mem, rest, residual, completed⟩
            rcases completes_cons_iff.mp completed with ⟨none, -⟩ | ⟨count, count_mem, later⟩
            · simp at none
            · exact ⟨_, (mem_next _).mpr ⟨rfl, pos, pos_mem, rest, residual, count, count_mem, rfl⟩,
                _, residual.drop count (drop_advances_ne_nil count_mem), later⟩

/-- Past the root, the initial states complete exactly what the expansions have left. -/
theorem completes_initial_iff {patterns : List (List Component)} {below : List Text}
    (nonempty : below ≠ []) :
    (ofPatterns patterns includeHidden).Completes
        (ofPatterns patterns includeHidden).initial below ↔
      ∃ components ∈ patterns,
        completes includeHidden components (sharedPrefix patterns ++ below) = true := by
  have left_of : ∀ components ∈ patterns,
      completes includeHidden components (sharedPrefix patterns ++ below) = true ↔
        completes includeHidden (components.drop (sharedPrefix patterns).length) below = true := by
    intro components mem
    obtain ⟨rest, rfl⟩ := literals_prefix_of_mem mem
    rw [completes_literals]
    simp
  constructor
  · rintro ⟨pos, mem, rest, residual, completed⟩
    obtain ⟨components, pattern, residual'⟩ := residual_initial_ofPatterns mem
    obtain rfl := residual.unique residual'
    have components_mem := List.mem_of_getElem? pattern
    exact ⟨components, components_mem, (left_of _ components_mem).mpr completed⟩
  · rintro ⟨components, components_mem, completed⟩
    have left := (left_of _ components_mem).mp completed
    obtain ⟨pat, pattern⟩ := List.mem_iff_getElem?.mp components_mem
    have longer : components.length ≠ (sharedPrefix patterns).length := by
      intro consumed
      rw [← consumed, List.drop_length, completes_nil_iff] at left
      exact nonempty left
    have mem : (⟨pat, (sharedPrefix patterns).length⟩ : Pos) ∈
        (ofPatterns patterns includeHidden).initial :=
      mem_initial_ofPatterns.mpr ⟨components, pattern, longer, rfl⟩
    obtain ⟨components', pattern', residual⟩ := residual_initial_ofPatterns mem
    obtain rfl : components = components' := by simpa [pattern] using pattern'
    exact ⟨_, mem, _, residual, left⟩

theorem emitRoot_iff_completes {patterns : List (List Component)} :
    (ofPatterns patterns includeHidden).emitRoot = true ↔
      ∃ components ∈ patterns,
        completes includeHidden components (sharedPrefix patterns) = true := by
  rw [emitRoot_ofPatterns]
  refine exists_congr fun components => and_congr_right fun mem => ?_
  obtain ⟨rest, rfl⟩ := literals_prefix_of_mem mem
  rw [completes_literals]
  simp [completes]

theorem exists_expansion_iff {pattern : Text} {includeHidden : Bool} {plan : GlobPlan}
    (parsed : parse pattern includeHidden = .ok plan) {names : List Text} :
    (∃ expansions, expandBraces pattern = .ok expansions ∧
        ∃ expanded ∈ expansions, PathMatches includeHidden (splitPath expanded) names) ↔
      ∃ components ∈ plan.patterns, completes includeHidden components names = true := by
  obtain ⟨expansions, expanded_eq, rfl, wellFormed⟩ := parse_eq_ok parsed
  have patterns_eq : (ofPatterns (expansions.map componentsOf) includeHidden).patterns =
      expansions.map componentsOf := rfl
  rw [expanded_eq, patterns_eq]
  simp only [Except.ok.injEq, exists_eq_left', List.mem_map, exists_exists_and_eq_and]
  refine exists_congr fun expanded => and_congr_right fun mem => ?_
  exact pathMatches_iff_completes (wellFormed _ (List.mem_map_of_mem mem))

/-- A parsed plan selects exactly the paths that some brace expansion of its pattern
describes. -/
theorem parse_selects_iff {pattern : Text} {includeHidden : Bool} {plan : GlobPlan}
    (parsed : parse pattern includeHidden = .ok plan) {names : List Text}
    (valid : ∀ name ∈ names, ValidName name) (lastIsDir : Bool) :
    plan.Selects names lastIsDir ↔
      ∃ expansions, expandBraces pattern = .ok expansions ∧
        ∃ expanded ∈ expansions, PathMatches includeHidden (splitPath expanded) names := by
  have plan_valid := (parse_sound parsed).initial_valid
  rw [exists_expansion_iff parsed]
  obtain ⟨expansions, expanded_eq, rfl, wellFormed⟩ := parse_eq_ok parsed
  have shared_valid : ∀ name ∈ sharedPrefix (expansions.map componentsOf), ValidName name :=
    fun _ mem => sharedPrefix_valid (expandBraces_ne_nil expanded_eq) mem
  constructor
  · rintro (⟨path_eq, emitted⟩ | ⟨above, below, rfl, path_eq, nonempty, ran⟩)
    · obtain rfl := (pathOf_inj valid shared_valid).mp path_eq
      exact emitRoot_iff_completes.mp emitted
    · obtain rfl :=
        (pathOf_inj (fun name mem => valid name (by simp [mem])) shared_valid).mp path_eq
      obtain ⟨emitted, ran', emitted_iff⟩ :=
        run_spec lastIsDir wellFormed plan_valid nonempty
      obtain rfl : emitted = true := by simpa [ran'] using ran
      exact (completes_initial_iff nonempty).mp (emitted_iff.mp rfl)
  · rintro ⟨components, mem, completed⟩
    obtain ⟨rest, rest_eq⟩ := literals_prefix_of_mem mem
    obtain ⟨below, rfl, -⟩ := completes_literals.mp (rest_eq.symm ▸ completed)
    by_cases ends : below = []
    · subst ends
      rw [List.append_nil] at completed ⊢
      exact .inl ⟨rfl, emitRoot_iff_completes.mpr ⟨components, mem, completed⟩⟩
    · obtain ⟨emitted, ran, emitted_iff⟩ :=
        run_spec lastIsDir wellFormed plan_valid ends
      have completes_below := (completes_initial_iff ends).mpr ⟨components, mem, completed⟩
      exact .inr ⟨_, below, rfl, rfl, ends, by rw [ran, emitted_iff.mpr completes_below]⟩

/-- `/d/**/x` selects `/d/x`: the crawl matches zero levels. -/
theorem parse_selects_zero_levels :
    ∃ plan, parse "/d/**/x".toList false = .ok plan ∧ plan.Selects [['d'], ['x']] false := by
  let plan : GlobPlan :=
    { patterns := [[.literal ['d'], .crawl, .literal ['x']]], root := "/d".toList,
      initial := [⟨0, 1⟩], emitRoot := false, includeHidden := false }
  have parsed : parse "/d/**/x".toList false = .ok plan := by decide +kernel
  refine ⟨plan, parsed, ?_⟩
  refine (parse_selects_iff parsed (fun name mem => ?_) false).mpr ?_
  · constructor <;> revert name <;> decide
  · have split : splitPath "/d/**/x".toList = [['d'], ['*', '*'], ['x']] := by decide +kernel
    refine ⟨["/d/**/x".toList], by decide +kernel, _, List.mem_singleton_self _, ?_⟩
    rw [split]
    refine .literal (.plain (by decide) .nil)
      (@PathMatches.crawl _ _ [] _ _ (by simp) rfl (by simp) ?_)
    exact .literal (.plain (by decide) .nil) .done

end GlobPlan
end Glob
end DuckdbHdfs
