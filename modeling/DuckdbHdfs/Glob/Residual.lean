import DuckdbHdfs.Glob.Plan

/-!
# Remaining components of a state

A position of a plan stands for the components its pattern still has to match.  What `step` does
to a set of positions is described here through these residuals alone: which of them the name
completes, and how far each may advance when the walk descends.
-/

namespace DuckdbHdfs
namespace Glob

/-- Names a wildcard level may consume. -/
def visible (includeHidden : Bool) (name : Text) : Bool :=
  includeHidden || !isHidden name

/-- The name is consumed by a single component other than a crawl. -/
def Component.accepts (includeHidden : Bool) (name : Text) : Component → Bool
  | .crawl => false
  | .literal s => name = s
  | .pattern p => (visible includeHidden name || explicitHiddenPrefix p) && matchComponent name p

/-- The name completes the remaining components. -/
def emits (includeHidden : Bool) (name : Text) : List Component → Bool
  | [] => false
  | [.crawl] => visible includeHidden name
  | .crawl :: component :: rest => component.accepts includeHidden name && rest.isEmpty
  | component :: rest => component.accepts includeHidden name && rest.isEmpty

/-- How many of the remaining components may be behind after descending into the name. -/
def advances (includeHidden : Bool) (name : Text) : List Component → List Nat
  | [] => []
  | [.crawl] => if visible includeHidden name then [0] else []
  | .crawl :: component :: rest =>
      (if component.accepts includeHidden name && !rest.isEmpty then [2] else []) ++
        if visible includeHidden name then [0] else []
  | component :: rest => if component.accepts includeHidden name && !rest.isEmpty then [1] else []

theorem emits_cons {includeHidden : Bool} {name : Text} {component : Component}
    {rest : List Component} (single : component ≠ .crawl) :
    emits includeHidden name (component :: rest) =
      (component.accepts includeHidden name && rest.isEmpty) := by
  cases component with
  | crawl => exact absurd rfl single
  | literal => rfl
  | pattern => rfl

theorem mem_advances_cons {includeHidden : Bool} {name : Text} {component : Component}
    {rest : List Component} {count : Nat} (single : component ≠ .crawl) :
    count ∈ advances includeHidden name (component :: rest) ↔
      component.accepts includeHidden name = true ∧ rest ≠ [] ∧ count = 1 := by
  have unfolded : advances includeHidden name (component :: rest) =
      if component.accepts includeHidden name && !rest.isEmpty then [1] else [] := by
    cases component with
    | crawl => exact absurd rfl single
    | literal => rfl
    | pattern => rfl
  rw [unfolded]
  split <;> simp_all

theorem mem_advances_lastCrawl {includeHidden : Bool} {name : Text} {count : Nat} :
    count ∈ advances includeHidden name [.crawl] ↔
      visible includeHidden name = true ∧ count = 0 := by
  unfold advances
  split <;> simp_all

theorem mem_advances_crawl {includeHidden : Bool} {name : Text} {component : Component}
    {rest : List Component} {count : Nat} :
    count ∈ advances includeHidden name (.crawl :: component :: rest) ↔
      (component.accepts includeHidden name = true ∧ rest ≠ [] ∧ count = 2) ∨
        (visible includeHidden name = true ∧ count = 0) := by
  unfold advances
  rw [List.mem_append]
  apply or_congr <;> split <;> simp_all

theorem drop_advances_ne_nil {includeHidden : Bool} {name : Text} {rest : List Component}
    {count : Nat} (mem : count ∈ advances includeHidden name rest) : rest.drop count ≠ [] := by
  cases rest with
  | nil => simp [advances] at mem
  | cons component rest =>
      by_cases crawls : component = .crawl
      · subst crawls
        cases rest with
        | nil =>
            obtain ⟨-, rfl⟩ := mem_advances_lastCrawl.mp mem
            simp
        | cons component rest =>
            rcases mem_advances_crawl.mp mem with ⟨-, more, rfl⟩ | ⟨-, rfl⟩
            · simpa using more
            · simp
      · obtain ⟨-, more, rfl⟩ := (mem_advances_cons crawls).mp mem
        simpa using more

/-- Matching against `before` yields `after`: at most one more reason to emit, and the new
states. -/
structure Step.Records (before after : Step) (emit : Prop) (states : Pos → Prop) : Prop where
  emit_iff : after.emit = true ↔ before.emit = true ∨ emit
  mem_next : ∀ pos, pos ∈ after.next ↔ pos ∈ before.next ∨ states pos
  nodup : before.next.Nodup → after.next.Nodup

namespace Step

variable {before middle after : Step} {emit emit' : Prop} {states states' : Pos → Prop}

theorem Records.refl (step : Step) : step.Records step False fun _ => False where
  emit_iff := by simp
  mem_next := by simp
  nodup := id

theorem Records.emits (step : Step) :
    step.Records { step with emit := true } True fun _ => False where
  emit_iff := by simp
  mem_next := by simp
  nodup := id

theorem Records.push (step : Step) (pos : Pos) :
    step.Records { step with next := pushState step.next pos } False (· = pos) where
  emit_iff := by simp
  mem_next := by simp
  nodup nodup := nodup_pushState nodup pos

theorem Records.trans (first : before.Records middle emit states)
    (second : middle.Records after emit' states') :
    before.Records after (emit ∨ emit') fun pos => states pos ∨ states' pos where
  emit_iff := by rw [second.emit_iff, first.emit_iff, or_assoc]
  mem_next pos := by rw [second.mem_next, first.mem_next, or_assoc]
  nodup := second.nodup ∘ first.nodup

theorem Records.congr (records : before.Records after emit states) (emit_iff : emit ↔ emit')
    (states_iff : ∀ pos, states pos ↔ states' pos) : before.Records after emit' states' where
  emit_iff := by rw [records.emit_iff, emit_iff]
  mem_next pos := by rw [records.mem_next, states_iff]
  nodup := records.nodup

end Step

namespace GlobPlan

/-- The components a position still has to match; there is always at least one. -/
def Residual (plan : GlobPlan) (pos : Pos) (rest : List Component) : Prop :=
  ∃ components, plan.patterns[pos.pat]? = some components ∧ pos.comp < components.length ∧
    components.drop pos.comp = rest

/-- Every position of the set stands for remaining components. -/
def Valid (plan : GlobPlan) (states : List Pos) : Prop :=
  ∀ pos ∈ states, ∃ rest, plan.Residual pos rest

/-- No pattern has a second `**`. -/
def WellFormed (plan : GlobPlan) : Prop :=
  ∀ components ∈ plan.patterns, components.count .crawl ≤ 1

variable {plan : GlobPlan} {pos : Pos} {rest : List Component} {name : Text} {isDir : Bool}

theorem Residual.ne_nil (residual : plan.Residual pos rest) : rest ≠ [] := by
  obtain ⟨components, -, inside, rfl⟩ := residual
  simpa using inside

theorem Residual.unique {other : List Component} (residual : plan.Residual pos rest)
    (residual' : plan.Residual pos other) : rest = other := by
  obtain ⟨components, pattern, -, rfl⟩ := residual
  obtain ⟨components', pattern', -, rfl⟩ := residual'
  obtain rfl : components = components' := by simpa [pattern] using pattern'
  rfl

theorem Residual.drop (residual : plan.Residual pos rest) (count : Nat)
    (more : rest.drop count ≠ []) :
    plan.Residual { pos with comp := pos.comp + count } (rest.drop count) := by
  obtain ⟨components, pattern, -, rfl⟩ := residual
  refine ⟨components, pattern, ?_, by simp⟩
  simpa using more

/-- The components behind a crawl contain no other crawl. -/
theorem Residual.single_of_crawl (wellFormed : plan.WellFormed)
    (residual : plan.Residual pos (.crawl :: rest)) : .crawl ∉ rest := by
  obtain ⟨components, pattern, -, suffix⟩ := residual
  have bound := wellFormed components (List.mem_of_getElem? pattern)
  have crawls := (List.drop_sublist pos.comp components).count_le .crawl
  rw [suffix, List.count_cons_self] at crawls
  exact List.count_eq_zero.mp (by omega)

theorem Residual.read {component : Component} (residual : plan.Residual pos (component :: rest)) :
    ∃ components, plan.patterns[pos.pat]? = some components ∧
      components[pos.comp]? = some component ∧ (pos.comp + 1 = components.length ↔ rest = []) := by
  obtain ⟨components, pattern, inside, suffix⟩ := residual
  refine ⟨components, pattern, by rw [← List.head?_drop, suffix, List.head?_cons], ?_⟩
  have lengths := congrArg List.length suffix
  simp only [List.length_drop, List.length_cons] at lengths
  rw [← List.length_eq_zero_iff]
  omega

theorem matchAt_records {component : Component} (name : Text) (isDir : Bool)
    (residual : plan.Residual pos (component :: rest)) (single : component ≠ .crawl)
    (step : Step) :
    ∃ after, plan.matchAt pos name isDir step = some after ∧
      step.Records after
        (component.accepts plan.includeHidden name = true ∧ rest = [])
        fun other => isDir = true ∧ component.accepts plan.includeHidden name = true ∧
          rest ≠ [] ∧ other = { pos with comp := pos.comp + 1 } := by
  obtain ⟨components, pattern, here, last⟩ := residual.read
  have matched : plan.matchAt pos name isDir step =
      if !component.accepts plan.includeHidden name then
        some step
      else if pos.comp + 1 = components.length then
        some { step with emit := true }
      else if isDir then
        some { step with next := pushState step.next { pos with comp := pos.comp + 1 } }
      else
        some step := by
    unfold matchAt
    rw [pattern, Option.bind_eq_bind, Option.bind_some, here]
    cases component with
    | crawl => exact absurd rfl single
    | literal s => rfl
    | pattern p => rfl
  rw [matched]
  split
  · rename_i rejected
    exact ⟨step, rfl, (Step.Records.refl step).congr (by simp_all) (by simp_all)⟩
  · split
    · exact ⟨_, rfl, (Step.Records.emits step).congr (by simp_all) (by simp_all)⟩
    · split
      · exact ⟨_, rfl, (Step.Records.push step _).congr (by simp_all) (by simp_all)⟩
      · exact ⟨step, rfl, (Step.Records.refl step).congr (by simp_all) (by simp_all)⟩

/-- A crawl keeps its own state for the directories it may enter. -/
theorem stay_records (step : Step) (pos : Pos) (isDir blocked : Bool) :
    step.Records
      (if isDir && !blocked then { step with next := pushState step.next pos } else step)
      False fun other => isDir = true ∧ blocked = false ∧ other = pos := by
  split
  · exact (Step.Records.push step pos).congr Iff.rfl (by simp_all)
  · exact (Step.Records.refl step).congr Iff.rfl (by simp_all)

/-- What one state contributes to a step, in terms of its residual. -/
theorem stepState_records (name : Text) (isDir : Bool) (wellFormed : plan.WellFormed)
    (residual : plan.Residual pos rest) (step : Step) :
    ∃ after,
      plan.stepState name isDir (!plan.includeHidden && isHidden name) step pos = some after ∧
      step.Records after
        (emits plan.includeHidden name rest = true)
        fun other => isDir = true ∧ ∃ count ∈ advances plan.includeHidden name rest,
          other = { pos with comp := pos.comp + count } := by
  have blocked : (!plan.includeHidden && isHidden name) = false ↔
      visible plan.includeHidden name = true := by
    cases hidden : plan.includeHidden <;> simp [visible]
  generalize (!plan.includeHidden && isHidden name) = crawlBlocked at blocked ⊢
  cases rest with
  | nil => exact absurd rfl residual.ne_nil
  | cons component rest =>
      obtain ⟨components, pattern, here, last⟩ := residual.read
      by_cases crawls : component = .crawl
      · subst crawls
        cases rest with
        | nil =>
            have terminal : step.Records
                (if crawlBlocked then step else { step with emit := true })
                (visible plan.includeHidden name = true) fun _ => False := by
              split
              · exact (Step.Records.refl step).congr (by simp_all) (by simp)
              · exact (Step.Records.emits step).congr (by simp_all) (by simp)
            refine ⟨_, ?_, (terminal.trans (stay_records _ pos isDir crawlBlocked)).congr ?_ ?_⟩
            · simp [stepState, pattern, here, last.mpr rfl]
            · simp [emits]
            · intro other
              simp [mem_advances_lastCrawl, blocked]
        | cons component rest =>
            -- the crawl matches zero levels and defers to the component after it
            have single : component ≠ .crawl := fun equality =>
              residual.single_of_crawl wellFormed (equality ▸ List.mem_cons_self)
            have deferred : plan.Residual { pos with comp := pos.comp + 1 } (component :: rest) :=
              residual.drop 1 (by simp)
            obtain ⟨after, matched, records⟩ :=
              matchAt_records name isDir deferred single step
            refine ⟨_, ?_, (records.trans (stay_records _ pos isDir crawlBlocked)).congr ?_ ?_⟩
            · simp [stepState, pattern, here, last, matched]
            · simp [emits]
            · intro other
              simp only [mem_advances_crawl, blocked]
              constructor
              · rintro (⟨dir, accepted, more, rfl⟩ | ⟨dir, seen, rfl⟩)
                · exact ⟨dir, 2, .inl ⟨accepted, more, rfl⟩, rfl⟩
                · exact ⟨dir, 0, .inr ⟨seen, rfl⟩, rfl⟩
              · rintro ⟨dir, count, ⟨accepted, more, rfl⟩ | ⟨seen, rfl⟩, rfl⟩
                · exact .inl ⟨dir, accepted, more, rfl⟩
                · exact .inr ⟨dir, seen, rfl⟩
      · obtain ⟨after, matched, records⟩ :=
          matchAt_records name isDir residual crawls step
        refine ⟨after, ?_, records.congr ?_ ?_⟩
        · simp [stepState, pattern, here, crawls, matched]
        · simp [emits_cons crawls]
        · simp [mem_advances_cons crawls, and_assoc]

/-- Positions whose residual, after consuming the name, is still to be matched. -/
def Descends (plan : GlobPlan) (states : List Pos) (name : Text) (other : Pos) : Prop :=
  ∃ pos ∈ states, ∃ rest, plan.Residual pos rest ∧
    ∃ count ∈ advances plan.includeHidden name rest, other = { pos with comp := pos.comp + count }

/-- Some state of the set is completed by the name. -/
def Emits (plan : GlobPlan) (states : List Pos) (name : Text) : Prop :=
  ∃ pos ∈ states, ∃ rest, plan.Residual pos rest ∧ emits plan.includeHidden name rest = true

theorem foldlM_stepState_records {states : List Pos} (name : Text) (isDir : Bool)
    (wellFormed : plan.WellFormed) (valid : plan.Valid states) (step : Step) :
    ∃ after,
      states.foldlM (plan.stepState name isDir (!plan.includeHidden && isHidden name)) step =
        some after ∧
      step.Records after (plan.Emits states name)
        fun other => isDir = true ∧ plan.Descends states name other := by
  induction states generalizing step with
  | nil => exact ⟨step, rfl, (Step.Records.refl step).congr (by simp [Emits]) (by simp [Descends])⟩
  | cons pos states ih =>
      obtain ⟨rest, residual⟩ := valid pos List.mem_cons_self
      obtain ⟨middle, matched, records⟩ :=
        stepState_records name isDir wellFormed residual step
      obtain ⟨after, folded, later⟩ := ih (fun other mem => valid other (.tail _ mem)) middle
      have only : ∀ other, plan.Residual pos other ↔ other = rest := fun other =>
        ⟨fun residual' => residual'.unique residual, fun equality => equality ▸ residual⟩
      refine ⟨after, by simp [matched, folded], (records.trans later).congr ?_ ?_⟩
      · simp [Emits, only]
      · intro other
        simp [Descends, only, ← and_or_left]

/-- `step` never fails on valid states.  It emits exactly when some residual is completed, and
hands on, without repetition, the states every residual advances to. -/
theorem step_spec {states : List Pos} (name : Text) (isDir : Bool) (wellFormed : plan.WellFormed)
    (valid : plan.Valid states) :
    ∃ after, plan.step states name isDir = some after ∧
      (after.emit = true ↔ plan.Emits states name) ∧
      (∀ other, other ∈ after.next ↔ isDir = true ∧ plan.Descends states name other) ∧
      after.next.Nodup := by
  obtain ⟨after, folded, records⟩ :=
    foldlM_stepState_records name isDir wellFormed valid
      { emit := false, next := [] }
  exact ⟨after, folded, by simpa using records.emit_iff, by simpa using records.mem_next,
    records.nodup List.nodup_nil⟩

/-- A state handed on stands for the components its predecessor has left. -/
theorem Descends.residual {states : List Pos} {other : Pos}
    (descends : plan.Descends states name other) : ∃ rest, plan.Residual other rest := by
  obtain ⟨pos, -, rest, residual, count, mem, rfl⟩ := descends
  exact ⟨_, residual.drop count (drop_advances_ne_nil mem)⟩

theorem step_valid {states : List Pos} (wellFormed : plan.WellFormed) (valid : plan.Valid states)
    {after : Step} (stepped : plan.step states name isDir = some after) :
    plan.Valid after.next := by
  obtain ⟨after', stepped', -, mem_next, -⟩ :=
    step_spec name isDir wellFormed valid
  obtain rfl : after' = after := by simpa [stepped'] using stepped
  intro other mem
  exact ((mem_next other).mp mem).2.residual

end GlobPlan
end Glob
end DuckdbHdfs
