import DuckdbHdfs.Glob.Parsing
import Mathlib.Data.List.Nodup

/-!
# Stepping a parsed plan

The state sets a walk carries start as the initial one and come from `step` after that.  None of
them repeats a position or leaves its pattern, so neither `step` nor `match_at` can index out of
range or meet a `**` it does not expect.
-/

namespace DuckdbHdfs
namespace Glob
namespace GlobPlan

/-- The state sets reached from the initial one by stepping with any names. -/
inductive StateSet (plan : GlobPlan) : List Pos → Prop
  | initial : StateSet plan plan.initial
  | step {states : List Pos} {name : Text} {isDir : Bool} {after : Step}
      (reached : StateSet plan states) (stepped : plan.step states name isDir = some after) :
      StateSet plan after.next

/-- A position lies inside its pattern. -/
def InRange (plan : GlobPlan) (pos : Pos) : Prop :=
  ∃ components, plan.patterns[pos.pat]? = some components ∧ pos.comp < components.length

/-- The position whose component `step` hands to `match_at`: a `**` defers to the component
behind it. -/
def matchTarget (plan : GlobPlan) (pos : Pos) : Option Pos := do
  let components ← plan.patterns[pos.pat]?
  if components[pos.comp]? = some .crawl then
    if pos.comp + 1 = components.length then none else some { pos with comp := pos.comp + 1 }
  else
    some pos

variable {plan : GlobPlan} {pos : Pos} {states : List Pos}

theorem inRange_iff : plan.InRange pos ↔ ∃ rest, plan.Residual pos rest := by
  constructor
  · rintro ⟨components, pattern, inside⟩
    exact ⟨_, components, pattern, inside, rfl⟩
  · rintro ⟨_, components, pattern, inside, -⟩
    exact ⟨components, pattern, inside⟩

theorem initial_nodup_ofPatterns (patterns : List (List Component)) (includeHidden : Bool) :
    (ofPatterns patterns includeHidden).initial.Nodup := by
  have indices : ((patterns.zipIdx.filter fun entry =>
      entry.1.length ≠ (sharedPrefix patterns).length).map Prod.snd).Nodup := by
    refine List.Nodup.sublist (List.filter_sublist.map _) ?_
    rw [List.zipIdx_map_snd]
    exact List.nodup_range'
  have initial_eq : (ofPatterns patterns includeHidden).initial =
      ((patterns.zipIdx.filter fun entry =>
        entry.1.length ≠ (sharedPrefix patterns).length).map Prod.snd).map
          fun pat => ⟨pat, (sharedPrefix patterns).length⟩ := by
    simp [ofPatterns]
  rw [initial_eq]
  exact List.Nodup.map (fun pat pat' equality => congrArg Pos.pat equality) indices

theorem StateSet.valid_nodup (sound : plan.Sound) (distinct : plan.initial.Nodup)
    (reached : plan.StateSet states) : plan.Valid states ∧ states.Nodup := by
  induction reached with
  | initial => exact ⟨sound.initial_valid, distinct⟩
  | @step states name isDir after _ stepped ih =>
      obtain ⟨valid, -⟩ := ih
      obtain ⟨after', stepped', -, -, nodup⟩ := step_spec name isDir sound.wellFormed valid
      obtain rfl : after' = after := by simpa [stepped'] using stepped
      exact ⟨step_valid sound.wellFormed valid stepped, nodup⟩

/-- What `step` hands to `match_at` is in range and not a `**`. -/
theorem matchAt_target (wellFormed : plan.WellFormed) {rest : List Component}
    (residual : plan.Residual pos rest) {target : Pos} (handed : plan.matchTarget pos = some target)
    (name : Text) (isDir : Bool) (step : Step) :
    ∃ after, plan.matchAt target name isDir step = some after := by
  cases rest with
  | nil => exact absurd rfl residual.ne_nil
  | cons component rest =>
      obtain ⟨components, pattern, here, last⟩ := residual.read
      by_cases crawls : component = .crawl
      · subst crawls
        cases rest with
        | nil => simp [matchTarget, pattern, here, last.mpr rfl] at handed
        | cons component rest =>
            obtain rfl : { pos with comp := pos.comp + 1 } = target := by
              simpa [matchTarget, pattern, here, last] using handed
            have single : component ≠ .crawl := fun equality =>
              residual.single_of_crawl wellFormed (equality ▸ List.mem_cons_self)
            have deferred : plan.Residual { pos with comp := pos.comp + 1 } (component :: rest) :=
              residual.drop 1 (by simp)
            obtain ⟨after, matched, -⟩ := matchAt_records name isDir deferred single step
            exact ⟨after, matched⟩
      · obtain rfl : pos = target := by
          simpa [matchTarget, pattern, here, crawls] using handed
        obtain ⟨after, matched, -⟩ := matchAt_records name isDir residual crawls step
        exact ⟨after, matched⟩

/-- Every state set a walk can reach with a parsed plan has its positions in range and without
repetition, and no call of `step` or `match_at` on it panics. -/
theorem stateSet_safe {pattern : Text} {includeHidden : Bool} {plan : GlobPlan}
    (parsed : parse pattern includeHidden = .ok plan) {states : List Pos}
    (reached : plan.StateSet states) :
    (∀ pos ∈ states, plan.InRange pos) ∧ states.Nodup ∧
      ∀ name isDir, (∃ after, plan.step states name isDir = some after) ∧
        ∀ pos ∈ states, ∀ target, plan.matchTarget pos = some target →
          ∀ step, ∃ after, plan.matchAt target name isDir step = some after := by
  have sound := parse_sound parsed
  have distinct : plan.initial.Nodup := by
    obtain ⟨_, -, rfl, -⟩ := parse_eq_ok parsed
    exact initial_nodup_ofPatterns _ _
  obtain ⟨valid, nodup⟩ := reached.valid_nodup sound distinct
  refine ⟨fun pos mem => inRange_iff.mpr (valid pos mem), nodup, fun name isDir => ⟨?_, ?_⟩⟩
  · obtain ⟨after, stepped, -⟩ := step_spec name isDir sound.wellFormed valid
    exact ⟨after, stepped⟩
  · intro pos mem target handed step
    obtain ⟨rest, residual⟩ := valid pos mem
    exact matchAt_target sound.wellFormed residual handed name isDir step

/-- The states of `/**/x/*` after entering a directory named `x`. -/
theorem stateSet_safe_crawl :
    ∃ plan, parse "/**/x/*".toList false = .ok plan ∧ plan.StateSet [⟨0, 2⟩, ⟨0, 0⟩] ∧
      (∀ pos ∈ [⟨0, 2⟩, ⟨0, 0⟩], plan.InRange pos) ∧ [Pos.mk 0 2, ⟨0, 0⟩].Nodup ∧
        ∀ name isDir, (∃ after, plan.step [⟨0, 2⟩, ⟨0, 0⟩] name isDir = some after) ∧
          ∀ pos ∈ [⟨0, 2⟩, ⟨0, 0⟩], ∀ target, plan.matchTarget pos = some target →
            ∀ step, ∃ after, plan.matchAt target name isDir step = some after := by
  let plan : GlobPlan :=
    { patterns := [[.crawl, .literal ['x'], .pattern ['*']]], root := ['/'], initial := [⟨0, 0⟩],
      emitRoot := false, includeHidden := false }
  have parsed : parse "/**/x/*".toList false = .ok plan := by decide +kernel
  have stepped : plan.step plan.initial ['x'] true =
      some { emit := false, next := [⟨0, 2⟩, ⟨0, 0⟩] } := by decide +kernel
  have reached : plan.StateSet [⟨0, 2⟩, ⟨0, 0⟩] := .step .initial stepped
  exact ⟨plan, parsed, reached, stateSet_safe parsed reached⟩

end GlobPlan
end Glob
end DuckdbHdfs
