import Mathlib.Logic.Relation
import Mathlib.Order.WellFounded

/-!
# Runs of a step relation

`Relation.Halted` states allow no step.  `Relation.EndsIn step final state` says that every run
from `state` is finite and that whatever state it halts in satisfies `final`.  An invariant
together with a decreasing measure establishes it.

`Runs.Throughout` is about a run of a function over a list of inputs: every step of it has a
property.
-/

namespace Relation

variable {σ : Type*} {step : σ → σ → Prop}

/-- No step leaves the state. -/
def Halted (step : σ → σ → Prop) (state : σ) : Prop :=
  ∀ next, ¬step state next

/-- Every run from the state is finite and halts in a final state. -/
inductive EndsIn (step : σ → σ → Prop) (final : σ → Prop) : σ → Prop
  | intro {state : σ} (halted : Halted step state → final state)
      (later : ∀ next, step state next → EndsIn step final next) : EndsIn step final state

theorem invariant_of_step {invariant : σ → Prop} {start state : σ}
    (preserved : ∀ {before after}, invariant before → step before after → invariant after)
    (reach : ReflTransGen step start state) (holds : invariant start) : invariant state := by
  induction reach with
  | refl => exact holds
  | tail _ last ih => exact preserved ih last

/-- Operations performed one after another are a run. -/
theorem reach_of_foldlM {α : Type*} {perform : σ → α → Option σ}
    (steps : ∀ {state action next}, perform state action = some next → step state next)
    {actions : List α} {state next : σ} (performed : actions.foldlM perform state = some next) :
    ReflTransGen step state next := by
  induction actions generalizing state with
  | nil =>
      obtain rfl : state = next := by simpa using performed
      exact .refl
  | cons action actions ih =>
      obtain ⟨middle, first, rest⟩ := Option.bind_eq_some_iff.mp performed
      exact .head (steps first) (ih rest)

namespace EndsIn

variable {final final' : σ → Prop} {state : σ}

/-- The induction rule: an invariant, a measure that every step decreases, and what the
invariant says about halted states. -/
theorem of_measure {β : Type*} {lt : β → β → Prop} (wellFounded : WellFounded lt)
    (measure : σ → β) {invariant : σ → Prop}
    (preserved : ∀ {before after}, invariant before → step before after → invariant after)
    (decreases : ∀ {before after}, invariant before → step before after →
      lt (measure after) (measure before))
    (halted : ∀ {state}, invariant state → Halted step state → final state)
    (holds : invariant state) : EndsIn step final state := by
  have measured : ∀ bound state, measure state = bound → invariant state →
      EndsIn step final state := by
    intro bound
    induction bound using wellFounded.induction with
    | _ bound ih =>
        intro state measure_eq holds
        refine .intro (halted holds) fun next stepped => ?_
        have smaller := decreases holds stepped
        rw [measure_eq] at smaller
        exact ih _ smaller next rfl (preserved holds stepped)
  exact measured _ state rfl holds

theorem reach {later : σ} (ends : EndsIn step final state) (reach : ReflTransGen step state later) :
    EndsIn step final later := by
  refine invariant_of_step (fun ends stepped => ?_) reach ends
  cases ends with
  | intro _ later => exact later _ stepped

theorem exists_halted (ends : EndsIn step final state) :
    ∃ last, ReflTransGen step state last ∧ Halted step last := by
  induction ends with
  | @intro state _ _ ih =>
      by_cases stuck : Halted step state
      · exact ⟨state, .refl, stuck⟩
      · obtain ⟨next, stepped⟩ : ∃ next, step state next := by
          simpa [Halted] using stuck
        obtain ⟨last, reach, halted⟩ := ih next stepped
        exact ⟨last, .head stepped reach, halted⟩

theorem mono (ends : EndsIn step final state)
    (weaken : ∀ {last}, ReflTransGen step state last → final last → final' last) :
    EndsIn step final' state := by
  induction ends with
  | intro halted _ ih =>
      refine .intro (fun stuck => weaken .refl (halted stuck)) fun next stepped => ?_
      exact ih next stepped fun reach => weaken (.head stepped reach)

end EndsIn
end Relation

namespace Runs

variable {σ α : Type*} {step : σ → α → σ} {invariant : σ → Prop} {property property' : σ → α → Prop}

/-- Every step of the run over the inputs has the property, which sees the state before it. -/
def Throughout (step : σ → α → σ) (property : σ → α → Prop) : σ → List α → Prop
  | _, [] => True
  | state, input :: inputs =>
      property state input ∧ Throughout step property (step state input) inputs

/-- Properties that agree where the invariant holds, and preserve it, agree throughout a run. -/
theorem throughout_iff
    (agree : ∀ {state input}, invariant state → (property state input ↔ property' state input))
    (preserved : ∀ {state input}, invariant state → property state input →
      invariant (step state input))
    {state : σ} (holds : invariant state) (inputs : List α) :
    Throughout step property state inputs ↔ Throughout step property' state inputs := by
  induction inputs generalizing state with
  | nil => rfl
  | cons input inputs ih =>
      rw [Throughout, Throughout, ← agree holds]
      exact and_congr_right fun first => ih (preserved holds first)

end Runs
