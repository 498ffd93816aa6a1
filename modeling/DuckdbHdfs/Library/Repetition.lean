import Mathlib.Logic.Function.Iterate

/-!
# Requests that arrive more than once

A request takes a state to its reply and the next state.  `Repetition.Settles` says that a refused
request changes nothing and that an accepted one changes nothing more when it arrives again; then
it takes effect once, however often it arrives.
-/

namespace Repetition

variable {σ ρ : Type*}

/-- Refused requests change nothing, and neither does the repetition of an accepted one. -/
structure Settles (request : σ → ρ × σ) (accepted : ρ → Prop) : Prop where
  refused : ∀ s, ¬accepted (request s).1 → (request s).2 = s
  repeated : ∀ s, accepted (request s).1 → (request (request s).2).2 = (request s).2

/-- The state after the request has arrived a number of times. -/
def arrive (request : σ → ρ × σ) (times : Nat) : σ → σ :=
  (fun s => (request s).2)^[times]

theorem arrive_add (request : σ → ρ × σ) (times more : Nat) (s : σ) :
    arrive request more (arrive request times s) = arrive request (times + more) s := by
  rw [arrive, arrive, arrive, Nat.add_comm, Function.iterate_add_apply]

namespace Settles

variable {request : σ → ρ × σ} {accepted : ρ → Prop} (settles : Settles request accepted)

include settles

theorem arrive_succ (times : Nat) (s : σ) : arrive request (times + 1) s = (request s).2 := by
  induction times with
  | zero => rfl
  | succ times ih =>
      rw [arrive, Function.iterate_succ_apply', ← arrive, ih]
      by_cases accept : accepted (request s).1
      · exact settles.repeated s accept
      · rw [settles.refused s accept, settles.refused s accept]

/-- However often the request arrives, it takes effect at most once. -/
theorem arrive_eq (times : Nat) (s : σ) :
    arrive request times s = s ∨ 0 < times ∧ arrive request times s = (request s).2 := by
  cases times with
  | zero => exact .inl rfl
  | succ times => exact .inr ⟨times.succ_pos, settles.arrive_succ times s⟩

/-- A request that is accepted at last would have been accepted at first. -/
theorem accepted_of_arrive {times : Nat} {s : σ}
    (late : accepted (request (arrive request times s)).1) : accepted (request s).1 := by
  by_contra refused
  have unchanged : arrive request times s = s := by
    rcases settles.arrive_eq times s with same | ⟨-, once⟩
    · exact same
    · rw [once, settles.refused s refused]
  rw [unchanged] at late
  exact refused late

end Settles
end Repetition
