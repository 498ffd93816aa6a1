import DuckdbHdfs.Library.WorkStack

/-!
# What a work stack asks for

At any time the loop awaits no more items than the limit, and as many as that while others are
pending.  Over a whole run over a forest it never asks for one address twice.
-/

namespace WorkStack

variable {ι α ε ν : Type*} {limit : Nat} {visit : ι → Outcome ι α ε} {state next : State ι α ε}

namespace State

/-- The items that are awaited: the free slots are filled as long as the loop runs. -/
def awaited (limit : Nat) (state : State ι α ε) : List ι :=
  if state.exit = none then (refill limit state.pending state.inFlight).2 else state.inFlight

/-- The items that are not awaited yet. -/
def waiting (limit : Nat) (state : State ι α ε) : List ι :=
  if state.exit = none then (refill limit state.pending state.inFlight).1 else state.pending

theorem awaited_append_waiting (limit : Nat) (state : State ι α ε) :
    (state.awaited limit ++ state.waiting limit).Perm state.remaining := by
  rw [awaited, waiting]
  split
  · exact refill_perm limit state.pending state.inFlight
  · exact .refl _

/-- A slot is free only where nothing waits for it. -/
theorem waiting_eq_nil (running : state.exit = none) (free : (state.awaited limit).length < limit) :
    state.waiting limit = [] := by
  simp only [awaited, waiting, if_pos running, refill_eq, List.length_append,
    List.length_take] at free ⊢
  rw [List.drop_eq_nil_iff]
  omega

theorem awaited_length_le (few : state.inFlight.length ≤ limit) :
    (state.awaited limit).length ≤ limit := by
  rw [awaited]
  split
  · simp only [refill_eq, List.length_append, List.length_take]
    omega
  · exact few

theorem Completes.remaining {item : ι} (completes : Completes limit visit item state next) :
    state.exit = none ∧ (state.awaited limit).Perm (item :: next.inFlight) ∧
      next.pending = (visit item).pushed.reverse ++ state.waiting limit := by
  obtain ⟨choice, chosen, turn⟩ := completes
  obtain ⟨running, ⟨nothing, -⟩ | ⟨other, other_chosen, rfl⟩⟩ := State.turn_eq_some turn
  · simp [nothing] at chosen
  · obtain rfl := Option.some.inj (chosen.symm.trans other_chosen)
    obtain ⟨inside, item_eq⟩ := List.getElem?_eq_some_iff.mp chosen
    rw [awaited, waiting, if_pos running, if_pos running]
    refine ⟨running, ?_, rfl⟩
    have taken := List.getElem_cons_eraseIdx_perm inside
    rw [item_eq] at taken
    exact taken.symm

end State

/-- A turn, with the items that have completed before it and after it. -/
inductive Logs (limit : Nat) (visit : ι → Outcome ι α ε) :
    List ι × State ι α ε → List ι × State ι α ε → Prop
  | completes {items : List ι} {item : ι} {state next : State ι α ε}
      (completes : State.Completes limit visit item state next) :
      Logs limit visit (items, state) (items ++ [item], next)
  | returns {items : List ι} {state next : State ι α ε} (running : state.exit = none)
      (nothing : state.awaited limit = []) (turn : State.Turn limit visit state next) :
      Logs limit visit (items, state) (items, next)

theorem Logs.turn {before after : List ι × State ι α ε} (logs : Logs limit visit before after) :
    State.Turn limit visit before.2 after.2 := by
  cases logs with
  | completes completes =>
      obtain ⟨choice, -, taken⟩ := completes
      exact ⟨choice, taken⟩
  | returns _ _ turn => exact turn

section Forest

variable {initial : List ι} {before : List α} {address : ι → List ν} {place : α → List ν}

/-- What has been asked for: all of it was reached, no address twice. -/
structure Requested (limit : Nat) (visit : ι → Outcome ι α ε) (initial : List ι)
    (address : ι → List ν) (run : List ι × State ι α ε) : Prop where
  history : run.2.exit = none → History visit initial address run.1 run.2.remaining
  few : run.2.inFlight.length ≤ limit
  reached : ∀ item ∈ run.1 ++ run.2.awaited limit, Reached visit initial item
  distinct : ((run.1 ++ run.2.awaited limit).map address).Nodup

theorem Requested.of_history {items : List ι} (few : state.inFlight.length ≤ limit)
    (history : History visit initial address items state.remaining) :
    Requested limit visit initial address (items, state) := by
  have split := history.perm (state.awaited_append_waiting limit).symm
  have part : List.Sublist (items ++ state.awaited limit)
      (items ++ (state.awaited limit ++ state.waiting limit)) :=
    (List.sublist_append_left _ _).append_left items
  exact
    { history := fun _ => history
      few := few
      reached := fun item mem => split.reached item (part.subset mem)
      distinct := split.distinct.sublist (part.map address) }

theorem Requested.step (forest : Forest visit initial before address place)
    {run later : List ι × State ι α ε} (requested : Requested limit visit initial address run)
    (logs : Logs limit visit run later) : Requested limit visit initial address later := by
  cases logs with
  | @completes items item state next completes =>
      obtain ⟨running, taken, pending_eq⟩ := completes.remaining
      have few : next.inFlight.length ≤ limit := by
        have bound := State.awaited_length_le requested.few
        rw [taken.length_eq, List.length_cons] at bound
        omega
      have history := (requested.history running).perm
        ((state.awaited_append_waiting limit).symm.trans (taken.append_right _))
      cases exit_eq : next.exit with
      | none =>
          have continues : (visit item).exit = none := completes.outcome.2.symm.trans exit_eq
          refine .of_history few ((history.complete forest continues).perm ?_)
          rw [State.remaining, pending_eq]
          have pushed := ((visit item).pushed.reverse_perm.symm.append_right
            (state.waiting limit)).append_left next.inFlight
          exact (List.perm_append_comm_assoc _ _ _).trans pushed
      | some exit =>
          have stopped : next.exit ≠ none := by simp [exit_eq]
          have same : (items ++ [item] ++ next.inFlight).Perm
              (items ++ state.awaited limit) := by
            rw [List.append_assoc]
            exact (taken.symm).append_left items
          refine ⟨fun runs => absurd runs stopped, few, ?_, ?_⟩
          · rw [State.awaited, if_neg stopped]
            exact fun other mem => requested.reached other (same.mem_iff.mp mem)
          · rw [State.awaited, if_neg stopped, (same.map address).nodup_iff]
            exact requested.distinct
  | @returns items state next running nothing turn =>
      obtain ⟨choice, taken⟩ := turn
      rw [State.awaited, if_pos running] at nothing
      obtain ⟨-, ⟨-, rfl⟩ | ⟨item, chosen, -⟩⟩ := State.turn_eq_some taken
      · have part : List.Sublist (items ++ []) (items ++ state.awaited limit) :=
          (List.nil_sublist _).append_left items
        exact
          { history := by simp
            few := Nat.zero_le _
            reached := fun item mem => requested.reached item (part.subset mem)
            distinct := requested.distinct.sublist (part.map address) }
      · simp [nothing] at chosen

/-- Over a forest, whatever order the items complete in, no address is asked for twice. -/
theorem Forest.requested (forest : Forest visit initial before address place) {items : List ι}
    (reach : Relation.ReflTransGen (Logs limit visit) ([], State.start initial before)
      (items, state)) :
    Requested limit visit initial address (items, state) :=
  Relation.invariant_of_step (fun requested logs => requested.step forest logs) reach
    (.of_history (Nat.zero_le _) (.start forest))

end Forest

end WorkStack
