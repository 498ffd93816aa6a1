import DuckdbHdfs.Library.Runs
import Mathlib.Data.List.Perm.Basic
import Mathlib.Data.Multiset.DershowitzManna

/-!
# Work stacks with bounded parallelism

A loop keeps a stack of pending items and a bounded set of items in flight.  Each turn fills the
free slots from the stack, waits for any item in flight, and then pushes the items and sends the
entries that item leads to.  An item may also end the loop.

Where the items form a finite forest, every order of completions visits every reachable item
exactly once.
-/

namespace WorkStack

variable {ι α ε : Type*}

/-- How the loop ends. -/
inductive Exit (ε : Type*)
  /-- Nothing is left to do. -/
  | returned
  /-- An error is sent as the last message. -/
  | failed (error : ε)
  /-- The loop stops without a message. -/
  | died
  deriving DecidableEq, Repr

/-- What the completion of one item does, its pushes and sends in order. -/
structure Outcome (ι α ε : Type*) where
  /-- Items pushed onto the stack. -/
  pushed : List ι
  /-- Entries sent. -/
  sent : List α
  /-- Whether the loop ends here, and how. -/
  exit : Option (Exit ε)
  deriving DecidableEq, Repr

/-- The state of the loop between two turns. -/
structure State (ι α ε : Type*) where
  /-- The stack, its top first. -/
  pending : List ι
  /-- Items whose completion is awaited. -/
  inFlight : List ι
  /-- Messages sent so far. -/
  sent : List (Except ε α)
  /-- Set once the loop has ended. -/
  exit : Option (Exit ε)
  deriving DecidableEq, Repr

/-- The message an exit sends. -/
def Exit.messages : Option (Exit ε) → List (Except ε α)
  | some (.failed error) => [.error error]
  | _ => []

/-- Pop pending items into the free slots. -/
def refill (limit : Nat) : List ι → List ι → List ι × List ι
  | [], inFlight => ([], inFlight)
  | item :: pending, inFlight =>
      if inFlight.length < limit then
        refill limit pending (inFlight ++ [item])
      else
        (item :: pending, inFlight)

namespace State

/-- The loop before its first turn. -/
def start (initial : List ι) (before : List α) : State ι α ε where
  pending := initial
  inFlight := []
  sent := before.map .ok
  exit := none

/-- The items not completed yet. -/
def remaining (state : State ι α ε) : List ι :=
  state.inFlight ++ state.pending

/-- The items a turn takes from the stack before it waits. -/
def taken (limit : Nat) (state : State ι α ε) : List ι :=
  (refill limit state.pending state.inFlight).2.drop state.inFlight.length

/-- One turn of the loop; `choice` is the slot that completes first. -/
def turn (limit : Nat) (visit : ι → Outcome ι α ε) (state : State ι α ε) (choice : Nat) :
    Option (State ι α ε) :=
  if state.exit.isSome then
    none
  else
    let (pending, inFlight) := refill limit state.pending state.inFlight
    match inFlight[choice]? with
    | some item =>
        let outcome := visit item
        some
          { pending := outcome.pushed.reverse ++ pending
            inFlight := inFlight.eraseIdx choice
            sent := state.sent ++ outcome.sent.map .ok ++ Exit.messages outcome.exit
            exit := outcome.exit }
    | none =>
        if inFlight = [] then
          some { pending, inFlight, sent := state.sent, exit := some .returned }
        else
          none

/-- One turn, for any slot that may complete first. -/
def Turn (limit : Nat) (visit : ι → Outcome ι α ε) (state next : State ι α ε) : Prop :=
  ∃ choice, state.turn limit visit choice = some next

/-- A turn in which the given item completes. -/
def Completes (limit : Nat) (visit : ι → Outcome ι α ε) (item : ι) (state next : State ι α ε) :
    Prop :=
  ∃ choice, (refill limit state.pending state.inFlight).2[choice]? = some item ∧
    state.turn limit visit choice = some next

end State

theorem refill_eq (limit : Nat) (pending inFlight : List ι) :
    refill limit pending inFlight =
      (pending.drop (limit - inFlight.length),
        inFlight ++ pending.take (limit - inFlight.length)) := by
  induction pending generalizing inFlight with
  | nil => simp [refill]
  | cons item pending ih =>
      rw [refill]
      split
      · rename_i free
        obtain ⟨slots, slots_eq⟩ := Nat.exists_eq_succ_of_ne_zero (Nat.sub_pos_of_lt free).ne'
        have fewer : limit - (inFlight ++ [item]).length = slots := by
          rw [List.length_append, List.length_singleton]
          omega
        rw [ih, fewer, slots_eq]
        simp
      · rename_i full
        have none_free : limit - inFlight.length = 0 := by omega
        simp [none_free]

theorem refill_perm (limit : Nat) (pending inFlight : List ι) :
    ((refill limit pending inFlight).2 ++ (refill limit pending inFlight).1).Perm
      (inFlight ++ pending) := by
  rw [refill_eq, List.append_assoc, List.take_append_drop]

theorem refill_eq_nil {limit : Nat} (positive : 0 < limit) {pending inFlight : List ι}
    (nothing : (refill limit pending inFlight).2 = []) : pending = [] ∧ inFlight = [] := by
  rw [refill_eq, List.append_eq_nil_iff, List.take_eq_nil_iff] at nothing
  obtain ⟨rfl, none_free | empty⟩ := nothing
  · rw [List.length_nil] at none_free
    omega
  · exact ⟨empty, rfl⟩

/-- What one turn can do: with nothing in flight the loop returns, otherwise an item in flight
completes. -/
theorem State.turn_eq_some {limit : Nat} {visit : ι → Outcome ι α ε} {state next : State ι α ε}
    {choice : Nat} (turn : state.turn limit visit choice = some next) :
    state.exit = none ∧
      (((refill limit state.pending state.inFlight).2 = [] ∧
          next =
            { pending := (refill limit state.pending state.inFlight).1
              inFlight := []
              sent := state.sent
              exit := some .returned }) ∨
        ∃ item, (refill limit state.pending state.inFlight).2[choice]? = some item ∧
          next =
            { pending :=
                (visit item).pushed.reverse ++ (refill limit state.pending state.inFlight).1
              inFlight := (refill limit state.pending state.inFlight).2.eraseIdx choice
              sent := state.sent ++ (visit item).sent.map .ok ++ Exit.messages (visit item).exit
              exit := (visit item).exit }) := by
  rw [State.turn] at turn
  split at turn
  · simp at turn
  · rename_i running
    refine ⟨by simpa using running, ?_⟩
    simp only at turn
    split at turn
    · rename_i item chosen
      exact .inr ⟨item, chosen, (Option.some.inj turn).symm⟩
    · split at turn
      · rename_i nothing
        rw [nothing] at turn
        exact .inl ⟨nothing, (Option.some.inj turn).symm⟩
      · simp at turn

/-- In either case, one of the remaining items completes unless nothing remains. -/
theorem State.turn_cases {limit : Nat} (positive : 0 < limit) {visit : ι → Outcome ι α ε}
    {state next : State ι α ε} (turn : state.Turn limit visit next) :
    state.exit = none ∧
      ((state.remaining = [] ∧ next.remaining = [] ∧ next.sent = state.sent ∧
          next.exit = some .returned) ∨
        ∃ item rest, state.remaining.Perm (item :: rest) ∧
          next.remaining.Perm ((visit item).pushed ++ rest) ∧
          next.sent = state.sent ++ (visit item).sent.map .ok ++ Exit.messages (visit item).exit ∧
          next.exit = (visit item).exit) := by
  obtain ⟨choice, turn⟩ := turn
  obtain ⟨running, taken⟩ := State.turn_eq_some turn
  refine ⟨running, ?_⟩
  have moved := refill_perm limit state.pending state.inFlight
  have drained := @refill_eq_nil _ _ positive state.pending state.inFlight
  generalize refill limit state.pending state.inFlight = refilled at taken moved drained
  obtain ⟨pending, inFlight⟩ := refilled
  rcases taken with ⟨nothing, rfl⟩ | ⟨item, chosen, rfl⟩
  · obtain ⟨no_pending, no_inFlight⟩ := drained nothing
    subst nothing
    obtain rfl : pending = [] := by simpa [no_pending, no_inFlight] using moved
    exact .inl ⟨by simp [State.remaining, no_pending, no_inFlight], rfl, rfl, rfl⟩
  · have inside := (List.getElem?_eq_some_iff.mp chosen).1
    have item_eq : inFlight[choice] = item := by simpa [inside] using chosen
    refine .inr ⟨item, inFlight.eraseIdx choice ++ pending, ?_, ?_, rfl, rfl⟩
    · have taken := (List.getElem_cons_eraseIdx_perm inside).append_right pending
      rw [item_eq] at taken
      exact moved.symm.trans taken.symm
    · have pushed := (visit item).pushed.reverse_perm.append_right pending
      exact (pushed.append_left _).trans (List.perm_append_comm_assoc ..)

theorem State.Completes.outcome {limit : Nat} {visit : ι → Outcome ι α ε} {item : ι}
    {state next : State ι α ε} (completes : State.Completes limit visit item state next) :
    next.sent = state.sent ++ (visit item).sent.map .ok ++ Exit.messages (visit item).exit ∧
      next.exit = (visit item).exit := by
  obtain ⟨choice, chosen, turn⟩ := completes
  obtain ⟨-, ⟨nothing, -⟩ | ⟨other, other_chosen, rfl⟩⟩ := State.turn_eq_some turn
  · simp [nothing] at chosen
  · obtain rfl := Option.some.inj (chosen.symm.trans other_chosen)
    exact ⟨rfl, rfl⟩

theorem State.completes_start (visit : ι → Outcome ι α ε) (item : ι) :
    ∃ next, State.Completes 1 visit item (State.start [item] []) next :=
  ⟨_, 0, rfl, rfl⟩

theorem State.exit_of_halted {limit : Nat} {visit : ι → Outcome ι α ε} {state : State ι α ε}
    (halted : Relation.Halted (State.Turn limit visit) state) : state.exit ≠ none := by
  intro running
  by_cases nothing : (refill limit state.pending state.inFlight).2 = []
  · exact halted _ ⟨0, by rw [State.turn]; simp only [running, nothing]; rfl⟩
  · obtain ⟨item, rest, inFlight_eq⟩ := List.exists_cons_of_ne_nil nothing
    exact halted _ ⟨0, by rw [State.turn]; simp only [running, inFlight_eq]; rfl⟩

/-! ## Conservation -/

/-- Items that come up in the loop: the initial ones and those pushed by a reached item. -/
inductive Reached (visit : ι → Outcome ι α ε) (initial : List ι) : ι → Prop
  | initial {item : ι} (mem : item ∈ initial) : Reached visit initial item
  | pushed {item child : ι} (reached : Reached visit initial item)
      (mem : child ∈ (visit item).pushed) : Reached visit initial child

theorem Reached.exists_initial {visit : ι → Outcome ι α ε} {initial : List ι} {item : ι}
    (reached : Reached visit initial item) : ∃ root, root ∈ initial := by
  induction reached with
  | initial mem => exact ⟨_, mem⟩
  | pushed _ _ ih => exact ih

/-- The entries sent on behalf of completed items, after those sent at the start. -/
def entries (visit : ι → Outcome ι α ε) (before : List α) (completed : List ι) : List α :=
  before ++ completed.flatMap fun item => (visit item).sent

/-- The reached items have the addresses of a tree, and what an item sends lies directly below
it.  Only the root itself may be sent besides, once. -/
structure Forest {ν : Type*} (visit : ι → Outcome ι α ε) (initial : List ι) (before : List α)
    (address : ι → List ν) (place : α → List ν) : Prop where
  single : initial.length ≤ 1
  child_address : ∀ item, Reached visit initial item → ∀ child ∈ (visit item).pushed,
    ∃ name, address child = address item ++ [name]
  pushed_nodup : ∀ item, Reached visit initial item → ((visit item).pushed.map address).Nodup
  place_eq : ∀ item, Reached visit initial item → ∀ entry ∈ (visit item).sent,
    (∃ name, place entry = address item ++ [name]) ∨
      (before = [] ∧ item ∈ initial ∧ place entry = address item)
  sent_nodup : ∀ item, Reached visit initial item → ((visit item).sent.map place).Nodup
  before_single : before.length ≤ 1
  before_place : ∀ entry ∈ before, ∀ root ∈ initial, place entry = address root

section Forest

variable {ν : Type*} {visit : ι → Outcome ι α ε} {initial : List ι} {before : List α}
  {address : ι → List ν} {place : α → List ν}

namespace Forest

theorem extends_root (forest : Forest visit initial before address place) {item root : ι}
    (reached : Reached visit initial item) (root_mem : root ∈ initial) :
    address root <+: address item := by
  induction reached with
  | @initial item mem =>
      obtain ⟨only, rfl⟩ : ∃ only, initial = [only] := by
        apply List.length_eq_one_iff.mp
        have := List.length_pos_of_mem mem
        have := forest.single
        omega
      have item_eq := List.mem_singleton.mp mem
      have root_eq := List.mem_singleton.mp root_mem
      have same : address item = address root := by rw [item_eq, root_eq]
      exact ⟨[], by rw [List.append_nil, same]⟩
  | pushed reached mem ih =>
      obtain ⟨name, address_eq⟩ := forest.child_address _ reached _ mem
      rw [address_eq]
      exact ih.trans (List.prefix_append _ _)

theorem root_ne_child (forest : Forest visit initial before address place) {item root : ι}
    (reached : Reached visit initial item) (root_mem : root ∈ initial) (name : ν) :
    address root ≠ address item ++ [name] := by
  intro equality
  have longer := (forest.extends_root reached root_mem).length_le
  rw [equality, List.length_append, List.length_singleton] at longer
  omega

theorem parent_address (forest : Forest visit initial before address place)
    {item item' child child' : ι} (reached : Reached visit initial item)
    (reached' : Reached visit initial item') (mem : child ∈ (visit item).pushed)
    (mem' : child' ∈ (visit item').pushed) (equality : address child = address child') :
    address item = address item' := by
  obtain ⟨name, address_eq⟩ := forest.child_address _ reached _ mem
  obtain ⟨name', address_eq'⟩ := forest.child_address _ reached' _ mem'
  rw [address_eq, address_eq'] at equality
  exact (List.append_inj' equality rfl).1

theorem sender_address (forest : Forest visit initial before address place)
    {item item' : ι} {entry entry' : α} (reached : Reached visit initial item)
    (reached' : Reached visit initial item') (mem : entry ∈ (visit item).sent)
    (mem' : entry' ∈ (visit item').sent) (equality : place entry = place entry') :
    address item = address item' := by
  rcases forest.place_eq _ reached _ mem with ⟨name, place_eq⟩ | ⟨-, root, place_eq⟩ <;>
    rcases forest.place_eq _ reached' _ mem' with ⟨name', place_eq'⟩ | ⟨-, root', place_eq'⟩ <;>
    rw [place_eq, place_eq'] at equality
  · exact (List.append_inj' equality rfl).1
  · exact absurd equality.symm (forest.root_ne_child reached root' name)
  · exact absurd equality (forest.root_ne_child reached' root name')
  · exact equality

theorem before_apart (forest : Forest visit initial before address place) {item : ι}
    {first entry : α} (reached : Reached visit initial item) (first_mem : first ∈ before)
    (mem : entry ∈ (visit item).sent) : place first ≠ place entry := by
  obtain ⟨root, root_mem⟩ := reached.exists_initial
  rcases forest.place_eq _ reached _ mem with ⟨name, place_eq⟩ | ⟨nothing, -⟩
  · rw [forest.before_place _ first_mem _ root_mem, place_eq]
    exact forest.root_ne_child reached root_mem name
  · simp [nothing] at first_mem

end Forest

/-- Every item that came up is accounted for exactly once: it is completed or it remains. -/
structure History (visit : ι → Outcome ι α ε) (initial : List ι) (address : ι → List ν)
    (completed remaining : List ι) : Prop where
  /-- The items that came up are the initial ones and the pushed ones. -/
  conserved : (completed ++ remaining).Perm
    (initial ++ completed.flatMap fun item => (visit item).pushed)
  /-- No completed item has ended the loop. -/
  continued : ∀ item ∈ completed, (visit item).exit = none
  reached : ∀ item ∈ completed ++ remaining, Reached visit initial item
  /-- No address comes up twice. -/
  distinct : ((completed ++ remaining).map address).Nodup

namespace History

variable {completed remaining rest left : List ι} {item : ι}

theorem start (forest : Forest visit initial before address place) :
    History visit initial address [] initial where
  conserved := by simp
  continued := by simp
  reached := fun _ mem => .initial (by simpa using mem)
  distinct := by
    have single := forest.single
    match initial, single with
    | [], _ => exact List.nodup_nil
    | [root], _ => exact List.nodup_singleton _

theorem perm (history : History visit initial address completed remaining)
    (perm : remaining.Perm left) : History visit initial address completed left where
  conserved := (perm.append_left completed).symm.trans history.conserved
  continued := history.continued
  reached := fun item mem => history.reached item (by simpa [perm.mem_iff] using mem)
  distinct := (((perm.append_left completed).map address).nodup_iff).mp history.distinct

/-- What an item pushes when it completes has not come up before. -/
theorem pushed_fresh (forest : Forest visit initial before address place)
    (history : History visit initial address completed (item :: rest)) :
    ∀ other ∈ completed ++ item :: rest, ∀ child ∈ (visit item).pushed,
      address other ≠ address child := by
  intro other other_mem child child_mem equality
  have item_reached := history.reached item (by simp)
  obtain ⟨name, child_address⟩ := forest.child_address _ item_reached _ child_mem
  rcases List.mem_append.mp (history.conserved.mem_iff.mp other_mem) with root | pushed
  · exact forest.root_ne_child item_reached root name (equality.trans child_address)
  · obtain ⟨parent, parent_mem, pushed⟩ := List.mem_flatMap.mp pushed
    have parent_reached := history.reached parent (by simp [parent_mem])
    have same := forest.parent_address parent_reached item_reached pushed child_mem equality
    have distinct := history.distinct
    rw [List.map_append, List.nodup_append] at distinct
    exact distinct.2.2 _ (List.mem_map_of_mem parent_mem) _ (by simp) same

theorem complete (forest : Forest visit initial before address place)
    (history : History visit initial address completed (item :: rest))
    (continues : (visit item).exit = none) :
    History visit initial address (completed ++ [item]) ((visit item).pushed ++ rest) := by
  have item_reached := history.reached item (by simp)
  have moved : (completed ++ [item] ++ ((visit item).pushed ++ rest)).Perm
      (completed ++ item :: rest ++ (visit item).pushed) := by
    rw [List.append_assoc, List.append_assoc, List.singleton_append, List.cons_append]
    exact (List.perm_append_comm.cons item).append_left completed
  constructor
  · calc
      (completed ++ [item] ++ ((visit item).pushed ++ rest)).Perm
          (completed ++ item :: rest ++ (visit item).pushed) := moved
      (completed ++ item :: rest ++ (visit item).pushed).Perm
          ((initial ++ completed.flatMap fun item => (visit item).pushed) ++ (visit item).pushed) :=
        history.conserved.append_right _
      _ = initial ++ (completed ++ [item]).flatMap fun item => (visit item).pushed := by
        simp
  · intro other mem
    rcases List.mem_append.mp mem with earlier | last
    · exact history.continued other earlier
    · obtain rfl := List.mem_singleton.mp last
      exact continues
  · intro other mem
    rcases List.mem_append.mp (moved.mem_iff.mp mem) with earlier | pushed
    · exact history.reached other earlier
    · exact .pushed item_reached pushed
  · rw [(moved.map address).nodup_iff, List.map_append]
    refine List.nodup_append.mpr
      ⟨history.distinct, forest.pushed_nodup _ item_reached, fun a a_mem b b_mem => ?_⟩
    obtain ⟨other, other_mem, rfl⟩ := List.mem_map.mp a_mem
    obtain ⟨child, child_mem, rfl⟩ := List.mem_map.mp b_mem
    exact history.pushed_fresh forest other other_mem child child_mem

/-- When nothing remains, every item that can be reached has been completed. -/
theorem completed_of_reached (history : History visit initial address completed []) {item : ι}
    (reached : Reached visit initial item) : item ∈ completed := by
  have mem_iff : ∀ other, other ∈ completed ↔
      other ∈ initial ∨ ∃ parent ∈ completed, other ∈ (visit parent).pushed := by
    intro other
    simpa using history.conserved.mem_iff
  induction reached with
  | initial mem => exact (mem_iff _).mpr (.inl mem)
  | pushed _ mem ih => exact (mem_iff _).mpr (.inr ⟨_, ih, mem⟩)

end History

theorem Forest.entries_nodup (forest : Forest visit initial before address place)
    {completed : List ι} (reached : ∀ item ∈ completed, Reached visit initial item)
    (distinct : (completed.map address).Nodup) :
    ((entries visit before completed).map place).Nodup := by
  rw [entries, List.map_append, List.map_flatMap]
  refine List.nodup_append.mpr ⟨?_, ?_, ?_⟩
  · have single := forest.before_single
    match before, single with
    | [], _ => exact List.nodup_nil
    | [first], _ => exact List.nodup_singleton _
  · refine List.nodup_flatMap.mpr ⟨fun item mem => forest.sent_nodup _ (reached item mem), ?_⟩
    refine (List.pairwise_map.mp distinct).imp_of_mem
      fun {item other} item_mem other_mem apart => ?_
    intro a a_mem a_mem'
    obtain ⟨entry, entry_mem, rfl⟩ := List.mem_map.mp a_mem
    obtain ⟨entry', entry_mem', same⟩ := List.mem_map.mp a_mem'
    exact apart (forest.sender_address (reached item item_mem) (reached other other_mem)
      entry_mem entry_mem' same.symm)
  · intro a a_mem b b_mem
    obtain ⟨first, first_mem, rfl⟩ := List.mem_map.mp a_mem
    obtain ⟨item, item_mem, b_mem⟩ := List.mem_flatMap.mp b_mem
    obtain ⟨entry, entry_mem, rfl⟩ := List.mem_map.mp b_mem
    exact forest.before_apart (reached item item_mem) first_mem entry_mem

/-- What the loop has done so far. -/
inductive Traced (visit : ι → Outcome ι α ε) (initial : List ι) (before : List α)
    (address : ι → List ν) : State ι α ε → Prop
  /-- The loop is running. -/
  | running {state : State ι α ε} {completed : List ι}
      (history : History visit initial address completed state.remaining)
      (sent_eq : state.sent = (entries visit before completed).map .ok)
      (exit_eq : state.exit = none) : Traced visit initial before address state
  /-- The loop has returned with nothing left to do. -/
  | returned {state : State ι α ε} {completed : List ι}
      (history : History visit initial address completed [])
      (sent_eq : state.sent = (entries visit before completed).map .ok)
      (exit_eq : state.exit = some .returned) : Traced visit initial before address state
  /-- An item has ended the loop. -/
  | stopped {state : State ι α ε} {completed rest : List ι} {item : ι} {exit : Exit ε}
      (history : History visit initial address completed (item :: rest))
      (item_exit : (visit item).exit = some exit)
      (sent_eq : state.sent = (entries visit before (completed ++ [item])).map .ok ++
        Exit.messages (some exit))
      (exit_eq : state.exit = some exit) : Traced visit initial before address state

theorem Traced.start (forest : Forest visit initial before address place) :
    Traced visit initial before address (State.start initial before) :=
  .running (.start forest) (by simp [State.start, entries]) rfl

theorem Traced.turn {limit : Nat} (positive : 0 < limit)
    (forest : Forest visit initial before address place) {state next : State ι α ε}
    (traced : Traced visit initial before address state) (turn : state.Turn limit visit next) :
    Traced visit initial before address next := by
  obtain ⟨running, taken⟩ := State.turn_cases positive turn
  cases traced with
  | returned _ _ exit_eq => simp [running] at exit_eq
  | stopped _ _ _ exit_eq => simp [running] at exit_eq
  | @running completed history sent_eq _ =>
      rcases taken with ⟨nothing, -, same, returned⟩ | ⟨item, rest, taken, added, sent, exit⟩
      · exact .returned (nothing ▸ history) (same.trans sent_eq) returned
      · have history := history.perm taken
        cases item_exit : (visit item).exit with
        | none =>
            have later := (history.complete forest item_exit).perm added.symm
            refine .running later ?_ (exit.trans item_exit)
            simp [sent, sent_eq, item_exit, entries, Exit.messages]
        | some stop =>
            refine .stopped history item_exit ?_ (exit.trans item_exit)
            simp [sent, sent_eq, item_exit, entries]

/-- The entries a run may send. -/
def Due (visit : ι → Outcome ι α ε) (initial : List ι) (before : List α) (entry : α) : Prop :=
  entry ∈ before ∨ ∃ item, Reached visit initial item ∧ entry ∈ (visit item).sent

/-- How a run ends. -/
inductive Delivered (visit : ι → Outcome ι α ε) (initial : List ι) (before : List α)
    (place : α → List ν) (state : State ι α ε) : Prop
  /-- No reached item ends the loop; exactly what is due has been sent. -/
  | all {sent : List α} (continued : ∀ item, Reached visit initial item → (visit item).exit = none)
      (exit_eq : state.exit = some .returned) (sent_eq : state.sent = sent.map .ok)
      (nodup : (sent.map place).Nodup)
      (mem_iff : ∀ entry, entry ∈ sent ↔ Due visit initial before entry) :
      Delivered visit initial before place state
  /-- A reached item has ended the loop; what was sent before was due. -/
  | part {sent : List α} {item : ι} {exit : Exit ε} (reached : Reached visit initial item)
      (item_exit : (visit item).exit = some exit) (exit_eq : state.exit = some exit)
      (sent_eq : state.sent = sent.map .ok ++ Exit.messages (some exit))
      (nodup : (sent.map place).Nodup)
      (due : ∀ entry ∈ sent, Due visit initial before entry) :
      Delivered visit initial before place state

theorem due_of_mem_entries {completed : List ι} {entry : α}
    (reached : ∀ item ∈ completed, Reached visit initial item)
    (mem : entry ∈ entries visit before completed) : Due visit initial before entry := by
  refine (List.mem_append.mp mem).imp_right fun mem => ?_
  obtain ⟨item, item_mem, mem⟩ := List.mem_flatMap.mp mem
  exact ⟨item, reached item item_mem, mem⟩

/-- What a trace says about a loop that has ended. -/
theorem Traced.delivered (forest : Forest visit initial before address place)
    {state : State ι α ε} (traced : Traced visit initial before address state)
    (ended : state.exit ≠ none) : Delivered visit initial before place state := by
  cases traced with
  | running _ _ exit_eq => exact absurd exit_eq ended
  | @returned completed history sent_eq exit_eq =>
      have reached : ∀ item ∈ completed, Reached visit initial item := fun item mem =>
        history.reached item (by simp [mem])
      have distinct : (completed.map address).Nodup := by
        simpa using history.distinct
      refine .all (fun item item_reached => ?_) exit_eq sent_eq
        (forest.entries_nodup reached distinct) fun entry => ?_
      · exact history.continued item (history.completed_of_reached item_reached)
      · refine ⟨due_of_mem_entries reached, fun due => List.mem_append.mpr ?_⟩
        refine due.imp_right fun ⟨item, item_reached, mem⟩ => ?_
        exact List.mem_flatMap.mpr ⟨item, history.completed_of_reached item_reached, mem⟩
  | @stopped completed rest item exit history item_exit sent_eq exit_eq =>
      have earlier : List.Sublist (completed ++ [item]) (completed ++ item :: rest) := by
        simp
      have reached : ∀ other ∈ completed ++ [item], Reached visit initial other :=
        fun other mem => history.reached other (earlier.subset mem)
      have distinct : ((completed ++ [item]).map address).Nodup :=
        history.distinct.sublist (earlier.map address)
      exact .part (reached item (by simp)) item_exit exit_eq sent_eq
        (forest.entries_nodup reached distinct) fun entry => due_of_mem_entries reached

/-- The ranks of what remains; every turn replaces one of them by smaller ones. -/
def measure (rank : ι → Nat) (state : State ι α ε) : Multiset Nat :=
  if state.exit = none then Multiset.ofList (0 :: state.remaining.map rank) else 0

theorem measure_turn {limit : Nat} (positive : 0 < limit) {rank : ι → Nat}
    (smaller : ∀ item, Reached visit initial item → ∀ child ∈ (visit item).pushed,
      rank child < rank item)
    {state next : State ι α ε} (traced : Traced visit initial before address state)
    (turn : state.Turn limit visit next) :
    (measure rank next).IsDershowitzMannaLT (measure rank state) := by
  obtain ⟨running, taken⟩ := State.turn_cases positive turn
  have reached : ∀ item ∈ state.remaining, Reached visit initial item := by
    cases traced with
    | running history _ _ => exact fun item mem => history.reached item (by simp [mem])
    | returned _ _ exit_eq => simp [running] at exit_eq
    | stopped _ _ _ exit_eq => simp [running] at exit_eq
  have measure_eq : measure rank state = Multiset.ofList (0 :: state.remaining.map rank) :=
    if_pos running
  by_cases continues : next.exit = none
  · rcases taken with ⟨-, -, -, returned⟩ | ⟨item, rest, taken, added, -, -⟩
    · simp [returned] at continues
    · have removed : (state.remaining.map rank).Perm (rest.map rank ++ [rank item]) :=
        (taken.map rank).trans (List.perm_append_singleton _ _).symm
      have added : (next.remaining.map rank).Perm
          (rest.map rank ++ (visit item).pushed.map rank) := by
        rw [← List.map_append]
        exact (added.trans List.perm_append_comm).map rank
      refine ⟨Multiset.ofList (0 :: rest.map rank), Multiset.ofList ((visit item).pushed.map rank),
        Multiset.ofList [rank item], by simp, ?_, ?_, ?_⟩
      · rw [measure, if_pos continues, Multiset.coe_add, Multiset.coe_eq_coe]
        exact added.cons 0
      · rw [measure_eq, Multiset.coe_add, Multiset.coe_eq_coe]
        exact removed.cons 0
      · intro lower lower_mem
        obtain ⟨child, child_mem, rfl⟩ := List.mem_map.mp (Multiset.mem_coe.mp lower_mem)
        have item_reached := reached item (taken.mem_iff.mpr List.mem_cons_self)
        exact ⟨rank item, by simp, smaller item item_reached child child_mem⟩
  · refine ⟨0, 0, measure rank state, ?_, ?_, by simp, by simp⟩
    · rw [measure_eq]
      exact (Multiset.coe_eq_zero _).not.mpr (by simp)
    · rw [measure, if_neg continues, add_zero]

/-- Whatever order the items complete in, the loop ends and has sent what is due. -/
theorem Forest.endsIn {limit : Nat} (positive : 0 < limit)
    (forest : Forest visit initial before address place) {rank : ι → Nat}
    (smaller : ∀ item, Reached visit initial item → ∀ child ∈ (visit item).pushed,
      rank child < rank item) :
    Relation.EndsIn (State.Turn limit visit) (Delivered visit initial before place)
      (State.start initial before) :=
  .of_measure Multiset.wellFounded_isDershowitzMannaLT (measure rank)
    (fun traced turn => Traced.turn positive forest traced turn)
    (fun traced turn => measure_turn positive smaller traced turn)
    (fun traced halted => traced.delivered forest (State.exit_of_halted halted))
    (Traced.start forest)

end Forest

end WorkStack
