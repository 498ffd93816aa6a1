import DuckdbHdfs.Library.WorkStack
import Mathlib.Data.Nat.Choose.Sum

/-!
# How high a work stack grows

Items have ranks, and the items an item pushes have the next smaller rank.  With one slot the
stack holds siblings of every rank at most once.  With more slots an item held back in flight can
push its siblings on top of what lower ranks have left, and every slot does so at every rank: the
number of sibling groups is a binomial coefficient, not a product.

The upper bound charges a group to the ranks in flight; the lower bound is a schedule that reaches
it up to the items the slots take from each group.
-/

namespace WorkStack

variable {ι α ε : Type*}

theorem sum_range_multichoose_succ (rank count : ℕ) :
    ∑ i ∈ Finset.range (count + 1), rank.multichoose i = (rank + 1).multichoose count := by
  rw [Nat.sum_range_multichoose, Nat.multichoose_eq, ← Nat.choose_symm_of_eq_add]
  · congr 1
    omega
  · omega

theorem succ_multichoose (rank count : ℕ) :
    (rank + 1).multichoose count =
      ∑ i ∈ Finset.range count, rank.multichoose (i + 1) + 1 := by
  rw [← sum_range_multichoose_succ, Finset.sum_range_succ', Nat.multichoose_zero_right]

/-- The groups of one rank that `count` items in flight of at least that rank can still push. -/
def layer (limit rank count : ℕ) : ℕ :=
  ∑ i ∈ Finset.range count, rank.multichoose (limit - 1 - i)

theorem layer_mono {limit rank count count' : ℕ} (le : count ≤ count') :
    layer limit rank count ≤ layer limit rank count' :=
  Finset.sum_le_sum_of_subset (Finset.range_subset_range.mpr le)

theorem layer_limit {limit rank count : ℕ} (le : count ≤ limit) :
    layer limit rank limit =
      layer limit rank count + ∑ i ∈ Finset.range (limit - count), rank.multichoose i := by
  obtain ⟨free, rfl⟩ := Nat.exists_eq_add_of_le le
  rw [layer, Finset.sum_range_add, layer, Nat.add_sub_cancel_left,
    ← Finset.sum_range_reflect (fun i => rank.multichoose i)]
  congr 1
  apply Finset.sum_congr rfl
  intro i _
  congr 1
  omega

theorem sum_layers (rank free : ℕ) :
    ∑ t ∈ Finset.range rank, ∑ i ∈ Finset.range free, (t + 1).multichoose i + 1 =
      (rank + 1).multichoose free := by
  induction rank with
  | zero => simp
  | succ rank ih =>
      have next := sum_range_multichoose_succ (rank + 1) free
      rw [Finset.sum_range_succ] at next ⊢
      omega

/-- The groups that can still be pushed when the top of the stack has rank `base`: up to that
rank every slot can be filled from the stack. -/
def room (limit height base : ℕ) (counts : ℕ → ℕ) : ℕ :=
  ∑ t ∈ Finset.range height, layer limit (t + 1) (if t < base then limit else counts (t + 1))

section room

variable {limit height base base' : ℕ} {counts counts' : ℕ → ℕ}

theorem room_mono
    (le : ∀ t, (if t < base then limit else counts (t + 1)) ≤
      if t < base' then limit else counts' (t + 1)) :
    room limit height base counts ≤ room limit height base' counts' :=
  Finset.sum_le_sum fun t _ => layer_mono (le t)

/-- Completing an item of rank `base + 1` pays for the group it pushes. -/
theorem room_push (inside : base < height) (counts_le : ∀ t, counts t ≤ limit)
    (anti : ∀ t ≤ base, counts (base + 1) ≤ counts (t + 1))
    (taken : counts (base + 1) = counts' (base + 1) + 1)
    (above : ∀ t, base < t → counts' (t + 1) = counts (t + 1)) :
    room limit height base counts' + 1 ≤ room limit height 0 counts := by
  obtain ⟨higher, rfl⟩ := Nat.exists_eq_add_of_lt inside
  have split : ∀ f : ℕ → ℕ, ∑ t ∈ Finset.range (base + higher + 1), f t =
      ∑ t ∈ Finset.range base, f t + f base + ∑ t ∈ Finset.range higher, f (base + 1 + t) := by
    intro f
    rw [Nat.add_right_comm, Finset.sum_range_add, Finset.sum_range_succ]
  have free_pos : limit - 1 - counts' (base + 1) = limit - counts (base + 1) := by omega
  have lower : ∑ t ∈ Finset.range base, layer limit (t + 1) limit ≤
      ∑ t ∈ Finset.range base, layer limit (t + 1) (counts (t + 1)) +
        ∑ t ∈ Finset.range base, ∑ i ∈ Finset.range (limit - counts (base + 1)),
          (t + 1).multichoose i := by
    rw [← Finset.sum_add_distrib]
    apply Finset.sum_le_sum
    intro t mem
    rw [layer_limit (counts_le (base + 1))]
    apply Nat.add_le_add_right
    exact layer_mono (anti t (Finset.mem_range.mp mem).le)
  have own : layer limit (base + 1) (counts (base + 1)) =
      layer limit (base + 1) (counts' (base + 1)) +
        (base + 1).multichoose (limit - counts (base + 1)) := by
    rw [taken, layer, Finset.sum_range_succ, ← taken, free_pos, layer]
  have groups := sum_layers base (limit - counts (base + 1))
  have kept : ∑ t ∈ Finset.range higher, layer limit (base + 1 + t + 1)
      (if base + 1 + t < base then limit else counts' (base + 1 + t + 1)) =
        ∑ t ∈ Finset.range higher, layer limit (base + 1 + t + 1) (counts (base + 1 + t + 1)) := by
    apply Finset.sum_congr rfl
    intro t _
    rw [if_neg (by omega), above _ (by omega)]
  have filled : ∑ t ∈ Finset.range base, layer limit (t + 1)
      (if t < base then limit else counts' (t + 1)) =
        ∑ t ∈ Finset.range base, layer limit (t + 1) limit := by
    apply Finset.sum_congr rfl
    intro t mem
    rw [if_pos (Finset.mem_range.mp mem)]
  rw [room, room, split, split, filled, kept]
  simp only [Nat.not_lt_zero, if_false, Nat.lt_irrefl]
  omega

end room

/-- How many items in flight have at least a given rank. -/
def ranked (rank : ι → ℕ) (inFlight : List ι) (level : ℕ) : ℕ :=
  inFlight.countP fun item => decide (level ≤ rank item)

/-- The stack, its top first, falls into groups of siblings; wherever it is cut between two groups,
what lies below the cut and what can still be pushed on it stays within the bound. -/
inductive Grouped (rank : ι → ℕ) (limit height fanout bound : ℕ) (inFlight : List ι) :
    List ι → ℕ → Prop
  | nil (fits : room limit height 0 (ranked rank inFlight) ≤ bound) :
      Grouped rank limit height fanout bound inFlight [] 0
  | group {siblings below : List ι} {groups base : ℕ}
      (grouped : Grouped rank limit height fanout bound inFlight below groups)
      (narrow : siblings.length ≤ fanout) (equal : ∀ item ∈ siblings, rank item = base)
      (fits : groups + 1 + room limit height base (ranked rank inFlight) ≤ bound) :
      Grouped rank limit height fanout bound inFlight (siblings ++ below) (groups + 1)

section Grouped

variable {rank : ι → ℕ} {limit height fanout bound groups : ℕ} {inFlight inFlight' pending : List ι}
  {item : ι}

theorem ranked_le_length (level : ℕ) : ranked rank inFlight level ≤ inFlight.length :=
  List.countP_le_length

theorem ranked_anti {lower upper : ℕ} (le : lower ≤ upper) :
    ranked rank inFlight upper ≤ ranked rank inFlight lower := by
  apply List.countP_mono_left
  intro item _ high
  have high := of_decide_eq_true high
  exact decide_eq_true (le.trans high)

theorem ranked_cons (level : ℕ) :
    ranked rank (item :: inFlight) level =
      ranked rank inFlight level + if level ≤ rank item then 1 else 0 := by
  simp [ranked, List.countP_cons]

theorem ranked_perm (perm : inFlight.Perm inFlight') :
    ranked rank inFlight = ranked rank inFlight' := by
  funext level
  exact perm.countP_eq _

theorem Grouped.groups_le
    (grouped : Grouped rank limit height fanout bound inFlight pending groups) :
    groups ≤ bound := by
  cases grouped with
  | nil => exact Nat.zero_le _
  | group _ _ _ fits => omega

theorem Grouped.length_le
    (grouped : Grouped rank limit height fanout bound inFlight pending groups) :
    pending.length ≤ fanout * groups := by
  induction grouped with
  | nil => simp
  | group _ narrow _ _ ih =>
      rw [List.length_append, Nat.mul_succ]
      omega

theorem Grouped.room_le
    (full : inFlight.length ≤ limit)
    (grouped : Grouped rank limit height fanout bound inFlight pending groups) :
    groups + room limit height 0 (ranked rank inFlight) ≤ bound := by
  cases grouped with
  | nil fits => omega
  | @group _ _ groups base _ _ _ fits =>
      have less : room limit height 0 (ranked rank inFlight) ≤
          room limit height base (ranked rank inFlight) := by
        apply room_mono
        intro t
        have := @ranked_le_length ι rank inFlight (t + 1)
        split_ifs <;> omega
      omega

theorem Grouped.anti
    (less : ∀ level, ranked rank inFlight' level ≤ ranked rank inFlight level)
    (grouped : Grouped rank limit height fanout bound inFlight pending groups) :
    Grouped rank limit height fanout bound inFlight' pending groups := by
  have room_le : ∀ base, room limit height base (ranked rank inFlight') ≤
      room limit height base (ranked rank inFlight) := by
    intro base
    apply room_mono
    intro t
    have := less (t + 1)
    split_ifs <;> omega
  induction grouped with
  | nil fits => exact .nil ((room_le 0).trans fits)
  | @group _ _ _ base _ narrow equal fits ih =>
      exact .group ih narrow equal (by have := room_le base; omega)

/-- An item taken from a group of its rank adds nothing to what can be pushed on that group. -/
theorem room_take (base : ℕ) (le : rank item ≤ base) :
    room limit height base (ranked rank (item :: inFlight)) =
      room limit height base (ranked rank inFlight) := by
  apply Finset.sum_congr rfl
  intro t _
  rw [ranked_cons]
  congr 1
  split
  · rfl
  · rw [if_neg (by omega), Nat.add_zero]

theorem room_take_lower (free : inFlight.length < limit) {base : ℕ} (lt : base < rank item) :
    room limit height base (ranked rank (item :: inFlight)) ≤
      room limit height (rank item) (ranked rank inFlight) := by
  apply room_mono
  intro t
  have := @ranked_le_length ι rank inFlight (t + 1)
  rw [ranked_cons]
  split_ifs <;> omega

theorem Grouped.take_lower (free : inFlight.length < limit)
    (grouped : Grouped rank limit height fanout bound inFlight pending groups)
    (fits : groups + room limit height (rank item) (ranked rank inFlight) ≤ bound) :
    Grouped rank limit height fanout bound (item :: inFlight) pending groups := by
  induction grouped with
  | nil fits_below =>
      apply Grouped.nil
      rcases Nat.eq_zero_or_pos (rank item) with zero | positive
      · rw [room_take 0 zero.le]
        exact fits_below
      · have := @room_take_lower ι rank limit height inFlight item free 0 positive
        omega
  | @group siblings below groups base _ narrow equal fits_below ih =>
      refine .group (ih (by omega)) narrow equal ?_
      rcases Nat.lt_or_ge base (rank item) with lt | le
      · have := @room_take_lower ι rank limit height inFlight item free base lt
        omega
      · rw [room_take base le]
        exact fits_below

theorem Grouped.take (free : inFlight.length < limit)
    (grouped : Grouped rank limit height fanout bound inFlight (item :: pending) groups) :
    ∃ groups', Grouped rank limit height fanout bound (item :: inFlight) pending groups' := by
  generalize stack_eq : item :: pending = stack at grouped
  induction grouped with
  | nil => simp at stack_eq
  | @group siblings below groups base grouped narrow equal fits ih =>
      cases siblings with
      | nil => exact ih stack_eq
      | cons first siblings =>
          obtain ⟨rfl, rfl⟩ := List.cons.inj stack_eq
          have item_rank : rank item = base := equal item List.mem_cons_self
          subst base
          have below_grouped :
              Grouped rank limit height fanout bound (item :: inFlight) below groups :=
            grouped.take_lower free (by omega)
          have rest_equal : ∀ other ∈ siblings, rank other = rank item :=
            fun other mem => equal other (List.mem_cons_of_mem _ mem)
          refine ⟨groups + 1, below_grouped.group ?_ rest_equal ?_⟩
          · rw [List.length_cons] at narrow
            omega
          · rw [room_take _ le_rfl]
            exact fits

theorem Grouped.perm (perm : inFlight.Perm inFlight')
    (grouped : Grouped rank limit height fanout bound inFlight pending groups) :
    Grouped rank limit height fanout bound inFlight' pending groups :=
  grouped.anti fun level => (congrFun (ranked_perm perm) level).ge

theorem Grouped.refill (fits : inFlight.length ≤ limit)
    (grouped : Grouped rank limit height fanout bound inFlight pending groups) :
    (WorkStack.refill limit pending inFlight).2.length ≤ limit ∧
      ∃ groups', Grouped rank limit height fanout bound (WorkStack.refill limit pending inFlight).2
        (WorkStack.refill limit pending inFlight).1 groups' := by
  induction pending generalizing inFlight groups with
  | nil => exact ⟨fits, groups, grouped⟩
  | cons item pending ih =>
      rw [WorkStack.refill]
      split
      · rename_i free
        obtain ⟨groups', taken⟩ := grouped.take free
        apply ih
        · rw [List.length_append, List.length_singleton]
          exact free
        · exact taken.perm (List.perm_append_singleton item inFlight).symm
      · exact ⟨fits, groups, grouped⟩

/-- A completed item trades what it could push for its own group. -/
theorem Grouped.complete {rest pushed : List ι} (fits : inFlight.length ≤ limit)
    (perm : inFlight.Perm (item :: rest)) (rank_le : rank item ≤ height)
    (narrow : pushed.length ≤ fanout) (child_rank : ∀ child ∈ pushed, rank child + 1 = rank item)
    (grouped : Grouped rank limit height fanout bound inFlight pending groups) :
    ∃ groups', Grouped rank limit height fanout bound rest (pushed.reverse ++ pending) groups' := by
  have counts : ∀ level, ranked rank inFlight level =
      ranked rank rest level + if level ≤ rank item then 1 else 0 := by
    intro level
    rw [ranked_perm perm, ranked_cons]
  have rest_grouped : Grouped rank limit height fanout bound rest pending groups :=
    grouped.anti fun level => by rw [counts level]; exact Nat.le_add_right _ _
  cases pushed with
  | nil => exact ⟨groups, rest_grouped⟩
  | cons first others =>
      obtain ⟨base, item_rank⟩ : ∃ base, rank item = base + 1 :=
        ⟨rank first, (child_rank first List.mem_cons_self).symm⟩
      have pays : room limit height base (ranked rank rest) + 1 ≤
          room limit height 0 (ranked rank inFlight) := by
        apply room_push (by omega)
        · exact fun level => (ranked_le_length level).trans fits
        · exact fun t le => ranked_anti (by omega)
        · rw [counts, if_pos item_rank.ge]
        · intro t lt
          rw [counts, if_neg (by omega)]
          rfl
      have fits_below := grouped.room_le fits
      have equal : ∀ child ∈ (first :: others).reverse, rank child = base := by
        intro child mem
        have := child_rank child (List.mem_reverse.mp mem)
        omega
      exact ⟨groups + 1, .group rest_grouped (by simpa using narrow) equal (by omega)⟩

end Grouped

/-! ## The bound -/

/-- An item that comes up pushes a bounded number of items, all of the next smaller rank. -/
structure Ranked (visit : ι → Outcome ι α ε) (root : ι) (rank : ι → ℕ) (fanout : ℕ) : Prop where
  child_rank : ∀ item, Reached visit [root] item → ∀ child ∈ (visit item).pushed,
    rank child + 1 = rank item
  narrow : ∀ item, Reached visit [root] item → (visit item).pushed.length ≤ fanout

/-- The groups on the stack of a running loop, and where its items come from. -/
structure Within (visit : ι → Outcome ι α ε) (root : ι) (rank : ι → ℕ) (fanout limit : ℕ)
    (inFlight pending : List ι) : Prop where
  reached : ∀ item ∈ inFlight ++ pending, Reached visit [root] item
  fits : inFlight.length ≤ limit
  grouped : ∃ groups, Grouped rank limit (rank root) fanout ((rank root).multichoose limit)
    inFlight pending groups

section Within

variable {visit : ι → Outcome ι α ε} {root : ι} {rank : ι → ℕ} {fanout limit : ℕ}
  {inFlight pending : List ι}

theorem Ranked.rank_le (ranked : Ranked visit root rank fanout) {item : ι}
    (reached : Reached visit [root] item) : rank item ≤ rank root := by
  induction reached with
  | initial mem => rw [List.mem_singleton.mp mem]
  | pushed reached mem ih =>
      have := ranked.child_rank _ reached _ mem
      omega

/-- With the root alone in flight, all groups of the walk can still be pushed. -/
theorem Within.start (positive : 0 < limit) : Within visit root rank fanout limit [root] [] where
  reached := fun item mem => .initial (by simpa using mem)
  fits := positive
  grouped := by
    refine ⟨0, .nil ?_⟩
    obtain ⟨others, rfl⟩ := Nat.exists_eq_succ_of_ne_zero positive.ne'
    have pushed : ∀ height ≤ rank root, room (others + 1) height 0 (ranked rank [root]) =
        height.multichoose (others + 1) := by
      intro height le
      induction height with
      | zero => simp [room]
      | succ height ih =>
          have counted : ranked rank [root] (height + 1) = 1 := by simpa [ranked] using le
          have own : layer (others + 1) (height + 1) 1 = (height + 1).multichoose others := by
            simp [layer]
          have earlier := ih (by omega)
          rw [room] at earlier ⊢
          rw [Finset.sum_range_succ, earlier, if_neg (Nat.not_lt_zero _), counted, own,
            Nat.multichoose_succ_succ]
    exact (pushed _ le_rfl).le

theorem Within.refill (within : Within visit root rank fanout limit inFlight pending) :
    Within visit root rank fanout limit (WorkStack.refill limit pending inFlight).2
      (WorkStack.refill limit pending inFlight).1 where
  reached := by
    intro item mem
    exact within.reached item ((refill_perm limit pending inFlight).mem_iff.mp mem)
  fits := (within.grouped.choose_spec.refill within.fits).1
  grouped := (within.grouped.choose_spec.refill within.fits).2

theorem Within.complete (ranked : Ranked visit root rank fanout) {item : ι} {rest : List ι}
    (perm : inFlight.Perm (item :: rest))
    (within : Within visit root rank fanout limit inFlight pending) :
    Within visit root rank fanout limit rest ((visit item).pushed.reverse ++ pending) := by
  have item_reached : Reached visit [root] item :=
    within.reached item (List.mem_append_left _ (perm.mem_iff.mpr List.mem_cons_self))
  refine ⟨?_, ?_, ?_⟩
  · intro other mem
    rcases List.mem_append.mp mem with in_flight | on_stack
    · exact within.reached other
        (List.mem_append_left _ (perm.mem_iff.mpr (List.mem_cons_of_mem _ in_flight)))
    · rcases List.mem_append.mp on_stack with new | old
      · exact .pushed item_reached (List.mem_reverse.mp new)
      · exact within.reached other (List.mem_append_right _ old)
  · have := within.fits
    rw [perm.length_eq, List.length_cons] at this
    omega
  · obtain ⟨groups, grouped⟩ := within.grouped
    exact grouped.complete within.fits perm (ranked.rank_le item_reached)
      (ranked.narrow item item_reached) (ranked.child_rank item item_reached)

theorem Within.turn (ranked : Ranked visit root rank fanout) {state next : State ι α ε}
    (within : Within visit root rank fanout limit (WorkStack.refill limit state.pending
      state.inFlight).2 (WorkStack.refill limit state.pending state.inFlight).1)
    (turn : state.Turn limit visit next) :
    Within visit root rank fanout limit next.inFlight next.pending := by
  obtain ⟨choice, turn⟩ := turn
  obtain ⟨-, ⟨nothing, rfl⟩ | ⟨item, chosen, rfl⟩⟩ := State.turn_eq_some turn
  · rwa [nothing] at within
  · obtain ⟨inside, rfl⟩ := List.getElem?_eq_some_iff.mp chosen
    exact within.complete ranked (List.getElem_cons_eraseIdx_perm inside).symm

/-- The stack never holds more than the sibling groups the root can lead to. -/
theorem Ranked.pending_length_le (ranked : Ranked visit root rank fanout) (positive : 0 < limit)
    {before : List α} {state : State ι α ε}
    (reach : Relation.ReflTransGen (State.Turn limit visit) (State.start [root] before) state) :
    state.pending.length ≤ max 1 (fanout * (rank root).multichoose limit) := by
  have first : WorkStack.refill limit [root] [] = ([], [root]) := by
    simp [WorkStack.refill, positive]
  have invariant : state = State.start [root] before ∨
      Within visit root rank fanout limit state.inFlight state.pending := by
    induction reach with
    | refl => exact .inl rfl
    | tail _ turn ih =>
        rcases ih with rfl | within
        · have filled : Within visit root rank fanout limit (WorkStack.refill limit [root] []).2
              (WorkStack.refill limit [root] []).1 := by
            rw [first]
            exact .start positive
          exact .inr (filled.turn ranked turn)
        · exact .inr (within.refill.turn ranked turn)
  rcases invariant with rfl | within
  · exact le_max_left _ _
  · obtain ⟨groups, grouped⟩ := within.grouped
    calc
      state.pending.length ≤ fanout * groups := grouped.length_le
      _ ≤ fanout * (rank root).multichoose limit := Nat.mul_le_mul_left _ grouped.groups_le
      _ ≤ _ := le_max_right _ _

end Within

/-! ## A schedule that reaches it -/

/-- The ranks on the stack, its top first, and those in flight, once the free slots are filled. -/
structure Ranks where
  pending : List ℕ
  inFlight : Multiset ℕ

/-- What an item of some rank pushes when nothing is missing. -/
def offspring (fanout : ℕ) : ℕ → List ℕ
  | 0 => []
  | level + 1 => List.replicate fanout level

/-- One turn as the ranks see it: any item in flight completes, and the free slots are filled. -/
inductive RankTurn (limit fanout : ℕ) : Ranks → Ranks → Prop
  | complete (pending : List ℕ) (level : ℕ) (held : Multiset ℕ) :
      RankTurn limit fanout ⟨pending, level ::ₘ held⟩
        ⟨(offspring fanout level ++ pending).drop (limit - held.card),
          held + ((offspring fanout level ++ pending).take (limit - held.card) : List ℕ)⟩

section RankTurn

variable {limit fanout : ℕ}

theorem RankTurn.pop {pending rest : List ℕ} {level top : ℕ} {held : Multiset ℕ}
    (slots : held.card + 1 = limit) (stack : offspring fanout level ++ pending = top :: rest) :
    RankTurn limit fanout ⟨pending, level ::ₘ held⟩ ⟨rest, top ::ₘ held⟩ := by
  have turn := @RankTurn.complete limit fanout pending level held
  have one_free : limit - held.card = 1 := by omega
  rw [stack, one_free, List.drop_one, List.tail_cons, List.take_one, List.head?_cons,
    Option.toList_some, Multiset.coe_singleton, add_comm, Multiset.singleton_add] at turn
  exact turn

theorem replicate_succ_add (count level : ℕ) (held : Multiset ℕ) :
    Multiset.replicate (count + 1) level + held =
      Multiset.replicate count level + (level ::ₘ held) := by
  rw [Multiset.replicate_succ, Multiset.cons_add, Multiset.add_cons]

/-- Items without children give their slots to the top of the stack. -/
theorem fill_slots (count level : ℕ) (pending : List ℕ) (held : Multiset ℕ)
    (slots : held.card + count = limit) :
    Relation.ReflTransGen (RankTurn limit fanout)
      ⟨List.replicate count level ++ pending, Multiset.replicate count 0 + held⟩
      ⟨pending, Multiset.replicate count level + held⟩ := by
  induction count generalizing held with
  | zero => exact .refl
  | succ count ih =>
      have first : RankTurn limit fanout
          ⟨List.replicate (count + 1) level ++ pending, Multiset.replicate (count + 1) 0 + held⟩
          ⟨List.replicate count level ++ pending,
            Multiset.replicate count 0 + (level ::ₘ held)⟩ := by
        rw [replicate_succ_add, Multiset.add_cons, Multiset.add_cons]
        apply RankTurn.pop
        · simp only [Multiset.card_add, Multiset.card_replicate]
          omega
        · rfl
      have later := ih (level ::ₘ held) (by rw [Multiset.card_cons]; omega)
      rw [replicate_succ_add count level]
      exact .head first later

/-- One item of the level and some free slots can leave all the groups of that many slots on the
stack, up to the items the slots take. -/
def Climbs (limit fanout level : ℕ) : Prop :=
  ∀ (slots : ℕ) (pending : List ℕ) (held : Multiset ℕ), held.card + (slots + 1) = limit →
    ∃ extra, (fanout - limit) * level.multichoose (slots + 1) ≤ extra.length ∧
      Relation.ReflTransGen (RankTurn limit fanout)
        ⟨pending, level ::ₘ (Multiset.replicate slots 0 + held)⟩
        ⟨extra ++ pending, Multiset.replicate (slots + 1) 0 + held⟩

theorem Climbs.exists_descent {level : ℕ} (climb : Climbs limit fanout level) (count : ℕ)
    (pending : List ℕ) (held : Multiset ℕ) (slots : held.card + count = limit) :
    ∃ extra, (fanout - limit) * ∑ i ∈ Finset.range count, level.multichoose (i + 1) ≤ extra.length ∧
      Relation.ReflTransGen (RankTurn limit fanout)
        ⟨pending, Multiset.replicate count level + held⟩
        ⟨extra ++ pending, Multiset.replicate count 0 + held⟩ := by
  induction count generalizing held with
  | zero => exact ⟨[], by simp, .refl⟩
  | succ count ih =>
      obtain ⟨lower, lower_length, earlier⟩ := ih (level ::ₘ held)
        (by rw [Multiset.card_cons]; omega)
      obtain ⟨upper, upper_length, later⟩ := climb count (lower ++ pending) held slots
      refine ⟨upper ++ lower, ?_, ?_⟩
      · rw [Finset.sum_range_succ, Nat.mul_add, List.length_append]
        omega
      · rw [Multiset.add_cons level (Multiset.replicate count 0)] at earlier
        rw [replicate_succ_add count level, List.append_assoc]
        exact earlier.trans later

/-- The item fills the free slots with its children, and these are worked off in turn. -/
theorem climbs (wide : limit ≤ fanout) (level : ℕ) : Climbs limit fanout level := by
  induction level with
  | zero =>
      intro slots pending held taken
      refine ⟨[], by simp, ?_⟩
      rw [Multiset.replicate_succ, Multiset.cons_add]
      exact .refl
  | succ level ih =>
      intro slots pending held taken
      obtain ⟨others, rfl⟩ : ∃ others, fanout = slots + others + 1 :=
        ⟨fanout - slots - 1, by omega⟩
      have first : RankTurn limit (slots + others + 1)
          ⟨pending, (level + 1) ::ₘ (Multiset.replicate slots 0 + held)⟩
          ⟨List.replicate slots level ++ (List.replicate others level ++ pending),
            Multiset.replicate slots 0 + (level ::ₘ held)⟩ := by
        rw [Multiset.add_cons]
        apply RankTurn.pop
        · simp only [Multiset.card_add, Multiset.card_replicate]
          omega
        · rw [offspring, List.replicate_succ, List.replicate_add, List.cons_append,
            List.append_assoc]
      have filled := @fill_slots limit (slots + others + 1) slots level
        (List.replicate others level ++ pending) (level ::ₘ held)
        (by rw [Multiset.card_cons]; omega)
      obtain ⟨extra, extra_length, descent⟩ := ih.exists_descent (slots + 1)
        (List.replicate others level ++ pending) held taken
      refine ⟨extra ++ List.replicate others level, ?_, ?_⟩
      · rw [succ_multichoose, Nat.mul_succ, List.length_append, List.length_replicate]
        omega
      · rw [← replicate_succ_add] at filled
        rw [List.append_assoc]
        exact .head first (filled.trans descent)

/-- From the root alone, the stack takes all its groups but for the items in the slots. -/
theorem exists_ranks (positive : 0 < limit) (wide : limit ≤ fanout) (level : ℕ) :
    ∃ ranks : Ranks, (fanout - limit) * level.multichoose limit ≤ ranks.pending.length ∧
      Relation.ReflTransGen (RankTurn limit fanout) ⟨[], {level}⟩ ranks := by
  obtain ⟨slots, rfl⟩ : ∃ slots, limit = slots + 1 := ⟨limit - 1, by omega⟩
  cases level with
  | zero => exact ⟨_, by simp, .refl⟩
  | succ level =>
      have first : RankTurn (slots + 1) fanout ⟨[], {level + 1}⟩
          ⟨List.replicate (fanout - (slots + 1)) level,
            Multiset.replicate (slots + 1) level + 0⟩ := by
        have turn := @RankTurn.complete (slots + 1) fanout [] (level + 1) 0
        simpa [offspring, wide, Multiset.coe_replicate] using turn
      obtain ⟨extra, extra_length, descent⟩ := (climbs wide level).exists_descent
        (slots + 1) (List.replicate (fanout - (slots + 1)) level) 0 (by simp)
      refine ⟨_, ?_, .head first descent⟩
      rw [succ_multichoose, Nat.mul_succ, List.length_append, List.length_replicate]
      omega

end RankTurn

/-- No item is missing what it could push, and none ends the loop. -/
structure Full (visit : ι → Outcome ι α ε) (rank : ι → ℕ) (fanout : ℕ) : Prop where
  pushed_rank : ∀ item, (visit item).pushed.map rank = offspring fanout (rank item)
  continues : ∀ item, (visit item).exit = none

/-- What the ranks see of a state. -/
def State.ranks (limit : ℕ) (rank : ι → ℕ) (state : State ι α ε) : Ranks where
  pending := (refill limit state.pending state.inFlight).1.map rank
  inFlight := ((refill limit state.pending state.inFlight).2.map rank : List ℕ)

section Full

variable {visit : ι → Outcome ι α ε} {rank : ι → ℕ} {fanout limit : ℕ} {state : State ι α ε}
  {ranks : Ranks}

theorem reverse_offspring (fanout level : ℕ) :
    (offspring fanout level).reverse = offspring fanout level := by
  cases level <;> simp [offspring]

theorem State.ranks_eq (limit : ℕ) (rank : ι → ℕ) (state : State ι α ε) :
    state.ranks limit rank =
      ⟨(state.pending.map rank).drop (limit - state.inFlight.length),
        (state.inFlight.map rank : List ℕ) +
          ((state.pending.map rank).take (limit - state.inFlight.length) : List ℕ)⟩ := by
  rw [State.ranks, refill_eq, List.map_append, List.map_drop, List.map_take, Multiset.coe_add]

theorem State.exists_turn {item : ι} (running : state.exit = none)
    (mem : item ∈ (refill limit state.pending state.inFlight).2) :
    ∃ next, State.Turn limit visit state next ∧
      next.pending =
        (visit item).pushed.reverse ++ (refill limit state.pending state.inFlight).1 ∧
      (refill limit state.pending state.inFlight).2.Perm (item :: next.inFlight) ∧
      next.exit = (visit item).exit := by
  obtain ⟨choice, inside, rfl⟩ := List.mem_iff_getElem.mp mem
  generalize refilled_eq : refill limit state.pending state.inFlight = refilled at inside ⊢
  obtain ⟨stack, slots⟩ := refilled
  let outcome := visit slots[choice]
  let next : State ι α ε :=
    { pending := outcome.pushed.reverse ++ stack
      inFlight := slots.eraseIdx choice
      sent := state.sent ++ outcome.sent.map .ok ++ Exit.messages outcome.exit
      exit := outcome.exit }
  refine ⟨next, ⟨choice, ?_⟩, rfl, (List.getElem_cons_eraseIdx_perm inside).symm, rfl⟩
  simp [State.turn, running, refilled_eq, List.getElem?_eq_getElem inside, next, outcome]

theorem Full.exists_turn (full : Full visit rank fanout) (running : state.exit = none)
    (turn : RankTurn limit fanout (state.ranks limit rank) ranks) :
    ∃ next, State.Turn limit visit state next ∧ next.exit = none ∧
      next.ranks limit rank = ranks := by
  generalize before_eq : state.ranks limit rank = before at turn
  obtain ⟨pending, level, held⟩ := turn
  obtain ⟨pending_eq, inFlight_eq⟩ := Ranks.mk.inj before_eq
  have level_mem : level ∈ (refill limit state.pending state.inFlight).2.map rank := by
    rw [← Multiset.mem_coe, inFlight_eq]
    exact Multiset.mem_cons_self _ _
  obtain ⟨item, item_mem, rfl⟩ := List.mem_map.mp level_mem
  obtain ⟨next, turn, stack, slots, exit⟩ := @State.exists_turn _ _ _ visit _ _ _ running item_mem
  have held_eq : (next.inFlight.map rank : Multiset ℕ) = held := by
    have whole := slots.map rank
    rw [← Multiset.coe_eq_coe, inFlight_eq, List.map_cons, ← Multiset.cons_coe] at whole
    exact ((Multiset.cons_inj_right _).mp whole).symm
  have free : limit - next.inFlight.length = limit - held.card := by
    rw [← held_eq, Multiset.coe_card, List.length_map]
  have stack_eq : next.pending.map rank = offspring fanout (rank item) ++ pending := by
    rw [stack, List.map_append, List.map_reverse, full.pushed_rank, reverse_offspring, pending_eq]
  refine ⟨next, turn, exit.trans (full.continues item), ?_⟩
  rw [State.ranks_eq, stack_eq, free, held_eq]

theorem Full.exists_reach (full : Full visit rank fanout) (running : state.exit = none)
    (reach : Relation.ReflTransGen (RankTurn limit fanout) (state.ranks limit rank) ranks) :
    ∃ next, Relation.ReflTransGen (State.Turn limit visit) state next ∧ next.exit = none ∧
      next.ranks limit rank = ranks := by
  induction reach with
  | refl => exact ⟨state, .refl, running, rfl⟩
  | tail _ turn ih =>
      obtain ⟨middle, earlier, running, rfl⟩ := ih
      obtain ⟨next, last, running, ranks_eq⟩ := full.exists_turn running turn
      exact ⟨next, earlier.tail last, running, ranks_eq⟩

/-- Some order of completions fills the stack up to the items the slots take from each group. -/
theorem Full.exists_pending_length (full : Full visit rank fanout) (positive : 0 < limit)
    (wide : limit ≤ fanout) (root : ι) (before : List α) :
    ∃ state : State ι α ε,
      Relation.ReflTransGen (State.Turn limit visit) (State.start [root] before) state ∧
        (fanout - limit) * (rank root).multichoose limit ≤ state.pending.length := by
  have start_ranks : (State.start [root] before : State ι α ε).ranks limit rank =
      ⟨[], {rank root}⟩ := by
    simp [State.ranks, State.start, refill, positive]
  obtain ⟨ranks, high, reach⟩ := exists_ranks positive wide (rank root)
  rw [← start_ranks] at reach
  obtain ⟨state, reached, -, rfl⟩ := full.exists_reach rfl reach
  refine ⟨state, reached, high.trans ?_⟩
  rw [State.ranks, refill_eq, List.length_map, List.length_drop]
  exact Nat.sub_le _ _

end Full

end WorkStack
