import DuckdbHdfs.Library.Interleaving
import Mathlib.Algebra.BigOperators.Group.Finset.Basic
import Mathlib.Algebra.BigOperators.Group.Multiset.Basic

/-!
# Objects with counted owners

Processes share objects by references that are counted.  The last reference to go frees the
object.  Where every step copies and drops only references that it has, the counts are the numbers
of references, nothing is used after it was freed, and nothing is freed twice or left over.
-/

namespace SharedOwners

open Interleaving

variable {ι κ : Type*}

/-- An operation on references. -/
inductive Op (κ : Type*)
  /-- The first reference to a new object. -/
  | make (object : κ)
  | copy (object : κ)
  | drop (object : κ)
  deriving DecidableEq, Repr

/-- What happens to objects. -/
inductive Event (κ : Type*)
  | used (object : κ)
  | freed (object : κ)
  deriving DecidableEq, Repr

namespace Op

variable [DecidableEq κ]

/-- The counts after an operation, and what it frees. -/
def perform (counts : κ → Nat) : Op κ → (κ → Nat) × List κ
  | .make object => (Function.update counts object 1, [])
  | .copy object => (Function.update counts object (counts object + 1), [])
  | .drop object =>
      (Function.update counts object (counts object - 1),
        if counts object ≤ 1 then [object] else [])

/-- The counts after several operations, and what they free. -/
def performAll (counts : κ → Nat) : List (Op κ) → (κ → Nat) × List κ
  | [] => (counts, [])
  | op :: ops =>
      let (counts, freed) := op.perform counts
      let (counts, later) := performAll counts ops
      (counts, freed ++ later)

end Op

/-- What an operation does to the objects made and the references held. -/
inductive Takes : Set κ × Multiset κ → Op κ → Set κ × Multiset κ → Prop
  | make {made : Set κ} {held : Multiset κ} {object : κ} (new : object ∉ made) :
      Takes (made, held) (.make object) (insert object made, object ::ₘ held)
  | copy {made : Set κ} {held : Multiset κ} {object : κ} (mem : object ∈ held) :
      Takes (made, held) (.copy object) (made, object ::ₘ held)
  | drop {made : Set κ} {held : Multiset κ} {object : κ} :
      Takes (made, object ::ₘ held) (.drop object) (made, held)

/-- What several operations do. -/
inductive TakesAll : Set κ × Multiset κ → List (Op κ) → Set κ × Multiset κ → Prop
  | nil {owned : Set κ × Multiset κ} : TakesAll owned [] owned
  | cons {owned between owned' : Set κ × Multiset κ} {op : Op κ} {ops : List (Op κ)}
      (first : Takes owned op between) (rest : TakesAll between ops owned') :
      TakesAll owned (op :: ops) owned'

theorem Takes.frame {made made' : Set κ} {held held' : Multiset κ} {op : Op κ}
    (takes : Takes (made, held) op (made', held')) (rest : Multiset κ) :
    Takes (made, held + rest) op (made', held' + rest) := by
  cases takes with
  | make new =>
      rw [Multiset.cons_add]
      exact .make new
  | copy mem =>
      rw [Multiset.cons_add]
      exact .copy (Multiset.mem_add.mpr (.inl mem))
  | drop =>
      rw [Multiset.cons_add]
      exact .drop

theorem TakesAll.frame {made made' : Set κ} {held held' : Multiset κ} {ops : List (Op κ)}
    (takes : TakesAll (made, held) ops (made', held')) (rest : Multiset κ) :
    TakesAll (made, held + rest) ops (made', held' + rest) := by
  generalize before_eq : (made, held) = before at takes
  generalize after_eq : (made', held') = after at takes
  induction takes generalizing made held with
  | nil =>
      rw [← before_eq, Prod.mk.injEq] at after_eq
      rw [after_eq.1, after_eq.2]
      exact .nil
  | @cons owned between owned' op ops first rest' ih =>
      subst before_eq
      obtain ⟨made_between, held_between⟩ := between
      exact .cons (first.frame rest) (ih rfl after_eq)

theorem TakesAll.frame_left {made made' : Set κ} {held held' : Multiset κ} {ops : List (Op κ)}
    (takes : TakesAll (made, held) ops (made', held')) (rest : Multiset κ) :
    TakesAll (made, rest + held) ops (made', rest + held') := by
  rw [add_comm rest, add_comm rest]
  exact takes.frame rest

theorem TakesAll.drop_all {made : Set κ} (objects : List κ) (held : Multiset κ) :
    TakesAll (made, objects + held) (objects.map .drop) (made, held) := by
  induction objects with
  | nil =>
      rw [Multiset.coe_nil, zero_add]
      exact .nil
  | cons object objects ih =>
      rw [← Multiset.cons_coe, Multiset.cons_add]
      exact .cons .drop ih

theorem TakesAll.append {owned between owned' : Set κ × Multiset κ} {ops later : List (Op κ)}
    (front : TakesAll owned ops between) (back : TakesAll between later owned') :
    TakesAll owned (ops ++ later) owned' := by
  induction front with
  | nil => exact back
  | cons first _ ih => exact .cons first (ih back)

section Counts

variable [DecidableEq κ] {made made' : Set κ} {held held' : Multiset κ} {counts : κ → Nat}
  {freed : List κ}

/-- The counts are the numbers of references, and freed are the objects without any. -/
structure Balanced (made : Set κ) (held : Multiset κ) (counts : κ → Nat) (freed : List κ) :
    Prop where
  counts_eq : ∀ object, counts object = held.count object
  made_of_held : ∀ object ∈ held, object ∈ made
  mem_freed : ∀ object, object ∈ freed ↔ object ∈ made ∧ object ∉ held
  freed_nodup : freed.Nodup

theorem Balanced.perform (balanced : Balanced made held counts freed) {op : Op κ}
    (takes : Takes (made, held) op (made', held')) :
    Balanced made' held' (op.perform counts).1 (freed ++ (op.perform counts).2) := by
  cases takes with
  | @make _ _ object new =>
      have not_held : object ∉ held := fun mem => new (balanced.made_of_held object mem)
      have not_freed : object ∉ freed := fun mem => new ((balanced.mem_freed object).mp mem).1
      refine ⟨fun other => ?_, fun other mem => ?_, fun other => ?_, ?_⟩
      · by_cases same : other = object
        · rw [same]
          simp [Op.perform, Multiset.count_eq_zero_of_notMem not_held]
        · simp [Op.perform, same, balanced.counts_eq]
      · rcases Multiset.mem_cons.mp mem with rfl | mem
        · exact Set.mem_insert _ _
        · exact Set.mem_insert_of_mem _ (balanced.made_of_held other mem)
      · by_cases same : other = object
        · rw [same]
          simp [Op.perform, not_freed]
        · simp [Op.perform, same, balanced.mem_freed]
      · simpa [Op.perform] using balanced.freed_nodup
  | @copy _ _ object mem =>
      refine ⟨fun other => ?_, fun other mem' => ?_, fun other => ?_, ?_⟩
      · by_cases same : other = object
        · rw [same]
          simp [Op.perform, balanced.counts_eq]
        · simp [Op.perform, same, balanced.counts_eq]
      · rcases Multiset.mem_cons.mp mem' with rfl | mem'
        · exact balanced.made_of_held other mem
        · exact balanced.made_of_held other mem'
      · by_cases same : other = object
        · rw [same]
          simp [Op.perform, balanced.mem_freed, mem]
        · simp [Op.perform, same, balanced.mem_freed]
      · simpa [Op.perform] using balanced.freed_nodup
  | @drop _ _ object =>
      have object_made := balanced.made_of_held object (Multiset.mem_cons_self object held')
      have not_freed : object ∉ freed := fun mem =>
        ((balanced.mem_freed object).mp mem).2 (Multiset.mem_cons_self object held')
      have count_eq : counts object = held'.count object + 1 := by
        rw [balanced.counts_eq, Multiset.count_cons_self]
      have last_iff : counts object ≤ 1 ↔ object ∉ held' := by
        rw [count_eq, ← Multiset.count_eq_zero]
        omega
      refine ⟨fun other => ?_, fun other mem => ?_, fun other => ?_, ?_⟩
      · by_cases same : other = object
        · rw [same]
          simp [Op.perform, count_eq]
        · simp [Op.perform, same, balanced.counts_eq]
      · exact balanced.made_of_held other (Multiset.mem_cons_of_mem mem)
      · simp only [Op.perform, last_iff, List.mem_append, balanced.mem_freed, Multiset.mem_cons]
        by_cases same : other = object
        · subst same
          by_cases last : other ∈ held' <;> simp [last, object_made]
        · split <;> simp [same]
      · simp only [Op.perform]
        split
        · rw [← List.concat_eq_append]
          exact balanced.freed_nodup.concat not_freed
        · rw [List.append_nil]
          exact balanced.freed_nodup

theorem Balanced.performAll (balanced : Balanced made held counts freed) {ops : List (Op κ)}
    (takes : TakesAll (made, held) ops (made', held')) :
    Balanced made' held' (Op.performAll counts ops).1
      (freed ++ (Op.performAll counts ops).2) := by
  induction ops generalizing made held counts freed with
  | nil =>
      cases takes
      simpa [Op.performAll] using balanced
  | cons op ops ih =>
      cases takes with
      | @cons _ between _ _ _ first rest =>
          obtain ⟨made_between, held_between⟩ := between
          have last := ih (balanced.perform first) rest
          rw [List.append_assoc] at last
          exact last

end Counts

section Owners

/-- The processes hold these references together; all but finitely many hold none. -/
def Adds (held : ι → Multiset κ) (total : Multiset κ) : Prop :=
  ∃ holders : Finset ι, (∀ i ∉ holders, held i = 0) ∧ ∑ i ∈ holders, held i = total

variable {held : ι → Multiset κ} {total : Multiset κ}

theorem Adds.zero (nothing : ∀ i, held i = 0) : Adds held 0 :=
  ⟨∅, fun i _ => nothing i, Finset.sum_empty⟩

theorem Adds.mem_iff (adds : Adds held total) {object : κ} :
    object ∈ total ↔ ∃ i, object ∈ held i := by
  obtain ⟨holders, others, rfl⟩ := adds
  rw [Multiset.mem_sum]
  constructor
  · rintro ⟨i, -, mem⟩
    exact ⟨i, mem⟩
  · rintro ⟨i, mem⟩
    refine ⟨i, ?_, mem⟩
    by_contra outside
    rw [others i outside] at mem
    exact Multiset.notMem_zero object mem

/-- One process apart: whatever it holds next, the others hold the rest. -/
theorem Adds.split [DecidableEq ι] (adds : Adds held total) (i : ι) :
    ∃ rest, total = held i + rest ∧ ∀ new, Adds (Function.update held i new) (new + rest) := by
  obtain ⟨holders, others, rfl⟩ := adds
  refine ⟨∑ j ∈ holders.erase i, held j, ?_, fun new => ⟨insert i holders, ?_, ?_⟩⟩
  · by_cases mem : i ∈ holders
    · exact (Finset.add_sum_erase holders held mem).symm
    · rw [others i mem, zero_add, Finset.erase_eq_of_notMem mem]
  · intro j outside
    rw [Finset.mem_insert, not_or] at outside
    rw [Function.update_of_ne outside.1, others j outside.2]
  · rw [← Finset.add_sum_erase _ _ (Finset.mem_insert_self i holders), Function.update_self,
      Finset.erase_insert_eq_erase]
    congr 1
    refine Finset.sum_congr rfl fun j mem => ?_
    rw [Function.update_of_ne (Finset.ne_of_mem_erase mem)]

end Owners

/-- The objects that are freed. -/
def freedOf (events : List (Event κ)) : List κ :=
  events.filterMap fun
    | .used _ => none
    | .freed object => some object

@[simp]
theorem freedOf_append (front back : List (Event κ)) :
    freedOf (front ++ back) = freedOf front ++ freedOf back :=
  List.filterMap_append

@[simp]
theorem freedOf_used (objects : List κ) : freedOf (objects.map .used) = [] := by
  simp [freedOf]

@[simp]
theorem freedOf_freed (objects : List κ) : freedOf (objects.map .freed) = objects := by
  simp [freedOf, List.filterMap_map]

theorem mem_freedOf {events : List (Event κ)} {object : κ} :
    object ∈ freedOf events ↔ .freed object ∈ events := by
  simp only [freedOf, List.mem_filterMap]
  constructor
  · rintro ⟨event, mem, shown⟩
    cases event with
    | used _ => cases shown
    | freed _ =>
        cases shown
        exact mem
  · exact fun mem => ⟨_, mem, rfl⟩

theorem count_freedOf [DecidableEq κ] (events : List (Event κ)) (object : κ) :
    (freedOf events).count object = events.count (.freed object) := by
  induction events with
  | nil => rfl
  | cons event events ih =>
      cases event with
      | used other => simpa [freedOf] using ih
      | freed other =>
          by_cases same : other = object
          · simpa [freedOf, same] using ih
          · simpa [freedOf, same] using ih

/-- Nothing is used after it was freed. -/
def UsedAlive (events : List (Event κ)) : Prop :=
  events.Pairwise fun earlier later => ∀ object, earlier = .freed object → later ≠ .used object

/-- Objects that have not been freed may be used before others are freed. -/
theorem UsedAlive.append {events : List (Event κ)} (alive : UsedAlive events) {uses freed : List κ}
    (not_freed : ∀ object ∈ uses, .freed object ∉ events) :
    UsedAlive (events ++ (uses.map .used ++ freed.map .freed)) := by
  rw [UsedAlive, List.pairwise_append]
  refine ⟨alive, ?_, ?_⟩
  · rw [List.pairwise_append]
    refine ⟨?_, ?_, ?_⟩
    · rw [List.pairwise_map]
      exact List.pairwise_of_forall fun _ _ _ => nofun
    · rw [List.pairwise_map]
      exact List.pairwise_of_forall fun _ _ _ _ => nofun
    · rintro earlier mem later - object rfl
      simp at mem
  · rintro earlier mem later later_mem object rfl rfl
    simp only [List.mem_append, List.mem_map, Event.used.injEq, exists_eq_right, reduceCtorEq,
      and_false, exists_false, or_false] at later_mem
    exact not_freed object later_mem mem

section Runs

variable {σ π α : Type*}

/-- What the shared state and the processes show of the objects. -/
structure Sharing (σ π κ : Type*) where
  made : σ → Set κ
  kept : σ → Multiset κ
  counts : σ → κ → Nat
  held : π → Multiset κ

variable [DecidableEq κ] (sharing : Sharing σ π κ)

/-- A step uses objects that its process holds, then operates on references that it has. -/
def Sharing.Stepped (shared : σ) (process process' : π) (shared' : σ)
    (logged : List (Event κ)) : Prop :=
  ∃ (uses : List κ) (ops : List (Op κ)), (∀ object ∈ uses, object ∈ sharing.held process) ∧
    TakesAll (sharing.made shared, sharing.kept shared + sharing.held process) ops
      (sharing.made shared', sharing.kept shared' + sharing.held process') ∧
    sharing.counts shared' = (Op.performAll (sharing.counts shared) ops).1 ∧
    logged = uses.map .used ++ (Op.performAll (sharing.counts shared) ops).2.map .freed

/-- Nothing is used after it was freed, nothing is freed twice, and freed are exactly the objects
that nobody refers to any more. -/
structure Sharing.Safe (system : System ι σ π (Event κ)) : Prop where
  used_alive : UsedAlive system.events
  freed_once : ∀ object, system.events.count (.freed object) ≤ 1
  freed_iff : ∀ object, .freed object ∈ system.events ↔
    object ∈ sharing.made system.shared ∧ object ∉ sharing.kept system.shared ∧
      ∀ i, object ∉ sharing.held (system.processes i)

/-- The counts are right in a system. -/
structure Sharing.Settled (system : System ι σ π (Event κ)) : Prop where
  balanced : ∃ total, Adds (fun i => sharing.held (system.processes i)) total ∧
    Balanced (sharing.made system.shared) (sharing.kept system.shared + total)
      (sharing.counts system.shared) (freedOf system.events)
  used_alive : UsedAlive system.events

variable {sharing} {step : Local σ π α (Event κ)} {system : System ι σ π (Event κ)}

theorem Sharing.Settled.safe (settled : sharing.Settled system) : sharing.Safe system := by
  obtain ⟨total, adds, balanced⟩ := settled.balanced
  refine ⟨settled.used_alive, fun object => ?_, fun object => ?_⟩
  · rw [← count_freedOf]
    exact List.nodup_iff_count_le_one.mp balanced.freed_nodup object
  · rw [← mem_freedOf, balanced.mem_freed, Multiset.mem_add, adds.mem_iff, not_or, not_exists]

variable [DecidableEq ι]

theorem Sharing.Settled.advance (settled : sharing.Settled system) {i : ι} {process : π}
    {shared : σ} {logged : List (Event κ)}
    (stepped : sharing.Stepped system.shared (system.processes i) process shared logged) :
    sharing.Settled (system.advance i process shared logged) := by
  obtain ⟨total, adds, balanced⟩ := settled.balanced
  obtain ⟨uses, ops, held_uses, takes, counts_eq, rfl⟩ := stepped
  obtain ⟨rest, rfl, after⟩ := adds.split i
  constructor
  · refine ⟨sharing.held process + rest, ?_, ?_⟩
    · have held_eq : (fun j => sharing.held (Function.update system.processes i process j)) =
          Function.update (fun j => sharing.held (system.processes j)) i
            (sharing.held process) := by
        funext j
        by_cases own : j = i
        · rw [own, Function.update_self, Function.update_self]
        · rw [Function.update_of_ne own, Function.update_of_ne own]
      simp only [System.advance]
      rw [held_eq]
      exact after _
    · rw [← add_assoc] at balanced
      rw [System.events_advance, freedOf_append, freedOf_append, freedOf_used, freedOf_freed,
        List.nil_append, ← add_assoc]
      simp only [System.advance]
      rw [counts_eq]
      exact balanced.performAll (takes.frame rest)
  · rw [System.events_advance]
    refine settled.used_alive.append fun object mem freed => ?_
    have gone := (balanced.mem_freed object).mp (mem_freedOf.mpr freed)
    exact gone.2 (Multiset.mem_add.mpr (.inr (Multiset.mem_add.mpr (.inl (held_uses object mem)))))

/-- The rule: where every process keeps an invariant and steps on what it has, the counts are right
in every run. -/
theorem Sharing.settled_of_reach {invariant : π → Prop} {shared : σ} {processes : ι → π}
    (reach : Relation.ReflTransGen (System.Step step) (System.start shared processes) system)
    (disciplined : ∀ {shared process action process' shared' logged}, invariant process →
      step shared process action = some (process', shared', logged) →
        invariant process' ∧ sharing.Stepped shared process process' shared' logged)
    (unshared : sharing.made shared = ∅ ∧ sharing.kept shared = 0 ∧
      ∀ object, sharing.counts shared object = 0)
    (initially : ∀ i, invariant (processes i) ∧ sharing.held (processes i) = 0) :
    (∀ i, invariant (system.processes i)) ∧ sharing.Settled system := by
  have kept : ∀ {before after : System ι σ π (Event κ)},
      ((∀ i, invariant (before.processes i)) ∧ sharing.Settled before) →
        System.Step step before after →
          (∀ i, invariant (after.processes i)) ∧ sharing.Settled after := by
    rintro before after ⟨invariants, settled⟩ stepped
    obtain ⟨i, action, process, shared', logged, taken, rfl⟩ := System.step_cases stepped
    obtain ⟨still, moved⟩ := disciplined (invariants i) taken
    refine ⟨fun j => ?_, settled.advance moved⟩
    by_cases own : j = i
    · rw [own, System.advance_processes_self]
      exact still
    · rw [System.advance_processes_other _ _ _ _ _ own]
      exact invariants j
  have settled_start : sharing.Settled (System.start shared processes) := by
    obtain ⟨made_eq, kept_eq, counts_eq⟩ := unshared
    refine ⟨⟨0, .zero fun i => (initially i).2, ?_⟩, List.Pairwise.nil⟩
    simp only [System.start]
    rw [made_eq, kept_eq]
    exact
      { counts_eq := counts_eq
        made_of_held := fun object mem => absurd mem (Multiset.notMem_zero object)
        mem_freed := fun object =>
          ⟨fun mem => absurd mem List.not_mem_nil, fun gone => absurd gone.1 (Set.notMem_empty _)⟩
        freed_nodup := List.nodup_nil }
  exact @Relation.invariant_of_step _ _
    (fun system : System ι σ π (Event κ) =>
      (∀ i, invariant (system.processes i)) ∧ sharing.Settled system) _ _
    kept reach ⟨fun i => (initially i).1, settled_start⟩

end Runs

end SharedOwners
