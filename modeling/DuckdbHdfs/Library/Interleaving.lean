import DuckdbHdfs.Library.Runs
import Mathlib.Data.List.Basic
import Mathlib.Logic.Function.Basic

/-!
# Interleaved processes

Any number of processes take turns on a shared state.  A step of one process changes that process
and the shared state and logs events.  What a process knows about the shared state and about its
own events is established by rely-guarantee reasoning: every step keeps to `rely`, and `rely`
keeps what the others know.
-/

namespace Interleaving

/-- A step of one process: the process, the shared state and the events it logs. -/
abbrev Local (σ π α ε : Type*) := σ → π → α → Option (π × σ × List ε)

/-- Processes, what they share, and the events so far with the process of each. -/
structure System (ι σ π ε : Type*) where
  shared : σ
  processes : ι → π
  log : List (ι × ε)

namespace System

variable {ι σ π α ε : Type*}

/-- Nothing has happened yet. -/
def start (shared : σ) (processes : ι → π) : System ι σ π ε where
  shared := shared
  processes := processes
  log := []

/-- All events, whoever logged them. -/
def events (system : System ι σ π ε) : List ε :=
  system.log.map Prod.snd

variable [DecidableEq ι]

/-- The events of one process. -/
def eventsOf (system : System ι σ π ε) (i : ι) : List ε :=
  system.log.filterMap fun event => if event.1 = i then some event.2 else none

/-- The system after a step of process `i`. -/
def advance (system : System ι σ π ε) (i : ι) (process : π) (shared : σ) (logged : List ε) :
    System ι σ π ε where
  shared := shared
  processes := Function.update system.processes i process
  log := system.log ++ logged.map (i, ·)

/-- Process `turn.1` takes a step, if it can. -/
def perform (step : Local σ π α ε) (system : System ι σ π ε) (turn : ι × α) :
    Option (System ι σ π ε) :=
  (step system.shared (system.processes turn.1) turn.2).map fun (process, shared, logged) =>
    system.advance turn.1 process shared logged

/-- Some process takes a step. -/
def Step (step : Local σ π α ε) (system system' : System ι σ π ε) : Prop :=
  ∃ turn, system.perform step turn = some system'

section Advance

variable (system : System ι σ π ε) (i : ι) (process : π) (shared : σ) (logged : List ε)

@[simp]
theorem advance_processes_self :
    (system.advance i process shared logged).processes i = process := by
  simp [advance]

theorem advance_processes_other {j : ι} (differs : j ≠ i) :
    (system.advance i process shared logged).processes j = system.processes j := by
  simp [advance, differs]

@[simp]
theorem events_advance :
    (system.advance i process shared logged).events = system.events ++ logged := by
  simp [advance, events, Function.comp_def]

@[simp]
theorem eventsOf_advance_self :
    (system.advance i process shared logged).eventsOf i = system.eventsOf i ++ logged := by
  simp [advance, eventsOf, List.filterMap_map]

theorem eventsOf_advance_other {j : ι} (differs : j ≠ i) :
    (system.advance i process shared logged).eventsOf j = system.eventsOf j := by
  simp [advance, eventsOf, List.filterMap_map, differs.symm]

end Advance

variable {step : Local σ π α ε} {system system' : System ι σ π ε}

omit [DecidableEq ι] in
theorem mem_events {event : ε} : event ∈ system.events ↔ ∃ i, (i, event) ∈ system.log := by
  simp [events]

theorem mem_eventsOf {i : ι} {event : ε} : event ∈ system.eventsOf i ↔ (i, event) ∈ system.log := by
  simp only [eventsOf, List.mem_filterMap]
  constructor
  · rintro ⟨⟨j, event'⟩, mem, shown⟩
    split at shown
    · rename_i own
      cases own
      cases shown
      exact mem
    · cases shown
  · exact fun mem => ⟨_, mem, by simp⟩

theorem step_cases (stepped : Step step system system') :
    ∃ i action process shared logged,
      step system.shared (system.processes i) action = some (process, shared, logged) ∧
      system' = system.advance i process shared logged := by
  obtain ⟨⟨i, action⟩, performed⟩ := stepped
  obtain ⟨⟨process, shared, logged⟩, taken, rfl⟩ := Option.map_eq_some_iff.mp performed
  exact ⟨i, action, process, shared, logged, taken, rfl⟩

theorem shared_invariant {invariant : σ → List ε → Prop} {shared : σ} {processes : ι → π}
    (reach : Relation.ReflTransGen (Step step) (start shared processes) system)
    (preserved : ∀ {shared events process action process' shared' logged},
      invariant shared events → step shared process action = some (process', shared', logged) →
        invariant shared' (events ++ logged))
    (initially : invariant shared []) :
    invariant system.shared system.events := by
  have kept : ∀ {before after : System ι σ π ε}, invariant before.shared before.events →
      Step step before after → invariant after.shared after.events := by
    intro before after holds stepped
    obtain ⟨i, action, process, shared', logged, taken, rfl⟩ := step_cases stepped
    rw [events_advance]
    exact preserved holds taken
  exact @Relation.invariant_of_step _ _ (fun system => invariant system.shared system.events) _ _
    kept reach initially

/-- The rely-guarantee rule: a process's own steps keep its invariant, the steps of the others
keep to `rely`, and `rely` keeps every invariant. -/
theorem local_invariant {rely : σ → σ → Prop} {invariant : σ → π → List ε → Prop} {shared : σ}
    {processes : ι → π}
    (reach : Relation.ReflTransGen (Step step) (start shared processes) system)
    (guarantee : ∀ {shared process action process' shared' logged},
      step shared process action = some (process', shared', logged) → rely shared shared')
    (stable : ∀ {shared shared' process events}, rely shared shared' →
      invariant shared process events → invariant shared' process events)
    (preserved : ∀ {shared process events action process' shared' logged},
      invariant shared process events →
        step shared process action = some (process', shared', logged) →
          invariant shared' process' (events ++ logged))
    (initially : ∀ i, invariant shared (processes i) []) (i : ι) :
    invariant system.shared (system.processes i) (system.eventsOf i) := by
  have kept : ∀ {before after : System ι σ π ε},
      (∀ i, invariant before.shared (before.processes i) (before.eventsOf i)) →
        Step step before after →
          ∀ i, invariant after.shared (after.processes i) (after.eventsOf i) := by
    intro before after holds stepped j
    obtain ⟨i, action, process, shared', logged, taken, rfl⟩ := step_cases stepped
    by_cases own : j = i
    · subst own
      rw [eventsOf_advance_self, advance_processes_self]
      exact preserved (holds j) taken
    · rw [eventsOf_advance_other _ _ _ _ _ own, advance_processes_other _ _ _ _ _ own]
      exact stable (guarantee taken) (holds j)
  exact @Relation.invariant_of_step _ _
    (fun system => ∀ i, invariant system.shared (system.processes i) (system.eventsOf i)) _ _
    kept reach initially i

section Restriction

variable {σ' π' α' : Type*} (member : ι → Prop) [DecidablePred member] (cell : σ' → σ)
  (view : π' → π)

omit [DecidableEq ι] in
/-- What some processes show of themselves and of the shared state. -/
def restrict (system : System ι σ' π' ε) : System {i // member i} σ π ε where
  shared := cell system.shared
  processes i := view (system.processes i)
  log := system.log.filterMap fun event =>
    if inside : member event.1 then some (⟨event.1, inside⟩, event.2) else none

omit [DecidableEq ι] in
theorem mem_log_restrict {system : System ι σ' π' ε} {i : {i // member i}} {event : ε} :
    (i, event) ∈ (system.restrict member cell view).log ↔ (i.1, event) ∈ system.log := by
  simp only [restrict, List.mem_filterMap]
  constructor
  · rintro ⟨⟨j, event'⟩, mem, shown⟩
    split at shown
    · cases shown
      exact mem
    · cases shown
  · exact fun mem => ⟨_, mem, by simp [i.2]⟩

variable {member cell view}

theorem restrict_advance_inside (system : System ι σ' π' ε) {i : ι} (inside : member i)
    (process : π') (shared : σ') (logged : List ε) :
    (system.advance i process shared logged).restrict member cell view =
      (system.restrict member cell view).advance ⟨i, inside⟩ (view process) (cell shared)
        logged := by
  have processes_eq : (fun j : {j // member j} =>
      view (Function.update system.processes i process j)) =
        Function.update (fun j : {j // member j} => view (system.processes j)) ⟨i, inside⟩
          (view process) := by
    funext j
    by_cases own : j = ⟨i, inside⟩
    · simp [own]
    · have differs : j.1 ≠ i := fun same => own (Subtype.ext same)
      simp [own, differs]
  simp [restrict, advance, processes_eq, List.filterMap_append, List.filterMap_map, inside]

theorem restrict_advance_outside (system : System ι σ' π' ε) {i : ι} (outside : ¬member i)
    (process : π') {shared : σ'} (logged : List ε) (same : cell shared = cell system.shared) :
    (system.advance i process shared logged).restrict member cell view =
      system.restrict member cell view := by
  have processes_eq : (fun j : {j // member j} =>
      view (Function.update system.processes i process j)) =
        fun j : {j // member j} => view (system.processes j) := by
    funext j
    have differs : j.1 ≠ i := fun same => outside (same ▸ j.2)
    simp [differs]
  simp [restrict, advance, processes_eq, List.filterMap_append, List.filterMap_map, outside, same]

/-- The restriction rule: where the other processes leave the cell alone, and each step of a member
is a step of the smaller system or is not seen there, a run of the system shows a run of the smaller
one. -/
theorem reach_restrict {step' : Local σ' π' α' ε} {system : System ι σ' π' ε} {shared : σ'}
    {processes : ι → π'} {invariant : System ι σ' π' ε → Prop}
    (reach : Relation.ReflTransGen (Step step') (start shared processes) system)
    (initially : invariant (start shared processes))
    (preserved : ∀ {before after : System ι σ' π' ε}, invariant before →
      Step step' before after → invariant after)
    (outside : ∀ {system : System ι σ' π' ε} {i action process shared logged}, invariant system →
      ¬member i → step' system.shared (system.processes i) action = some (process, shared, logged) →
        cell shared = cell system.shared)
    (inside : ∀ {system : System ι σ' π' ε} {i action process shared logged}, invariant system →
      member i → step' system.shared (system.processes i) action = some (process, shared, logged) →
        (cell shared = cell system.shared ∧ view process = view (system.processes i) ∧
          logged = []) ∨
        ∃ action', step (cell system.shared) (view (system.processes i)) action' =
          some (view process, cell shared, logged)) :
    Relation.ReflTransGen (Step step)
      (start (cell shared) fun i : {i // member i} => view (processes i))
      (system.restrict member cell view) := by
  induction reach with
  | refl => exact .refl
  | @tail before after front stepped ih =>
      have holds : invariant before :=
        @Relation.invariant_of_step _ _ invariant _ _ preserved front initially
      obtain ⟨i, action, process, shared', logged, taken, rfl⟩ := step_cases stepped
      by_cases is_member : member i
      · rw [restrict_advance_inside before is_member]
        rcases inside holds is_member taken with ⟨cell_eq, view_eq, rfl⟩ | ⟨action', taken'⟩
        · have idle : (before.restrict member cell view).advance ⟨i, is_member⟩ (view process)
              (cell shared') [] = before.restrict member cell view := by
            simp [advance, restrict, cell_eq, view_eq]
          rw [idle]
          exact ih
        · refine ih.tail ⟨(⟨i, is_member⟩, action'), ?_⟩
          rw [perform]
          simp only [restrict] at taken' ⊢
          rw [taken']
          rfl
      · rw [restrict_advance_outside before is_member process logged
          (outside holds is_member taken)]
        exact ih

end Restriction

end System

end Interleaving
