import DuckdbHdfs.Library.StackRequests
import DuckdbHdfs.MetaFunctions

/-!
# Listings in flight

`hdfs_list_parallelism` bounds the listings that a walk awaits at a time.  Whatever its value, a
walk makes progress, it leaves no slot free while a directory waits for one, and it never asks the
NameNode for one directory twice.
-/

namespace DuckdbHdfs

open Glob WorkStack

/-- In some state in which the walk of a request runs, these paths are awaited and wait. -/
inductive ListRequest.Runs (request : ListRequest) (server : NameNode) :
    (awaited waiting : List Text) → Prop
  | glob {plan : GlobPlan} {walk : GlobWalk} (glob_eq : request.glob = true)
      (parsed : GlobPlan.parse request.hdfsPath request.options.includeHidden = .ok plan)
      (reach : Relation.ReflTransGen
        (globWalkTurn server plan request.parallelism request.options)
        (globWalkStart server plan) walk)
      (running : walk.exit = none) :
      Runs request server ((walk.awaited request.parallelism).map GlobItem.path)
        ((walk.waiting request.parallelism).map GlobItem.path)
  | list {walk : StreamWalk} (glob_eq : request.glob = false)
      (reach : Relation.ReflTransGen
        (streamWalkTurn server request.recursive request.parallelism request.options)
        (streamWalkStart request.hdfsPath) walk)
      (running : walk.exit = none) :
      Runs request server ((walk.awaited request.parallelism).map StreamItem.path)
        ((walk.waiting request.parallelism).map StreamItem.path)

/-- In such a state, reached by a run that is logged, these paths have been listed, too. -/
inductive ListRequest.Lists (request : ListRequest) (server : NameNode) :
    (listed awaited waiting : List Text) → Prop
  | glob {plan : GlobPlan} {items : List GlobItem} {walk : GlobWalk} (glob_eq : request.glob = true)
      (parsed : GlobPlan.parse request.hdfsPath request.options.includeHidden = .ok plan)
      (reach : Relation.ReflTransGen
        (Logs request.parallelism (globVisit server plan request.options))
        ([], globWalkStart server plan) (items, walk))
      (running : walk.exit = none) :
      Lists request server (items.map GlobItem.path)
        ((walk.awaited request.parallelism).map GlobItem.path)
        ((walk.waiting request.parallelism).map GlobItem.path)
  | list {items : List StreamItem} {walk : StreamWalk} (glob_eq : request.glob = false)
      (reach : Relation.ReflTransGen
        (Logs request.parallelism (streamVisit server request.recursive request.options))
        ([], streamWalkStart request.hdfsPath) (items, walk))
      (running : walk.exit = none) :
      Lists request server (items.map StreamItem.path)
        ((walk.awaited request.parallelism).map StreamItem.path)
        ((walk.waiting request.parallelism).map StreamItem.path)

section Lists

variable {request : ListRequest} {server : NameNode}

theorem exists_start_of_running {plan : GlobPlan} {limit : Nat} {options : WalkOptions}
    {items : List GlobItem} {walk : GlobWalk}
    (reach : Relation.ReflTransGen (Logs limit (globVisit server plan options))
      ([], globWalkStart server plan) (items, walk)) (running : walk.exit = none) :
    globWalkStart server plan = .start (globInitial plan) (globBefore server plan) := by
  rcases globWalkStart_cases server plan with ⟨e, -, start_eq⟩ | ⟨-, start_eq⟩
  · have halted : ∀ next, ¬Logs limit (globVisit server plan options)
        ([], globWalkStart server plan) next := by
      rintro next logs
      obtain ⟨choice, taken⟩ := logs.turn
      rw [start_eq] at taken
      simp [State.turn] at taken
    rcases Relation.ReflTransGen.cases_head reach with same | ⟨next, first, -⟩
    · cases same
      rw [start_eq] at running
      cases running
    · exact absurd first (halted next)
  · exact start_eq

/-- What a running loop asks for, by addresses. -/
theorem lists_of_requested {ι α ε : Type*} {limit : Nat} {visit : ι → Outcome ι α ε}
    {initial items : List ι} {path : ι → Text} {state : State ι α ε}
    (requested : Requested limit visit initial (fun item => splitPath (path item)) (items, state))
    (running : state.exit = none) :
    ((state.awaited limit).map path).length ≤ limit ∧
      (((state.awaited limit).map path).length < limit → (state.waiting limit).map path = []) ∧
      ((items.map path ++ (state.awaited limit).map path ++
        (state.waiting limit).map path).map splitPath).Nodup := by
  rw [List.length_map]
  refine ⟨State.awaited_length_le requested.few, fun free => ?_, ?_⟩
  · rw [State.waiting_eq_nil running free, List.map_nil]
  · have history := (requested.history running).perm (state.awaited_append_waiting limit).symm
    rw [← List.map_append, ← List.map_append, List.map_map, List.append_assoc]
    exact history.distinct

/-- Within the bound, no slot is left free in vain, and no directory comes up twice. -/
theorem ListRequest.Lists.within {listed awaited waiting : List Text}
    (lists : request.Lists server listed awaited waiting) :
    awaited.length ≤ request.parallelism ∧
      (awaited.length < request.parallelism → waiting = []) ∧
      ((listed ++ awaited ++ waiting).map splitPath).Nodup := by
  cases lists with
  | glob glob_eq parsed reach running =>
      rw [exists_start_of_running reach running] at reach
      have forest := globForest (GlobPlan.parse_sound parsed) server request.options
      exact lists_of_requested (forest.requested reach) running
  | list glob_eq reach running =>
      have forest := streamForest server request.recursive request.options request.hdfsPath
      exact lists_of_requested (forest.requested reach) running

end Lists

end DuckdbHdfs
