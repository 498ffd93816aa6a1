import DuckdbHdfs.Glob.Plan
import DuckdbHdfs.Library.WorkStack
import DuckdbHdfs.Namespace

/-!
# The walkers

`stream_walk` lists a path, recursively if asked to; `glob_walk` lists the directories a plan can
still match something in.  Both run as a work stack with up to `maxParallelism` listings in
flight.  The consumer keeps the channel open, so every send succeeds.
-/

namespace DuckdbHdfs

open Glob WorkStack

/-- Per-walk behavior toggles shared by listings and globs. -/
structure WalkOptions where
  /-- Prune subtrees below the root whose listing fails with a permission error. -/
  skipPermissionErrors : Bool
  /-- Return entries whose name starts with `.` or `_`. -/
  includeHidden : Bool
  deriving DecidableEq, Repr

/-- A directory queued by `stream_walk`. -/
structure StreamItem where
  path : Text
  isRoot : Bool
  deriving DecidableEq, Repr

/-- A directory queued by `glob_walk`, with the states its children are matched against. -/
structure GlobItem where
  path : Text
  states : List Pos
  isRoot : Bool
  deriving DecidableEq, Repr

/-- The state of a running `stream_walk`. -/
abbrev StreamWalk := State StreamItem FileStatus HdfsError

/-- The state of a running `glob_walk`. -/
abbrev GlobWalk := State GlobItem FileStatus HdfsError

/-- The variant both walkers match on, `HdfsError::FileNotFound(_)`. -/
def HdfsError.isFileNotFound : HdfsError → Bool
  | .fileNotFound _ => true
  | _ => false

/-- The loop of `stream_walk` over the entries of one listing. -/
def streamChildren (recursive : Bool) (options : WalkOptions) (path : Text) :
    List FileStatus → Outcome StreamItem FileStatus HdfsError
  | [] => { pushed := [], sent := [], exit := none }
  | child :: children =>
      let rest := streamChildren recursive options path children
      if !options.includeHidden && child.path ≠ path && isHidden (baseName child.path) then
        rest
      else
        { pushed := (if recursive && child.isdir then [⟨child.path, false⟩] else []) ++ rest.pushed
          sent := child :: rest.sent
          exit := rest.exit }

/-- What `stream_walk` does when a listing completes. -/
def streamVisit (server : NameNode) (recursive : Bool) (options : WalkOptions)
    (item : StreamItem) : Outcome StreamItem FileStatus HdfsError :=
  match server.listStatus item.path with
  | .ok children => streamChildren recursive options item.path children
  | .error e =>
      let prune := !item.isRoot &&
        (e.isFileNotFound || (options.skipPermissionErrors && isPermission e))
      if prune then
        { pushed := [], sent := [], exit := none }
      else
        { pushed := [], sent := [], exit := some (.failed e) }

/-- `stream_walk` before its loop. -/
def streamWalkStart (root : Text) : StreamWalk :=
  .start [⟨root, true⟩] []

/-- One turn of the loop of `stream_walk`. -/
def streamWalkTurn (server : NameNode) (recursive : Bool) (maxParallelism : Nat)
    (options : WalkOptions) : StreamWalk → StreamWalk → Prop :=
  State.Turn maxParallelism (streamVisit server recursive options)

/-- The loop of `glob_walk` over the entries of one listing.  A step that fails takes the task
down. -/
def globChildren (plan : GlobPlan) (path : Text) (states : List Pos) :
    List FileStatus → Outcome GlobItem FileStatus HdfsError
  | [] => { pushed := [], sent := [], exit := none }
  | child :: children =>
      if child.path = path then
        globChildren plan path states children
      else
        match plan.step states (baseName child.path) child.isdir with
        | none => { pushed := [], sent := [], exit := some .died }
        | some step =>
            let rest := globChildren plan path states children
            { pushed :=
                (if child.isdir && !step.next.isEmpty then
                  [⟨child.path, step.next, false⟩]
                else
                  []) ++ rest.pushed
              sent := (if step.emit then [child] else []) ++ rest.sent
              exit := rest.exit }

/-- What `glob_walk` does when a listing completes. -/
def globVisit (server : NameNode) (plan : GlobPlan) (options : WalkOptions) (item : GlobItem) :
    Outcome GlobItem FileStatus HdfsError :=
  match server.listStatus item.path with
  | .ok children => globChildren plan item.path item.states children
  | .error e =>
      if e.isFileNotFound then
        { pushed := [], sent := [], exit := none }
      else if !item.isRoot && options.skipPermissionErrors && isPermission e then
        { pushed := [], sent := [], exit := none }
      else
        { pushed := [], sent := [], exit := some (.failed e) }

/-- The queue `glob_walk` starts with. -/
def globInitial (plan : GlobPlan) : List GlobItem :=
  if plan.initial.isEmpty then [] else [⟨plan.root, plan.initial, true⟩]

/-- `glob_walk` before its loop: an all-literal pattern matches the root itself. -/
def globWalkStart (server : NameNode) (plan : GlobPlan) : GlobWalk :=
  if plan.emitRoot then
    match server.getFileInfo plan.root with
    | .ok status => .start (globInitial plan) [status]
    | .error e =>
        if e.isFileNotFound then
          .start (globInitial plan) []
        else
          { pending := [], inFlight := [], sent := [.error e], exit := some (.failed e) }
  else
    .start (globInitial plan) []

/-- One turn of the loop of `glob_walk`. -/
def globWalkTurn (server : NameNode) (plan : GlobPlan) (maxParallelism : Nat)
    (options : WalkOptions) : GlobWalk → GlobWalk → Prop :=
  State.Turn maxParallelism (globVisit server plan options)

end DuckdbHdfs
