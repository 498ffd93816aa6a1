import DuckdbHdfs.Library.StackRequests
import DuckdbHdfs.Walk.Glob
import DuckdbHdfs.Walk.Listing

/-!
# Pruning and classification

The walkers recognise a missing directory by the variant `FileNotFound`, while `classify` also
finds missing files behind server-side exceptions and I/O errors.  For every error the two agree
unless it is one of the latter.
-/

namespace DuckdbHdfs

open Glob WorkStack

/-- A missing file reported by other means than the variant `FileNotFound`: a server-side
`FileNotFoundException` that is not an access failure as well, or an I/O error of that kind. -/
def ReportsNotFound : HdfsError → Prop
  | .rpcError className _ | .fatalRpcError className _ =>
      contains className "FileNotFoundException".toList = true ∧
        contains className "AccessControlException".toList = false ∧
        contains className "SecurityException".toList = false
  | .ioError io => io.kind = .notFound
  | _ => False

/-- The failed listing of an item has no effect besides freeing its slot: nothing is sent or
pushed, and the walk goes on. -/
def Pruned {ι : Type*} (item : ι) (state next : State ι FileStatus HdfsError) : Prop :=
  next.sent = state.sent ∧ next.exit = none ∧ state.remaining.Perm (item :: next.remaining)

/-- The error is sent as the last message. -/
def Forwarded {ι : Type*} (e : HdfsError) (state next : State ι FileStatus HdfsError) : Prop :=
  next.sent = state.sent ++ [.error e] ∧ next.exit = some (.failed e)

/-- The category of the error is one that prunes a directory below the root. -/
def CategoryPrunes (options : WalkOptions) (e : HdfsError) : Prop :=
  classify e = .notFound ∨ (classify e = .permission ∧ options.skipPermissionErrors = true)

/-- Both walkers treat the error as its category says, in every turn that completes a listing
with it and in the stat of a glob's root. -/
structure WalkersAgree (e : HdfsError) : Prop where
  stream_below : ∀ (server : NameNode) (recursive : Bool) (maxParallelism : Nat)
    (options : WalkOptions) (path : Text) (state next : StreamWalk),
    server.listStatus path = .error e →
    State.Completes maxParallelism (streamVisit server recursive options) ⟨path, false⟩ state next →
    (Pruned ⟨path, false⟩ state next ↔ CategoryPrunes options e) ∧
      (¬CategoryPrunes options e → Forwarded e state next)
  stream_root : ∀ (server : NameNode) (recursive : Bool) (maxParallelism : Nat)
    (options : WalkOptions) (path : Text) (state next : StreamWalk),
    server.listStatus path = .error e →
    State.Completes maxParallelism (streamVisit server recursive options) ⟨path, true⟩ state next →
    Forwarded e state next
  glob_below : ∀ (server : NameNode) (plan : GlobPlan) (maxParallelism : Nat)
    (options : WalkOptions) (path : Text) (states : List Pos) (state next : GlobWalk),
    server.listStatus path = .error e →
    State.Completes maxParallelism (globVisit server plan options) ⟨path, states, false⟩
        state next →
    (Pruned ⟨path, states, false⟩ state next ↔ CategoryPrunes options e) ∧
      (¬CategoryPrunes options e → Forwarded e state next)
  glob_root : ∀ (server : NameNode) (plan : GlobPlan) (maxParallelism : Nat)
    (options : WalkOptions) (path : Text) (states : List Pos) (state next : GlobWalk),
    server.listStatus path = .error e →
    State.Completes maxParallelism (globVisit server plan options) ⟨path, states, true⟩ state next →
    (Pruned ⟨path, states, true⟩ state next ↔ classify e = .notFound) ∧
      (classify e ≠ .notFound → Forwarded e state next)
  glob_stat : ∀ (server : NameNode) (plan : GlobPlan), plan.emitRoot = true →
    server.getFileInfo plan.root = .error e →
    ((globWalkStart server plan).exit = none ∧ (globWalkStart server plan).sent = [] ↔
        classify e = .notFound) ∧
      (classify e ≠ .notFound → (globWalkStart server plan).sent = [.error e] ∧
        (globWalkStart server plan).exit = some (.failed e))

theorem classifyRpc_notFound_iff {className : Text} :
    classifyRpc className = .notFound ↔
      contains className "FileNotFoundException".toList = true ∧
        contains className "AccessControlException".toList = false ∧
        contains className "SecurityException".toList = false := by
  rw [classifyRpc]
  generalize contains className "FileNotFoundException".toList = missing
  generalize contains className "AccessControlException".toList = denied
  generalize contains className "SecurityException".toList = insecure
  cases denied <;> cases insecure <;> cases missing <;> split_ifs <;> simp_all

theorem classifyIo_notFound_iff {io : IoError} :
    classifyIo io = .notFound ↔ io.kind = .notFound := by
  rw [classifyIo]
  split <;> simp_all

/-- The errors of category not-found are the variant the walkers look for, and the others. -/
theorem classify_notFound_iff {e : HdfsError} :
    classify e = .notFound ↔ (∃ path, e = .fileNotFound path) ∨ ReportsNotFound e := by
  cases e with
  | rpcError className _ => simp [classify, ReportsNotFound, classifyRpc_notFound_iff]
  | fatalRpcError className _ => simp [classify, ReportsNotFound, classifyRpc_notFound_iff]
  | ioError io => simp [classify, ReportsNotFound, classifyIo_notFound_iff]
  | _ => simp [classify, ReportsNotFound]

theorem ReportsNotFound.ne_fileNotFound {e : HdfsError} (reports : ReportsNotFound e)
    (path : Text) :
    e ≠ .fileNotFound path := by
  rintro rfl
  exact reports

theorem categoryPrunes_iff {e : HdfsError} (plain : ¬ReportsNotFound e)
    (options : WalkOptions) : CategoryPrunes options e ↔ Prunable options e := by
  rw [CategoryPrunes, Prunable, classify_notFound_iff, or_iff_left plain, and_comm]

section Completes

variable {ι : Type*} {limit : Nat} {visit : ι → Outcome ι FileStatus HdfsError} {item : ι}
  {state next : State ι FileStatus HdfsError} {e : HdfsError}
  {exit : Option (Exit HdfsError)}

theorem pruned_of_completes (completes : State.Completes limit visit item state next)
    (visit_eq : visit item = { pushed := [], sent := [], exit := none }) :
    Pruned item state next := by
  obtain ⟨sent_eq, exit_eq⟩ := completes.outcome
  obtain ⟨-, taken, pending_eq⟩ := completes.remaining
  rw [visit_eq] at sent_eq exit_eq pending_eq
  refine ⟨by simpa [Exit.messages] using sent_eq, exit_eq, ?_⟩
  have left_eq : next.remaining = next.inFlight ++ state.waiting limit :=
    congrArg (next.inFlight ++ ·) pending_eq
  rw [left_eq]
  exact (state.awaited_append_waiting limit).symm.trans (taken.append_right _)

theorem forwarded_of_completes (completes : State.Completes limit visit item state next)
    (visit_eq : visit item = { pushed := [], sent := [], exit := some (.failed e) }) :
    Forwarded e state next := by
  obtain ⟨sent_eq, exit_eq⟩ := completes.outcome
  rw [visit_eq] at sent_eq exit_eq
  exact ⟨by simpa [Exit.messages] using sent_eq, exit_eq⟩

theorem Forwarded.not_pruned (forwarded : Forwarded e state next) :
    ¬Pruned item state next := by
  intro pruned
  have exit_eq := forwarded.2
  rw [pruned.2.1] at exit_eq
  simp at exit_eq

theorem agrees_of_completes {prunes prunes' : Prop}
    (completes : State.Completes limit visit item state next)
    (visit_eq : visit item = { pushed := [], sent := [], exit := exit })
    (exit_cases : exit = none ∧ prunes ∨ exit = some (.failed e) ∧ ¬prunes)
    (prunes_iff : prunes' ↔ prunes) :
    (Pruned item state next ↔ prunes') ∧ (¬prunes' → Forwarded e state next) := by
  rw [prunes_iff]
  rcases exit_cases with ⟨rfl, holds⟩ | ⟨rfl, fails⟩
  · have pruned := pruned_of_completes completes visit_eq
    exact ⟨⟨fun _ => holds, fun _ => pruned⟩, fun fails => absurd holds fails⟩
  · have forwarded := forwarded_of_completes completes visit_eq
    refine ⟨⟨fun pruned => absurd pruned forwarded.not_pruned, fun holds => absurd holds fails⟩,
      fun _ => forwarded⟩

end Completes

/-- An error that reports a missing file in another way is forwarded from below the root. -/
theorem not_walkersAgree_of_reportsNotFound {e : HdfsError} (reports : ReportsNotFound e) :
    ¬WalkersAgree e := by
  intro agree
  let options : WalkOptions := ⟨false, false⟩
  let item : StreamItem := ⟨"/d".toList, false⟩
  have failed : (NameNode.failing e).listStatus item.path = .error e := rfl
  obtain ⟨next, completes⟩ :=
    State.completes_start (streamVisit (NameNode.failing e) true options) item
  have category : CategoryPrunes options e := .inl (classify_notFound_iff.mpr (.inr reports))
  have pruned := (agree.stream_below _ _ _ _ _ _ _ failed completes).1.mpr category
  have strict : ¬Prunable options e := by
    rintro (⟨path, equality⟩ | ⟨skips, -⟩)
    · exact reports.ne_fileNotFound path equality
    · exact absurd skips (by decide)
  obtain ⟨exit, visit_eq, exit_cases⟩ := streamVisit_of_error true options item failed
  obtain ⟨rfl, -⟩ := exit_cases.resolve_left fun prune => strict prune.2.2
  exact (forwarded_of_completes completes visit_eq).not_pruned pruned

/-- A directory that a server reports as vanished, with the exception class it throws. -/
theorem not_walkersAgree_fileNotFoundException :
    ¬WalkersAgree (.rpcError "java.io.FileNotFoundException".toList
      "File /d/e does not exist.".toList) :=
  not_walkersAgree_of_reportsNotFound ⟨by decide, by decide, by decide⟩

/-- The walkers treat an error as its category says exactly if it does not report a missing file
by other means than the variant `FileNotFound`. -/
theorem walkersAgree_iff (e : HdfsError) : WalkersAgree e ↔ ¬ReportsNotFound e := by
  refine ⟨fun agree reports => not_walkersAgree_of_reportsNotFound reports agree, fun plain => ?_⟩
  have missing_iff : classify e = .notFound ↔ ∃ path, e = .fileNotFound path := by
    rw [classify_notFound_iff, or_iff_left plain]
  constructor
  · intro server recursive maxParallelism options path state next failed completes
    obtain ⟨exit, visit_eq, exit_cases⟩ :=
      streamVisit_of_error recursive options ⟨path, false⟩ failed
    refine agrees_of_completes completes visit_eq ?_ (categoryPrunes_iff plain options)
    simpa using exit_cases
  · intro server recursive maxParallelism options path state next failed completes
    obtain ⟨exit, visit_eq, exit_cases⟩ :=
      streamVisit_of_error recursive options ⟨path, true⟩ failed
    obtain ⟨rfl, -⟩ := exit_cases.resolve_left fun prune => absurd prune.2.1 (by simp)
    exact forwarded_of_completes completes visit_eq
  · intro server plan maxParallelism options path states state next failed completes
    obtain ⟨exit, visit_eq, exit_cases⟩ :=
      globVisit_of_error plan options ⟨path, states, false⟩ failed
    refine agrees_of_completes completes visit_eq ?_ (categoryPrunes_iff plain options)
    simpa [Prunable] using exit_cases
  · intro server plan maxParallelism options path states state next failed completes
    obtain ⟨exit, visit_eq, exit_cases⟩ :=
      globVisit_of_error plan options ⟨path, states, true⟩ failed
    refine agrees_of_completes completes visit_eq ?_ missing_iff
    simpa using exit_cases
  · intro server plan emits info
    rcases globWalkStart_cases server plan with ⟨e', stat, start_eq⟩ | ⟨no_stat, start_eq⟩
    · obtain rfl : e = e' := by simpa [info] using stat.2.1
      have other : classify e ≠ .notFound := by
        rw [Ne, missing_iff]
        exact not_exists.mpr stat.2.2
      simp [start_eq, other]
    · have missing : classify e = .notFound := by
        rw [missing_iff]
        by_contra present
        exact no_stat e ⟨emits, info, not_exists.mp present⟩
      simp [start_eq, missing, State.start, globBefore, emits, info, Except.toOption]

end DuckdbHdfs
