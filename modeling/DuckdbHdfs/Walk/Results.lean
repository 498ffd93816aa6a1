import DuckdbHdfs.Walk.Walkers

/-!
# What a walk sends

A walk is `Exact` for the entries due and the errors that are fatal when it sends every due entry
once and ends cleanly, unless some error is fatal: then it sends one such error as its last
message and has sent due entries before, each once.
-/

namespace DuckdbHdfs

open WorkStack

/-- Errors of a directory below the root that only prune it. -/
def Prunable (options : WalkOptions) (e : HdfsError) : Prop :=
  (∃ path, e = .fileNotFound path) ∨
    (options.skipPermissionErrors = true ∧ classify e = .permission)

theorem isFileNotFound_iff {e : HdfsError} :
    e.isFileNotFound = true ↔ ∃ path, e = .fileNotFound path := by
  cases e <;> simp [HdfsError.isFileNotFound]

/-- Every due entry is sent once, or some fatal error ends the walk. -/
structure Exact {ι : Type*} (due : FileStatus → Prop) (fatal : HdfsError → Prop)
    (final : State ι FileStatus HdfsError) : Prop where
  complete : (∀ e, ¬fatal e) →
    final.exit = some .returned ∧ ∃ entries : List FileStatus, final.sent = entries.map .ok ∧
      (entries.map FileStatus.path).Nodup ∧ ∀ entry, entry ∈ entries ↔ due entry
  failed : (∃ e, fatal e) →
    ∃ (e : HdfsError) (entries : List FileStatus), fatal e ∧ final.exit = some (.failed e) ∧
      final.sent = entries.map .ok ++ [.error e] ∧
      (entries.map FileStatus.path).Nodup ∧ ∀ entry ∈ entries, due entry

theorem path_nodup {entries : List FileStatus} (nodup : (entries.map FileStatus.names).Nodup) :
    (entries.map FileStatus.path).Nodup := by
  have names_eq : entries.map FileStatus.names = (entries.map FileStatus.path).map splitPath := by
    simp [FileStatus.names]
  rw [names_eq] at nodup
  exact nodup.of_map

section Delivered

variable {ι : Type*} {visit : ι → Outcome ι FileStatus HdfsError} {initial : List ι}
  {before : List FileStatus} {state : State ι FileStatus HdfsError} {due : FileStatus → Prop}
  {fatal : HdfsError → Prop}

theorem Exact.of_delivered (delivered : Delivered visit initial before FileStatus.names state)
    (due_iff : ∀ entry, Due visit initial before entry ↔ due entry)
    (exit_iff : ∀ exit, (∃ item, Reached visit initial item ∧ (visit item).exit = some exit) ↔
      ∃ e, fatal e ∧ exit = .failed e) : Exact due fatal state := by
  cases delivered with
  | @all sent continued exit_eq sent_eq nodup mem_iff =>
      constructor
      · intro _
        exact ⟨exit_eq, sent, sent_eq, path_nodup nodup, fun entry => by rw [mem_iff, due_iff]⟩
      · intro some_fatal
        obtain ⟨e, fatal⟩ := some_fatal
        obtain ⟨item, reached, item_exit⟩ := (exit_iff (.failed e)).mpr ⟨e, fatal, rfl⟩
        simp [continued item reached] at item_exit
  | @part sent item exit reached item_exit exit_eq sent_eq nodup sent_due =>
      obtain ⟨e, fatal, rfl⟩ := (exit_iff exit).mp ⟨item, reached, item_exit⟩
      constructor
      · intro none_fatal
        exact absurd fatal (none_fatal e)
      · intro _
        exact ⟨e, sent, fatal, exit_eq, sent_eq, path_nodup nodup,
          fun entry mem => (due_iff entry).mp (sent_due entry mem)⟩

end Delivered

/-- A walk that ends reports an error exactly if some error is fatal. -/
theorem Exact.error_iff {ι : Type*} {due : FileStatus → Prop} {fatal : HdfsError → Prop}
    {final : State ι FileStatus HdfsError} (exact_ : Exact due fatal final) :
    (∃ e, .error e ∈ final.sent) ↔ ∃ e, fatal e := by
  constructor
  · intro reported
    by_contra none_fatal
    obtain ⟨-, entries, sent_eq, -⟩ := exact_.complete (not_exists.mp none_fatal)
    obtain ⟨e, mem⟩ := reported
    simp [sent_eq] at mem
  · intro some_fatal
    obtain ⟨e, entries, -, -, sent_eq, -⟩ := exact_.failed some_fatal
    exact ⟨e, by simp [sent_eq]⟩

end DuckdbHdfs
