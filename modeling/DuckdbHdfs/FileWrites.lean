import DuckdbHdfs.FileHandle
import DuckdbHdfs.Library.Runs

/-!
# Writes to a file

The bridge appends, so the bytes of a write land at the end of the file, wherever the cursor has
been moved to.  Sequential writes land at the cursor exactly as long as no accepted write is made
with the cursor elsewhere.
-/

namespace DuckdbHdfs

/-- A writer handle, and the file it writes. -/
structure WriterState where
  handle : HdfsFileHandle
  file : List UInt8
  deriving DecidableEq, Repr

/-- A call on a writer handle; a write comes with the answer it meets. -/
inductive WriterCall
  | write (answer : WriteAnswer) (buffer : Buffer) (nrBytes : Int64)
  | seek (location : UInt64)
  | reset
  | seekPosition
  | getFileSize

namespace WriterState

/-- The handle of a new file. -/
def opened (path : Text) : WriterState where
  handle := .openWriter path
  file := []

variable (display : HdfsError → Text)

/-- What a sequential write returns, or the exception it throws. -/
def written (s : WriterState) (answer : WriteAnswer) (buffer : Buffer) (nrBytes : Int64) :
    Except Exception Int64 :=
  (s.handle.write display answer buffer nrBytes s.file).1

/-- Make a call. -/
def perform (s : WriterState) : WriterCall → WriterState
  | .write answer buffer nrBytes =>
      let (_, handle, file) := s.handle.write display answer buffer nrBytes s.file
      { handle, file }
  | .seek location => { s with handle := s.handle.seek location }
  | .reset => { s with handle := s.handle.reset }
  | .seekPosition => s
  | .getFileSize => s

/-- `GetFileSize` equals the number of bytes in the file. -/
def SizeExact (s : WriterState) : Prop :=
  s.handle.getFileSize.toInt = s.file.length

end WriterState

/-- The bytes are stored from the position on, and nothing else of the file has changed. -/
structure StoredAt (file file' : List UInt8) (position : Nat) (bytes : List UInt8) : Prop where
  stored : (file'.drop position).take bytes.length = bytes
  kept : ∀ i : Nat, i < position ∨ position + bytes.length ≤ i → file'[i]? = file[i]?

/-- Appended bytes are stored at a position only if that is the end of the file. -/
theorem storedAt_append_iff {file bytes : List UInt8} {position : Nat} :
    StoredAt file (file ++ bytes) position bytes ↔ bytes = [] ∨ position = file.length := by
  constructor
  · intro storedAt
    by_contra! apart
    obtain ⟨nonempty, moved⟩ := apart
    have some := List.length_pos_iff.mpr nonempty
    rcases Nat.lt_or_gt_of_ne moved with before | behind
    · -- the last byte lies behind the range
      have last := storedAt.kept (file.length + bytes.length - 1) (by omega)
      rw [List.getElem?_eq_none (by omega : file.length ≤ _)] at last
      rw [List.getElem?_eq_none_iff, List.length_append] at last
      omega
    · -- the first byte lies before the range
      have first := storedAt.kept file.length (.inl behind)
      rw [List.getElem?_eq_none (by omega : file.length ≤ _)] at first
      rw [List.getElem?_eq_none_iff, List.length_append] at first
      omega
  · rintro (rfl | rfl)
    · exact ⟨by simp, by simp⟩
    · refine ⟨by simp, fun i outside => ?_⟩
      rcases outside with before | behind
      · rw [List.getElem?_append_left before]
      · rw [List.getElem?_eq_none (by simpa using behind), List.getElem?_eq_none (by omega)]

namespace WriterState

section

variable (display : HdfsError → Text)

/-- A successful write has stored its bytes where `SeekPosition` pointed just before. -/
def Lands (s : WriterState) : WriterCall → Prop
  | .write answer buffer nrBytes => ∀ count,
      s.written display answer buffer nrBytes = .ok count →
        StoredAt s.file (s.perform display (.write answer buffer nrBytes)).file
          s.handle.seekPosition.toNat (buffer.bytes count.toNatClampNeg)
  | _ => True

/-- Every successful write of a sequence of calls lands at the cursor, and the file size is exact
at the start and after every call. -/
def WritesLand (s : WriterState) (calls : List WriterCall) : Prop :=
  s.SizeExact ∧ Runs.Throughout (perform display)
    (fun s call => s.Lands display call ∧ (s.perform display call).SizeExact) s calls

/-- An accepted write of at least one byte is made at the end of the file, which stays below
`2 ^ 63` bytes; a failed one leaves none of its bytes. -/
def AtEnd (s : WriterState) : WriterCall → Prop
  | .write .written _ nrBytes => 0 < nrBytes →
      s.handle.position.toNat = s.file.length ∧
        s.file.length + nrBytes.toNatClampNeg < 2 ^ 63
  | .write (.failed stored _) _ nrBytes => 0 < nrBytes → stored = 0
  | _ => True

end

variable {display : HdfsError → Text} {s : WriterState} {call : WriterCall} {buffer : Buffer}
  {nrBytes : Int64}

theorem sizeExact_iff :
    s.SizeExact ↔ s.handle.length.toNat = s.file.length ∧ s.file.length < 2 ^ 63 := by
  have bound := s.handle.length.toNat_lt
  rw [SizeExact, HdfsFileHandle.getFileSize, UInt64.toInt_toInt64]
  split <;> omega

theorem length_bytes (buffer : Buffer) (count : Nat) : (buffer.bytes count).length = count := by
  simp [Buffer.bytes]

theorem write_of_negative (display : HdfsError → Text) (answer : WriteAnswer) (buffer : Buffer)
    (writer : s.handle.writer = true) (negative : nrBytes < 0) :
    (∃ e, s.written display answer buffer nrBytes = .error e) ∧
      s.perform display (.write answer buffer nrBytes) = s := by
  simp [written, perform, HdfsFileHandle.write, bridgeWrite, writer, negative]

theorem write_of_written (display : HdfsError → Text) (buffer : Buffer)
    (writer : s.handle.writer = true) (requested : ¬nrBytes < 0) :
    s.written display .written buffer nrBytes = .ok nrBytes ∧
      s.perform display (.write .written buffer nrBytes) =
        { handle := { s.handle with
            position := s.handle.position + nrBytes.toUInt64
            length := s.handle.length + nrBytes.toUInt64 }
          file := s.file ++ buffer.bytes nrBytes.toNatClampNeg } := by
  simp [written, perform, HdfsFileHandle.write, bridgeWrite, writer, requested]

theorem write_of_failed (display : HdfsError → Text) (stored : Nat) (e : HdfsError)
    (buffer : Buffer) (writer : s.handle.writer = true) (requested : ¬nrBytes < 0) :
    (∃ e', s.written display (.failed stored e) buffer nrBytes = .error e') ∧
      s.perform display (.write (.failed stored e) buffer nrBytes) =
        { s with file := s.file ++ (buffer.bytes nrBytes.toNatClampNeg).take stored } := by
  simp [written, perform, HdfsFileHandle.write, bridgeWrite, writer, requested]

theorem perform_writer (writer : s.handle.writer = true) :
    (s.perform display call).handle.writer = true := by
  cases call with
  | write answer buffer nrBytes =>
      by_cases negative : nrBytes < 0
      · rw [(write_of_negative display answer buffer writer negative).2, writer]
      · cases answer with
        | written => rw [(write_of_written display buffer writer negative).2, writer]
        | failed stored e =>
            rw [(write_of_failed display stored e buffer writer negative).2, writer]
  | _ => exact writer

/-- An accepted write lands and is counted exactly if it is made at the end of the file. -/
theorem lands_written_iff (writer : s.handle.writer = true) (counted : s.SizeExact)
    (requested : ¬nrBytes < 0) :
    (s.Lands display (.write .written buffer nrBytes) ∧
        (s.perform display (.write .written buffer nrBytes)).SizeExact) ↔
      s.AtEnd (.write .written buffer nrBytes) := by
  obtain ⟨returned, performed⟩ := write_of_written display buffer writer requested
  obtain ⟨length_eq, bounded⟩ := sizeExact_iff.mp counted
  have small := nrBytes.toNatClampNeg_lt
  have cast : nrBytes.toUInt64.toNat = nrBytes.toNatClampNeg :=
    Int64.toNat_toUInt64_of_le (Int64.not_lt.mp requested)
  have empty_iff : buffer.bytes nrBytes.toNatClampNeg = [] ↔ ¬0 < nrBytes := by
    rw [← List.length_eq_zero_iff, length_bytes, Int64.toNatClampNeg_eq_zero_iff, Int64.not_lt]
  have exact_iff : (s.perform display (.write .written buffer nrBytes)).SizeExact ↔
      s.file.length + nrBytes.toNatClampNeg < 2 ^ 63 := by
    rw [sizeExact_iff, performed]
    simp only [UInt64.toNat_add, cast, List.length_append, length_bytes]
    omega
  have lands_iff : s.Lands display (.write .written buffer nrBytes) ↔
      (0 < nrBytes → s.handle.position.toNat = s.file.length) := by
    simp only [Lands, returned, Except.ok.injEq, forall_eq', performed, storedAt_append_iff,
      empty_iff, HdfsFileHandle.seekPosition]
    exact imp_iff_not_or.symm
  rw [exact_iff, lands_iff, AtEnd]
  by_cases some : 0 < nrBytes
  · simp only [some, true_imp_iff]
  · have none : nrBytes.toNatClampNeg = 0 := by
      rw [Int64.toNatClampNeg_eq_zero_iff]
      exact Int64.not_lt.mp some
    simp only [some, false_imp_iff, true_and, none, Nat.add_zero, bounded]

/-- A failed write is counted exactly if it leaves none of its bytes. -/
theorem lands_failed_iff {stored : Nat} {e : HdfsError} (writer : s.handle.writer = true)
    (counted : s.SizeExact) (requested : ¬nrBytes < 0) :
    (s.Lands display (.write (.failed stored e) buffer nrBytes) ∧
        (s.perform display (.write (.failed stored e) buffer nrBytes)).SizeExact) ↔
      s.AtEnd (.write (.failed stored e) buffer nrBytes) := by
  obtain ⟨⟨e', threw⟩, performed⟩ := write_of_failed display stored e buffer writer
    requested
  obtain ⟨length_eq, bounded⟩ := sizeExact_iff.mp counted
  have lands : s.Lands display (.write (.failed stored e) buffer nrBytes) := by
    intro count returned
    rw [threw] at returned
    contradiction
  have positive_iff := Int64.toNatClampNeg_pos_iff nrBytes
  rw [and_iff_right lands, sizeExact_iff, performed]
  simp only [List.length_append, List.length_take, length_bytes, AtEnd]
  rw [← positive_iff]
  omega

/-- One call: with an exact size, its write lands and the size stays exact if and only if the write
is made at the end. -/
theorem lands_iff (writer : s.handle.writer = true) (counted : s.SizeExact) :
    (s.Lands display call ∧ (s.perform display call).SizeExact) ↔ s.AtEnd call := by
  cases call with
  | write answer buffer nrBytes =>
      by_cases negative : nrBytes < 0
      · obtain ⟨⟨e, threw⟩, performed⟩ :=
          write_of_negative display answer buffer writer negative
        have lands : s.Lands display (.write answer buffer nrBytes) := by
          intro count returned
          rw [threw] at returned
          contradiction
        have none : ¬0 < nrBytes := Int64.not_lt.mpr (Int64.le_of_lt negative)
        rw [performed]
        refine iff_of_true ⟨lands, counted⟩ ?_
        cases answer <;> exact fun some => absurd some none
      · cases answer with
        | written => exact lands_written_iff writer counted negative
        | failed stored e => exact lands_failed_iff writer counted negative
  | _ => exact iff_of_true ⟨trivial, counted⟩ trivial

/-- Every write lands at the cursor and the size stays exact exactly if every accepted write is
made at the end of a file that stays below `2 ^ 63` bytes and every failed one leaves nothing. -/
theorem writesLand_iff (display : HdfsError → Text) (path : Text) (calls : List WriterCall) :
    (opened path).WritesLand display calls ↔
      Runs.Throughout (perform display) AtEnd (opened path) calls := by
  have start : (opened path).SizeExact := by
    rw [sizeExact_iff]
    exact ⟨rfl, (by decide : 0 < 2 ^ 63)⟩
  rw [WritesLand, and_iff_right start]
  refine @Runs.throughout_iff _ _ _ (fun s => s.handle.writer = true ∧ s.SizeExact) _ _
    (fun holds => lands_iff holds.1 holds.2) (fun holds property => ?_) _ ⟨rfl, start⟩ calls
  exact ⟨perform_writer holds.1, property.2⟩

/-- After a byte has been written and the cursor reset, the next byte does not land at its
position, zero. -/
theorem not_writesLand_reset :
    ¬(opened "/d/x".toList).WritesLand (fun _ => [])
        [.write .written (fun _ => 97) 1, .reset, .write .written (fun _ => 98) 1] := by
  rintro ⟨-, -, -, ⟨lands, -⟩, -⟩
  have storedAt := lands 1 rfl
  have stored := storedAt.stored
  revert stored
  decide

end WriterState
end DuckdbHdfs
