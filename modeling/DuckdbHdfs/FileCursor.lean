import DuckdbHdfs.FileReads

/-!
# A reader handle is a byte array with a cursor

The abstract reader knows the content of the file and one number, its cursor.  Every sequence of
reads and seeks of a reader handle is a sequence of abstract steps with the same replies, as long
as the bridge either reads what it is asked for or fails.
-/

namespace DuckdbHdfs

/-- A call on a reader handle. -/
inductive FileCall
  | seek (location : UInt64)
  | reset
  | read (nrBytes : Int64)
  | readAt (nrBytes : Int64) (location : UInt64)
  deriving DecidableEq, Repr

/-- What a call gives back. -/
inductive FileReply
  | done
  /-- A number of bytes, and the bytes. -/
  | counted (count : Int64) (bytes : List UInt8)
  | filled (bytes : List UInt8)
  | threw (e : Exception)
  deriving DecidableEq, Repr

/-- Make a call. -/
def HdfsFileHandle.perform (h : HdfsFileHandle) (reader : FileReader) :
    FileCall → FileReply × HdfsFileHandle
  | .seek location => (.done, h.seek location)
  | .reset => (.done, h.reset)
  | .read nrBytes =>
      match h.read reader nrBytes with
      | (_, .ok (count, bytes), h) => (.counted count bytes, h)
      | (_, .error e, h) => (.threw e, h)
  | .readAt nrBytes location =>
      match h.readAt reader nrBytes location with
      | (_, .ok bytes) => (.filled bytes, h)
      | (_, .error e) => (.threw e, h)

/-- Make the calls in order; each meets its own answers of the client library. -/
def HdfsFileHandle.performAll (h : HdfsFileHandle) :
    List (FileReader × FileCall) → List FileReply × HdfsFileHandle
  | [] => ([], h)
  | (reader, call) :: calls =>
      let (reply, h) := h.perform reader call
      let (replies, h) := h.performAll calls
      (reply :: replies, h)

/-- The number of bytes a call requests is not negative. -/
def FileCall.Requests : FileCall → Prop
  | .read nrBytes => 0 ≤ nrBytes
  | .readAt nrBytes _ => 0 ≤ nrBytes
  | _ => True

/-- The bridge reads what it is asked for or fails. -/
def FileReader.Serves (reader : FileReader) (content : List UInt8) : Prop :=
  ∀ len offset bytes, bridgeReadRange reader len offset = .ok bytes →
    bytes = (content.drop offset.toNat).take len.toNatClampNeg

section Abstract

variable (content : List UInt8)

/-- How many bytes a read at a cursor yields. -/
def readable (position requested : Nat) : Nat :=
  min requested (content.length - position)

/-- One call of the abstract reader, from one cursor to the next.  It throws only for a range
outside of the content or when the bridge fails. -/
inductive CursorStep (reader : FileReader) (position : Nat) : FileCall → FileReply → Nat → Prop
  | seek {location : UInt64} : CursorStep reader position (.seek location) .done location.toNat
  | reset : CursorStep reader position .reset .done 0
  | read {nrBytes : Int64} {count : Nat}
      (count_eq : count = readable content position nrBytes.toNatClampNeg) :
      CursorStep reader position (.read nrBytes)
        (.counted (.ofNat count) ((content.drop position).take count)) (position + count)
  | readFails {nrBytes : Int64} {count : Nat} {status : BridgeStatus} {message : Text}
      (count_eq : count = readable content position nrBytes.toNatClampNeg) (nonzero : count ≠ 0)
      (failed : bridgeReadRange reader (.ofNat count) (.ofNat position) = .error status) :
      CursorStep reader position (.read nrBytes) (.threw (.io message)) position
  | readAt {nrBytes : Int64} {location : UInt64}
      (inside : nrBytes = 0 ∨ location.toNat + nrBytes.toNatClampNeg ≤ content.length) :
      CursorStep reader position (.readAt nrBytes location)
        (.filled ((content.drop location.toNat).take nrBytes.toNatClampNeg)) position
  | readAtOutside {nrBytes : Int64} {location : UInt64} {message : Text} (nonzero : nrBytes ≠ 0)
      (outside : content.length < location.toNat + nrBytes.toNatClampNeg) :
      CursorStep reader position (.readAt nrBytes location) (.threw (.io message)) position
  | readAtFails {nrBytes : Int64} {location : UInt64} {status : BridgeStatus} {message : Text}
      (nonzero : nrBytes ≠ 0)
      (failed : bridgeReadRange reader nrBytes location = .error status) :
      CursorStep reader position (.readAt nrBytes location) (.threw (.io message)) position

/-- A sequence of calls of the abstract reader. -/
inductive CursorRun : Nat → List (FileReader × FileCall) → List FileReply → Nat → Prop
  | nil {position : Nat} : CursorRun position [] [] position
  | cons {position next final : Nat} {reader : FileReader} {call : FileCall} {reply : FileReply}
      {calls : List (FileReader × FileCall)} {replies : List FileReply}
      (step : CursorStep content reader position call reply next)
      (rest : CursorRun next calls replies final) :
      CursorRun position ((reader, call) :: calls) (reply :: replies) final

end Abstract

/-- The bytes a sequential read puts into its buffer. -/
def FileReply.scanned : FileReply → List UInt8
  | .counted _ bytes => bytes
  | _ => []

/-- A scan: sequential reads only, each with the answers it meets. -/
def scan (reads : List (FileReader × Int64)) : List (FileReader × FileCall) :=
  reads.map fun (reader, nrBytes) => (reader, .read nrBytes)

theorem CursorRun.scanned {content : List UInt8} {position final : Nat}
    {reads : List (FileReader × Int64)} {replies : List FileReply}
    (run : CursorRun content position (scan reads) replies final)
    (inside : position ≤ content.length) :
    position ≤ final ∧ final ≤ content.length ∧
      replies.flatMap FileReply.scanned = (content.drop position).take (final - position) := by
  induction reads generalizing position replies with
  | nil =>
      cases run
      simp [inside]
  | cons first reads ih =>
      obtain ⟨reader, nrBytes⟩ := first
      cases run with
      | cons step rest =>
          cases step with
          | @read _ count count_eq =>
              have bound : count ≤ content.length - position := by
                rw [count_eq]
                exact Nat.min_le_right _ _
              obtain ⟨later, stop, bytes⟩ := ih rest (by omega)
              refine ⟨by omega, stop, ?_⟩
              rw [List.flatMap_cons, bytes, FileReply.scanned]
              have split : final - position = count + (final - (position + count)) := by omega
              rw [split, List.take_add, List.drop_drop]
          | readFails _ _ _ =>
              simpa [FileReply.scanned] using ih rest inside

/-- A read of the scan that yields nothing although it requests something has reached the end. -/
theorem CursorRun.scanned_all {content : List UInt8} {position final : Nat}
    {reads : List (FileReader × Int64)} {replies : List FileReply}
    (run : CursorRun content position (scan reads) replies final)
    (inside : position ≤ content.length) {i : Nat} {reader : FileReader} {nrBytes : Int64}
    {bytes : List UInt8} (read : reads[i]? = some (reader, nrBytes)) (positive : 0 < nrBytes)
    (nothing : replies[i]? = some (.counted 0 bytes)) : final = content.length := by
  induction reads generalizing position replies i with
  | nil => simp at read
  | cons first reads ih =>
      obtain ⟨reader', nrBytes'⟩ := first
      cases run with
      | @cons _ next _ _ _ _ _ replies step rest =>
          have next_inside : next ≤ content.length := by
            cases step with
            | @read _ count count_eq =>
                have bound : count ≤ content.length - position := by
                  rw [count_eq]
                  exact Nat.min_le_right _ _
                omega
            | readFails _ _ _ => exact inside
          cases i with
          | succ i => exact ih rest next_inside read nothing
          | zero =>
              obtain ⟨rfl, rfl⟩ : reader' = reader ∧ nrBytes' = nrBytes := by simpa using read
              have requested : 0 < nrBytes'.toNatClampNeg :=
                (Int64.toNatClampNeg_pos_iff _).mpr positive
              have small := nrBytes'.toNatClampNeg_lt
              have stop := (CursorRun.scanned rest next_inside).2.1
              have forth := (CursorRun.scanned rest next_inside).1
              cases step with
              | readFails _ _ _ => simp at nothing
              | @read _ count count_eq =>
                  have empty := (FileReply.counted.inj (Option.some.inj nothing)).1
                  have count_zero : count = 0 := by
                    have count_lt : count < 2 ^ 63 := by
                      rw [count_eq, readable]
                      omega
                    rw [← Int64.toNatClampNeg_ofNat_of_lt count_lt, empty]
                    rfl
                  rw [readable] at count_eq
                  omega

/-- The handle stands for the abstract reader with this cursor. -/
structure Refines (content : List UInt8) (h : HdfsFileHandle) (position : Nat) : Prop where
  opened : h.reader = true
  length_eq : h.length.toNat = content.length
  position_eq : h.position.toNat = position

section Refines

variable {content : List UInt8} {h : HdfsFileHandle} {position : Nat} {reader : FileReader}
  {nrBytes : Int64} {location : UInt64}

theorem refines_openReader (bounded : content.length < 2 ^ 63) (path : Text)
    (length_eq : reader.fileLength.toNat = content.length) :
    Refines content (.openReader path reader) 0 where
  opened := rfl
  length_eq := by
    have size : (bridgeFileSize reader).toInt = content.length := by
      rw [bridgeFileSize, UInt64.toInt_toInt64, length_eq, if_pos bounded]
    have not_negative : ¬bridgeFileSize reader < 0 := by
      rw [Int64.lt_iff_toInt_lt, size, Int64.toInt_zero]
      omega
    simp only [HdfsFileHandle.openReader, if_neg not_negative]
    exact length_eq
  position_eq := rfl

theorem readAt_of_inside (reader : FileReader) (bounded : h.length.toNat < 2 ^ 63)
    (opened : h.reader = true) (positive : 0 < nrBytes.toInt)
    (inside : (location.toNat : Int) + nrBytes.toInt ≤ h.length.toNat) :
    (∃ calls bytes, bridgeReadRange reader nrBytes location = .ok bytes ∧
        h.readAt reader nrBytes location = (calls, .ok bytes)) ∨
      ∃ calls status message, bridgeReadRange reader nrBytes location = .error status ∧
        h.readAt reader nrBytes location = (calls, .error (.io message)) := by
  have nonzero : nrBytes ≠ 0 := by
    rintro rfl
    simp at positive
  have in_range : ¬(location > h.length ∨ nrBytes.toUInt64 > h.length - location) := by
    rw [HdfsFileHandle.outOfRange_iff bounded]
    omega
  unfold HdfsFileHandle.readAt
  rw [if_neg (by simp [opened]), if_neg nonzero, if_neg in_range]
  cases read : bridgeReadRange reader nrBytes location with
  | ok bytes => exact .inl ⟨_, bytes, rfl, rfl⟩
  | error status => exact .inr ⟨_, status, _, rfl, rfl⟩

theorem toRead_of_requests (bounded : content.length < 2 ^ 63)
    (refines : Refines content h position) (before_end : h.position < h.length)
    (requested : 0 ≤ nrBytes) :
    h.toRead nrBytes = .ofNat (readable content position nrBytes.toNatClampNeg) := by
  have length_lt : h.length.toNat < 2 ^ 63 := by
    rw [refines.length_eq]
    exact bounded
  have asked := @HdfsFileHandle.toRead_toInt h nrBytes length_lt before_end
  have requested_eq := Int64.toInt_eq_toNatClampNeg requested
  rw [UInt64.lt_iff_toNat_lt, refines.length_eq, refines.position_eq] at before_end
  rw [if_pos (by omega), refines.length_eq, refines.position_eq, requested_eq] at asked
  rw [← Int64.toInt_inj, asked, Int64.toInt_ofNat_of_lt (by rw [readable]; omega), readable]
  omega

theorem cursorStep_nothing (none : readable content position nrBytes.toNatClampNeg = 0) :
    CursorStep content reader position (.read nrBytes) (.counted 0 []) position := by
  have step : CursorStep content reader position (.read nrBytes) _ _ := .read none.symm
  simpa using step

theorem refines_read (bounded : content.length < 2 ^ 63) (serves : reader.Serves content)
    (refines : Refines content h position) (requested : 0 ≤ nrBytes) :
    ∃ next, CursorStep content reader position (.read nrBytes)
        (h.perform reader (.read nrBytes)).1 next ∧
      Refines content (h.perform reader (.read nrBytes)).2 next := by
  by_cases before_end : h.position < h.length
  · have asked := toRead_of_requests bounded refines before_end requested
    obtain ⟨count, count_eq⟩ : ∃ count,
        count = readable content position nrBytes.toNatClampNeg := ⟨_, rfl⟩
    have fits : position + count ≤ content.length := by
      rw [UInt64.lt_iff_toNat_lt, refines.position_eq, refines.length_eq] at before_end
      rw [count_eq, readable]
      omega
    have count_toInt : (Int64.ofNat count).toInt = count :=
      Int64.toInt_ofNat_of_lt (by omega)
    rw [← count_eq] at asked
    rw [HdfsFileHandle.perform, HdfsFileHandle.read, if_neg (UInt64.not_le.mpr before_end), asked]
    by_cases none : count = 0
    · rw [if_pos (by rw [none]; decide)]
      exact ⟨position, cursorStep_nothing (count_eq ▸ none), refines⟩
    · have some : ¬Int64.ofNat count ≤ 0 := by
        rw [Int64.le_iff_toInt_le, count_toInt, Int64.toInt_zero]
        omega
      rw [if_neg some]
      have length_lt : h.length.toNat < 2 ^ 63 := by
        rw [refines.length_eq]
        exact bounded
      have positive : 0 < (Int64.ofNat count).toInt := by
        rw [count_toInt]
        omega
      have inside : (h.position.toNat : Int) + (Int64.ofNat count).toInt ≤ h.length.toNat := by
        rw [count_toInt, refines.position_eq, refines.length_eq]
        omega
      rcases readAt_of_inside reader length_lt refines.opened positive inside with
        ⟨calls, bytes, read, readAt_eq⟩ | ⟨calls, status, message, failed, readAt_eq⟩
      · have yielded := serves _ _ _ read
        rw [refines.position_eq, Int64.toNatClampNeg_ofNat_of_lt (by omega)] at yielded
        rw [readAt_eq, yielded]
        refine ⟨position + count, .read count_eq, refines.opened, refines.length_eq, ?_⟩
        have advanced : (Int64.ofNat count).toUInt64.toNat = count := by
          rw [Int64.toUInt64_ofNat', UInt64.toNat_ofNat']
          omega
        simp only [UInt64.toNat_add, advanced, refines.position_eq]
        omega
      · rw [readAt_eq]
        have cursor : UInt64.ofNat position = h.position := by
          rw [← refines.position_eq, UInt64.ofNat_toNat]
        exact ⟨position, .readFails count_eq none (cursor ▸ failed), refines⟩
  · have at_end := UInt64.not_lt.mp before_end
    rw [HdfsFileHandle.perform, HdfsFileHandle.read, if_pos at_end]
    refine ⟨position, cursorStep_nothing ?_, refines⟩
    rw [UInt64.le_iff_toNat_le, refines.position_eq, refines.length_eq] at at_end
    rw [readable]
    omega

theorem refines_readAt (location : UInt64) (bounded : content.length < 2 ^ 63)
    (serves : reader.Serves content) (refines : Refines content h position)
    (requested : 0 ≤ nrBytes) :
    CursorStep content reader position (.readAt nrBytes location)
        (h.perform reader (.readAt nrBytes location)).1 position ∧
      (h.perform reader (.readAt nrBytes location)).2 = h := by
  have length_lt : h.length.toNat < 2 ^ 63 := by
    rw [refines.length_eq]
    exact bounded
  have requested_eq := Int64.toInt_eq_toNatClampNeg requested
  by_cases zero : nrBytes = 0
  · subst zero
    have readAt_eq : h.readAt reader 0 location = ([], .ok []) := by
      rw [HdfsFileHandle.readAt, if_neg (by simp [refines.opened]), if_pos rfl]
    rw [HdfsFileHandle.perform, readAt_eq]
    have step : CursorStep content reader position (.readAt 0 location) _ _ := .readAt (.inl rfl)
    exact ⟨by simpa using step, rfl⟩
  · have nonzero : nrBytes.toInt ≠ 0 := by
      rw [← Int64.toInt_zero, ne_eq, Int64.toInt_inj]
      exact zero
    by_cases inside : location.toNat + nrBytes.toNatClampNeg ≤ content.length
    · have positive : 0 < nrBytes.toInt := by omega
      have in_range : (location.toNat : Int) + nrBytes.toInt ≤ h.length.toNat := by
        rw [refines.length_eq]
        omega
      rcases readAt_of_inside reader length_lt refines.opened positive in_range with
        ⟨calls, bytes, read, readAt_eq⟩ | ⟨calls, status, message, failed, readAt_eq⟩
      · rw [HdfsFileHandle.perform, readAt_eq, serves _ _ _ read]
        exact ⟨.readAt (.inr inside), rfl⟩
      · rw [HdfsFileHandle.perform, readAt_eq]
        exact ⟨.readAtFails zero failed, rfl⟩
    · have out_of_range : location > h.length ∨ nrBytes.toUInt64 > h.length - location := by
        rw [HdfsFileHandle.outOfRange_iff length_lt, refines.length_eq]
        omega
      rw [HdfsFileHandle.perform, HdfsFileHandle.readAt, if_neg (by simp [refines.opened]),
        if_neg zero, if_pos out_of_range]
      exact ⟨.readAtOutside zero (not_le.mp inside), rfl⟩

theorem refines_perform (bounded : content.length < 2 ^ 63) (serves : reader.Serves content)
    (refines : Refines content h position) {call : FileCall} (requests : call.Requests) :
    ∃ next, CursorStep content reader position call (h.perform reader call).1 next ∧
      Refines content (h.perform reader call).2 next := by
  cases call with
  | seek location => exact ⟨_, .seek, refines.opened, refines.length_eq, rfl⟩
  | reset => exact ⟨0, .reset, refines.opened, refines.length_eq, rfl⟩
  | read nrBytes => exact refines_read bounded serves refines requests
  | readAt nrBytes location =>
      obtain ⟨step, same⟩ := refines_readAt location bounded serves refines requests
      exact ⟨position, step, by rwa [same]⟩

/-- Every sequence of calls of the handle is one of the abstract reader. -/
theorem refines_performAll (bounded : content.length < 2 ^ 63)
    {calls : List (FileReader × FileCall)}
    (each : ∀ call ∈ calls, call.1.Serves content ∧ call.2.Requests)
    (refines : Refines content h position) :
    ∃ final, CursorRun content position calls (h.performAll calls).1 final ∧
      Refines content (h.performAll calls).2 final := by
  induction calls generalizing h position with
  | nil => exact ⟨position, .nil, refines⟩
  | cons first calls ih =>
      obtain ⟨reader, call⟩ := first
      obtain ⟨serves, requests⟩ := each (reader, call) List.mem_cons_self
      obtain ⟨next, step, refines⟩ := refines_perform bounded serves refines requests
      obtain ⟨final, rest, refines⟩ := ih (fun other mem => each other (.tail _ mem)) refines
      exact ⟨final, .cons step rest, refines⟩

end Refines

/-- A handle opened on a file below `2 ^ 63` bytes behaves as its content with a cursor, over every
sequence of calls; in particular a scan reads a prefix of the content, and all of it once a read
that requests something returns nothing. -/
theorem openReader_refines {content : List UInt8} (bounded : content.length < 2 ^ 63)
    {opening : FileReader} (length_eq : opening.fileLength.toNat = content.length) (path : Text) :
    (∀ calls : List (FileReader × FileCall),
      (∀ call ∈ calls, call.1.Serves content ∧ call.2.Requests) →
        CursorRun content 0 calls ((HdfsFileHandle.openReader path opening).performAll calls).1
          ((HdfsFileHandle.openReader path opening).performAll calls).2.seekPosition.toNat) ∧
      ∀ reads : List (FileReader × Int64),
        (∀ read ∈ reads, read.1.Serves content ∧ 0 ≤ read.2) →
          let replies : List FileReply :=
            ((HdfsFileHandle.openReader path opening).performAll (scan reads)).1
          replies.flatMap FileReply.scanned <+: content ∧
            ∀ (i : Nat) (reader : FileReader) (nrBytes : Int64) (bytes : List UInt8),
              reads[i]? = some (reader, nrBytes) → 0 < nrBytes →
              replies[i]? = some (.counted 0 bytes) →
                replies.flatMap FileReply.scanned = content := by
  have start := refines_openReader bounded path length_eq
  constructor
  · intro calls each
    obtain ⟨final, run, refines⟩ := refines_performAll bounded each start
    rw [HdfsFileHandle.seekPosition, refines.position_eq]
    exact run
  · intro reads each replies
    have calls_each : ∀ call ∈ scan reads, call.1.Serves content ∧ call.2.Requests := by
      intro call mem
      obtain ⟨read, read_mem, rfl⟩ := List.mem_map.mp mem
      exact each read read_mem
    obtain ⟨final, run, -⟩ := refines_performAll bounded calls_each start
    obtain ⟨-, -, bytes_eq⟩ := run.scanned (Nat.zero_le _)
    rw [List.drop_zero, Nat.sub_zero] at bytes_eq
    refine ⟨bytes_eq ▸ List.take_prefix _ _, fun i reader nrBytes bytes read positive nothing => ?_⟩
    have all := run.scanned_all (Nat.zero_le _) read positive nothing
    exact bytes_eq.trans (by rw [all, List.take_length])

theorem FileReader.tenBytes_serves : FileReader.tenBytes.Serves (List.replicate 10 0) := by
  intro len offset bytes read
  unfold bridgeReadRange at read
  split at read
  · simp at read
  · exact (Except.ok.inj read).symm

/-- A file of ten bytes, read from start to end and beyond. -/
theorem openReader_refines_tenBytes :
    (∀ calls : List (FileReader × FileCall),
      (∀ call ∈ calls, call.1.Serves (List.replicate 10 0) ∧ call.2.Requests) →
        CursorRun (List.replicate 10 0) 0 calls
          ((HdfsFileHandle.openReader "/d/x".toList .tenBytes).performAll calls).1
          ((HdfsFileHandle.openReader "/d/x".toList .tenBytes).performAll
            calls).2.seekPosition.toNat) ∧
      (((HdfsFileHandle.openReader "/d/x".toList .tenBytes).performAll
        (scan [(.tenBytes, 7), (.tenBytes, 7), (.tenBytes, 1)])).1.flatMap FileReply.scanned =
          List.replicate 10 0) := by
  have ⟨runs, scans⟩ := @openReader_refines (List.replicate 10 0) (by decide) .tenBytes (by decide)
    "/d/x".toList
  have each : ∀ read ∈ [(FileReader.tenBytes, (7 : Int64)), (.tenBytes, 7), (.tenBytes, 1)],
      read.1.Serves (List.replicate 10 0) ∧ 0 ≤ read.2 := by
    intro read mem
    simp only [List.mem_cons, List.not_mem_nil, or_false] at mem
    rcases mem with rfl | rfl | rfl <;> exact ⟨FileReader.tenBytes_serves, by decide⟩
  exact ⟨runs, (scans _ each).2 2 .tenBytes 1 [] rfl (by decide) (by decide)⟩

end DuckdbHdfs
