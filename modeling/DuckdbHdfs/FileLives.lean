import DuckdbHdfs.FileCursor
import DuckdbHdfs.FileWrites

/-!
# The life of a file handle

An opened handle holds a reader or a writer of the bridge.  Whatever is called in whatever order,
`Close` included, the object is freed exactly once, at the latest by the destructor, and is not used
afterwards.  A scan of the closed file yields what the writes have accepted.
-/

namespace DuckdbHdfs

/-- An object of the bridge that a handle may hold. -/
inductive BridgeObject
  | reader
  | writer
  deriving DecidableEq, Repr

/-- A call of the bridge on an object. -/
inductive ObjectEvent
  | opened (object : BridgeObject)
  | used (object : BridgeObject)
  | freed (object : BridgeObject)
  deriving DecidableEq, Repr

/-- How the client library answers the close of a writer: a failed flush may leave any content. -/
inductive CloseAnswer
  | closed
  | failed (left : List UInt8) (e : HdfsError)
  deriving DecidableEq, Repr

/-- `hdfs_bridge_close_writer`: the status it leaves if it fails, and the file afterwards. -/
def bridgeCloseWriter (display : HdfsError → Text) (answer : CloseAnswer) (file : List UInt8) :
    Except BridgeStatus Unit × List UInt8 :=
  match answer with
  | .closed => (.ok (), file)
  | .failed left e => (.error (setError display "close writer failed".toList e), left)

/-- A call on a handle; one that reaches the client library comes with the answer it meets. -/
inductive HandleCall
  | read (reader : FileReader) (nrBytes : Int64)
  | readAt (reader : FileReader) (nrBytes : Int64) (location : UInt64)
  | write (answer : WriteAnswer) (buffer : Buffer) (nrBytes : Int64)
  | writeAt (buffer : Buffer) (nrBytes : Int64) (location : UInt64)
  | seek (location : UInt64)
  | reset
  | seekPosition
  | getFileSize
  | close (answer : CloseAnswer)

/-- What a call gives back. -/
inductive HandleReply
  | done
  | counted (count : Int64) (bytes : List UInt8)
  | filled (bytes : List UInt8)
  | wrote (count : Int64)
  | position (cursor : UInt64)
  | size (length : Int64)
  | threw (e : Exception)
  deriving DecidableEq, Repr

/-- A handle with the file it writes and the calls it has made of the bridge. -/
structure FileLife where
  handle : HdfsFileHandle
  file : List UInt8
  trace : List ObjectEvent
  deriving DecidableEq, Repr

/-- The object a handle holds. -/
def HdfsFileHandle.holds (h : HdfsFileHandle) : BridgeObject → Bool
  | .reader => h.reader
  | .writer => h.writer

namespace FileLife

/-- A file opened for reading; its length is asked of the reader. -/
def openReader (path : Text) (reader : FileReader) (file : List UInt8) : FileLife where
  handle := .openReader path reader
  file
  trace := [.opened .reader, .used .reader]

/-- A new file, opened for writing. -/
def openWriter (path : Text) : FileLife where
  handle := .openWriter path
  file := []
  trace := [.opened .writer]

variable (display : HdfsError → Text)

/-- The first half of `Close`. -/
def closeReader (s : FileLife) : FileLife :=
  if s.handle.reader then
    { s with handle := { s.handle with reader := false }, trace := s.trace ++ [.freed .reader] }
  else
    s

/-- The second half of `Close`: the handle has given its writer up when the flush throws. -/
def closeWriter (s : FileLife) (answer : CloseAnswer) : Except Exception Unit × FileLife :=
  if s.handle.writer then
    let (result, file) := bridgeCloseWriter display answer s.file
    let s : FileLife :=
      { handle := { s.handle with writer := false }
        file
        trace := s.trace ++ [.freed .writer] }
    match result with
    | .ok _ => (.ok (), s)
    | .error status => (.error (.io
        ("Failed to close HDFS file '".toList ++ s.handle.path ++ "': ".toList ++
          status.message)), s)
  else
    (.ok (), s)

/-- `HdfsFileHandle::Close` -/
def close (s : FileLife) (answer : CloseAnswer) : Except Exception Unit × FileLife :=
  s.closeReader.closeWriter display answer

/-- The destructor, which swallows what `Close` throws. -/
def destroy (s : FileLife) (answer : CloseAnswer) : FileLife :=
  (s.close display answer).2

/-- Make a call. -/
def perform (s : FileLife) : HandleCall → HandleReply × FileLife
  | .read reader nrBytes =>
      let (calls, result, handle) := s.handle.read reader nrBytes
      let trace := s.trace ++ calls.map fun _ => .used .reader
      match result with
      | .ok (count, bytes) => (.counted count bytes, { s with handle, trace })
      | .error e => (.threw e, { s with handle, trace })
  | .readAt reader nrBytes location =>
      let (calls, result) := s.handle.readAt reader nrBytes location
      let trace := s.trace ++ calls.map fun _ => .used .reader
      match result with
      | .ok bytes => (.filled bytes, { s with trace })
      | .error e => (.threw e, { s with trace })
  | .write answer buffer nrBytes =>
      let (result, handle, file) := s.handle.write display answer buffer nrBytes s.file
      let trace := s.trace ++ if s.handle.writer then [.used .writer] else []
      match result with
      | .ok count => (.wrote count, { handle, file, trace })
      | .error e => (.threw e, { handle, file, trace })
  | .writeAt buffer nrBytes location =>
      match s.handle.writeAt buffer nrBytes location with
      | .ok _ => (.done, s)
      | .error e => (.threw e, s)
  | .seek location => (.done, { s with handle := s.handle.seek location })
  | .reset => (.done, { s with handle := s.handle.reset })
  | .seekPosition => (.position s.handle.seekPosition, s)
  | .getFileSize => (.size s.handle.getFileSize, s)
  | .close answer =>
      match s.close display answer with
      | (.ok _, s) => (.done, s)
      | (.error e, s) => (.threw e, s)

/-- Make the calls in order. -/
def performAll (s : FileLife) : List HandleCall → List HandleReply × FileLife
  | [] => ([], s)
  | call :: calls =>
      let (reply, s) := s.perform display call
      let (replies, s) := s.performAll calls
      (reply :: replies, s)

end FileLife

/-- What a call may give back once the object is freed: nothing is transferred, and a further
`Close` does nothing. -/
def HandleCall.Idle : HandleCall → HandleReply → Prop
  | .read _ _, reply => reply = .counted 0 [] ∨ ∃ e, reply = .threw e
  | .readAt _ _ _, reply | .write _ _ _, reply | .writeAt _ _ _, reply => ∃ e, reply = .threw e
  | .close _, reply => reply = .done
  | _, _ => True

namespace FileLife

variable {display : HdfsError → Text} {s : FileLife} {object : BridgeObject} {call : HandleCall}
  {calls : List HandleCall} {answer : CloseAnswer}

/-- The states in which a file has just been opened. -/
inductive Opened : BridgeObject → FileLife → Prop
  | reader (path : Text) (reader : FileReader) (file : List UInt8) :
      Opened .reader (openReader path reader file)
  | writer (path : Text) : Opened .writer (openWriter path)

/-- The handle holds nothing. -/
def Closed (s : FileLife) : Prop :=
  ∀ object, s.handle.holds object = false

/-- The handle has held the object alone since it was opened, and has freed it when it no longer
holds it. -/
structure Kept (object : BridgeObject) (s : FileLife) : Prop where
  alone : ∀ other, s.handle.holds other = true → other = object
  trace_eq : ∃ n, s.trace = .opened object :: List.replicate n (.used object) ++
    if s.handle.holds object then [] else [.freed object]

theorem Opened.kept (opened : Opened object s) : Kept object s := by
  cases opened with
  | reader path reader file =>
      refine ⟨fun other holds => ?_, 1, rfl⟩
      cases other
      · rfl
      · contradiction
  | writer path =>
      refine ⟨fun other holds => ?_, 0, rfl⟩
      cases other
      · contradiction
      · rfl

theorem Kept.holds_of_ne (kept : Kept object s) {other : BridgeObject} (apart : other ≠ object) :
    s.handle.holds other = false :=
  Bool.eq_false_iff.mpr fun holds => apart (kept.alone other holds)

theorem Kept.used (kept : Kept object s) {s' : FileLife} {other : BridgeObject} {n : Nat}
    (holds_eq : s'.handle.holds = s.handle.holds)
    (trace_eq : s'.trace = s.trace ++ List.replicate n (.used other))
    (held : n = 0 ∨ s.handle.holds other = true) : Kept object s' := by
  refine ⟨fun other holds => kept.alone other (holds_eq ▸ holds), ?_⟩
  obtain ⟨m, before⟩ := kept.trace_eq
  rw [holds_eq, trace_eq, before]
  rcases held with rfl | holds
  · exact ⟨m, by simp⟩
  · obtain rfl := kept.alone other holds
    exact ⟨m + n, by simp [holds]⟩

theorem closed_close (display : HdfsError → Text) (s : FileLife) (answer : CloseAnswer) :
    (s.close display answer).2.Closed := by
  intro object
  unfold close closeWriter closeReader
  cases object <;> cases answer <;> split <;> split <;>
    simp_all [HdfsFileHandle.holds, bridgeCloseWriter]

theorem close_of_closed (closed : s.Closed) : s.close display answer = (.ok (), s) := by
  have no_reader : s.handle.reader = false := closed .reader
  have no_writer : s.handle.writer = false := closed .writer
  simp [close, closeReader, closeWriter, no_reader, no_writer]

theorem Kept.trace_close (kept : Kept object s) :
    (s.close display answer).2.trace =
      s.trace ++ if s.handle.holds object then [.freed object] else [] := by
  unfold close closeWriter closeReader
  cases object with
  | reader =>
      have no_writer : s.handle.writer = false :=
        kept.holds_of_ne (by decide : BridgeObject.writer ≠ .reader)
      cases holds : s.handle.reader <;> simp [HdfsFileHandle.holds, no_writer, holds]
  | writer =>
      have no_reader : s.handle.reader = false :=
        kept.holds_of_ne (by decide : BridgeObject.reader ≠ .writer)
      cases holds : s.handle.writer <;> cases answer <;>
        simp [HdfsFileHandle.holds, no_reader, holds, bridgeCloseWriter]

theorem Kept.close (kept : Kept object s) : Kept object (s.close display answer).2 := by
  have closed := closed_close display s answer
  refine ⟨fun other holds => ?_, ?_⟩
  · rw [closed other] at holds
    contradiction
  · obtain ⟨n, before⟩ := kept.trace_eq
    refine ⟨n, ?_⟩
    rw [kept.trace_close, closed object, before]
    cases s.handle.holds object <;> simp

theorem Kept.trace_of_closed (kept : Kept object s) (closed : s.Closed) :
    ∃ n, s.trace = .opened object :: List.replicate n (.used object) ++ [.freed object] := by
  obtain ⟨n, trace_eq⟩ := kept.trace_eq
  rw [closed object] at trace_eq
  exact ⟨n, trace_eq⟩

theorem readAt_of_none {h : HdfsFileHandle} (reader : FileReader) (nrBytes : Int64)
    (location : UInt64) (none : h.reader = false) :
    ∃ e, h.readAt reader nrBytes location = ([], .error e) := by
  simp [HdfsFileHandle.readAt, none]

theorem read_of_none {h : HdfsFileHandle} (reader : FileReader) (nrBytes : Int64)
    (none : h.reader = false) :
    h.read reader nrBytes = ([], .ok (0, []), h) ∨
      ∃ e, h.read reader nrBytes = ([], .error e, h) := by
  unfold HdfsFileHandle.read
  split
  · exact .inl rfl
  · split
    · exact .inl rfl
    · obtain ⟨e, threw⟩ := readAt_of_none reader (h.toRead nrBytes) h.position none
      rw [threw]
      exact .inr ⟨e, rfl⟩

theorem write_of_none {h : HdfsFileHandle} (display : HdfsError → Text) (answer : WriteAnswer)
    (buffer : Buffer) (nrBytes : Int64) (file : List UInt8) (none : h.writer = false) :
    ∃ e, h.write display answer buffer nrBytes file = (.error e, h, file) := by
  simp [HdfsFileHandle.write, none]

theorem held_of_readAt (h : HdfsFileHandle) (reader : FileReader) (nrBytes : Int64)
    (location : UInt64) :
    (h.readAt reader nrBytes location).1.length = 0 ∨ h.holds .reader = true := by
  cases holds : h.reader with
  | true => exact .inr holds
  | false =>
      obtain ⟨e, nothing⟩ := readAt_of_none reader nrBytes location holds
      exact .inl (by rw [nothing]; rfl)

theorem held_of_read (h : HdfsFileHandle) (reader : FileReader) (nrBytes : Int64) :
    (h.read reader nrBytes).1.length = 0 ∨ h.holds .reader = true := by
  cases holds : h.reader with
  | true => exact .inr holds
  | false =>
      rcases read_of_none reader nrBytes holds with nothing | ⟨e, nothing⟩ <;>
        exact .inl (by rw [nothing]; rfl)

theorem holds_read (h : HdfsFileHandle) (reader : FileReader) (nrBytes : Int64) :
    (h.read reader nrBytes).2.2.holds = h.holds := by
  funext object
  unfold HdfsFileHandle.read
  split
  · rfl
  · split
    · rfl
    · split <;> cases object <;> rfl

theorem holds_write (h : HdfsFileHandle) (display : HdfsError → Text) (answer : WriteAnswer)
    (buffer : Buffer) (nrBytes : Int64) (file : List UInt8) :
    (h.write display answer buffer nrBytes file).2.1.holds = h.holds := by
  funext object
  unfold HdfsFileHandle.write
  split
  · rfl
  · split <;> cases object <;> rfl

/-- What a call other than `Close` does to the handle and the trace. -/
theorem perform_uses (display : HdfsError → Text) (s : FileLife) (call : HandleCall)
    (not_close : ∀ answer, call ≠ .close answer) :
    (s.perform display call).2.handle.holds = s.handle.holds ∧
      ∃ n object, (s.perform display call).2.trace = s.trace ++ List.replicate n (.used object) ∧
        (n = 0 ∨ s.handle.holds object = true) := by
  cases call with
  | read reader nrBytes =>
      have holds_eq := holds_read s.handle reader nrBytes
      have held := held_of_read s.handle reader nrBytes
      simp only [perform]
      generalize s.handle.read reader nrBytes = read at holds_eq held
      obtain ⟨calls, result, handle⟩ := read
      cases result with
      | ok read => exact ⟨holds_eq, calls.length, .reader, by simp, held⟩
      | error e => exact ⟨holds_eq, calls.length, .reader, by simp, held⟩
  | readAt reader nrBytes location =>
      have held := held_of_readAt s.handle reader nrBytes location
      simp only [perform]
      generalize s.handle.readAt reader nrBytes location = read at held
      obtain ⟨calls, result⟩ := read
      cases result with
      | ok bytes => exact ⟨rfl, calls.length, .reader, by simp, held⟩
      | error e => exact ⟨rfl, calls.length, .reader, by simp, held⟩
  | write answer buffer nrBytes =>
      have holds_eq := holds_write s.handle display answer buffer nrBytes s.file
      simp only [perform]
      generalize s.handle.write display answer buffer nrBytes s.file = write at holds_eq
      obtain ⟨result, handle, file⟩ := write
      refine ⟨by cases result <;> exact holds_eq, ?_⟩
      cases holds : s.handle.writer with
      | true => exact ⟨1, .writer, by cases result <;> simp, .inr holds⟩
      | false => exact ⟨0, .writer, by cases result <;> simp, .inl rfl⟩
  | close answer => exact absurd rfl (not_close answer)
  | seek location =>
      have holds_eq : (s.handle.seek location).holds = s.handle.holds := by
        funext object
        cases object <;> rfl
      exact ⟨holds_eq, 0, .reader, by simp [perform], .inl rfl⟩
  | reset =>
      have holds_eq : s.handle.reset.holds = s.handle.holds := by
        funext object
        cases object <;> rfl
      exact ⟨holds_eq, 0, .reader, by simp [perform], .inl rfl⟩
  | _ => exact ⟨rfl, 0, .reader, by simp [perform, HdfsFileHandle.writeAt], .inl rfl⟩

theorem perform_close (display : HdfsError → Text) (s : FileLife) (answer : CloseAnswer) :
    (s.perform display (.close answer)).2 = (s.close display answer).2 := by
  simp only [perform]
  split <;> simp_all

theorem performAll_cons (display : HdfsError → Text) (s : FileLife) (call : HandleCall)
    (calls : List HandleCall) :
    s.performAll display (call :: calls) =
      ((s.perform display call).1 :: ((s.perform display call).2.performAll display calls).1,
        ((s.perform display call).2.performAll display calls).2) := rfl

theorem performAll_append (display : HdfsError → Text) (s : FileLife)
    (before after : List HandleCall) :
    s.performAll display (before ++ after) =
      ((s.performAll display before).1 ++
          ((s.performAll display before).2.performAll display after).1,
        ((s.performAll display before).2.performAll display after).2) := by
  induction before generalizing s with
  | nil => rfl
  | cons call before ih => simp [performAll_cons, ih]

theorem Kept.perform (kept : Kept object s) (display : HdfsError → Text) (call : HandleCall) :
    Kept object (s.perform display call).2 := by
  by_cases closing : ∃ answer, call = .close answer
  · obtain ⟨answer, rfl⟩ := closing
    rw [perform_close]
    exact kept.close
  · obtain ⟨holds_eq, n, other, trace_eq, held⟩ :=
      perform_uses display s call (not_exists.mp closing)
    exact kept.used holds_eq trace_eq held

theorem Kept.performAll (kept : Kept object s) (display : HdfsError → Text)
    (calls : List HandleCall) : Kept object (s.performAll display calls).2 := by
  induction calls generalizing s with
  | nil => exact kept
  | cons call calls ih => exact ih (kept.perform display call)

theorem perform_of_closed (closed : s.Closed) (display : HdfsError → Text) (call : HandleCall) :
    call.Idle (s.perform display call).1 ∧ (s.perform display call).2.Closed ∧
      (s.perform display call).2.file = s.file := by
  have no_reader : s.handle.reader = false := closed .reader
  have no_writer : s.handle.writer = false := closed .writer
  cases call with
  | close answer =>
      simp only [perform, close_of_closed closed]
      exact ⟨rfl, closed, trivial⟩
  | read reader nrBytes =>
      rcases read_of_none reader nrBytes no_reader with nothing | ⟨e, nothing⟩
      · simp only [perform, nothing]
        exact ⟨.inl rfl, closed, trivial⟩
      · simp only [perform, nothing]
        exact ⟨.inr ⟨e, rfl⟩, closed, trivial⟩
  | readAt reader nrBytes location =>
      obtain ⟨e, nothing⟩ := readAt_of_none reader nrBytes location no_reader
      simp only [perform, nothing]
      exact ⟨⟨e, rfl⟩, closed, trivial⟩
  | write answer buffer nrBytes =>
      obtain ⟨e, nothing⟩ := write_of_none display answer buffer nrBytes s.file no_writer
      simp only [perform, nothing]
      exact ⟨⟨e, rfl⟩, closed, trivial⟩
  | writeAt _ _ _ => exact ⟨⟨_, rfl⟩, closed, rfl⟩
  | seek _ => exact ⟨trivial, fun object => by cases object <;> assumption, rfl⟩
  | reset => exact ⟨trivial, fun object => by cases object <;> assumption, rfl⟩
  | _ => exact ⟨trivial, closed, rfl⟩

theorem performAll_of_closed (closed : s.Closed) (display : HdfsError → Text)
    (calls : List HandleCall) :
    List.Forall₂ HandleCall.Idle calls (s.performAll display calls).1 ∧
      (s.performAll display calls).2.Closed ∧ (s.performAll display calls).2.file = s.file := by
  induction calls generalizing s with
  | nil => exact ⟨.nil, closed, rfl⟩
  | cons call calls ih =>
      obtain ⟨idle, still, file_eq⟩ := perform_of_closed closed display call
      obtain ⟨idles, last, files_eq⟩ := ih still
      exact ⟨.cons idle idles, last, files_eq.trans file_eq⟩

/-- The object of an opened handle is freed exactly once and not used afterwards, whatever is called
before the destructor.  From the first `Close` on nothing is transferred, the file stays as
that `Close` has left it, and any further `Close` does nothing. -/
theorem releases_once (opened : Opened object s) (display : HdfsError → Text)
    (calls : List HandleCall) (answer : CloseAnswer) :
    (∃ n, ((s.performAll display calls).2.destroy display answer).trace =
        .opened object :: List.replicate n (.used object) ++ [.freed object]) ∧
      ∀ (before after : List HandleCall) (first : CloseAnswer),
        calls = before ++ .close first :: after →
          let closed := ((s.performAll display before).2.close display first).2
          List.Forall₂ HandleCall.Idle after (closed.performAll display after).1 ∧
            ((s.performAll display calls).2.destroy display answer).file = closed.file := by
  constructor
  · rw [destroy]
    exact (opened.kept.performAll display calls).close.trace_of_closed (closed_close _ _ _)
  · rintro before after first rfl closed
    have is_closed : closed.Closed := closed_close display (s.performAll display before).2 first
    obtain ⟨idle, still, file_eq⟩ := performAll_of_closed is_closed display after
    refine ⟨idle, ?_⟩
    rw [performAll_append, performAll_cons, perform_close, destroy, close_of_closed still]
    exact file_eq

/-- A writer whose flush fails, and which is closed and written to once more before the
destructor. -/
theorem releases_once_failedFlush :
    (∃ n, (((openWriter "/d/x".toList).performAll (fun _ => [])
        [.write .written (fun _ => 97) 1, .close (.failed [] .noSaslMechanism), .close .closed,
          .write .written (fun _ => 98) 1]).2.destroy (fun _ => []) .closed).trace =
        .opened .writer :: List.replicate n (.used .writer) ++ [.freed .writer]) ∧
      (((openWriter "/d/x".toList).performAll (fun _ => [])
        [.write .written (fun _ => 97) 1, .close (.failed [] .noSaslMechanism), .close .closed,
          .write .written (fun _ => 98) 1]).2.destroy (fun _ => []) .closed).file = [] := by
  obtain ⟨freed, settled⟩ := releases_once (.writer "/d/x".toList) (fun _ => [])
    [.write .written (fun _ => 97) 1, .close (.failed [] .noSaslMechanism), .close .closed,
      .write .written (fun _ => 98) 1] .closed
  exact ⟨freed, (settled [.write .written (fun _ => 97) 1] _ (.failed [] .noSaslMechanism) rfl).2⟩

end FileLife

/-! ## What has been written -/

/-- A write that fails leaves none of its bytes. -/
def HandleCall.LeavesNothing : HandleCall → Prop
  | .write (.failed stored _) _ _ => stored = 0
  | _ => True

/-- The call is a `Close`. -/
def HandleCall.Closes : HandleCall → Prop
  | .close _ => True
  | _ => False

instance : DecidablePred HandleCall.Closes
  | .close _ => .isTrue trivial
  | .read _ _ | .readAt _ _ _ | .write _ _ _ | .writeAt _ _ _ | .seek _ | .reset | .seekPosition
  | .getFileSize => .isFalse id

/-- The bytes that a write has accepted. -/
def accepted : HandleCall × HandleReply → List UInt8
  | (.write _ buffer _, .wrote count) => buffer.bytes count.toNatClampNeg
  | _ => []

namespace FileLife

variable {display : HdfsError → Text} {s : FileLife} {call : HandleCall} {calls : List HandleCall}

/-- The bytes that the writes among the calls on a new file have accepted, in order. -/
def acceptedBytes (display : HdfsError → Text) (path : Text) (calls : List HandleCall) :
    List UInt8 :=
  (calls.zip ((openWriter path).performAll display calls).1).flatMap accepted

/-- What is in a new file after the calls and the destruction of its handle. -/
def finishedFile (display : HdfsError → Text) (path : Text) (calls : List HandleCall)
    (answer : CloseAnswer) : List UInt8 :=
  (((openWriter path).performAll display calls).2.destroy display answer).file

theorem file_close {answer : CloseAnswer} (returned : (s.close display answer).1 = .ok ()) :
    (s.close display answer).2.file = s.file := by
  unfold close closeWriter closeReader at *
  cases answer <;> split <;> split <;> simp_all [bridgeCloseWriter]

theorem file_perform (nothing_left : call.LeavesNothing)
    (returned : call.Closes → (s.perform display call).1 = .done) :
    (s.perform display call).2.file = s.file ++ accepted (call, (s.perform display call).1) := by
  cases call with
  | write answer buffer nrBytes =>
      by_cases writer : s.handle.writer = true
      · by_cases negative : nrBytes < 0
        · simp [perform, HdfsFileHandle.write, bridgeWrite, writer, negative, accepted]
        · cases answer with
          | written => simp [perform, HdfsFileHandle.write, bridgeWrite, writer, negative, accepted]
          | failed stored e =>
              obtain rfl : stored = 0 := nothing_left
              simp [perform, HdfsFileHandle.write, bridgeWrite, writer, negative, accepted]
      · obtain ⟨e, nothing⟩ := write_of_none display answer buffer nrBytes s.file
          (Bool.eq_false_iff.mpr writer)
        simp [perform, nothing, accepted]
  | close answer =>
      have done := returned trivial
      have nothing : accepted (.close answer, (s.perform display (.close answer)).1) = [] := rfl
      rw [perform_close, nothing, List.append_nil]
      apply file_close
      simp only [perform] at done
      split at done
      · simp_all
      · contradiction
  | read reader nrBytes =>
      simp only [perform]
      split <;> simp [accepted]
  | readAt reader nrBytes location =>
      simp only [perform]
      split <;> simp [accepted]
  | _ => simp [perform, accepted, HdfsFileHandle.writeAt]

theorem file_performAll (nothing_left : ∀ call ∈ calls, call.LeavesNothing)
    (returned : ∀ pair ∈ calls.zip (s.performAll display calls).1, pair.1.Closes → pair.2 = .done) :
    (s.performAll display calls).2.file =
      s.file ++ (calls.zip (s.performAll display calls).1).flatMap accepted := by
  induction calls generalizing s with
  | nil => simp [performAll]
  | cons call calls ih =>
      rw [performAll_cons, List.zip_cons_cons] at returned ⊢
      rw [List.forall_mem_cons] at nothing_left returned
      rw [ih nothing_left.2 returned.2, file_perform nothing_left.1 returned.1,
        List.flatMap_cons, List.append_assoc]

theorem closed_performAll (closes : ∃ call ∈ calls, call.Closes) :
    (s.performAll display calls).2.Closed := by
  obtain ⟨call, mem, closes⟩ := closes
  obtain ⟨before, after, rfl⟩ := List.append_of_mem mem
  cases call with
  | close first =>
      rw [performAll_append, performAll_cons, perform_close]
      exact (performAll_of_closed (closed_close _ _ _) display after).2.1
  | _ => exact closes.elim

/-- If every `Close` returns and there is one, the finished file is what the writes accepted. -/
theorem finishedFile_eq {path : Text} (nothing_left : ∀ call ∈ calls, call.LeavesNothing)
    (closes : ∃ call ∈ calls, call.Closes)
    (returned : ∀ pair ∈ calls.zip ((openWriter path).performAll display calls).1,
      pair.1.Closes → pair.2 = .done) (answer : CloseAnswer) :
    finishedFile display path calls answer = acceptedBytes display path calls := by
  rw [finishedFile, destroy, close_of_closed (closed_performAll closes),
    file_performAll nothing_left returned]
  rfl

/-- What is written is read back.  The calls on a new file write, seek and close in any order; as
long as failed writes leave nothing and every `Close` returns, a scan of the finished file, up to
a read that finds nothing more, yields the bytes of the accepted writes in order. -/
theorem read_back {path : Text} (nothing_left : ∀ call ∈ calls, call.LeavesNothing)
    (closes : ∃ call ∈ calls, call.Closes)
    (returned : ∀ pair ∈ calls.zip ((openWriter path).performAll display calls).1,
      pair.1.Closes → pair.2 = .done)
    (answer : CloseAnswer) {opening : FileReader}
    (length_eq : opening.fileLength.toNat = (finishedFile display path calls answer).length)
    (bounded : (finishedFile display path calls answer).length < 2 ^ 63)
    {reads : List (FileReader × Int64)}
    (each : ∀ read ∈ reads, read.1.Serves (finishedFile display path calls answer) ∧ 0 ≤ read.2) :
    let replies := ((HdfsFileHandle.openReader path opening).performAll (scan reads)).1
    replies.flatMap FileReply.scanned <+: acceptedBytes display path calls ∧
      ∀ (i : Nat) (reader : FileReader) (nrBytes : Int64) (bytes : List UInt8),
        reads[i]? = some (reader, nrBytes) → 0 < nrBytes → replies[i]? = some (.counted 0 bytes) →
          replies.flatMap FileReply.scanned = acceptedBytes display path calls := by
  intro replies
  rw [finishedFile_eq nothing_left closes returned] at length_eq bounded each
  have calls_each : ∀ call ∈ scan reads,
      call.1.Serves (acceptedBytes display path calls) ∧ call.2.Requests := by
    intro call mem
    obtain ⟨read, read_mem, rfl⟩ := List.mem_map.mp mem
    exact each read read_mem
  obtain ⟨final, run, -⟩ :=
    refines_performAll bounded calls_each (refines_openReader bounded path length_eq)
  obtain ⟨-, -, bytes_eq⟩ := run.scanned (Nat.zero_le _)
  rw [List.drop_zero, Nat.sub_zero] at bytes_eq
  refine ⟨bytes_eq ▸ List.take_prefix _ _, fun i reader nrBytes bytes read positive nothing => ?_⟩
  have all := run.scanned_all (Nat.zero_le _) read positive nothing
  exact bytes_eq.trans (by rw [all, List.take_length])

/-- Two letters, written around a move of the cursor to the start. -/
def twoWrites : List HandleCall :=
  [.write .written (fun _ => 97) 1, .seek 0, .write .written (fun _ => 98) 1, .close .closed]

/-- A reader of the two letters. -/
def twoLetters : FileReader where
  display _ := []
  fileLength := 2
  readRangeBuf len offset := .ok (([97, 98].drop offset.toNat).take len)

/-- The scan of a file that was written around a move of the cursor. -/
theorem read_back_twoWrites :
    ((HdfsFileHandle.openReader "/d/x".toList twoLetters).performAll
      (scan [(twoLetters, 5), (twoLetters, 5)])).1.flatMap FileReply.scanned =
        acceptedBytes (fun _ => []) "/d/x".toList twoWrites := by
  have serves : twoLetters.Serves [97, 98] := by
    intro len offset bytes read
    unfold bridgeReadRange at read
    split at read
    · simp at read
    · exact (Except.ok.inj read).symm
  have each : ∀ read ∈ [(twoLetters, (5 : Int64)), (twoLetters, 5)],
      read.1.Serves [97, 98] ∧ 0 ≤ read.2 := by
    intro read mem
    simp only [List.mem_cons, List.not_mem_nil, or_false, or_self] at mem
    obtain rfl := mem
    exact ⟨serves, by decide⟩
  have nothing_left : ∀ call ∈ twoWrites, call.LeavesNothing := by
    simp [twoWrites, HandleCall.LeavesNothing]
  exact (@read_back (fun _ => []) twoWrites "/d/x".toList nothing_left
    ⟨.close .closed, by simp [twoWrites], trivial⟩ (by decide) .closed twoLetters (by decide)
    (by decide) _ each).2 1 twoLetters 5 [] rfl (by decide) (by decide)

end FileLife
end DuckdbHdfs
