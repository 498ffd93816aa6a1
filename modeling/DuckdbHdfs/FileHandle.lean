import DuckdbHdfs.Library.Words
import DuckdbHdfs.Status

/-!
# File handles

An open file has a cursor and a length, which the streaming calls of the file system keep in step
with what the bridge reads and writes.  Reads pass ranges of the file to the bridge; HDFS files
can only be appended to, so a write goes to the end.
-/

namespace DuckdbHdfs

/-- An open file.  Its reader or its writer is set, depending on how it was opened. -/
structure HdfsFileHandle where
  path : Text
  reader : Bool
  writer : Bool
  /-- Cursor for the streaming interface. -/
  position : UInt64
  /-- Cached length for readers; bytes written so far for writers. -/
  length : UInt64
  deriving DecidableEq, Repr

/-- A number in a message. -/
def decimal (n : Int) : Text :=
  (toString n).toList

/-- A reader of the client library: the length it has cached, and how it fills a buffer of a given
length from an offset. -/
structure FileReader where
  display : HdfsError → Text
  fileLength : UInt64
  readRangeBuf : (len : Nat) → (offset : UInt64) → Except HdfsError (List UInt8)

/-- `hdfs_bridge_file_size` -/
def bridgeFileSize (reader : FileReader) : Int64 :=
  reader.fileLength.toInt64

/-- `hdfs_bridge_read_range`: the bytes it puts into the buffer, or the status it leaves. -/
def bridgeReadRange (reader : FileReader) (len : Int64) (offset : UInt64) :
    Except BridgeStatus (List UInt8) :=
  if len < 0 then
    .error (setStatus .invalidArgument "negative read length".toList)
  else
    match reader.readRangeBuf len.toNatClampNeg offset with
    | .ok bytes => .ok bytes
    | .error e =>
        .error (setError reader.display
          ("read at offset ".toList ++ decimal offset.toNat ++ " failed".toList) e)

/-- How the client library answers a write: a success is always a full write, and a failure may
leave some of the bytes in the file. -/
inductive WriteAnswer
  | written
  | failed (stored : Nat) (e : HdfsError)
  deriving DecidableEq, Repr

/-- A buffer in memory: the bytes from its start. -/
abbrev Buffer := Nat → UInt8

/-- The first bytes of a buffer. -/
def Buffer.bytes (buffer : Buffer) (count : Nat) : List UInt8 :=
  (List.range count).map buffer

/-- `hdfs_bridge_write`: the bytes written, or the status left, and the file afterwards. -/
def bridgeWrite (display : HdfsError → Text) (answer : WriteAnswer) (buffer : Buffer) (len : Int64)
    (file : List UInt8) : Except BridgeStatus Int64 × List UInt8 :=
  if len < 0 then
    (.error (setStatus .invalidArgument "negative write length".toList), file)
  else
    match answer with
    | .written => (.ok len, file ++ buffer.bytes len.toNatClampNeg)
    | .failed stored e =>
        (.error (setError display "write failed".toList e),
          file ++ (buffer.bytes len.toNatClampNeg).take stored)

namespace HdfsFileHandle

/-- The handle of a file opened for reading. -/
def openReader (path : Text) (reader : FileReader) : HdfsFileHandle where
  path
  reader := true
  writer := false
  position := 0
  length :=
    let size := bridgeFileSize reader
    if size < 0 then 0 else size.toUInt64

/-- The handle of a file opened for writing. -/
def openWriter (path : Text) : HdfsFileHandle where
  path
  reader := false
  writer := true
  position := 0
  length := 0

/-- A call of `hdfs_bridge_read_range`. -/
structure ReadCall where
  len : Int64
  offset : UInt64
  deriving DecidableEq, Repr

/-- Positional `Read`: the calls it makes, and the bytes it puts into the buffer. -/
def readAt (h : HdfsFileHandle) (reader : FileReader) (nrBytes : Int64) (location : UInt64) :
    List ReadCall × Except Exception (List UInt8) :=
  if !h.reader then
    ([], .error (.io ("File not opened for reading: ".toList ++ h.path)))
  else if nrBytes = 0 then
    ([], .ok [])
  else if location > h.length ∨ nrBytes.toUInt64 > h.length - location then
    ([], .error (.io
      ("Cannot read ".toList ++ decimal nrBytes.toInt ++ " bytes at offset ".toList ++
        decimal location.toNat ++ " from HDFS file '".toList ++ h.path ++ "' of size ".toList ++
        decimal h.length.toNat)))
  else
    ([⟨nrBytes, location⟩],
      match bridgeReadRange reader nrBytes location with
      | .ok bytes => .ok bytes
      | .error status => .error (.io
          ("Failed to read from HDFS file '".toList ++ h.path ++ "': ".toList ++ status.message)))

/-- How many bytes sequential `Read` asks for before the end of the file; the sum may wrap. -/
def toRead (h : HdfsFileHandle) (nrBytes : Int64) : Int64 :=
  if h.position + nrBytes.toUInt64 > h.length then
    (h.length - h.position).toInt64
  else
    nrBytes

/-- Sequential `Read`: the calls it makes, the number of bytes it returns with those it puts into
the buffer, and the handle afterwards. -/
def read (h : HdfsFileHandle) (reader : FileReader) (nrBytes : Int64) :
    List ReadCall × Except Exception (Int64 × List UInt8) × HdfsFileHandle :=
  if h.position ≥ h.length then
    ([], .ok (0, []), h)
  else if h.toRead nrBytes ≤ 0 then
    ([], .ok (0, []), h)
  else
    match h.readAt reader (h.toRead nrBytes) h.position with
    | (calls, .ok bytes) =>
        (calls, .ok (h.toRead nrBytes, bytes),
          { h with position := h.position + (h.toRead nrBytes).toUInt64 })
    | (calls, .error e) => (calls, .error e, h)

/-- Positional `Write`. -/
def writeAt (_h : HdfsFileHandle) (_buffer : Buffer) (_nrBytes : Int64) (_location : UInt64) :
    Except Exception Unit :=
  .error (.notImplemented
    "Random/positional writes are not supported on HDFS (append-only)".toList)

/-- Sequential `Write`: the number of bytes it returns, the handle and the file afterwards. -/
def write (h : HdfsFileHandle) (display : HdfsError → Text) (answer : WriteAnswer)
    (buffer : Buffer) (nrBytes : Int64) (file : List UInt8) :
    Except Exception Int64 × HdfsFileHandle × List UInt8 :=
  if !h.writer then
    (.error (.io ("File not opened for writing: ".toList ++ h.path)), h, file)
  else
    match bridgeWrite display answer buffer nrBytes file with
    | (.ok res, file) =>
        (.ok res,
          { h with position := h.position + res.toUInt64, length := h.length + res.toUInt64 },
          file)
    | (.error status, file) =>
        (.error (.io
          ("Failed to write to HDFS file '".toList ++ h.path ++ "': ".toList ++ status.message)),
          h, file)

def seek (h : HdfsFileHandle) (location : UInt64) : HdfsFileHandle :=
  { h with position := location }

def seekPosition (h : HdfsFileHandle) : UInt64 :=
  h.position

def reset (h : HdfsFileHandle) : HdfsFileHandle :=
  { h with position := 0 }

def getFileSize (h : HdfsFileHandle) : Int64 :=
  h.length.toInt64

end HdfsFileHandle
end DuckdbHdfs
