import Mathlib.Data.List.Infix

/-!
# Bridge errors and their categories

An `HdfsError` of the client library crosses the FFI boundary as one status category.  The
variants `classify` inspects keep their payload; every variant it sends to its catch-all arm is
an `other`.
-/

namespace DuckdbHdfs

/-- Text of the bridge and of the file system, as its sequence of characters. -/
abbrev Text := List Char

/-- The `std::io::ErrorKind`s the bridge tells apart. -/
inductive ErrorKind
  | notFound
  | permissionDenied
  | alreadyExists
  | connectionRefused
  | connectionReset
  | connectionAborted
  | notConnected
  | brokenPipe
  | timedOut
  | unexpectedEof
  /-- Any kind the bridge does not name. -/
  | other (name : Text)
  deriving DecidableEq, Repr

/-- A `std::io::Error`: its kind and its message. -/
structure IoError where
  /-- The kind `classifyIo` looks at. -/
  kind : ErrorKind
  /-- The text shown to the user. -/
  message : Text
  deriving DecidableEq, Repr

/-- The errors of the `hdfs-native` client, as far as the bridge distinguishes them. -/
inductive HdfsError
  | fileNotFound (path : Text)
  | alreadyExists (path : Text)
  | invalidPath (message : Text)
  | invalidArgument (message : Text)
  | urlParseError (message : Text)
  /-- A server-side exception: Java class name and message. -/
  | rpcError (className message : Text)
  | fatalRpcError (className message : Text)
  | saslError (message : Text)
  | gssapiError (message : Text)
  | noSaslMechanism
  | dataTransferError (message : Text)
  | blocksNotFound (path : Text)
  | ioError (io : IoError)
  /-- Every variant that falls through to the catch-all arm of `classify`. -/
  | other (variant message : Text)
  deriving DecidableEq, Repr

/-- The categories carried in `Status::code`. -/
inductive StatusCode
  | ok
  | io
  | notFound
  | permission
  | alreadyExists
  | connection
  | invalidArgument
  deriving DecidableEq, Repr

/-- Substring test, `str::contains`. -/
def contains (text needle : Text) : Bool :=
  decide (needle <:+: text)

/-- Classify a Hadoop server-side exception by its Java class name. -/
def classifyRpc (className : Text) : StatusCode :=
  if contains className "AccessControlException".toList ||
      contains className "SecurityException".toList then
    .permission
  else if contains className "FileNotFoundException".toList then
    .notFound
  else if contains className "FileAlreadyExistsException".toList ||
      contains className "AlreadyBeingCreated".toList then
    .alreadyExists
  else if contains className "StandbyException".toList ||
      contains className "RetriableException".toList then
    .connection
  else
    .io

/-- Classify a transport-level I/O error by its kind. -/
def classifyIo (io : IoError) : StatusCode :=
  match io.kind with
  | .notFound => .notFound
  | .permissionDenied => .permission
  | .alreadyExists => .alreadyExists
  | .connectionRefused
  | .connectionReset
  | .connectionAborted
  | .notConnected
  | .brokenPipe
  | .timedOut
  | .unexpectedEof => .connection
  | .other _ => .io

/-- Map a client error to its status category. -/
def classify : HdfsError → StatusCode
  | .fileNotFound _ => .notFound
  | .alreadyExists _ => .alreadyExists
  | .invalidPath _ | .invalidArgument _ | .urlParseError _ => .invalidArgument
  | .rpcError className _ | .fatalRpcError className _ => classifyRpc className
  | .saslError _ | .gssapiError _ | .noSaslMechanism | .dataTransferError _
  | .blocksNotFound _ => .connection
  | .ioError io => classifyIo io
  | .other _ _ => .io

/-- Whether an error is a permission failure, the class the walkers may prune. -/
def isPermission (err : HdfsError) : Bool :=
  classify err = .permission

theorem classifyRpc_ne_ok (className : Text) : classifyRpc className ≠ .ok := by
  unfold classifyRpc
  split_ifs <;> simp

theorem classifyIo_ne_ok (io : IoError) : classifyIo io ≠ .ok := by
  unfold classifyIo
  split <;> simp

theorem classify_ne_ok (err : HdfsError) : classify err ≠ .ok := by
  cases err with
  | rpcError className _ => exact classifyRpc_ne_ok className
  | fatalRpcError className _ => exact classifyRpc_ne_ok className
  | ioError io => exact classifyIo_ne_ok io
  | _ => simp [classify]

end DuckdbHdfs
