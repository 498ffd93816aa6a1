import DuckdbHdfs.Errors

/-!
# Status of a bridge call

Every fallible call of the bridge writes a category and a message into a status, which the file
system resets before each attempt.
-/

namespace DuckdbHdfs

/-- A client, identified by the connect that made it. -/
abbrev ClientId := Nat

/-- The status of the last bridge call. -/
structure BridgeStatus where
  code : StatusCode
  msg : Option Text
  deriving DecidableEq, Repr

namespace BridgeStatus

/-- The status before a call. -/
def reset : BridgeStatus where
  code := .ok
  msg := none

def ok (status : BridgeStatus) : Bool :=
  status.code = .ok

def isNotFound (status : BridgeStatus) : Bool :=
  status.code = .notFound

def isConnection (status : BridgeStatus) : Bool :=
  status.code = .connection

/-- The message of the status, for an exception. -/
def message (status : BridgeStatus) : Text :=
  status.msg.getD "unknown error".toList

end BridgeStatus

/-- An exception of the file system. -/
inductive Exception
  | io (message : Text)
  | notImplemented (message : Text)
  deriving DecidableEq, Repr

/-- Write a category and a message; interior NULs become spaces. -/
def setStatus (code : StatusCode) (msg : Text) : BridgeStatus where
  code := code
  msg := some (msg.map fun c => if c = '\x00' then ' ' else c)

/-- Write a classified error with a context in front; `display` is the library's text of it. -/
def setError (display : HdfsError → Text) (context : Text) (err : HdfsError) : BridgeStatus :=
  setStatus (classify err) (context ++ ": ".toList ++ display err)

@[simp]
theorem ok_reset : BridgeStatus.reset.ok = true := rfl

@[simp]
theorem ok_setError (display : HdfsError → Text) (context : Text) (err : HdfsError) :
    (setError display context err).ok = false := by
  simp [setError, setStatus, BridgeStatus.ok, classify_ne_ok]

@[simp]
theorem isConnection_setError (display : HdfsError → Text) (context : Text) (err : HdfsError) :
    (setError display context err).isConnection = decide (classify err = .connection) := rfl

end DuckdbHdfs
