import DuckdbHdfs.Library.Words
import DuckdbHdfs.Status

/-!
# The database

What the extension takes from the database: the rows of a chunk, and timestamps made of the
milliseconds that a NameNode reports.  A time that is no timestamp is an exception of its own.
-/

namespace DuckdbHdfs

universe u

/-- An exception that ends a call of the database. -/
inductive Thrown
  | fileSystem (e : Exception)
  /-- A time that is no timestamp. -/
  | conversion (message : Text)
  deriving DecidableEq, Repr

/-- What the extension uses of the database. -/
structure Database (τ : Type u) where
  /-- Rows of a chunk, `STANDARD_VECTOR_SIZE`. -/
  standardVectorSize : Nat
  vectorSize_pos : 1 ≤ standardVectorSize
  vectorSize_lt : standardVectorSize < 2 ^ 31
  /-- `Timestamp::FromEpochMs`, or the message of the exception it throws. -/
  fromEpochMs : Int64 → Except Text τ

/-- Convert a time, or throw. -/
def timestamp {τ : Type u} (db : Database τ) (ms : UInt64) : Except Thrown τ :=
  match db.fromEpochMs ms.toInt64 with
  | .ok time => .ok time
  | .error message => .error (.conversion message)

/-- A database whose timestamps are microseconds in a 64-bit integer. -/
def Database.microseconds : Database Int64 where
  standardVectorSize := 2048
  vectorSize_pos := by decide
  vectorSize_lt := by decide
  fromEpochMs ms :=
    if -2 ^ 63 ≤ ms.toInt * 1000 ∧ ms.toInt * 1000 < 2 ^ 63 then
      .ok (ms * 1000)
    else
      .error "Could not convert Timestamp(MS) to Timestamp(US)".toList

/-- The first milliseconds that are no timestamp. -/
example : timestamp .microseconds 9223372036854775 = .ok 9223372036854775000 ∧
    timestamp .microseconds 9223372036854776 =
      .error (.conversion "Could not convert Timestamp(MS) to Timestamp(US)".toList) := by
  decide +kernel

end DuckdbHdfs
