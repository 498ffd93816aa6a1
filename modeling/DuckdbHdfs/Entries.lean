import DuckdbHdfs.Paths

/-!
# Entries across the FFI boundary

A `FileStatus` of the client library becomes a `DirEntry` for C, and that an `HdfsEntry` of the
file system, with the authority put back in front of its path.
-/

namespace DuckdbHdfs

/-- Metadata of a path as the client library reports it. -/
structure FileStatus where
  path : Text
  length : UInt64
  isdir : Bool
  permission : UInt16
  owner : Text
  group : Text
  modificationTime : UInt64
  accessTime : UInt64
  replication : Option UInt32
  blocksize : Option UInt64
  deriving DecidableEq, Repr

/-- The names on the way to an entry. -/
def FileStatus.names (status : FileStatus) : List Text :=
  splitPath status.path

/-- The entry handed to C. -/
structure DirEntry where
  path : Text
  isDir : Bool
  length : Int64
  mtime : UInt64
  atime : UInt64
  owner : Text
  group : Text
  permission : UInt16
  /-- `-1` where it does not apply. -/
  replication : Int32
  /-- `-1` where it does not apply. -/
  blockSize : Int64
  deriving DecidableEq, Repr

/-- The entry the file system hands out. -/
structure HdfsEntry where
  url : Text
  name : Text
  isDir : Bool
  size : Int64
  owner : Text
  group : Text
  permission : UInt16
  replication : Int32
  blockSize : Int64
  mtime : UInt64
  atime : UInt64
  deriving DecidableEq, Repr

/-- An owned C string; text with an interior NUL becomes empty. -/
def toCString (s : Text) : Text :=
  if '\x00' ∈ s then [] else s

/-- What the bridge reads of a string it is passed: the text up to the first NUL. -/
def cStr (s : Text) : Text :=
  s.takeWhile (· ≠ '\x00')

/-- Convert a single status into an owned entry. -/
def statusToEntry (status : FileStatus) : DirEntry where
  path := toCString status.path
  isDir := status.isdir
  length := status.length.toInt64
  mtime := status.modificationTime
  atime := status.accessTime
  owner := toCString status.owner
  group := toCString status.group
  permission := status.permission
  replication :=
    if status.isdir then -1 else (status.replication.map UInt32.toInt32).getD (-1)
  blockSize := if status.isdir then -1 else (status.blocksize.map UInt64.toInt64).getD (-1)

/-- Split a path into its authority, empty for the default file system, and the path below it. -/
def parseHdfsPath (path : Text) : Text × Text :=
  let scheme := "hdfs://".toList
  if scheme <+: path then
    let rest := path.drop scheme.length
    let host := rest.takeWhile (· ≠ '/')
    let hdfsPath := rest.dropWhile (· ≠ '/')
    if hdfsPath = [] then
      (path, ['/'])
    else if host = [] then
      ([], hdfsPath)
    else
      (scheme ++ host, hdfsPath)
  else
    ([], path)

/-- Reattach an authority to a scheme-less path returned by the bridge. -/
def makeUrl (authority hdfsPath : Text) : Text :=
  let front := if authority = [] then "hdfs://".toList else authority
  match hdfsPath with
  | [] => front ++ ['/']
  | c :: _ => if c ≠ '/' then front ++ '/' :: hdfsPath else front ++ hdfsPath

/-- Map a bridge entry to a rich entry of the file system. -/
def makeHdfsEntry (authority : Text) (entry : DirEntry) : HdfsEntry where
  url := makeUrl authority entry.path
  name := baseName entry.path
  isDir := entry.isDir
  size := entry.length
  owner := entry.owner
  group := entry.group
  permission := entry.permission
  replication := entry.replication
  blockSize := entry.blockSize
  mtime := entry.mtime
  atime := entry.atime

end DuckdbHdfs
