import Mathlib.Algebra.Group.Nat.Defs
import Mathlib.Data.Nat.Notation
import Mathlib.Tactic.TypeStar

/-!
# Messages

The protocol buffer messages of the metadata nodes and the data nodes.  A default value is what an
unset field reads as, and `optional` fields are options.

A command is serialized into the `bytes` field of its log entry.  Everybody reads
that field through `ParseFromString`, so it is kept as the result of parsing, with
`none` for bytes that are no `EntryCommand`.
-/

namespace Vosfs.Raft

/-- Arithmetic of `uint64_t`. -/
def u64 (n : ℕ) : ℕ :=
  n % 2 ^ 64

/-- How a request ended. -/
inductive StatusCode
  | ok
  | failed
  | invalidArgument
  | internal
  | permissionDenied
  | notLeader
  deriving DecidableEq, Repr

/-- The errors of the persister and of file operations. -/
inductive Error
  | databaseQueryFailed
  | fileOpenFailed
  | fileWriteFailed
  | fileRenameFailed
  | fileError
  | parseFailed
  | fileSeekFailed
  | fileReadFailed
  deriving DecidableEq, Repr

/-! ## The file system -/

/-- A block of a file, and the data nodes that store it. -/
structure BlockInfo where
  id : ℕ := 0
  ino : ℕ := 0
  offset : ℕ := 0
  size : ℕ := 0
  dataNodeId : List ℕ := []
  deriving DecidableEq, Repr

/-- A name in the tree. -/
structure DirEntry where
  ino : ℕ := 0
  name : String := ""
  path : String := ""
  isDir : Bool := false
  size : ℕ := 0
  ctime : ℕ := 0
  mtime : ℕ := 0
  deriving DecidableEq, Repr

/-- A file with its blocks, or a directory with its children. -/
structure Inode where
  ino : ℕ := 0
  isDir : Bool := false
  size : ℕ := 0
  ctime : ℕ := 0
  mtime : ℕ := 0
  nlink : ℕ := 0
  blocks : List BlockInfo := []
  dirEntries : List DirEntry := []
  deriving DecidableEq, Repr

/-- A client lists a directory. -/
structure ListDirRequest where
  token : String := ""
  path : String := ""
  deriving DecidableEq, Repr

/-- The children of the directory. -/
structure ListDirResponse where
  statusCode : StatusCode := .ok
  message : String := ""
  path : String := ""
  dirEntries : List DirEntry := []
  deriving DecidableEq, Repr

/-- A client makes a directory; the leader fills in the time. -/
structure MakeDirRequest where
  token : String := ""
  parentPath : String := ""
  name : String := ""
  timestamp : ℕ := 0
  deriving DecidableEq, Repr

/-- The outcome, once the entry is applied. -/
structure MakeDirResponse where
  statusCode : StatusCode := .ok
  message : String := ""
  parentPath : String := ""
  deriving DecidableEq, Repr

/-- A client asks for a number and for data nodes, with a block for each piece of its file. -/
structure PrepareUploadFileRequest where
  token : String := ""
  localPath : String := ""
  remotePath : String := ""
  blocks : List BlockInfo := []
  deriving DecidableEq, Repr

/-- The same blocks, with the number and the data nodes. -/
structure PrepareUploadFileResponse where
  statusCode : StatusCode := .ok
  message : String := ""
  localPath : String := ""
  remotePath : String := ""
  blocks : List BlockInfo := []
  deriving DecidableEq, Repr

/-- A client asks where the blocks of a file are. -/
structure PrepareDownloadFileRequest where
  token : String := ""
  localPath : String := ""
  remotePath : String := ""
  deriving DecidableEq, Repr

/-- The blocks of the file. -/
structure PrepareDownloadFileResponse where
  statusCode : StatusCode := .ok
  message : String := ""
  localPath : String := ""
  remotePath : String := ""
  blocks : List BlockInfo := []
  deriving DecidableEq, Repr

/-- A client publishes a file whose blocks are stored. -/
structure UploadFileRequest where
  token : String := ""
  ino : ℕ := 0
  path : String := ""
  blocks : List BlockInfo := []
  deriving DecidableEq, Repr

/-- The outcome, once the entry is applied. -/
structure UploadFileResponse where
  statusCode : StatusCode := .ok
  message : String := ""
  ino : ℕ := 0
  deriving DecidableEq, Repr

/-- A client stores a block on a data node. -/
structure UploadBlockRequest where
  token : String := ""
  blockId : ℕ := 0
  ino : ℕ := 0
  data : List UInt8 := []
  deriving DecidableEq, Repr

/-- The data node that answers, and whether it stored the block. -/
structure UploadBlockResponse where
  statusCode : StatusCode := .ok
  message : String := ""
  blockId : ℕ := 0
  ino : ℕ := 0
  dataNodeId : ℕ := 0
  deriving DecidableEq, Repr

/-- A client reads a block from a data node. -/
structure DownloadBlockRequest where
  token : String := ""
  blockId : ℕ := 0
  ino : ℕ := 0
  deriving DecidableEq, Repr

/-- The data of the block. -/
structure DownloadBlockResponse where
  statusCode : StatusCode := .ok
  message : String := ""
  blockId : ℕ := 0
  ino : ℕ := 0
  dataNodeId : ℕ := 0
  data : List UInt8 := []
  deriving DecidableEq, Repr

/-- What a log entry asks for, a `oneof`. -/
inductive EntryCommand
  | notSet
  | mkdir (request : MakeDirRequest)
  | uploadFile (request : UploadFileRequest)
  deriving DecidableEq, Repr

/-- The response to a suspended client, a `oneof`. -/
inductive PendingResponse
  | notSet
  | mkdir (response : MakeDirResponse)
  | uploadFile (response : UploadFileResponse)
  deriving DecidableEq, Repr

/-- `mutable_mkdir()`: switches the `oneof` to a default response if need be. -/
def PendingResponse.mutableMkdir : PendingResponse → MakeDirResponse
  | .mkdir response => response
  | _ => {}

/-- `mutable_upload_file()`, likewise. -/
def PendingResponse.mutableUploadFile : PendingResponse → UploadFileResponse
  | .uploadFile response => response
  | _ => {}

/-! ## Raft -/

/-- What a node has to remember over a restart, besides its log. -/
structure HardState where
  currentTerm : ℕ := 0
  votedFor : Option ℕ := none
  deriving DecidableEq, Repr

/-- An entry of the log. -/
structure LogEntry where
  term : ℕ := 0
  index : ℕ := 0
  command : Option EntryCommand := some .notSet
  deriving DecidableEq, Repr

/-- A candidate asks for a vote, and describes the end of its log. -/
structure RequestVoteRequest where
  term : ℕ := 0
  candidateId : ℕ := 0
  lastLogIndex : ℕ := 0
  lastLogTerm : ℕ := 0
  deriving DecidableEq, Repr

/-- A vote, or a refusal. -/
structure RequestVoteResponse where
  id : ℕ := 0
  term : ℕ := 0
  voteGranted : Bool := false
  deriving DecidableEq, Repr

/-- A leader sends entries, or a heartbeat without any. -/
structure AppendEntriesRequest where
  term : ℕ := 0
  leaderId : ℕ := 0
  prevLogIndex : ℕ := 0
  prevLogTerm : ℕ := 0
  entries : List LogEntry := []
  leaderCommit : ℕ := 0
  deriving DecidableEq, Repr

/-- The follower's last index on success, and otherwise where the leader should go on. -/
structure AppendEntriesResponse where
  id : ℕ := 0
  term : ℕ := 0
  success : Bool := false
  lastLogIndex : ℕ := 0
  conflictIndex : Option ℕ := none
  deriving DecidableEq, Repr

/-- The tree of names, and the last entry it includes. -/
structure Snapshot where
  lastIncludedIndex : ℕ := 0
  lastIncludedTerm : ℕ := 0
  inodes : List Inode := []
  dirEntries : List DirEntry := []
  deriving DecidableEq, Repr

/-- A leader sends a chunk of its snapshot file. -/
structure InstallSnapshotRequest where
  term : ℕ := 0
  leaderId : ℕ := 0
  lastIncludedIndex : ℕ := 0
  lastIncludedTerm : ℕ := 0
  offset : ℕ := 0
  data : List UInt8 := []
  done : Bool := false
  deriving DecidableEq, Repr

/-- The term of the receiver, and nothing about the chunk. -/
structure InstallSnapshotResponse where
  id : ℕ := 0
  term : ℕ := 0
  deriving DecidableEq, Repr

/-- What the code takes from protocol buffers and from the standard library: the
encoding of a snapshot, and `std::hash<uint64_t>`. -/
class Platform where
  serializeAsString : Snapshot → List UInt8
  parseFromString : List UInt8 → Option Snapshot
  hash : ℕ → ℕ

/-- A platform for runs in which snapshots are neither taken nor read. -/
@[reducible] def plainPlatform : Platform :=
  ⟨fun _ => [], fun _ => none, id⟩

end Vosfs.Raft
