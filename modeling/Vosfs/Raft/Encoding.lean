import Vosfs.Library.Wire
import Vosfs.Raft.Message

/-!
# The encoding of the messages

The formats of the messages that the metadata nodes store.  For each message `format` gives its
fields with their numbers, and `mergeFrom` is its `MergeImpl`.

The command of an entry is bytes within bytes: `EncodedEntry` is an entry as it is stored and sent,
and `EncodedEntry.entry` what the nodes make of it.
-/

namespace Vosfs.Raft

open Wire

variable [Runtime]

/-! ## The file system -/

namespace BlockInfo

/-- `BlockInfo` in `raft.proto`; the node numbers are written packed, and both forms are read. -/
def format : Format BlockInfo where
  cleared := {}
  fields := [
    .uint64 1 (.mk (·.id) fun x m => { m with id := x }),
    .uint64 2 (.mk (·.ino) fun x m => { m with ino := x }),
    .uint64 3 (.mk (·.offset) fun x m => { m with offset := x }),
    .uint64 4 (.mk (·.size) fun x m => { m with size := x }),
    .packed 5 (.mk (·.dataNodeId) fun x m => { m with dataNodeId := x }),
    .unpacked 5 (.mk (·.dataNodeId) fun x m => { m with dataNodeId := x })]

/-- `BlockInfo::MergeImpl`. -/
def mergeFrom (target source : BlockInfo) : BlockInfo where
  id := if source.id ≠ 0 then source.id else target.id
  ino := if source.ino ≠ 0 then source.ino else target.ino
  offset := if source.offset ≠ 0 then source.offset else target.offset
  size := if source.size ≠ 0 then source.size else target.size
  dataNodeId := target.dataNodeId ++ source.dataNodeId

theorem mergeFrom_format (target source : BlockInfo) :
    format.mergeFrom target source = target.mergeFrom source := by
  simp [Format.mergeFrom, format, mergeFrom, Field.merge_scalar, Field.uint64, Field.packed,
    Field.unpacked]

theorem lawful_format [LawfulRuntime] : (format : Format BlockInfo).Lawful where
  tags := rfl
  fields := by simp [format]
  copies m := by
    rw [mergeFrom_format]
    simp [mergeFrom, format]

end BlockInfo

namespace DirEntry

/-- `DirEntry` in `raft.proto`. -/
def format : Format DirEntry where
  cleared := {}
  fields := [
    .uint64 1 (.mk (·.ino) fun x m => { m with ino := x }),
    .string 2 (.mk (·.name) fun x m => { m with name := x }),
    .string 3 (.mk (·.path) fun x m => { m with path := x }),
    .bool 4 (.mk (·.isDir) fun x m => { m with isDir := x }),
    .uint64 5 (.mk (·.size) fun x m => { m with size := x }),
    .uint64 6 (.mk (·.ctime) fun x m => { m with ctime := x }),
    .uint64 7 (.mk (·.mtime) fun x m => { m with mtime := x })]

/-- `DirEntry::MergeImpl`. -/
def mergeFrom (target source : DirEntry) : DirEntry where
  ino := if source.ino ≠ 0 then source.ino else target.ino
  name := if source.name ≠ "" then source.name else target.name
  path := if source.path ≠ "" then source.path else target.path
  isDir := if source.isDir then source.isDir else target.isDir
  size := if source.size ≠ 0 then source.size else target.size
  ctime := if source.ctime ≠ 0 then source.ctime else target.ctime
  mtime := if source.mtime ≠ 0 then source.mtime else target.mtime

theorem mergeFrom_format (target source : DirEntry) :
    format.mergeFrom target source = target.mergeFrom source := by
  simp [Format.mergeFrom, format, mergeFrom, Field.merge_scalar, Field.uint64, Field.string,
    Field.bool]

theorem lawful_format [LawfulRuntime] : (format : Format DirEntry).Lawful where
  tags := rfl
  fields := by simp [format]
  copies m := by
    rw [mergeFrom_format]
    simp [mergeFrom, format]

end DirEntry

namespace Inode

/-- `Inode` in `raft.proto`. -/
def format : Format Inode where
  cleared := {}
  fields := [
    .uint64 1 (.mk (·.ino) fun x m => { m with ino := x }),
    -- `mode` is not kept
    .ignored 2,
    .bool 3 (.mk (·.isDir) fun x m => { m with isDir := x }),
    .uint64 4 (.mk (·.size) fun x m => { m with size := x }),
    .uint64 5 (.mk (·.ctime) fun x m => { m with ctime := x }),
    .uint64 6 (.mk (·.mtime) fun x m => { m with mtime := x }),
    .uint32 8 (.mk (·.nlink) fun x m => { m with nlink := x }),
    .message 9 BlockInfo.format (.mk (·.blocks) fun x m => { m with blocks := x }),
    .message 10 DirEntry.format (.mk (·.dirEntries) fun x m => { m with dirEntries := x })]

/-- `Inode::MergeImpl`. -/
def mergeFrom (target source : Inode) : Inode where
  ino := if source.ino ≠ 0 then source.ino else target.ino
  isDir := if source.isDir then source.isDir else target.isDir
  size := if source.size ≠ 0 then source.size else target.size
  ctime := if source.ctime ≠ 0 then source.ctime else target.ctime
  mtime := if source.mtime ≠ 0 then source.mtime else target.mtime
  nlink := if source.nlink ≠ 0 then source.nlink else target.nlink
  blocks := target.blocks ++ source.blocks
  dirEntries := target.dirEntries ++ source.dirEntries

theorem mergeFrom_format (target source : Inode) :
    format.mergeFrom target source = target.mergeFrom source := by
  simp [Format.mergeFrom, format, mergeFrom, Field.merge_scalar, Field.uint64, Field.ignored,
    Field.bool, Field.uint32, Field.message]

theorem lawful_format [LawfulRuntime] : (format : Format Inode).Lawful where
  tags := rfl
  fields := by simp [format, BlockInfo.lawful_format, DirEntry.lawful_format]
  copies m := by
    rw [mergeFrom_format]
    simp [mergeFrom, format]

end Inode

namespace MakeDirRequest

/-- `MakeDirRequest` in `raft.proto`. -/
def format : Format MakeDirRequest where
  cleared := {}
  fields := [
    .string 1 (.mk (·.token) fun x m => { m with token := x }),
    .string 2 (.mk (·.parentPath) fun x m => { m with parentPath := x }),
    .string 3 (.mk (·.name) fun x m => { m with name := x }),
    .uint64 4 (.mk (·.timestamp) fun x m => { m with timestamp := x })]

/-- `MakeDirRequest::MergeImpl`. -/
def mergeFrom (target source : MakeDirRequest) : MakeDirRequest where
  token := if source.token ≠ "" then source.token else target.token
  parentPath := if source.parentPath ≠ "" then source.parentPath else target.parentPath
  name := if source.name ≠ "" then source.name else target.name
  timestamp := if source.timestamp ≠ 0 then source.timestamp else target.timestamp

theorem mergeFrom_format (target source : MakeDirRequest) :
    format.mergeFrom target source = target.mergeFrom source := by
  simp [Format.mergeFrom, format, mergeFrom, Field.merge_scalar, Field.string, Field.uint64]

theorem lawful_format [LawfulRuntime] : (format : Format MakeDirRequest).Lawful where
  tags := rfl
  fields := by simp [format]
  copies m := by
    rw [mergeFrom_format]
    simp [mergeFrom, format]

end MakeDirRequest

namespace UploadFileRequest

/-- `UploadFileRequest` in `raft.proto`. -/
def format : Format UploadFileRequest where
  cleared := {}
  fields := [
    .string 1 (.mk (·.token) fun x m => { m with token := x }),
    .uint64 2 (.mk (·.ino) fun x m => { m with ino := x }),
    .string 3 (.mk (·.path) fun x m => { m with path := x }),
    .message 4 BlockInfo.format (.mk (·.blocks) fun x m => { m with blocks := x })]

/-- `UploadFileRequest::MergeImpl`. -/
def mergeFrom (target source : UploadFileRequest) : UploadFileRequest where
  token := if source.token ≠ "" then source.token else target.token
  ino := if source.ino ≠ 0 then source.ino else target.ino
  path := if source.path ≠ "" then source.path else target.path
  blocks := target.blocks ++ source.blocks

theorem mergeFrom_format (target source : UploadFileRequest) :
    format.mergeFrom target source = target.mergeFrom source := by
  simp [Format.mergeFrom, format, mergeFrom, Field.merge_scalar, Field.string, Field.uint64,
    Field.message]

theorem lawful_format [LawfulRuntime] : (format : Format UploadFileRequest).Lawful where
  tags := rfl
  fields := by simp [format, BlockInfo.lawful_format]
  copies m := by
    rw [mergeFrom_format]
    simp [mergeFrom, format]

end UploadFileRequest

namespace EntryCommand

/-- The request of the member `mkdir` of the oneof. -/
def mkdir? : EntryCommand → Option MakeDirRequest
  | .mkdir request => some request
  | _ => none

/-- The request of the member `upload_file` of the oneof. -/
def uploadFile? : EntryCommand → Option UploadFileRequest
  | .uploadFile request => some request
  | _ => none

/-- The command of a log entry, a oneof of the two requests. -/
def format : Format EntryCommand where
  cleared := .notSet
  fields := [
    .oneof 1 MakeDirRequest.format mkdir? .mkdir,
    .oneof 2 UploadFileRequest.format uploadFile? .uploadFile]

/-- Merging into the member that is set merges the requests; another one replaces it. -/
def mergeFrom (target source : EntryCommand) : EntryCommand :=
  match source with
  | .mkdir request => .mkdir ((target.mkdir?.getD {}).mergeFrom request)
  | .uploadFile request => .uploadFile ((target.uploadFile?.getD {}).mergeFrom request)
  | .notSet => target

theorem mergeFrom_format (target source : EntryCommand) :
    format.mergeFrom target source = target.mergeFrom source := by
  cases source with
  | notSet => rfl
  | mkdir request =>
    show mkdir (MakeDirRequest.format.mergeFrom (target.mkdir?.getD {}) request) = _
    rw [MakeDirRequest.mergeFrom_format]
    rfl
  | uploadFile request =>
    show uploadFile (UploadFileRequest.format.mergeFrom (target.uploadFile?.getD {}) request) = _
    rw [UploadFileRequest.mergeFrom_format]
    rfl

theorem lawful_format [LawfulRuntime] : (format : Format EntryCommand).Lawful where
  tags := rfl
  fields := by simp [format, MakeDirRequest.lawful_format, UploadFileRequest.lawful_format]
  copies m := by
    cases m with
    | notSet => rfl
    | mkdir request => exact congrArg mkdir (MakeDirRequest.lawful_format.copies request)
    | uploadFile request =>
      exact congrArg uploadFile (UploadFileRequest.lawful_format.copies request)

end EntryCommand

/-! ## Raft -/

namespace HardState

/-- `HardState`, whose vote is optional. -/
def format : Format HardState where
  cleared := {}
  fields := [
    .uint64 1 (.mk (·.currentTerm) fun x m => { m with currentTerm := x }),
    .optionalUint64 2 (.mk (·.votedFor) fun x m => { m with votedFor := x })]

/-- `HardState::MergeImpl`. -/
def mergeFrom (target source : HardState) : HardState where
  currentTerm := if source.currentTerm ≠ 0 then source.currentTerm else target.currentTerm
  votedFor := if source.votedFor.isSome then source.votedFor else target.votedFor

theorem mergeFrom_format (target source : HardState) :
    format.mergeFrom target source = target.mergeFrom source := by
  simp [Format.mergeFrom, format, mergeFrom, Field.merge_scalar, Field.uint64, Field.optionalUint64]

theorem lawful_format [LawfulRuntime] : (format : Format HardState).Lawful where
  tags := rfl
  fields := by simp [format]
  copies m := by
    rw [mergeFrom_format]
    obtain ⟨currentTerm, votedFor⟩ := m
    cases votedFor <;> simp [mergeFrom, format]

end HardState

/-- A `LogEntry` with the bytes of its command. -/
structure EncodedEntry where
  term : ℕ := 0
  index : ℕ := 0
  command : List UInt8 := []
  deriving DecidableEq, Repr

namespace EncodedEntry

/-- A log entry as it is stored, with the command as bytes. -/
def format : Format EncodedEntry where
  cleared := {}
  fields := [
    .uint64 1 (.mk (·.term) fun x m => { m with term := x }),
    .uint64 2 (.mk (·.index) fun x m => { m with index := x }),
    .bytes 3 (.mk (·.command) fun x m => { m with command := x })]

/-- `LogEntry::MergeImpl`. -/
def mergeFrom (target source : EncodedEntry) : EncodedEntry where
  term := if source.term ≠ 0 then source.term else target.term
  index := if source.index ≠ 0 then source.index else target.index
  command := if source.command ≠ [] then source.command else target.command

theorem mergeFrom_format (target source : EncodedEntry) :
    format.mergeFrom target source = target.mergeFrom source := by
  simp [Format.mergeFrom, format, mergeFrom, Field.merge_scalar, Field.uint64, Field.bytes]

theorem lawful_format [LawfulRuntime] : (format : Format EncodedEntry).Lawful where
  tags := rfl
  fields := by simp [format]
  copies m := by
    rw [mergeFrom_format]
    simp [mergeFrom, format]

end EncodedEntry

namespace Snapshot

/-- `Snapshot`. -/
def format : Format Snapshot where
  cleared := {}
  fields := [
    .uint64 1 (.mk (·.lastIncludedIndex) fun x m => { m with lastIncludedIndex := x }),
    .uint64 2 (.mk (·.lastIncludedTerm) fun x m => { m with lastIncludedTerm := x }),
    .message 3 Inode.format (.mk (·.inodes) fun x m => { m with inodes := x }),
    .message 4 DirEntry.format (.mk (·.dirEntries) fun x m => { m with dirEntries := x })]

/-- `Snapshot::MergeImpl`. -/
def mergeFrom (target source : Snapshot) : Snapshot where
  lastIncludedIndex :=
    if source.lastIncludedIndex ≠ 0 then source.lastIncludedIndex else target.lastIncludedIndex
  lastIncludedTerm :=
    if source.lastIncludedTerm ≠ 0 then source.lastIncludedTerm else target.lastIncludedTerm
  inodes := target.inodes ++ source.inodes
  dirEntries := target.dirEntries ++ source.dirEntries

theorem mergeFrom_format (target source : Snapshot) :
    format.mergeFrom target source = target.mergeFrom source := by
  simp [Format.mergeFrom, format, mergeFrom, Field.merge_scalar, Field.uint64, Field.message]

theorem lawful_format [LawfulRuntime] : (format : Format Snapshot).Lawful where
  tags := rfl
  fields := by simp [format, Inode.lawful_format, DirEntry.lawful_format]
  copies m := by
    rw [mergeFrom_format]
    simp [mergeFrom, format]

/-! ### Cutting off -/

/-- The record of a number, if it is written. -/
def numberRecord (tag n : ℕ) : List (List UInt8) :=
  if n ≠ 0 then [writeVarint tag ++ writeVarint n] else []

/-- An inode in the file of a snapshot, with its tag. -/
def inodeRecord (inode : Inode) : List UInt8 :=
  writeVarint 26 ++ writeBytes (Inode.format.internalSerialize inode)

/-- A directory entry in the file of a snapshot, with its tag. -/
def dirEntryRecord (entry : DirEntry) : List UInt8 :=
  writeVarint 34 ++ writeBytes (DirEntry.format.internalSerialize entry)

theorem records_format (s : Snapshot) :
    format.records s = numberRecord 8 s.lastIncludedIndex ++
      numberRecord 16 s.lastIncludedTerm ++
      s.inodes.map inodeRecord ++ s.dirEntries.map dirEntryRecord := by
  have hnumber : ∀ tag n, ((if decide (n ≠ 0) then [writeVarint n] else []).map
      (writeVarint tag ++ ·)) = numberRecord tag n := by
    intro tag n
    unfold numberRecord
    by_cases hn : n = 0 <;> simp [hn]
  show ((if decide (s.lastIncludedIndex ≠ 0) then [writeVarint s.lastIncludedIndex] else []).map
      (writeVarint 8 ++ ·)) ++ (((if decide (s.lastIncludedTerm ≠ 0) then
        [writeVarint s.lastIncludedTerm] else []).map (writeVarint 16 ++ ·)) ++
      ((s.inodes.map _).map _ ++ ((s.dirEntries.map _).map _ ++ []))) = _
  rw [hnumber, hnumber, List.map_map, List.map_map, List.append_nil, List.append_assoc,
    List.append_assoc]
  rfl

theorem take_numberRecord (tag n k : ℕ) :
    (numberRecord tag n).take k = numberRecord tag (if k = 0 then 0 else n) := by
  unfold numberRecord
  cases k <;> split <;> simp_all

theorem inRange_iff (s : Snapshot) :
    format.inRange s = true ↔ s.lastIncludedIndex < 2 ^ 64 ∧ s.lastIncludedTerm < 2 ^ 64 ∧
      (∀ inode ∈ s.inodes, Inode.format.inRange inode = true) ∧
      ∀ entry ∈ s.dirEntries, DirEntry.format.inRange entry = true := by
  simp [Format.inRange, format, Field.uint64, Field.scalar, Field.message]

/-- The first records of a snapshot. -/
def cut (s : Snapshot) (k : ℕ) : Snapshot where
  lastIncludedIndex := if k = 0 then 0 else s.lastIncludedIndex
  lastIncludedTerm :=
    if k - (numberRecord 8 s.lastIncludedIndex).length = 0 then 0 else s.lastIncludedTerm
  inodes := s.inodes.take (k - (numberRecord 8 s.lastIncludedIndex ++
    numberRecord 16 s.lastIncludedTerm).length)
  dirEntries := s.dirEntries.take (k - (numberRecord 8 s.lastIncludedIndex ++
    numberRecord 16 s.lastIncludedTerm ++ s.inodes.map inodeRecord).length)

theorem cuts_format : (format : Format Snapshot).Cuts cut where
  records s k := by
    rw [records_format, records_format, List.take_append, List.take_append, List.take_append,
      take_numberRecord, take_numberRecord, ← List.map_take, ← List.map_take]
    rfl
  inRange s k := by
    rw [inRange_iff, inRange_iff]
    rintro ⟨hindex, hterm, hinodes, hentries⟩
    refine ⟨?_, ?_, fun inode hmem => hinodes inode (List.mem_of_mem_take hmem),
      fun entry hmem => hentries entry (List.mem_of_mem_take hmem)⟩
    · unfold cut
      dsimp only
      split <;> omega
    · unfold cut
      dsimp only
      split <;> omega

end Snapshot

/-- Snapshots are stored and sent in this encoding. -/
@[reducible] def encodedPlatform (hash : ℕ → ℕ) : Platform :=
  ⟨Snapshot.format.serializeAsString, Snapshot.format.parseFromString, hash⟩

end Vosfs.Raft
