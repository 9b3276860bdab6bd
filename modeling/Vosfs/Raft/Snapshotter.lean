import Vosfs.Library.UnorderedMap
import Vosfs.Raft.Persister

/-!
# The snapshot file

`Snapshotter` writes a snapshot to `tmpPath` and renames the file to `snapshotPath`.
File operations can fail (`FileOutcome`).  Its mutex is acquired by every function;
`offset_at` returns without releasing it, and whoever asks for it afterwards waits
forever (`none`).
-/

namespace Vosfs.Raft

/-- The most bytes of a chunk. -/
def maxSnapshotChunkSize : ℕ :=
  4 * 1024

/-- How far a sequence of file operations gets. -/
inductive FileOutcome
  | done
  | openFailed
  | writeFailed
  | renameFailed
  | seekFailed
  | readFailed
  deriving DecidableEq, Repr

/-- The fields of `Snapshotter`, with its mutex. -/
structure Snapshotter where
  locked : Bool := false
  offsets : UnorderedMap ℕ ℕ := ∅
  snapshotSize : ℕ := 0
  tmpPath : String
  snapshotPath : String

namespace Snapshotter

/-- The cursor of a member, made 0 if there is none; the mutex stays locked. -/
def offsetAt (snapshotter : Snapshotter) (memberId : ℕ) : Option (ℕ × Snapshotter) :=
  if snapshotter.locked then
    none
  else
    some ((snapshotter.offsets.lookup memberId).getD 0,
      { snapshotter with locked := true, offsets := snapshotter.offsets.emplace memberId 0 })

/-- All cursors go back to 0. -/
def resetOffsets (snapshotter : Snapshotter) : Snapshotter :=
  { snapshotter with
    offsets := snapshotter.offsets.keys.foldl (fun offsets key => offsets.insert key 0)
      snapshotter.offsets }

variable [Platform]

/-- Reads and parses the file, and takes its size. -/
def loadSnapshot (snapshotter : Snapshotter) (disk : Disk Payload) :
    Except Error (Snapshot × Snapshotter) :=
  match disk.file snapshotter.snapshotPath with
  | none => .error .fileOpenFailed
  | some buf =>
    match Platform.parseFromString buf with
    | none => .error .parseFailed
    | some snapshot => .ok (snapshot, { snapshotter with snapshotSize := buf.length })

/-- Writes the temporary file and renames it; the cursors stay where they are. -/
def saveSnapshot (snapshotter : Snapshotter) (outcome : FileOutcome) (disk : Disk Payload)
    (snapshot : Snapshot) : Option (Except Error Snapshotter × Disk Payload) :=
  if snapshotter.locked then
    none
  else
    let buf := Platform.serializeAsString snapshot
    match outcome with
    | .openFailed => some (.error .fileOpenFailed, disk)
    | .writeFailed =>
      some (.error .fileWriteFailed, disk.write (.openTruncated snapshotter.tmpPath))
    | .renameFailed =>
      some (.error .fileRenameFailed,
        (disk.write (.openTruncated snapshotter.tmpPath)).write
          (.writeAll snapshotter.tmpPath buf))
    | _ =>
      some (.ok { snapshotter with snapshotSize := buf.length },
        ((disk.write (.openTruncated snapshotter.tmpPath)).write
          (.writeAll snapshotter.tmpPath buf)).write
          (.rename snapshotter.tmpPath snapshotter.snapshotPath))

omit [Platform] in
/-- Fills in the next chunk for a member. -/
def loadSnapshotData (snapshotter : Snapshotter) (outcome : FileOutcome) (disk : Disk Payload)
    (memberId : ℕ) (request : InstallSnapshotRequest) :
    Option (Except Error InstallSnapshotRequest × Snapshotter) :=
  if snapshotter.locked then
    none
  else
    let offset := (snapshotter.offsets.lookup memberId).getD 0
    -- unsigned: a file that became shorter than the offset leaves a large difference
    let size := min maxSnapshotChunkSize (u64 (snapshotter.snapshotSize + 2 ^ 64 - offset))
    let at_ (offset : ℕ) : Snapshotter :=
      { snapshotter with offsets := snapshotter.offsets.insert memberId offset }
    match disk.file snapshotter.snapshotPath, outcome with
    | none, _ => some (.error .fileOpenFailed, at_ 0)
    | _, .openFailed => some (.error .fileOpenFailed, at_ 0)
    | _, .seekFailed => some (.error .fileSeekFailed, at_ 0)
    | some contents, outcome =>
      let data := (contents.drop offset).take size
      if outcome = .readFailed ∨ data.length < size then
        some (.error .fileReadFailed, at_ 0)
      else
        let done := decide (offset + size = snapshotter.snapshotSize)
        some (.ok { request with offset := offset, done := done, data := data },
          at_ (if done then 0 else offset + size))

end Snapshotter

end Vosfs.Raft
