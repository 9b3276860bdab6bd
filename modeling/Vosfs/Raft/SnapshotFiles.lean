import Vosfs.Raft.LogDurability

/-!
# The snapshot files over restarts

What a node's calls of `save_snapshot` leave in its two snapshot files, with the last one
of them cut off by a crash or not (`Saves`), and what `create` makes of it.

`create` constructs the snapshotter with the name of the snapshot file in the place of the
temporary one.  A completed call thus leaves its snapshot under the temporary name, where
it is looked for only if a later call was cut off after it wrote something under the other
one (`snapshotsSurvive`).  Whoever saves a snapshot and is started again in peace starts
without one (`exists_lost_snapshot`).

`get_file_size` returns an `int`: of the files from 2 GiB on it takes some for missing
ones and some for errors (`findsEverySize_iff`).
-/

namespace Vosfs.Raft

open Persister (getEntryKey hardStateKey)
open RaftNode (newSnapshotter snapshotFileName snapshotTempFileName narrow getFileSize
  findSnapshot HardStateReadable)

/-- Hard state and entries are under keys of their own. -/
structure Readable (disk : Disk Payload) : Prop where
  hard : HardStateReadable disk
  entry (index : ℕ) (hardState : HardState) :
    disk.get (getEntryKey index) ≠ some (.hardState hardState)

variable {disk disk' : Disk Payload}

theorem Readable.of_get (hreadable : Readable disk) (hget : disk'.get = disk.get) :
    Readable disk' := by
  constructor
  · intro entry
    rw [hget]
    exact hreadable.hard entry
  · intro index hardState
    rw [hget]
    exact hreadable.entry index hardState

/-! ## What a start finds in the database -/

theorem Readable.loadFrom (hreadable : Readable disk) (fuel index : ℕ) :
    ∃ entries, Persister.loadFrom disk fuel index = .ok entries := by
  induction fuel generalizing index with
  | zero => exact ⟨[], rfl⟩
  | succ fuel ih =>
    unfold Persister.loadFrom
    split
    next => exact ⟨[], rfl⟩
    next hardState hget => exact absurd hget (hreadable.entry index hardState)
    next entry _ =>
      obtain ⟨rest, hrest⟩ := ih (index + 1)
      rw [hrest]
      exact ⟨entry :: rest, rfl⟩

theorem Readable.loadHardState (hreadable : Readable disk) :
    ∃ loaded, Persister.loadHardState disk = .ok loaded := by
  unfold Persister.loadHardState
  split
  next => exact ⟨_, rfl⟩
  next => exact ⟨_, rfl⟩
  next entry hget => exact absurd hget (hreadable.hard entry)

section Start

variable [Platform] {env : Env} {config : Config} {completed : List Snapshot}
  {saving : Option (Snapshot × ℕ)} {snapshot? : Option Snapshot}

/-- `create` succeeds and starts from `snapshot?`. -/
def Restores (env : Env) (config : Config) (disk : Disk Payload) (snapshot? : Option Snapshot) :
    Prop :=
  ∃ node snapshotter, RaftNode.create env config disk = .ok node ∧
    findSnapshot env disk = .ok (snapshot?, snapshotter)

/-- Only the snapshot can keep a node from starting. -/
theorem restores_iff (hreadable : Readable disk) :
    Restores env config disk snapshot? ↔
      ∃ snapshotter, findSnapshot env disk = .ok (snapshot?, snapshotter) := by
  constructor
  · rintro ⟨node, snapshotter, -, hfind⟩
    exact ⟨snapshotter, hfind⟩
  · rintro ⟨snapshotter, hfind⟩
    obtain ⟨entries, hentries⟩ := hreadable.loadFrom (disk.writtenKeys.length + 1)
      ((snapshot?.getD {}).lastIncludedIndex + 1)
    obtain ⟨loaded, hloaded⟩ := hreadable.loadHardState
    refine ⟨RaftNode.assemble config snapshot? snapshotter entries loaded.1 loaded.2,
      snapshotter, ?_, hfind⟩
    unfold RaftNode.create Persister.loadEntries
    rw [hfind, hloaded]
    change (do
      let entries ← Persister.loadFrom disk (disk.writtenKeys.length + 1)
        ((snapshot?.getD {}).lastIncludedIndex + 1)
      return RaftNode.assemble config snapshot? snapshotter entries loaded.1 loaded.2) = _
    rw [hentries]
    rfl

/-! ## Saving snapshots -/

/-- What is on the disk when the process dies in a call of `save_snapshot` after it wrote
`count` bytes, or opened the file if that is 0. -/
def Snapshotter.diskInSave (snapshotter : Snapshotter) (disk : Disk Payload)
    (snapshot : Snapshot) (count : ℕ) : Disk Payload :=
  (disk.write (.openTruncated snapshotter.tmpPath)).write
    (.writeAll snapshotter.tmpPath ((Platform.serializeAsString snapshot).take count))

/-- The disk of a node after the calls of `save_snapshot` for `completed` returned, and
one more, if any, was cut off after it wrote some bytes of its snapshot (`saving`).  In
between the database changes. -/
inductive Saves : List Snapshot → Option (Snapshot × ℕ) → Disk Payload → Prop
  | start {disk : Disk Payload} (hreadable : Readable disk)
      (hbin : disk.file snapshotFileName = none) (htmp : disk.file snapshotTempFileName = none) :
      Saves [] none disk
  | batch {completed : List Snapshot} {saving : Option (Snapshot × ℕ)} {disk : Disk Payload}
      (ops : List (String × Option Payload)) (hsaves : Saves completed saving disk)
      (hreadable : Readable (disk.write (.batch ops))) :
      Saves completed saving (disk.write (.batch ops))
  | save {completed : List Snapshot} {saving : Option (Snapshot × ℕ)} {disk disk' : Disk Payload}
      {snapshotter snapshotter' : Snapshotter} {outcome : FileOutcome} {snapshot : Snapshot}
      (hsaves : Saves completed saving disk)
      (htmp : snapshotter.tmpPath = newSnapshotter.tmpPath)
      (hpath : snapshotter.snapshotPath = newSnapshotter.snapshotPath)
      (hsave : snapshotter.saveSnapshot outcome disk snapshot = some (.ok snapshotter', disk')) :
      Saves (completed ++ [snapshot]) none disk'
  | cutOff {completed : List Snapshot} {saving : Option (Snapshot × ℕ)} {disk : Disk Payload}
      {snapshotter : Snapshotter} {snapshot : Snapshot} {count : ℕ}
      (hsaves : Saves completed saving disk)
      (htmp : snapshotter.tmpPath = newSnapshotter.tmpPath)
      (hcount : count ≤ (Platform.serializeAsString snapshot).length) :
      Saves completed (some (snapshot, count)) (snapshotter.diskInSave disk snapshot count)

/-- The start after the saves succeeds, and finds the last snapshot whose save completed
or the one being saved. -/
def Survives (env : Env) (config : Config) (completed : List Snapshot)
    (saving : Option (Snapshot × ℕ)) (disk : Disk Payload) : Prop :=
  ∃ snapshot?, Restores env config disk snapshot? ∧
    (snapshot? = completed.getLast? ∨ ∃ count snapshot, saving = some (snapshot, count) ∧
      snapshot? = some snapshot)

/-- What the files hold: the last completed snapshot is under the temporary name, and what
was written of the last one under the other. -/
structure Left (completed : List Snapshot) (saving : Option (Snapshot × ℕ))
    (disk : Disk Payload) : Prop where
  readable : Readable disk
  bin : (disk.file snapshotFileName).getD [] = (saving.map fun (snapshot, count) =>
    (Platform.serializeAsString snapshot).take count).getD []
  tmp : disk.file snapshotTempFileName = completed.getLast?.map Platform.serializeAsString
  count : ∀ snapshot count, saving = some (snapshot, count) →
    count ≤ (Platform.serializeAsString snapshot).length

/-- A call that returns leaves the snapshot under the temporary name. -/
theorem saveSnapshot_spec {snapshotter snapshotter' : Snapshotter} {outcome : FileOutcome}
    {snapshot : Snapshot} (htmp : snapshotter.tmpPath = newSnapshotter.tmpPath)
    (hpath : snapshotter.snapshotPath = newSnapshotter.snapshotPath)
    (hsave : snapshotter.saveSnapshot outcome disk snapshot = some (.ok snapshotter', disk')) :
    disk'.get = disk.get ∧ disk'.file snapshotFileName = none ∧
      disk'.file snapshotTempFileName = some (Platform.serializeAsString snapshot) := by
  have hdisk : disk' = (snapshotter.diskInSave disk snapshot
      (Platform.serializeAsString snapshot).length).write
      (.rename snapshotter.tmpPath snapshotter.snapshotPath) := by
    unfold Snapshotter.diskInSave
    rw [List.take_length]
    unfold Snapshotter.saveSnapshot at hsave
    split at hsave
    next => cases hsave
    next =>
      split at hsave
      all_goals cases hsave
      rfl
  rw [hdisk, htmp, hpath]
  simp [Snapshotter.diskInSave, newSnapshotter, htmp, snapshotFileName, snapshotTempFileName]

/-- What each call and each crash does to the files. -/
theorem left_of_saves (hsaves : Saves completed saving disk) : Left completed saving disk := by
  induction hsaves with
  | start hreadable hbin htmp =>
    exact ⟨hreadable, by rw [hbin]; rfl, htmp, nofun⟩
  | batch ops _ hreadable ih =>
    refine ⟨hreadable, ?_, ?_, ih.count⟩
    · rw [Disk.file_write_batch, ih.bin]
    · rw [Disk.file_write_batch, ih.tmp]
  | save _ htmp hpath hsave ih =>
    obtain ⟨hget, hbin, htmp'⟩ := saveSnapshot_spec htmp hpath hsave
    refine ⟨ih.readable.of_get hget, by rw [hbin]; rfl, ?_, nofun⟩
    rw [htmp', List.getLast?_append]
    rfl
  | cutOff _ htmp hcount ih =>
    refine ⟨ih.readable.of_get (by simp [Snapshotter.diskInSave]), ?_, ?_, ?_⟩
    · simp [Snapshotter.diskInSave, htmp, newSnapshotter]
    · rw [← ih.tmp]
      simp [Snapshotter.diskInSave, htmp, newSnapshotter, snapshotFileName, snapshotTempFileName]
    · rintro _ _ ⟨⟩
      exact hcount

/-! ## Starting again -/

/-- The number of bytes that an interrupted call left. -/
def bytesLeft (saving : Option (Snapshot × ℕ)) : ℕ :=
  (saving.map Prod.snd).getD 0

theorem Left.getFileSize (hleft : Left completed saving disk) (hstatx : env.statxFails = false) :
    getFileSize env disk snapshotFileName = narrow (bytesLeft saving) := by
  unfold RaftNode.getFileSize
  rw [hstatx, hleft.bin]
  cases saving with
  | none => rfl
  | some saving =>
    have hcount := hleft.count saving.1 saving.2 rfl
    simp [bytesLeft, hcount]

/-- The snapshotter loads the last completed snapshot. -/
theorem Left.loadSnapshot_iff {snapshot : Snapshot} (hleft : Left completed saving disk)
    (hparse : ∀ snapshot ∈ completed,
      Platform.parseFromString (Platform.serializeAsString snapshot) = some snapshot) :
    (∃ snapshotter, newSnapshotter.loadSnapshot disk = .ok (snapshot, snapshotter)) ↔
      completed.getLast? = some snapshot := by
  unfold Snapshotter.loadSnapshot
  rw [show newSnapshotter.snapshotPath = snapshotTempFileName from rfl, hleft.tmp]
  cases hlast : completed.getLast? with
  | none => simp
  | some last =>
    have hlast' := hparse last (List.mem_of_getLast? hlast)
    simp [hlast']

/-- A start looks for the completed snapshot if a later call left something. -/
theorem Left.restores_iff (hleft : Left completed saving disk)
    (hparse : ∀ snapshot ∈ completed,
      Platform.parseFromString (Platform.serializeAsString snapshot) = some snapshot) :
    Restores env config disk snapshot? ↔
      env.statxFails = false ∧ narrow (bytesLeft saving) ≠ -1 ∧
        if 0 < narrow (bytesLeft saving) then
          ∃ snapshot, completed.getLast? = some snapshot ∧ snapshot? = some snapshot
        else
          snapshot? = none := by
  rw [Vosfs.Raft.restores_iff hleft.readable]
  unfold findSnapshot
  cases hstatx : env.statxFails with
  | true => simp [RaftNode.getFileSize, hstatx]
  | false =>
    rw [hleft.getFileSize hstatx]
    by_cases hfails : narrow (bytesLeft saving) = -1
    · simp [hfails]
    · by_cases hsize : 0 < narrow (bytesLeft saving)
      · simp only [hfails, hsize, if_true, if_false, ne_eq, not_false_eq_true, true_and]
        constructor
        · rintro ⟨snapshotter, hfind⟩
          obtain ⟨⟨snapshot, loaded⟩, hload, heq⟩ := RaftNode.exists_of_map_eq_ok hfind
          cases heq
          exact ⟨snapshot, (hleft.loadSnapshot_iff hparse).mp ⟨_, hload⟩, rfl⟩
        · rintro ⟨snapshot, hlast, rfl⟩
          obtain ⟨snapshotter, hload⟩ := (hleft.loadSnapshot_iff hparse).mpr hlast
          rw [hload]
          exact ⟨snapshotter, rfl⟩
      · simp [hfails, hsize, eq_comm]

/-- **Snapshots survive a restart**, exactly if a completed call was followed by one that was
cut off after its first byte (and within the range of `int`), or if no call completed and
none wrote anything. -/
theorem snapshotsSurvive
    (hparse : ∀ snapshot ∈ completed,
      Platform.parseFromString (Platform.serializeAsString snapshot) = some snapshot)
    (hsaves : Saves completed saving disk) :
    Survives env config completed saving disk ↔
      env.statxFails = false ∧ narrow (bytesLeft saving) ≠ -1 ∧
        (0 < narrow (bytesLeft saving) ↔ completed ≠ []) := by
  have hleft := left_of_saves hsaves
  unfold Survives
  simp only [hleft.restores_iff hparse]
  by_cases hsize : 0 < narrow (bytesLeft saving)
  · simp only [hsize, if_true, true_iff]
    constructor
    · rintro ⟨snapshot?, ⟨hstatx, hfails, snapshot, hlast, -⟩, -⟩
      refine ⟨hstatx, hfails, ?_⟩
      rintro rfl
      cases hlast
    · rintro ⟨hstatx, hfails, hcompleted⟩
      refine ⟨completed.getLast?, ⟨hstatx, hfails, ?_⟩, Or.inl rfl⟩
      exact ⟨completed.getLast hcompleted, List.getLast?_eq_some_getLast hcompleted,
        List.getLast?_eq_some_getLast hcompleted⟩
  · -- without a file to load the start finds no snapshot at all
    simp only [hsize, if_false, false_iff, not_not]
    constructor
    · rintro ⟨snapshot?, ⟨hstatx, hfails, rfl⟩, hlast | ⟨_, _, _, hnone⟩⟩
      · exact ⟨hstatx, hfails, List.getLast?_eq_none_iff.mp hlast.symm⟩
      · cases hnone
    · rintro ⟨hstatx, hfails, rfl⟩
      exact ⟨none, ⟨hstatx, hfails, rfl⟩, Or.inl rfl⟩

end Start

/-! ## One snapshot -/

/-- A snapshot of the first ten entries. -/
def oneSnapshot : Snapshot :=
  { lastIncludedIndex := 10, lastIncludedTerm := 1 }

/-- The encoding of `oneSnapshot`, and of no other. -/
@[reducible] def oneSnapshotPlatform : Platform where
  serializeAsString snapshot := if snapshot = oneSnapshot then [8, 10, 16, 1] else []
  parseFromString buf := if buf = [8, 10, 16, 1] then some oneSnapshot else none
  hash := id

/-- A call that returns, on an empty disk. -/
def savedOnce : Disk Payload :=
  ⟨[.openTruncated snapshotFileName, .writeAll snapshotFileName [8, 10, 16, 1],
    .rename snapshotFileName snapshotTempFileName]⟩

theorem saves_savedOnce : @Saves oneSnapshotPlatform [oneSnapshot] none savedOnce := by
  have hempty : @Saves oneSnapshotPlatform [] none {} :=
    @Saves.start oneSnapshotPlatform _ ⟨nofun, nofun⟩ rfl rfl
  exact @Saves.save oneSnapshotPlatform _ _ _ _ newSnapshotter
    { newSnapshotter with snapshotSize := 4 } .done oneSnapshot hempty rfl rfl rfl

/-- A second call is cut off after two bytes, and the first snapshot is loaded. -/
theorem snapshotsSurvive_cutOff :
    ∃ disk, @Saves oneSnapshotPlatform [oneSnapshot] (some (oneSnapshot, 2)) disk ∧
      @Survives oneSnapshotPlatform {} memberOfThree [oneSnapshot]
        (some (oneSnapshot, 2)) disk := by
  have hsaves := @Saves.cutOff oneSnapshotPlatform _ _ _ newSnapshotter oneSnapshot 2
    saves_savedOnce rfl (by decide)
  exact ⟨_, hsaves, (@snapshotsSurvive _ oneSnapshotPlatform _ _ _ _ (by decide) hsaves).mpr
    (by decide)⟩

/-- After a call that returned, a node starts without a snapshot. -/
theorem exists_lost_snapshot :
    @Platform.parseFromString oneSnapshotPlatform
        (@Platform.serializeAsString oneSnapshotPlatform oneSnapshot) = some oneSnapshot ∧
      @Saves oneSnapshotPlatform [oneSnapshot] none savedOnce ∧
      ¬ @Survives oneSnapshotPlatform {} memberOfThree [oneSnapshot] none savedOnce := by
  refine ⟨by decide, saves_savedOnce, ?_⟩
  rintro ⟨snapshot?, ⟨node, snapshotter, -, hfind⟩, hlast | ⟨_, _, hnone, -⟩⟩
  · have hnothing := (@RaftNode.findSnapshot_of_empty oneSnapshotPlatform _ _ _ _ rfl hfind).1
    rw [hnothing] at hlast
    cases hlast
  · cases hnone

/-! ## The size of the file -/

/-- How `statx` ends. -/
inductive Statx
  | found (size : ℕ)
  | noEntry
  | failed
  deriving DecidableEq, Repr

/-- `statx` on the path of a file. -/
def statx (env : Env) (disk : Disk Payload) (path : String) : Statx :=
  if env.statxFails then
    .failed
  else
    match disk.file path with
    | none => .noEntry
    | some contents => .found contents.length

/-- What `get_file_size` makes of it. -/
def Statx.fileSize : Statx → ℤ
  | .found size => narrow size
  | .noEntry => 0
  | .failed => -1

theorem getFileSize_eq_fileSize {env : Env} {path : String} :
    getFileSize env disk path = (statx env disk path).fileSize := by
  unfold RaftNode.getFileSize statx
  cases env.statxFails with
  | true => rfl
  | false => cases disk.file path <;> rfl

/-- The three ways on in `create`. -/
inductive Branch
  | error
  | load
  | fresh
  deriving DecidableEq, Repr

/-- The way that the size of the file decides. -/
def branch (env : Env) (disk : Disk Payload) : Branch :=
  if getFileSize env disk snapshotFileName = -1 then
    .error
  else if 0 < getFileSize env disk snapshotFileName then
    .load
  else
    .fresh

theorem findSnapshot_eq_branch [Platform] {env : Env} :
    findSnapshot env disk =
      match branch env disk with
      | .error => .error .fileError
      | .load => (newSnapshotter.loadSnapshot disk).map fun (snapshot, snapshotter) =>
          (some snapshot, snapshotter)
      | .fresh => .ok (none, newSnapshotter) := by
  unfold findSnapshot branch
  by_cases hfails : getFileSize env disk snapshotFileName = -1
  · simp only [if_pos hfails]
  · by_cases hsize : 0 < getFileSize env disk snapshotFileName
    · simp only [if_neg hfails, if_pos hsize]
    · simp only [if_neg hfails, if_neg hsize]

/-- A file that holds anything is loaded, and nothing else is; an error is a `statx` that
failed. -/
structure FindsEverySize (env : Env) (disk : Disk Payload) : Prop where
  load : branch env disk = .load ↔
    ∃ size, statx env disk snapshotFileName = .found size ∧ 0 < size
  error : branch env disk = .error → statx env disk snapshotFileName = .failed

theorem narrow_eq_neg_one_iff {size : ℕ} : narrow size = -1 ↔ size % 2 ^ 32 = 2 ^ 32 - 1 := by
  unfold RaftNode.narrow
  split <;> omega

theorem narrow_pos_iff {size : ℕ} :
    0 < narrow size ↔ 0 < size % 2 ^ 32 ∧ size % 2 ^ 32 < 2 ^ 31 := by
  unfold RaftNode.narrow
  split <;> omega

theorem branch_eq {env : Env} : branch env disk =
    if (statx env disk snapshotFileName).fileSize = -1 then .error
    else if 0 < (statx env disk snapshotFileName).fileSize then .load else .fresh := by
  rw [← getFileSize_eq_fileSize]
  rfl

/-- What `create` makes of a size. -/
theorem branch_of_found {env : Env} {size : ℕ}
    (hstatx : statx env disk snapshotFileName = .found size) :
    (branch env disk = .load ↔ 0 < size % 2 ^ 32 ∧ size % 2 ^ 32 < 2 ^ 31) ∧
      (branch env disk = .error ↔ size % 2 ^ 32 = 2 ^ 32 - 1) := by
  rw [branch_eq, hstatx, Statx.fileSize, ← narrow_pos_iff, ← narrow_eq_neg_one_iff]
  by_cases hfails : narrow size = -1
  · rw [if_pos hfails, hfails]
    simp
  · rw [if_neg hfails]
    by_cases hpos : 0 < narrow size
    · rw [if_pos hpos]
      simp [hpos, hfails]
    · rw [if_neg hpos]
      simp [hpos, hfails]

/-- **The snapshot is found whatever its size**, exactly if the size is 0 or a positive
`int` modulo 2 ^ 32. -/
theorem findsEverySize_iff {env : Env} :
    FindsEverySize env disk ↔
      ∀ size, statx env disk snapshotFileName = .found size →
        size = 0 ∨ (0 < size % 2 ^ 32 ∧ size % 2 ^ 32 < 2 ^ 31) := by
  have hbranch := @branch_eq disk env
  cases hstatx : statx env disk snapshotFileName with
  | noEntry =>
    rw [hstatx] at hbranch
    exact ⟨nofun, fun _ => ⟨by simp [hbranch, hstatx, Statx.fileSize],
      by simp [hbranch, Statx.fileSize]⟩⟩
  | failed =>
    rw [hstatx] at hbranch
    exact ⟨nofun, fun _ => ⟨by simp [hbranch, hstatx, Statx.fileSize], fun _ => hstatx⟩⟩
  | found size =>
    obtain ⟨hload, herror⟩ := branch_of_found hstatx
    constructor
    · rintro ⟨hfinds, -⟩ _ ⟨⟩
      rcases Nat.eq_zero_or_pos size with hzero | hpos
      · exact Or.inl hzero
      · exact Or.inr (hload.mp (hfinds.mpr ⟨size, hstatx, hpos⟩))
    · intro hrange
      refine ⟨?_, fun hbad => ?_⟩
      · rw [hload, hstatx]
        constructor
        · intro hpos
          exact ⟨size, rfl, by omega⟩
        · rintro ⟨_, ⟨⟩, hpos⟩
          exact (hrange size rfl).resolve_left hpos.ne'
      · have := herror.mp hbad
        have := hrange size rfl
        omega

/-- A snapshot of four gibibytes is taken for a missing one. -/
theorem exists_dropped_snapshot :
    ∃ disk : Disk Payload, statx {} disk snapshotFileName = .found (2 ^ 32) ∧
      @findSnapshot oneSnapshotPlatform {} disk = .ok (none, newSnapshotter) ∧
      ¬ FindsEverySize {} disk := by
  have hfile : ∀ contents : List UInt8,
      (Disk.mk [.writeAll snapshotFileName contents] : Disk Payload).file snapshotFileName =
        some contents := fun contents => by simp [Disk.file, Disk.applyToFiles]
  obtain ⟨contents, hlength⟩ : ∃ contents : List UInt8, contents.length = 2 ^ 32 :=
    ⟨List.replicate (2 ^ 32) 0, List.length_replicate⟩
  have hstatx : statx {} ⟨[.writeAll snapshotFileName contents]⟩ snapshotFileName =
      .found (2 ^ 32) := by
    simp only [statx, hfile, hlength, Bool.false_eq_true, if_false]
  have hbranch : branch {} ⟨[.writeAll snapshotFileName contents]⟩ = .fresh := by
    simp [branch, getFileSize_eq_fileSize, hstatx, Statx.fileSize, RaftNode.narrow]
  refine ⟨⟨[.writeAll snapshotFileName contents]⟩, hstatx, ?_, fun hfinds => ?_⟩
  · rw [@findSnapshot_eq_branch _ oneSnapshotPlatform, hbranch]
  · have hload := hfinds.load.mpr ⟨_, hstatx, by decide⟩
    rw [hbranch] at hload
    cases hload

end Vosfs.Raft
