import Vosfs.Library.Run
import Vosfs.Raft.Snapshotter

/-!
# Chunks of a snapshot

A member is given the snapshot file in chunks, from a cursor of its own that starts again at 0
after the last chunk and after a failure.  The file is replaced whenever a snapshot is saved,
and the cursors stay where they are, so that a member can be given the beginning of one file
and the end of another.

As long as the file begins with what the member has been given of the transfer (`Continues`),
each finished transfer is one file (`chunksWhole`).  A file that is shorter than the cursor does
no harm: the difference of the two wraps around, and the read past the end fails.
-/

namespace Vosfs.Raft

/-- The chunks that a member was given since the last one with offset 0, and the snapshot files
that were current from then on, up to the last chunk. -/
structure Transfer where
  chunks : List InstallSnapshotRequest := []
  files : List (List UInt8) := []

namespace Transfer

/-- The bytes that were given. -/
def data (transfer : Transfer) : List UInt8 :=
  transfer.chunks.flatMap InstallSnapshotRequest.data

/-- The last chunk that was given is the last one of its file. -/
def finished (transfer : Transfer) : Bool :=
  transfer.chunks.getLast?.any InstallSnapshotRequest.done

/-- A chunk of the current file is given. -/
def give (transfer : Transfer) (chunk : InstallSnapshotRequest) (file : Option (List UInt8)) :
    Transfer :=
  if chunk.offset = 0 then
    { chunks := [chunk], files := file.toList }
  else
    { transfer with chunks := transfer.chunks ++ [chunk] }

/-- Another file becomes current. -/
def replace (transfer : Transfer) (file : Option (List UInt8)) : Transfer :=
  if transfer.finished then transfer else { transfer with files := transfer.files ++ file.toList }

/-- Each chunk begins where the one before it ends. -/
def Sums : ℕ → List InstallSnapshotRequest → Prop
  | _, [] => True
  | start, chunk :: chunks => chunk.offset = start ∧ Sums (start + chunk.data.length) chunks

/-- The chunks are those of one file. -/
structure Whole (transfer : Transfer) : Prop where
  offsets : Sums 0 transfer.chunks
  single : transfer.data ∈ transfer.files

theorem finished_give (transfer : Transfer) (chunk : InstallSnapshotRequest)
    (file : Option (List UInt8)) : (transfer.give chunk file).finished = chunk.done := by
  unfold give finished
  split <;> simp

theorem chunks_replace (transfer : Transfer) (file : Option (List UInt8)) :
    (transfer.replace file).chunks = transfer.chunks := by
  unfold replace
  split <;> rfl

theorem replace_of_finished {transfer : Transfer} (hfinished : transfer.finished = true)
    (file : Option (List UInt8)) : transfer.replace file = transfer :=
  if_pos hfinished

theorem mem_files_replace {transfer : Transfer} (hopen : transfer.finished = false)
    {file : Option (List UInt8)} {contents : List UInt8} (hfile : file = some contents) :
    contents ∈ (transfer.replace file).files := by
  unfold replace
  rw [if_neg (by simp [hopen]), hfile]
  exact List.mem_append_right _ (List.mem_singleton.mpr rfl)

theorem sums_append {chunk : InstallSnapshotRequest} {chunks : List InstallSnapshotRequest}
    {start : ℕ} (h : Sums start chunks)
    (hoffset : chunk.offset = start + (chunks.flatMap InstallSnapshotRequest.data).length) :
    Sums start (chunks ++ [chunk]) := by
  induction chunks generalizing start with
  | nil => exact ⟨hoffset, trivial⟩
  | cons first chunks ih =>
    refine ⟨h.1, ih h.2 ?_⟩
    rw [List.flatMap_cons, List.length_append] at hoffset
    omega

end Transfer

/-! ## Loading a chunk -/

namespace Snapshotter

/-- Where the next chunk of the member begins; `operator[]` makes it 0. -/
def cursor (snapshotter : Snapshotter) (memberId : ℕ) : ℕ :=
  (snapshotter.offsets.lookup memberId).getD 0

/-- The snapshotter with another cursor for the member. -/
def setCursor (snapshotter : Snapshotter) (memberId offset : ℕ) : Snapshotter :=
  { snapshotter with offsets := snapshotter.offsets.insert memberId offset }

/-- How many bytes the next chunk has. -/
def chunkSize (snapshotter : Snapshotter) (memberId : ℕ) : ℕ :=
  min maxSnapshotChunkSize (u64 (snapshotter.snapshotSize + 2 ^ 64 - snapshotter.cursor memberId))

/-- What a call can come to. -/
inductive Loads (snapshotter : Snapshotter) (disk : Disk Payload) (memberId : ℕ)
    (request : InstallSnapshotRequest) : Except Error InstallSnapshotRequest → Snapshotter → Prop
  | failed {error : Error} :
      Loads snapshotter disk memberId request (.error error) (snapshotter.setCursor memberId 0)
  | read {file data : List UInt8} {done : Bool}
      (hfile : disk.file snapshotter.snapshotPath = some file)
      (hdata : data =
        (file.drop (snapshotter.cursor memberId)).take (snapshotter.chunkSize memberId))
      (hlength : data.length = snapshotter.chunkSize memberId)
      (hdone : done = decide (snapshotter.cursor memberId + snapshotter.chunkSize memberId =
        snapshotter.snapshotSize)) :
      Loads snapshotter disk memberId request
        (.ok { request with offset := snapshotter.cursor memberId, done := done, data := data })
        (snapshotter.setCursor memberId
          (if done then 0 else snapshotter.cursor memberId + snapshotter.chunkSize memberId))

theorem loads_of_loadSnapshotData {snapshotter snapshotter' : Snapshotter} {disk : Disk Payload}
    {outcome : FileOutcome} {memberId : ℕ} {request : InstallSnapshotRequest}
    {result : Except Error InstallSnapshotRequest}
    (hload : snapshotter.loadSnapshotData outcome disk memberId request =
      some (result, snapshotter')) :
    Loads snapshotter disk memberId request result snapshotter' := by
  unfold loadSnapshotData at hload
  split at hload
  next => cases hload
  next =>
    dsimp only at hload
    split at hload
    next => cases hload; exact .failed
    next => cases hload; exact .failed
    next => cases hload; exact .failed
    next file _ hfile _ _ =>
      split at hload
      next => cases hload; exact .failed
      next hread =>
        cases hload
        refine .read hfile rfl ?_ rfl
        exact le_antisymm (List.length_take_le _ _) (not_lt.mp (not_or.mp hread).2)

/-- A read that succeeds starts within the file: past its end the difference wraps around, and no
byte is left to read. -/
theorem Loads.cursor_le {snapshotter snapshotter' : Snapshotter} {disk : Disk Payload}
    {memberId : ℕ} {request chunk : InstallSnapshotRequest} {file : List UInt8}
    (hloads : snapshotter.Loads disk memberId request (.ok chunk) snapshotter')
    (hfile : disk.file snapshotter.snapshotPath = some file)
    (hsize : file.length = snapshotter.snapshotSize)
    (hcursor : snapshotter.cursor memberId < 2 ^ 64) :
    snapshotter.cursor memberId ≤ file.length := by
  by_contra hpast
  cases hloads with
  | read hread hdata hlength hdone =>
    rw [hfile] at hread
    cases hread
    have hnothing : snapshotter.chunkSize memberId = 0 := by
      rw [← hlength, hdata, List.drop_eq_nil_of_le (by omega), List.take_nil, List.length_nil]
    have hwrap : u64 (snapshotter.snapshotSize + 2 ^ 64 - snapshotter.cursor memberId) =
        snapshotter.snapshotSize + 2 ^ 64 - snapshotter.cursor memberId :=
      Nat.mod_eq_of_lt (by omega)
    rw [chunkSize, hwrap, maxSnapshotChunkSize] at hnothing
    omega

@[simp] theorem cursor_setCursor (snapshotter : Snapshotter) (memberId offset : ℕ) :
    (snapshotter.setCursor memberId offset).cursor memberId = offset := by
  simp [cursor, setCursor]

theorem cursor_setCursor_ne (snapshotter : Snapshotter) {memberId other : ℕ}
    (hne : other ≠ memberId) (offset : ℕ) :
    (snapshotter.setCursor memberId offset).cursor other = snapshotter.cursor other := by
  simp [cursor, setCursor, AList.lookup_insert_ne hne]

end Snapshotter

/-! ## Calls for any members, between saved snapshots -/

/-- A snapshotter with what its members were given. -/
structure SnapshotServer where
  snapshotter : Snapshotter
  disk : Disk Payload
  /-- History. -/
  transfers : ℕ → Transfer := fun _ => {}

namespace SnapshotServer

/-- A chunk is asked for, or a snapshot is saved. -/
inductive Action
  | load (memberId : ℕ) (outcome : FileOutcome) (request : InstallSnapshotRequest)
  | save (snapshot : Snapshot)

/-- The snapshotter as it is constructed, or after the snapshot was loaded. -/
def start (tmpPath snapshotPath : String) (snapshotSize : ℕ) (disk : Disk Payload) :
    SnapshotServer :=
  { snapshotter :=
      { tmpPath := tmpPath, snapshotPath := snapshotPath, snapshotSize := snapshotSize }
    disk := disk }

/-- The snapshot file. -/
def file (s : SnapshotServer) : Option (List UInt8) :=
  s.disk.file s.snapshotter.snapshotPath

/-- The answer to a member, which is given the chunk if there is one. -/
def loaded (s : SnapshotServer) (memberId : ℕ) (snapshotter : Snapshotter) :
    Except Error InstallSnapshotRequest → SnapshotServer
  | .error _ => { s with snapshotter := snapshotter }
  | .ok chunk =>
    { s with
      snapshotter := snapshotter
      transfers := Function.update s.transfers memberId ((s.transfers memberId).give chunk s.file) }

/-- Another snapshot file is current. -/
def saved (s : SnapshotServer) (snapshotter : Snapshotter) (disk : Disk Payload) : SnapshotServer :=
  { snapshotter := snapshotter
    disk := disk
    transfers := fun memberId =>
      (s.transfers memberId).replace (disk.file snapshotter.snapshotPath) }

/-- A load that waits for the mutex and a save that fails are no steps. -/
def step [Platform] (s : SnapshotServer) : Action → Option SnapshotServer
  | .load memberId outcome request =>
    (s.snapshotter.loadSnapshotData outcome s.disk memberId request).map fun found =>
      s.loaded memberId found.2 found.1
  | .save snapshot =>
    match s.snapshotter.saveSnapshot .done s.disk snapshot with
    | some (.ok snapshotter, disk) => some (s.saved snapshotter disk)
    | _ => none

/-- A chunk is read from a file of the size that is known, and if it is not the first one, from
a file that begins with what the member has been given, or ends before. -/
def Continues (s : SnapshotServer) : Action → Prop
  | .load memberId _ _ => ∀ file ∈ s.file, file.length = s.snapshotter.snapshotSize ∧
      (0 < s.snapshotter.cursor memberId → s.snapshotter.cursor memberId ≤ file.length →
        file.take (s.snapshotter.cursor memberId) = (s.transfers memberId).data)
  | .save _ => True

/-- The step of a load. -/
theorem loads_of_step [Platform] {s s' : SnapshotServer} {memberId : ℕ} {outcome : FileOutcome}
    {request : InstallSnapshotRequest} (hstep : s.step (.load memberId outcome request) = some s') :
    ∃ result snapshotter, s.snapshotter.Loads s.disk memberId request result snapshotter ∧
      s' = s.loaded memberId snapshotter result := by
  obtain ⟨⟨result, snapshotter⟩, hload, rfl⟩ := Option.map_eq_some_iff.mp hstep
  exact ⟨result, snapshotter, Snapshotter.loads_of_loadSnapshotData hload, rfl⟩

/-- The step of a save: the temporary file is written and renamed, and its size is kept. -/
theorem saved_of_step [Platform] {s s' : SnapshotServer} {snapshot : Snapshot}
    (hstep : s.step (.save snapshot) = some s') :
    s' = s.saved
      { s.snapshotter with snapshotSize := (Platform.serializeAsString snapshot).length }
      (((s.disk.write (.openTruncated s.snapshotter.tmpPath)).write
        (.writeAll s.snapshotter.tmpPath (Platform.serializeAsString snapshot))).write
        (.rename s.snapshotter.tmpPath s.snapshotter.snapshotPath)) := by
  simp only [step, Snapshotter.saveSnapshot] at hstep
  split at hstep
  next snapshotter disk hsave =>
    cases hstep
    split_ifs at hsave
    cases hsave
    rfl
  next => cases hstep

/-- A save leaves a file of the size that is known. -/
theorem length_file_of_save [Platform] {s s' : SnapshotServer} {snapshot : Snapshot}
    (hpaths : s.snapshotter.tmpPath ≠ s.snapshotter.snapshotPath)
    (hstep : s.step (.save snapshot) = some s') :
    ∀ file ∈ s'.file, file.length = s'.snapshotter.snapshotSize := by
  obtain rfl := saved_of_step hstep
  simp [file, saved, Function.update_of_ne hpaths.symm]

/-- The size that is known is that of the file, and a save writes another file first. -/
structure Sized (s : SnapshotServer) : Prop where
  paths : s.snapshotter.tmpPath ≠ s.snapshotter.snapshotPath
  length : ∀ file ∈ s.file, file.length = s.snapshotter.snapshotSize

theorem Sized.step [Platform] {s s' : SnapshotServer} {action : Action} (h : s.Sized)
    (hstep : s.step action = some s') : s'.Sized := by
  cases action with
  | load memberId outcome request =>
    obtain ⟨result, snapshotter, hloads, rfl⟩ := loads_of_step hstep
    -- only the cursor of the member moves
    cases hloads with
    | failed => exact ⟨h.paths, h.length⟩
    | read => exact ⟨h.paths, h.length⟩
  | save snapshot =>
    refine ⟨?_, length_file_of_save h.paths hstep⟩
    obtain rfl := saved_of_step hstep
    exact h.paths

/-- Once a snapshot was saved or loaded, the size stays that of the file. -/
theorem Sized.run [Platform] {allowed : SnapshotServer → Action → Prop} {s s' : SnapshotServer}
    (h : s.Sized) (hrun : Run SnapshotServer.step allowed s s') : s'.Sized :=
  hrun.invariant Sized h fun h _ hstep => h.step hstep

/-! ## The invariant -/

/-- A finished transfer is whole; an open one has given what is before the cursor. -/
structure Kept (s : SnapshotServer) (memberId : ℕ) : Prop where
  offsets : Transfer.Sums 0 (s.transfers memberId).chunks
  single : (s.transfers memberId).finished = true →
    (s.transfers memberId).data ∈ (s.transfers memberId).files
  length : 0 < s.snapshotter.cursor memberId →
    (s.transfers memberId).data.length = s.snapshotter.cursor memberId
  unfinished : 0 < s.snapshotter.cursor memberId → (s.transfers memberId).finished = false
  current : 0 < s.snapshotter.cursor memberId →
    ∀ file ∈ s.file, file ∈ (s.transfers memberId).files

theorem kept_start (tmpPath snapshotPath : String) (snapshotSize : ℕ) (disk : Disk Payload)
    (memberId : ℕ) : Kept (start tmpPath snapshotPath snapshotSize disk) memberId where
  offsets := trivial
  single hfinished := by cases hfinished
  length hpos := absurd hpos (lt_irrefl 0)
  unfinished hpos := absurd hpos (lt_irrefl 0)
  current hpos := absurd hpos (lt_irrefl 0)

variable {s : SnapshotServer} {memberId : ℕ}

/-- What was given before a chunk ends where the chunk begins. -/
theorem Kept.exists_before (h : Kept s memberId) {chunk : InstallSnapshotRequest}
    {file : List UInt8} (hfile : s.file = some file)
    (hoffset : chunk.offset = s.snapshotter.cursor memberId) :
    ∃ before, before.length = s.snapshotter.cursor memberId ∧
      (0 < s.snapshotter.cursor memberId → before = (s.transfers memberId).data) ∧
      ((s.transfers memberId).give chunk (some file)).data = before ++ chunk.data ∧
      Transfer.Sums 0 ((s.transfers memberId).give chunk (some file)).chunks ∧
      file ∈ ((s.transfers memberId).give chunk (some file)).files := by
  unfold Transfer.give
  by_cases hzero : chunk.offset = 0
  · rw [if_pos hzero]
    refine ⟨[], hzero.symm.trans hoffset, fun hpos => ?_, ?_, ⟨hzero, trivial⟩, ?_⟩
    · omega
    · simp [Transfer.data]
    · exact List.mem_singleton.mpr rfl
  · have hpos : 0 < s.snapshotter.cursor memberId := by omega
    have hlength := h.length hpos
    rw [if_neg hzero]
    refine ⟨(s.transfers memberId).data, hlength, fun _ => rfl, ?_, ?_, h.current hpos file hfile⟩
    · simp [Transfer.data]
    · refine Transfer.sums_append h.offsets ?_
      rw [hoffset, Nat.zero_add, ← hlength]
      rfl

/-- A chunk of a file of the known size is read. -/
theorem Kept.read (h : Kept s memberId) {chunk : InstallSnapshotRequest} {file : List UInt8}
    (hfile : s.file = some file) (hsize : file.length = s.snapshotter.snapshotSize)
    (hcontinues : 0 < s.snapshotter.cursor memberId →
      s.snapshotter.cursor memberId ≤ file.length →
      file.take (s.snapshotter.cursor memberId) = (s.transfers memberId).data)
    (hoffset : chunk.offset = s.snapshotter.cursor memberId)
    (hdata : chunk.data = (file.drop (s.snapshotter.cursor memberId)).take
      (s.snapshotter.chunkSize memberId))
    (hlength : chunk.data.length = s.snapshotter.chunkSize memberId)
    (hdone : chunk.done = decide (s.snapshotter.cursor memberId +
      s.snapshotter.chunkSize memberId = s.snapshotter.snapshotSize)) :
    Kept (s.loaded memberId (s.snapshotter.setCursor memberId (if chunk.done then 0
      else s.snapshotter.cursor memberId + s.snapshotter.chunkSize memberId)) (.ok chunk))
      memberId := by
  obtain ⟨before, hbefore, hopen, hgiven, hsums, hmem⟩ := h.exists_before hfile hoffset
  have htransfer : (s.loaded memberId (s.snapshotter.setCursor memberId (if chunk.done then 0
      else s.snapshotter.cursor memberId + s.snapshotter.chunkSize memberId))
      (.ok chunk)).transfers memberId = (s.transfers memberId).give chunk (some file) := by
    rw [← hfile]
    exact Function.update_self ..
  have hpos : ∀ {n}, 0 < (s.snapshotter.setCursor memberId
      (if chunk.done then 0 else n)).cursor memberId → chunk.done = false := by
    intro n hpos
    rw [Snapshotter.cursor_setCursor] at hpos
    by_contra hfinished
    rw [if_pos (by simpa using hfinished)] at hpos
    exact absurd hpos (lt_irrefl 0)
  constructor
  case offsets => rw [htransfer]; exact hsums
  case single =>
    intro hfinished
    rw [htransfer, Transfer.finished_give] at hfinished
    rw [hfinished, eq_comm, decide_eq_true_iff, ← hsize] at hdone
    -- what was given before is the beginning of this file, and the chunk is the rest of it
    have hbegin : before = file.take (s.snapshotter.cursor memberId) := by
      rcases Nat.eq_zero_or_pos (s.snapshotter.cursor memberId) with hzero | hpositive
      · rw [hzero] at hbefore ⊢
        exact List.length_eq_zero_iff.mp hbefore
      · rw [hopen hpositive, hcontinues hpositive (by omega)]
    have hwhole : before ++ chunk.data = file := by
      rw [hbegin, hdata, ← List.take_add, hdone, List.take_length]
    rw [htransfer, hgiven, hwhole]
    exact hmem
  case length =>
    intro hcursor
    have hopened := hpos hcursor
    rw [htransfer, hgiven, List.length_append, hbefore, hlength]
    exact (Snapshotter.cursor_setCursor ..).trans (if_neg (by simp [hopened])) |>.symm
  case unfinished =>
    intro hcursor
    rw [htransfer, Transfer.finished_give]
    exact hpos hcursor
  case current =>
    intro _ found hfound
    obtain rfl : file = found := Option.some.inj (hfile.symm.trans hfound)
    rw [htransfer]
    exact hmem

/-- A failure sends the cursor back. -/
theorem Kept.failed (h : Kept s memberId) {error : Error} :
    Kept (s.loaded memberId (s.snapshotter.setCursor memberId 0) (.error error)) memberId := by
  have hzero : ¬ 0 < (s.snapshotter.setCursor memberId 0).cursor memberId := by
    rw [Snapshotter.cursor_setCursor]
    exact lt_irrefl 0
  exact ⟨h.offsets, h.single, fun hpos => absurd hpos hzero, fun hpos => absurd hpos hzero,
    fun hpos => absurd hpos hzero⟩

/-- Nothing changes for the other members. -/
theorem Kept.other (h : Kept s memberId) {other offset : ℕ} (hne : memberId ≠ other)
    (result : Except Error InstallSnapshotRequest) :
    Kept (s.loaded other (s.snapshotter.setCursor other offset) result) memberId := by
  have hcursor : (s.loaded other (s.snapshotter.setCursor other offset) result).snapshotter.cursor
      memberId = s.snapshotter.cursor memberId := by
    cases result <;> exact Snapshotter.cursor_setCursor_ne _ hne _
  have htransfer : (s.loaded other (s.snapshotter.setCursor other offset) result).transfers
      memberId = s.transfers memberId := by
    cases result with
    | error error => rfl
    | ok chunk => exact Function.update_of_ne hne ..
  have hfile : (s.loaded other (s.snapshotter.setCursor other offset) result).file = s.file := by
    cases result <;> rfl
  constructor
  case offsets => rw [htransfer]; exact h.offsets
  case single => rw [htransfer]; exact h.single
  case length => rw [htransfer, hcursor]; exact h.length
  case unfinished => rw [htransfer, hcursor]; exact h.unfinished
  case current => rw [htransfer, hcursor, hfile]; exact h.current

/-- The cursors stay, and open transfers go on with the new file. -/
theorem Kept.saved (h : Kept s memberId) (snapshotSize : ℕ) (disk : Disk Payload) :
    Kept (s.saved { s.snapshotter with snapshotSize := snapshotSize } disk) memberId := by
  have htransfer : (s.saved { s.snapshotter with snapshotSize := snapshotSize } disk).transfers
      memberId = (s.transfers memberId).replace (disk.file s.snapshotter.snapshotPath) := rfl
  constructor
  case offsets =>
    rw [htransfer, Transfer.chunks_replace]
    exact h.offsets
  case single =>
    intro hfinished
    rw [htransfer, Transfer.finished, Transfer.chunks_replace] at hfinished
    rw [htransfer, Transfer.replace_of_finished hfinished]
    exact h.single hfinished
  case length =>
    intro hpos
    rw [htransfer, Transfer.data, Transfer.chunks_replace]
    exact h.length hpos
  case unfinished =>
    intro hpos
    rw [htransfer, Transfer.finished, Transfer.chunks_replace]
    exact h.unfinished hpos
  case current =>
    intro hpos file hfile
    rw [htransfer]
    exact Transfer.mem_files_replace (h.unfinished hpos) hfile

theorem Kept.next [Platform] {s' : SnapshotServer} {action : Action}
    (h : ∀ memberId, Kept s memberId) (hcontinues : s.Continues action)
    (hstep : s.step action = some s') (memberId : ℕ) : Kept s' memberId := by
  cases action with
  | load other outcome request =>
    obtain ⟨result, snapshotter, hloads, rfl⟩ := loads_of_step hstep
    by_cases hother : memberId = other
    · subst hother
      cases hloads with
      | failed => exact (h memberId).failed
      | @read file data done hfile hdata hlength hdone =>
        obtain ⟨hsize, hbegins⟩ := hcontinues file hfile
        exact @Kept.read s memberId (h memberId)
          { request with
            offset := s.snapshotter.cursor memberId, done := done, data := data }
          file hfile hsize hbegins rfl hdata hlength hdone
    · cases hloads with
      | failed => exact (h memberId).other hother _
      | read => exact (h memberId).other hother _
  | save snapshot =>
    obtain rfl := saved_of_step hstep
    exact (h memberId).saved _ _

/-- **The chunks of a finished transfer are those of one file.** -/
theorem chunksWhole [Platform] {tmpPath snapshotPath : String} {snapshotSize : ℕ}
    {disk : Disk Payload}
    (hrun : Run step Continues (start tmpPath snapshotPath snapshotSize disk) s) (memberId : ℕ)
    (hfinished : (s.transfers memberId).finished = true) :
    (s.transfers memberId).Whole := by
  have hkept := hrun.invariant (fun s => ∀ memberId, Kept s memberId) (kept_start _ _ _ _)
    fun h hcontinues hstep => Kept.next h hcontinues hstep
  exact ⟨(hkept memberId).offsets, (hkept memberId).single hfinished⟩

/-! ## Two snapshots -/

/-- Snapshots whose files are as long as their term says and filled with their index. -/
@[reducible] def filled : Platform where
  serializeAsString snapshot :=
    List.replicate snapshot.lastIncludedTerm (UInt8.ofNat snapshot.lastIncludedIndex)
  parseFromString _ := none
  hash := id

/-- A snapshotter without a file. -/
def fresh : SnapshotServer :=
  start "tmp" "snapshot" 0 {}

/-- Save a snapshot whose file is filled with `index` and has the length `size`. -/
def saves (index size : ℕ) : Action :=
  .save { lastIncludedIndex := index, lastIncludedTerm := size }

/-- Load the next chunk for member 2. -/
def loads : Action :=
  .load 2 .done { term := 1, leaderId := 1, lastIncludedIndex := 1, lastIncludedTerm := 1 }

instance (s : SnapshotServer) : ∀ action, Decidable (s.Continues action)
  | .load _ _ _ => inferInstanceAs (Decidable (∀ file ∈ s.file, _ ∧ (_ → _)))
  | .save _ => inferInstanceAs (Decidable True)

/-- After the first of two chunks the file is replaced by a shorter one.  The read of the second
one fails, and the transfer starts again. -/
theorem chunksWhole_shorter :
    ∃ s, Run (@step filled) Continues fresh s ∧ (s.transfers 2).data = [2, 2, 2] ∧
      (s.transfers 2).Whole := by
  obtain ⟨s, hrun, hcheck⟩ := Run.exists_of_exec (@step filled) Continues fresh
    [saves 1 5000, loads, saves 2 3, loads, loads]
    (fun s => decide ((s.transfers 2).finished = true ∧ (s.transfers 2).data = [2, 2, 2]))
    (by decide +kernel)
  obtain ⟨hfinished, hdata⟩ := of_decide_eq_true hcheck
  exact ⟨s, hrun, hdata, @chunksWhole _ filled _ _ _ _ hrun 2 hfinished⟩

/-- The beginning of one snapshot and the end of the next. -/
theorem exists_mixed_transfer :
    ∃ s, Run (@step filled) (fun _ _ => True) fresh s ∧ (s.transfers 2).finished = true ∧
      ¬ (s.transfers 2).Whole := by
  obtain ⟨s, hrun, hcheck⟩ := Run.exists_of_exec (@step filled) (fun _ _ => True) fresh
    [saves 1 5000, loads, saves 2 5000, loads]
    (fun s => decide ((s.transfers 2).finished = true ∧
      (s.transfers 2).data ∉ (s.transfers 2).files)) (by decide +kernel)
  obtain ⟨hfinished, hmixed⟩ := of_decide_eq_true hcheck
  exact ⟨s, hrun, hfinished, fun hwhole => hmixed hwhole.single⟩

end SnapshotServer

end Vosfs.Raft
