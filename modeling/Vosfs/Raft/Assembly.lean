import Vosfs.Raft.Chunks
import Vosfs.Raft.IndexChain

/-!
# Putting chunks together

A follower appends the data of every chunk that arrives to one buffer, which it clears when the
offset is 0; no other offset is looked at.  What it parses when the last chunk arrives is the
leader's file exactly if the buffer holds the bytes before this chunk (`received_eq_iff`).
That is so as long as each chunk that arrives has offset 0, or continues where a buffer that was
begun with such a chunk ends (`snapshotAssembled`).  Where a chunk was lost or arrives twice, the
rest is installed all the same, if it can be parsed (`exists_wrong_assembly`).

What the leader's snapshotter gives are such chunks, of the file that is current
(`delivers_of_run`).
-/

namespace Vosfs.Raft

open Transfer (Sums)

/-- A piece of the file at its offset, which is the last one if it ends the file. -/
structure IsChunk (file : List UInt8) (request : InstallSnapshotRequest) : Prop where
  within : request.offset + request.data.length ≤ file.length
  data : request.data = (file.drop request.offset).take request.data.length
  done : request.done = true ↔ request.offset + request.data.length = file.length

namespace IsChunk

variable {file : List UInt8} {request : InstallSnapshotRequest}

/-- `load_snapshot_data` makes chunks, as long as the size of the snapshot is that of its file. -/
theorem of_loads {snapshotter snapshotter' : Snapshotter} {disk : Disk Payload} {memberId : ℕ}
    {request' : InstallSnapshotRequest}
    (hloads : snapshotter.Loads disk memberId request' (.ok request) snapshotter')
    (hfile : disk.file snapshotter.snapshotPath = some file)
    (hsize : snapshotter.snapshotSize = file.length)
    (hcursor : snapshotter.cursor memberId ≤ file.length) : IsChunk file request := by
  cases hloads with
  | read hread hdata hlength hdone =>
    rw [hfile] at hread
    cases hread
    have hle := hlength ▸ congrArg List.length hdata
    rw [List.length_take, List.length_drop] at hle
    refine ⟨?_, ?_, ?_⟩
    · dsimp only
      omega
    · dsimp only
      rw [hlength]
      exact hdata
    · dsimp only
      rw [hdone, decide_eq_true_iff, hsize, hlength]

theorem drop_of_done (h : IsChunk file request) (hdone : request.done = true) :
    request.data = file.drop request.offset := by
  have hend := h.done.mp hdone
  rw [h.data, List.take_of_length_le]
  rw [List.length_drop]
  omega

theorem take_append (h : IsChunk file request) :
    file.take request.offset ++ request.data =
      file.take (request.offset + request.data.length) := by
  rw [List.take_add, ← h.data]

/-- The beginning of a file, and the rest. -/
theorem front {front rest : List UInt8} (hoffset : request.offset = 0)
    (hdata : request.data = front) (hdone : request.done = true ↔ rest = []) :
    IsChunk (front ++ rest) request := by
  constructor
  · rw [hoffset, hdata, List.length_append]
    omega
  · rw [hoffset, hdata, List.drop_zero, List.take_left]
  · rw [hdone, hoffset, hdata, List.length_append, ← List.length_eq_zero_iff]
    omega

theorem back {front rest : List UInt8} (hoffset : request.offset = front.length)
    (hdata : request.data = rest) (hdone : request.done = true) :
    IsChunk (front ++ rest) request := by
  constructor
  · rw [hoffset, hdata, List.length_append]
  · rw [hoffset, hdata, List.drop_left, List.take_length]
  · rw [hoffset, hdata, List.length_append]
    exact iff_of_true hdone rfl

end IsChunk

/-! ## One request -/

namespace RaftNode

/-- The buffer that is parsed if the chunk is the last one. -/
def received (node : RaftNode) (request : InstallSnapshotRequest) : List UInt8 :=
  (if request.offset = 0 then [] else node.snapshotData) ++ request.data

variable [Platform] {env : Env} {node : RaftNode} {file : List UInt8}
  {request : InstallSnapshotRequest}

theorem installed_eq_some_iff {snapshot : Snapshot} : node.installed request = some snapshot ↔
    node.currentTerm ≤ request.term ∧ request.done = true ∧
      Platform.parseFromString (node.received request) = some snapshot := by
  unfold installed received
  split
  next hnone =>
    refine iff_of_false nofun ?_
    rintro ⟨hterm, hdone, -⟩
    exact hnone.elim (not_lt.mpr hterm) (by simp [hdone])
  next hreads =>
    rw [not_or, not_lt, Bool.not_eq_false] at hreads
    exact ⟨fun h => ⟨hreads.1, hreads.2, h⟩, fun h => h.2.2⟩

/-- What a request leaves in the buffer. -/
theorem snapshotData_handle :
    (node.handleInstallSnapshotRequest env request).1.snapshotData =
      if request.term < node.currentTerm then node.snapshotData
      else if request.done = true ∧ node.installed request = none then []
      else node.received request := by
  have hheard : KeepsData node ((node.catchUp env request.term).heardFrom env request.leaderId) :=
    catchUp_keepsData.trans heardFrom_keepsData
  unfold handleInstallSnapshotRequest installed received
  split
  next => rfl
  next hterm =>
    simp only [hheard.snapshotData]
    cases hdone : request.done with
    | false => simp
    | true =>
      simp only [Bool.not_true, Bool.false_eq_true, if_false, hterm, false_or, true_and]
      split
      next hnone => simp [hnone]
      next snapshot hsome => simp [hsome]

omit [Platform] in
/-- What is parsed when the last chunk arrives. -/
theorem received_eq_iff (hchunk : IsChunk file request) (hdone : request.done = true) :
    node.received request = file ↔
      request.offset = 0 ∨ node.snapshotData = file.take request.offset := by
  have hfile : file.take request.offset ++ request.data = file := by
    rw [hchunk.drop_of_done hdone, List.take_append_drop]
  unfold received
  by_cases hfirst : request.offset = 0
  · rw [hfirst, List.take_zero] at hfile
    rw [if_pos hfirst]
    exact iff_of_true hfile (Or.inl hfirst)
  · rw [if_neg hfirst, or_iff_right hfirst]
    calc node.snapshotData ++ request.data = file
        ↔ node.snapshotData ++ request.data = file.take request.offset ++ request.data := by
          rw [hfile]
      _ ↔ node.snapshotData = file.take request.offset := List.append_left_inj _

end RaftNode

/-! ## Any requests -/

/-- A follower that is sent chunks. -/
structure Receiver where
  node : RaftNode
  /-- History: the chunks that were appended since the buffer was cleared. -/
  appended : List InstallSnapshotRequest := []

namespace Receiver

/-- The request is a chunk of the file, from the leader of the term. -/
structure Delivers (file : List UInt8) (leaderId term : ℕ) (request : InstallSnapshotRequest) :
    Prop where
  leaderId : request.leaderId = leaderId
  term : request.term = term
  chunk : IsChunk file request

/-- The chunk is the first one, or it continues where those since the first one end. -/
def Continues (s : Receiver) (request : InstallSnapshotRequest) : Prop :=
  request.offset = 0 ∨ s.appended ≠ [] ∧ request.offset = s.node.snapshotData.length

instance {s : Receiver} {request : InstallSnapshotRequest} : Decidable (s.Continues request) :=
  inferInstanceAs (Decidable (_ ∨ _ ∧ _))

/-- What was appended is the file: each chunk once, at its offset, and none is missing. -/
structure Assembled (s : Receiver) (file : List UInt8) : Prop where
  buffer : s.node.snapshotData = file
  offsets : Sums 0 s.appended
  complete : s.appended.flatMap InstallSnapshotRequest.data = file

/-- What was appended since the first chunk is the beginning of the file. -/
def InPlace (file : List UInt8) (s : Receiver) : Prop :=
  s.appended ≠ [] → Sums 0 s.appended ∧
    s.appended.flatMap InstallSnapshotRequest.data = s.node.snapshotData ∧
    s.node.snapshotData = file.take s.node.snapshotData.length

/-- What the leader's snapshotter gives in any run of loads and saves is a chunk of the file that
is current: with a cursor past the end the read fails. -/
theorem delivers_of_run [Platform] {allowed : SnapshotServer → SnapshotServer.Action → Prop}
    {start server : SnapshotServer} (hsized : start.Sized)
    (hrun : Run SnapshotServer.step allowed start server) {file : List UInt8}
    (hfile : server.file = some file) {memberId : ℕ}
    (hcursor : server.snapshotter.cursor memberId < 2 ^ 64) {outcome : FileOutcome}
    {request chunk : InstallSnapshotRequest} {snapshotter : Snapshotter}
    (hload : server.snapshotter.loadSnapshotData outcome server.disk memberId request =
      some (.ok chunk, snapshotter)) : Delivers file request.leaderId request.term chunk := by
  have hsize := (hsized.run hrun).length file hfile
  have hloads := Snapshotter.loads_of_loadSnapshotData hload
  have hchunk : IsChunk file chunk :=
    .of_loads hloads hfile hsize.symm (hloads.cursor_le hfile hsize hcursor)
  cases hloads with
  | read => exact ⟨rfl, rfl, hchunk⟩

variable [Platform] {file : List UInt8} {leaderId term : ℕ} {s s' : Receiver} {env : Env}
  {request : InstallSnapshotRequest}

/-- A request is handled, and its chunk recorded if it was appended. -/
def step (s : Receiver) (event : Env × InstallSnapshotRequest) : Option Receiver :=
  some
    { node := (s.node.handleInstallSnapshotRequest event.1 event.2).1
      appended :=
        if event.2.term < s.node.currentTerm then s.appended
        else if event.2.done = true ∧ s.node.installed event.2 = none then []
        else (if event.2.offset = 0 then [] else s.appended) ++ [event.2] }

omit [Platform] in
/-- The chunk is put at its offset. -/
theorem InPlace.append (h : InPlace file s) (hchunk : IsChunk file request)
    (hcontinues : s.Continues request) :
    Sums 0 ((if request.offset = 0 then [] else s.appended) ++ [request]) ∧
      ((if request.offset = 0 then [] else s.appended) ++ [request]).flatMap
        InstallSnapshotRequest.data = s.node.received request ∧
      s.node.received request = file.take (request.offset + request.data.length) := by
  unfold RaftNode.received
  by_cases hfirst : request.offset = 0
  · have htake := hchunk.take_append
    rw [hfirst, List.take_zero] at htake
    simp only [hfirst, if_true]
    exact ⟨⟨hfirst, trivial⟩, by simp, htake⟩
  · obtain ⟨hstarted, hoffset⟩ := hcontinues.resolve_left hfirst
    obtain ⟨hsums, hdata, hbuffer⟩ := h hstarted
    rw [if_neg hfirst, if_neg hfirst]
    refine ⟨Transfer.sums_append hsums ?_, ?_, ?_⟩
    · rw [hdata, hoffset, Nat.zero_add]
    · rw [List.flatMap_append, hdata, List.flatMap_singleton]
    · rw [hbuffer, ← hoffset, hchunk.take_append]

theorem InPlace.step (h : InPlace file s) (hchunk : IsChunk file request)
    (hcontinues : s.Continues request) (hstep : s.step (env, request) = some s') :
    InPlace file s' := by
  cases hstep
  intro hstarted
  dsimp only at hstarted ⊢
  rw [RaftNode.snapshotData_handle]
  by_cases hlate : request.term < s.node.currentTerm
  · rw [if_pos hlate] at hstarted ⊢
    rw [if_pos hlate]
    exact h hstarted
  · rw [if_neg hlate] at hstarted ⊢
    rw [if_neg hlate]
    by_cases hunparsed : request.done = true ∧ s.node.installed request = none
    · rw [if_pos hunparsed] at hstarted
      exact absurd rfl hstarted
    · rw [if_neg hunparsed, if_neg hunparsed]
      obtain ⟨hsums, hdata, htake⟩ := h.append hchunk hcontinues
      refine ⟨hsums, hdata, ?_⟩
      rw [htake, List.length_take, min_eq_left hchunk.within]

/-- The last chunk completes the file. -/
theorem InPlace.assembled (h : InPlace file s) (hchunk : IsChunk file request)
    (hcontinues : s.Continues request) (hstep : s.step (env, request) = some s')
    (hinstalled : (s.node.installed request).isSome) : s'.Assembled file := by
  obtain ⟨snapshot, hsnapshot⟩ := Option.isSome_iff_exists.mp hinstalled
  obtain ⟨hterm, hdone, -⟩ := RaftNode.installed_eq_some_iff.mp hsnapshot
  have hparsed : ¬ (request.done = true ∧ s.node.installed request = none) := fun hnone => by
    rw [hnone.2] at hinstalled
    cases hinstalled
  obtain ⟨hsums, hdata, htake⟩ := h.append hchunk hcontinues
  rw [hchunk.done.mp hdone, List.take_length] at htake
  cases hstep
  refine ⟨?_, ?_, ?_⟩
  · rw [RaftNode.snapshotData_handle, if_neg (not_lt.mpr hterm), if_neg hparsed, htake]
  · rwa [if_neg (not_lt.mpr hterm), if_neg hparsed]
  · rw [if_neg (not_lt.mpr hterm), if_neg hparsed, hdata, htake]

/-- **Where the receiver installs the leader's file.**  In a run whose chunks all continue, every
snapshot that is installed is the file, put together from its chunks.  In any run, what is parsed
is the file exactly if the last chunk has offset 0 or finds the bytes before it in the buffer. -/
theorem snapshotAssembled {node : RaftNode} :
    (∀ s, Run step (fun s event => Delivers file leaderId term event.2 ∧ s.Continues event.2)
        { node := node } s →
      ∀ env request s', Delivers file leaderId term request → s.Continues request →
        s.step (env, request) = some s' → (s.node.installed request).isSome →
          s'.Assembled file) ∧
    ∀ s, Run step (fun _ event => Delivers file leaderId term event.2) { node := node } s →
      ∀ request, Delivers file leaderId term request → (s.node.installed request).isSome →
        (s.node.received request = file ↔
          request.offset = 0 ∨ s.node.snapshotData = file.take request.offset) := by
  constructor
  · intro s hrun env request s' hdelivers hcontinues hstep hinstalled
    have hplace : InPlace file s := hrun.invariant (InPlace file) (absurd rfl)
      fun h hallowed hstep => h.step hallowed.1.chunk hallowed.2 hstep
    exact hplace.assembled hdelivers.chunk hcontinues hstep hinstalled
  · intro s _ request hdelivers hinstalled
    obtain ⟨snapshot, hsnapshot⟩ := Option.isSome_iff_exists.mp hinstalled
    exact RaftNode.received_eq_iff hdelivers.chunk
      (RaftNode.installed_eq_some_iff.mp hsnapshot).2.1

end Receiver

/-! ## A file with two chunks -/

/-- The index 10 and the term 1 of a snapshot, and a directory entry whose name is the letter `a`
4086 times. -/
def firstChunk : List UInt8 :=
  [0x08, 10, 0x10, 1, 0x22, 0xF9, 0x1F, 0x12, 0xF6, 0x1F] ++ List.replicate 4086 0x61

/-- Another directory entry, with the inode number 1. -/
def lastChunk : List UInt8 :=
  [0x22, 2, 0x08, 1]

/-- The encoding of the last chunk, which is a snapshot by itself, and of the two chunks. -/
@[reducible] def twoChunkPlatform : Platform where
  serializeAsString _ := firstChunk ++ lastChunk
  parseFromString buf :=
    if buf = lastChunk then some { dirEntries := [{ ino := 1 }] }
    else if buf = firstChunk ++ lastChunk then
      some
        { lastIncludedIndex := 10
          lastIncludedTerm := 1
          dirEntries := [{ name := String.ofList (List.replicate 4086 'a') }, { ino := 1 }] }
    else none
  hash := id

/-- The first chunk, as the leader of term 1 sends it. -/
def sendFirst : InstallSnapshotRequest :=
  { term := 1, leaderId := 2, offset := 0, data := firstChunk }

/-- The second and last chunk. -/
def sendLast : InstallSnapshotRequest :=
  { term := 1, leaderId := 2, offset := maxSnapshotChunkSize, data := lastChunk, done := true }

theorem length_firstChunk : firstChunk.length = maxSnapshotChunkSize := by
  rw [firstChunk, List.length_append, List.length_replicate]
  rfl

theorem delivers_sendFirst : Receiver.Delivers (firstChunk ++ lastChunk) 2 1 sendFirst :=
  ⟨rfl, rfl, .front rfl rfl (by decide)⟩

theorem delivers_sendLast : Receiver.Delivers (firstChunk ++ lastChunk) 2 1 sendLast :=
  ⟨rfl, rfl, .back length_firstChunk.symm rfl rfl⟩

/-- The follower after the first chunk. -/
def afterFirst : Receiver :=
  { node := (@RaftNode.handleInstallSnapshotRequest twoChunkPlatform {} follower sendFirst).1
    appended := [sendFirst] }

theorem snapshotData_afterFirst : afterFirst.node.snapshotData = firstChunk := by
  unfold afterFirst
  rw [@RaftNode.snapshotData_handle twoChunkPlatform, if_neg (by decide), if_neg (by decide)]
  rfl

theorem installed_afterFirst :
    (@RaftNode.installed twoChunkPlatform afterFirst.node sendLast).isSome := by
  have hreceived : afterFirst.node.received sendLast = firstChunk ++ lastChunk := by
    rw [RaftNode.received, snapshotData_afterFirst]
    rfl
  have hne : firstChunk ++ lastChunk ≠ lastChunk := fun heq => by
    have hlength := congrArg List.length heq
    rw [List.length_append, length_firstChunk] at hlength
    exact absurd hlength (by decide)
  have hparsed : @Platform.parseFromString twoChunkPlatform (firstChunk ++ lastChunk) =
      some
        { lastIncludedIndex := 10
          lastIncludedTerm := 1
          dirEntries := [{ name := String.ofList (List.replicate 4086 'a') }, { ino := 1 }] } :=
    (if_neg hne).trans (if_pos rfl)
  rw [(@RaftNode.installed_eq_some_iff twoChunkPlatform _ _ _).mpr
    ⟨by decide, rfl, hreceived ▸ hparsed⟩]
  rfl

/-- Both chunks arrive, one after the other. -/
theorem snapshotAssembled_inOrder :
    ∃ s', @Receiver.step twoChunkPlatform afterFirst ({}, sendLast) = some s' ∧
      s'.Assembled (firstChunk ++ lastChunk) := by
  have hrun : Run (@Receiver.step twoChunkPlatform) (fun s event =>
      Receiver.Delivers (firstChunk ++ lastChunk) 2 1 event.2 ∧ s.Continues event.2)
      { node := follower } afterFirst :=
    Run.refl.next ⟨delivers_sendFirst, Or.inl rfl⟩
      (rfl : @Receiver.step twoChunkPlatform { node := follower } ({}, sendFirst) = some afterFirst)
  have hcontinues : afterFirst.Continues sendLast :=
    Or.inr ⟨by decide, by rw [snapshotData_afterFirst, length_firstChunk]; rfl⟩
  exact ⟨_, rfl, (@Receiver.snapshotAssembled twoChunkPlatform (firstChunk ++ lastChunk) 2 1
    follower).1 _ hrun {} sendLast _ delivers_sendLast hcontinues rfl installed_afterFirst⟩

/-- The first chunk was lost, and the last one is installed. -/
theorem exists_wrong_assembly :
    Receiver.Delivers (firstChunk ++ lastChunk) 2 1 sendLast ∧
      ∃ s', @Receiver.step twoChunkPlatform { node := follower } ({}, sendLast) = some s' ∧
        (@RaftNode.installed twoChunkPlatform follower sendLast).isSome ∧
        ¬ s'.Assembled (firstChunk ++ lastChunk) := by
  refine ⟨delivers_sendLast, _, rfl, by decide, fun hassembled => ?_⟩
  have hbuffer : (@RaftNode.handleInstallSnapshotRequest twoChunkPlatform {} follower
      sendLast).1.snapshotData = lastChunk := by
    rw [@RaftNode.snapshotData_handle twoChunkPlatform, if_neg (by decide), if_neg (by decide)]
    rfl
  have hlength := congrArg List.length (hbuffer.symm.trans hassembled.buffer)
  rw [List.length_append, length_firstChunk] at hlength
  exact absurd hlength (by decide)

end Vosfs.Raft
