import Vosfs.FileSystem.Tree
import Vosfs.Library.Varint
import Vosfs.Raft.Encoding

/-!
# The tree through the bytes of a snapshot

A snapshot is stored and sent as bytes.  The numbers in the tree keep to their types as long as
those of the commands do (`InRange`), so that the bytes give the snapshot back (`readsBack`).  So
`treeRefines` also holds of the state machines that load what others were serialized to
(`treeReloads`).
-/

namespace Vosfs.Raft

open Wire

variable [Runtime]

theorem Inode.inRange_iff (inode : Inode) :
    Inode.format.inRange inode = true ↔ inode.ino < 2 ^ 64 ∧ inode.size < 2 ^ 64 ∧
      inode.ctime < 2 ^ 64 ∧ inode.mtime < 2 ^ 64 ∧ inode.nlink < 2 ^ 32 ∧
      (∀ block ∈ inode.blocks, BlockInfo.format.inRange block = true) ∧
      ∀ entry ∈ inode.dirEntries, DirEntry.format.inRange entry = true := by
  simp [Format.inRange, format, Field.uint64, Field.scalar, Field.message, Field.bool,
    Field.uint32, Field.ignored]

theorem DirEntry.inRange_iff (entry : DirEntry) :
    DirEntry.format.inRange entry = true ↔ entry.ino < 2 ^ 64 ∧ entry.size < 2 ^ 64 ∧
      entry.ctime < 2 ^ 64 ∧ entry.mtime < 2 ^ 64 := by
  simp [Format.inRange, format, Field.uint64, Field.scalar, Field.string, Field.bool]

theorem EntryCommand.inRange_mkdir (request : MakeDirRequest) :
    EntryCommand.format.inRange (.mkdir request) = true ↔ request.timestamp < 2 ^ 64 := by
  simp [Format.inRange, format, mkdir?, uploadFile?, Field.oneof, MakeDirRequest.format,
    Field.uint64, Field.scalar, Field.string]

theorem EntryCommand.inRange_uploadFile (request : UploadFileRequest) :
    EntryCommand.format.inRange (.uploadFile request) = true ↔ request.ino < 2 ^ 64 ∧
      ∀ block ∈ request.blocks, BlockInfo.format.inRange block = true := by
  simp [Format.inRange, format, mkdir?, uploadFile?, Field.oneof, UploadFileRequest.format,
    Field.uint64, Field.scalar, Field.string, Field.message]

namespace StateMachine

/-! ### The numbers keep to their types -/

/-- The numbers of a state fit the fields of the snapshot they are saved in. -/
structure FitsTypes (sm : StateMachine) : Prop where
  inodes : ∀ ino inode, sm.inodes.lookup ino = some inode → Inode.format.inRange inode = true
  dirEntries : ∀ path entry, sm.dirEntries.lookup path = some entry →
    DirEntry.format.inRange entry = true
  nextIno : sm.nextIno < 2 ^ 64

variable {sm sm' : StateMachine}

omit [Runtime] in
theorem u64_lt (n : ℕ) : u64 n < 2 ^ 64 :=
  Nat.mod_lt _ (by decide)

theorem FitsTypes.congr (h : sm.FitsTypes) (hsame : SameTree sm sm')
    (hnext : sm'.nextIno < 2 ^ 64) : sm'.FitsTypes where
  inodes ino inode hlookup := h.inodes ino inode ((hsame.inodes ino).trans hlookup)
  dirEntries path entry hlookup := h.dirEntries path entry ((hsame.dirEntries path).trans hlookup)
  nextIno := hnext

theorem fitsTypes_create (dataNodes : List ℕ) : (create dataNodes).FitsTypes := by
  refine ⟨fun ino inode hlookup => ?_, fun path entry hlookup => ?_, u64_lt _⟩
  · simp only [create, addRoot, restartIno, UnorderedMap.lookup_emplace] at hlookup
    split at hlookup
    next =>
      cases hlookup
      rw [Inode.inRange_iff]
      simp [rootInode]
    next => cases hlookup
  · simp only [create, addRoot, restartIno, UnorderedMap.lookup_emplace] at hlookup
    split at hlookup
    next =>
      cases hlookup
      rw [DirEntry.inRange_iff]
      simp [rootEntry, rootInode]
    next => cases hlookup

/-- A new node fits, and so does the directory it goes into. -/
theorem FitsTypes.link (h : sm.FitsTypes) {parentIno : ℕ} {parentInode inode : Inode}
    {entry : DirEntry} (hparent : sm.inodes.lookup parentIno = some parentInode)
    (hinode : Inode.format.inRange inode = true)
    (hentry : DirEntry.format.inRange entry = true) :
    (sm.link parentIno parentInode inode entry).FitsTypes := by
  have hextended : Inode.format.inRange
      { parentInode with dirEntries := parentInode.dirEntries ++ [entry] } = true := by
    obtain ⟨hino, hsize, hctime, hmtime, hnlink, hblocks, hentries⟩ :=
      (Inode.inRange_iff _).mp (h.inodes parentIno parentInode hparent)
    refine (Inode.inRange_iff _).mpr ⟨hino, hsize, hctime, hmtime, hnlink, hblocks, ?_⟩
    exact List.forall_mem_append.mpr ⟨hentries, List.forall_mem_singleton.mpr hentry⟩
  refine ⟨fun ino found hlookup => ?_, fun path found hlookup => ?_, h.nextIno⟩
  · simp only [StateMachine.link, UnorderedMap.lookup_emplace] at hlookup
    split at hlookup
    next =>
      cases hlookup
      exact hinode
    next =>
      rw [UnorderedMap.lookup_insert_eq] at hlookup
      split at hlookup
      next =>
        cases hlookup
        exact hextended
      next => exact h.inodes ino found hlookup
  · simp only [StateMachine.link, UnorderedMap.lookup_emplace] at hlookup
    split at hlookup
    next =>
      cases hlookup
      exact hentry
    next => exact h.dirEntries path found hlookup

omit [Runtime] in
theorem totalSize_lt (blocks : List BlockInfo) : totalSize blocks < 2 ^ 64 := by
  unfold totalSize
  induction blocks using List.reverseRecOn with
  | nil => exact Nat.two_pow_pos 64
  | append_singleton blocks block _ =>
    rw [List.foldl_append]
    exact u64_lt _

theorem FitsTypes.extend (h : sm.FitsTypes) {currentMs : ℕ} {entry : LogEntry}
    (hcommand : entry.command.all EntryCommand.format.inRange = true)
    (hclock : currentMs < 2 ^ 64) : (sm.extend (sm.addition currentMs entry)).FitsTypes := by
  rcases sm.addition_cases currentMs entry with haccept | haccept | hnone
  · obtain ⟨request, parentIno, parentInode, path, hentry, hcheck⟩ := exists_of_acceptsMkdir haccept
    rw [addition_mkdir currentMs hentry hcheck]
    rw [hentry] at hcommand
    have htime := (EntryCommand.inRange_mkdir request).mp hcommand
    refine h.link (parent_of_checkMkdir hcheck) ?_ ?_
    · refine (Inode.inRange_iff _).mpr ⟨h.nextIno, ?_, htime, htime, ?_, ?_, ?_⟩ <;>
        simp [newDirectory]
    · refine (DirEntry.inRange_iff _).mpr ⟨h.nextIno, ?_, htime, htime⟩
      simp [newDirectoryEntry]
  · obtain ⟨request, parentIno, parentInode, name, hentry, hcheck⟩ :=
      exists_of_acceptsUploadFile haccept
    rw [addition_uploadFile currentMs hentry hcheck]
    rw [hentry] at hcommand
    obtain ⟨hino, hblocks⟩ := (EntryCommand.inRange_uploadFile request).mp hcommand
    have hsize := totalSize_lt request.blocks
    refine h.link (parent_of_checkUploadFile hcheck) ?_ ?_
    · refine (Inode.inRange_iff _).mpr ⟨hino, hsize, hclock, hclock, ?_, hblocks, ?_⟩ <;>
        simp [newFile]
    · exact (DirEntry.inRange_iff _).mpr ⟨hino, hsize, hclock, hclock⟩
  · rw [hnone]
    exact h

/-- The numbers that a step brings in. -/
def StepFits : ReplicaStep → Prop
  | .apply _ currentMs entry =>
    currentMs < 2 ^ 64 ∧ entry.command.all EntryCommand.format.inRange = true
  | .appendRequest _ _ | .prepareUploadFile _ => True

theorem FitsTypes.next [Platform] (h : sm.FitsTypes) {step : ReplicaStep} (hfits : StepFits step)
    (hstep : sm.replicaStep step = some sm') : sm'.FitsTypes := by
  cases step with
  | apply asLeader currentMs entry =>
    cases hstep
    obtain ⟨hclock, hcommand⟩ := hfits
    refine (h.extend hcommand hclock).congr (sm.sameTree_apply asLeader currentMs entry).symm ?_
    rw [nextIno_apply]
    split
    · exact u64_lt _
    · exact h.nextIno
  | appendRequest logIndex request =>
    cases hstep
    exact h.congr (SameTree.of_eq rfl rfl) h.nextIno
  | prepareUploadFile request =>
    have hsame := replicaStep_sameTree hstep rfl
    refine h.congr hsame ?_
    obtain ⟨⟨next, response⟩, hprepare, rfl⟩ := Option.map_eq_some_iff.mp hstep
    unfold prepareUploadFile at hprepare
    split_ifs at hprepare <;> cases hprepare
    · exact h.nextIno
    · exact u64_lt _

omit [Runtime] in
theorem nextIno_loadSnapshot_lt (snapshot : Snapshot) :
    (sm.loadSnapshot snapshot).nextIno < 2 ^ 64 := by
  unfold loadSnapshot
  dsimp only
  split <;> exact u64_lt _

/-! ### Reading a snapshot back -/

/-- The bytes that a member saves or sends. -/
def snapshotBytes (sm : StateMachine) (index term : ℕ) : List UInt8 :=
  Snapshot.format.serializeAsString
    (sm.takeSnapshot { lastIncludedIndex := index, lastIncludedTerm := term })

/-- The numbers of a snapshot fit their types, and it is not too long. -/
structure Storable (sm : StateMachine) (index term : ℕ) : Prop where
  index_lt : index < 2 ^ 64
  term_lt : term < 2 ^ 64
  size : (Snapshot.format.internalSerialize
    (sm.takeSnapshot { lastIncludedIndex := index, lastIncludedTerm := term })).length ≤ maxSize

theorem FitsTypes.readsBack [LawfulRuntime] (h : sm.FitsTypes) {index term : ℕ}
    (hstorable : sm.Storable index term) :
    Snapshot.format.parseFromString (sm.snapshotBytes index term) =
      some (sm.takeSnapshot { lastIncludedIndex := index, lastIncludedTerm := term }) := by
  refine Format.parseFromString_serializeAsString Snapshot.lawful_format ?_ hstorable.size
  rw [Snapshot.inRange_iff]
  refine ⟨hstorable.index_lt, hstorable.term_lt, fun inode hmem => ?_, fun entry hmem => ?_⟩
  · obtain ⟨ino, hlookup⟩ := UnorderedMap.mem_values.mp hmem
    exact h.inodes ino inode hlookup
  · obtain ⟨path, hlookup⟩ := UnorderedMap.mem_values.mp hmem
    exact h.dirEntries path entry hlookup

section Theorem

variable [Platform] {log : List LogEntry}

/-- The states that have applied the entries of a log, where snapshots are loaded from the bytes
that others were serialized to. -/
inductive Reloaded : List LogEntry → StateMachine → Prop
  | create (dataNodes : List ℕ) : Reloaded [] (create dataNodes)
  | next {log : List LogEntry} {sm sm' : StateMachine} {step : ReplicaStep}
      (hreloaded : Reloaded log sm) (hfits : StepFits step)
      (hnumber : ∀ entry ∈ step.entry?, sm.NumberFree entry)
      (hstep : sm.replicaStep step = some sm') : Reloaded (log ++ Option.toList step.entry?) sm'
  | load {log lost : List LogEntry} {sm other : StateMachine} {index term : ℕ}
      {snapshot : Snapshot} (hreloaded : Reloaded lost sm) (hother : Reloaded log other)
      (hstorable : other.Storable index term)
      (hparse : Snapshot.format.parseFromString (other.snapshotBytes index term) = some snapshot) :
      Reloaded log (sm.loadSnapshot snapshot)

theorem Reloaded.recorded [LawfulRuntime] (h : Reloaded log sm) :
    Recorded log sm ∧ sm.FitsTypes := by
  induction h with
  | create dataNodes => exact ⟨.create dataNodes, fitsTypes_create dataNodes⟩
  | next _ hfits hnumber hstep ih => exact ⟨ih.1.next hnumber hstep, ih.2.next hfits hstep⟩
  | @load _ _ sm other index term _ _ _ hstorable hparse ih ih' =>
    rw [ih'.2.readsBack hstorable] at hparse
    cases hparse
    obtain ⟨hshows, -⟩ := treeRefines ih'.1
    have hsame := sameTree_load sm hshows.orderly.keyed hshows.orderly.root index term
    exact ⟨ih.1.load ih'.1 index term, ih'.2.congr hsame.symm (nextIno_loadSnapshot_lt _)⟩

/-- **The tree comes back from the bytes**: whatever was loaded on the way, a state machine whose
entries took free numbers shows what they make, and its own snapshot is read back. -/
theorem treeReloads [LawfulRuntime] (h : Reloaded log sm) :
    Shows sm (fileSystem.replay (log.map LogEntry.command)) ∧
      Responds sm (fileSystem.replay (log.map LogEntry.command)) ∧
      ∀ index term, sm.Storable index term → ∃ snapshot,
        Snapshot.format.parseFromString (sm.snapshotBytes index term) = some snapshot ∧
          ∀ other : StateMachine, SameTree (other.loadSnapshot snapshot) sm := by
  obtain ⟨hrecorded, hfits⟩ := h.recorded
  obtain ⟨hshows, hresponds⟩ := treeRefines hrecorded
  refine ⟨hshows, hresponds, fun index term hstorable => ⟨_, hfits.readsBack hstorable, ?_⟩⟩
  intro other
  exact sameTree_load other hshows.orderly.keyed hshows.orderly.root index term

end Theorem

/-! ### A directory that is sent -/

/-- A member with one directory. -/
def madeDirectory : StateMachine :=
  (create [7]).apply true 40 makeDirectory

omit [Runtime] in
theorem treeReloads_sent :
    ∃ sm ns, @Reloaded Varint.base128 plainPlatform [makeDirectory] sm ∧
      (sm.ls { path := "/" }).dirEntries.map DirEntry.path = ["/a"] ∧ Shows sm ns := by
  have hmade : @Reloaded Varint.base128 plainPlatform [makeDirectory] madeDirectory :=
    @Reloaded.next Varint.base128 plainPlatform [] _ _ (.apply true 40 makeDirectory)
      (@Reloaded.create Varint.base128 plainPlatform [7]) ⟨by decide, by decide⟩ (by decide) rfl
  have hstorable : @Storable Varint.base128 madeDirectory 1 1 :=
    @Storable.mk Varint.base128 _ _ _ (by decide) (by decide) (by decide +kernel)
  have hfits := (@Reloaded.recorded Varint.base128 _ plainPlatform _ Varint.lawful_base128 hmade).2
  have hloaded := @Reloaded.load Varint.base128 plainPlatform _ _ _ _ 1 1 _
    (@Reloaded.create Varint.base128 plainPlatform [8]) hmade hstorable
    (@FitsTypes.readsBack Varint.base128 _ Varint.lawful_base128 hfits _ _ hstorable)
  exact ⟨_, _, hloaded, by decide,
    (@treeReloads Varint.base128 _ plainPlatform _ Varint.lawful_base128 hloaded).1⟩

end StateMachine

end Vosfs.Raft
