import Vosfs.Raft.Determinism
import Vosfs.Raft.IndexChain
import Vosfs.Raft.LogSafety
import Vosfs.Raft.Reachable

/-!
# Installing a snapshot

A snapshot that ends where the node has applied already must change nothing, and one that ends
later must move the base of the log, the state machine and both indexes together (`Installs`).

`handleInstallSnapshotRequest` moves the base and the state machine, and neither index, for
every snapshot.  So a later snapshot is never installed as it must be, and an earlier one is
harmless only if it holds what the state machine holds (`snapshotInstalled`).
-/

namespace Vosfs.Raft

/-! ## The contents of a snapshot -/

/-- An empty snapshot stands for a file system with the root directory only. -/
def Snapshot.withRoot (snapshot : Snapshot) : Snapshot :=
  if snapshot.inodes.isEmpty && snapshot.dirEntries.isEmpty then
    { snapshot with
      inodes := [StateMachine.rootInode]
      dirEntries := [StateMachine.rootEntry] }
  else
    snapshot

namespace StateMachine

variable {sm sm' : StateMachine} {snapshot : Snapshot}

/-- The maps hold the inodes and entries of the snapshot, the first ones with their keys. -/
structure HasContents (sm : StateMachine) (snapshot : Snapshot) : Prop where
  inodes : ∀ ino, sm.inodes.lookup ino = snapshot.inodes.find? fun inode => inode.ino = ino
  dirEntries : ∀ path,
    sm.dirEntries.lookup path = snapshot.dirEntries.find? fun entry => entry.path = path

theorem hasContents_loadSnapshot : (sm.loadSnapshot snapshot).HasContents snapshot.withRoot := by
  unfold loadSnapshot Snapshot.withRoot
  simp only [UnorderedMap.isEmpty_foldl_emplace Inode.ino,
    UnorderedMap.isEmpty_foldl_emplace DirEntry.path]
  split
  next hempty =>
    obtain ⟨hinodes, hentries⟩ := (Bool.and_eq_true _ _).mp hempty
    rw [List.isEmpty_iff.mp hinodes, List.isEmpty_iff.mp hentries]
    exact ⟨UnorderedMap.lookup_foldl_emplace Inode.ino [rootInode] ∅,
      UnorderedMap.lookup_foldl_emplace DirEntry.path [rootEntry] ∅⟩
  next =>
    refine ⟨fun ino => ?_, fun path => ?_⟩
    · refine (UnorderedMap.lookup_foldl_emplace Inode.ino snapshot.inodes ∅ ino).trans ?_
      rw [AList.lookup_empty, Option.none_or]
    · refine (UnorderedMap.lookup_foldl_emplace DirEntry.path snapshot.dirEntries ∅ path).trans ?_
      rw [AList.lookup_empty, Option.none_or]

/-- Two machines with the maps of one snapshot. -/
theorem sameTree_iff (hcontents : sm'.HasContents snapshot) :
    sm'.SameTree sm ↔ sm.HasContents snapshot := by
  constructor
  · rintro ⟨hinodes, hentries⟩
    exact ⟨fun ino => (hinodes ino).symm.trans (hcontents.inodes ino),
      fun path => (hentries path).symm.trans (hcontents.dirEntries path)⟩
  · intro hholds
    exact ⟨fun ino => (hcontents.inodes ino).trans (hholds.inodes ino).symm,
      fun path => (hcontents.dirEntries path).trans (hholds.dirEntries path).symm⟩

/-- A state machine holds what a snapshot was taken of. -/
theorem hasContents_takeSnapshot (hkeyed : Keyed sm) (hroot : 0 ∈ sm.inodes) (index term : ℕ) :
    sm.HasContents
      (sm.takeSnapshot { lastIncludedIndex := index, lastIncludedTerm := term }).withRoot :=
  (sameTree_iff hasContents_loadSnapshot).mp (sameTree_load sm hkeyed hroot index term)

end StateMachine

/-! ## What installing must do -/

/-- The node after a snapshot was installed: nothing is rolled back, or all moves to the end of
the snapshot. -/
structure RaftNode.Installs (node node' : RaftNode) (snapshot : Snapshot) : Prop where
  earlier : snapshot.lastIncludedIndex ≤ node.lastApplied →
    node'.stateMachine.SameTree node.stateMachine ∧ node'.lastApplied = node.lastApplied ∧
      node'.commitIndex = node.commitIndex
  later : node.lastApplied < snapshot.lastIncludedIndex →
    node'.stateMachine.HasContents snapshot ∧
      node'.logs.lastIncludedIndex = snapshot.lastIncludedIndex ∧
      node'.logs.lastIncludedTerm = snapshot.lastIncludedTerm ∧
      node'.lastApplied = snapshot.lastIncludedIndex ∧
      snapshot.lastIncludedIndex ≤ node'.commitIndex ∧
      ∀ index entry, node'.logs.getEntry index = some entry →
        snapshot.lastIncludedIndex < index ∧ ∃ old, node.logs.getEntry index = some old ∧
          old.index = entry.index ∧ old.term = entry.term

/-- **When a snapshot is installed as it must be.** -/
theorem snapshotInstalled [Platform] {env : Env} {node : RaftNode}
    {request : InstallSnapshotRequest} {snapshot : Snapshot}
    (hinstalled : node.installed request = some snapshot) :
    node.Installs (node.handleInstallSnapshotRequest env request).1 snapshot ↔
      snapshot.lastIncludedIndex ≤ node.lastApplied ∧
        node.stateMachine.HasContents snapshot.withRoot := by
  generalize hafter : (node.handleInstallSnapshotRequest env request).1 = node'
  have hheard : RaftNode.KeepsData node
      ((node.catchUp env request.term).heardFrom env request.leaderId) :=
    RaftNode.catchUp_keepsData.trans RaftNode.heardFrom_keepsData
  cases RaftNode.outcome_of_handleInstallSnapshotRequest hafter with
  | late _ hnone => rw [hinstalled] at hnone; cases hnone
  | received _ hnone => rw [hinstalled] at hnone; cases hnone
  | installed _ hsome =>
    obtain rfl := Option.some.inj (hinstalled.symm.trans hsome)
    have hmaps := @StateMachine.sameTree_iff node.stateMachine
      (node.stateMachine.loadSnapshot snapshot) _ StateMachine.hasContents_loadSnapshot
    constructor
    · intro hinstalls
      -- the index of what was applied does not move
      have hle : snapshot.lastIncludedIndex ≤ node.lastApplied := by
        by_contra hlt
        have hmoved := (hinstalls.later (not_le.mp hlt)).2.2.2.1
        exact hlt (hmoved.symm.trans hheard.lastApplied).le
      exact ⟨hle, hmaps.mp (hinstalls.earlier hle).1⟩
    · rintro ⟨hle, hcontents⟩
      exact ⟨fun _ => ⟨hmaps.mpr hcontents, hheard.lastApplied, hheard.commitIndex⟩,
        fun hlt => absurd hle (not_le.mpr hlt)⟩

/-! ## Snapshots that are installed -/

/-- No bytes are the encoding of the empty snapshot. -/
@[reducible] def emptySnapshotPlatform : Platform where
  serializeAsString _ := []
  parseFromString buf := if buf = [] then some {} else none
  hash := id

/-- A request with all of the empty snapshot. -/
def installEmpty : InstallSnapshotRequest :=
  { term := 1, leaderId := 2, done := true }

/-- The snapshot of a node that applied one entry, for the directory `/a`. -/
def directorySnapshot : Snapshot where
  lastIncludedIndex := 1
  lastIncludedTerm := 1
  inodes :=
    [StateMachine.newDirectory 1 0,
      { StateMachine.rootInode with dirEntries := [StateMachine.newDirectoryEntry 1 "a" "/a" 0] }]
  dirEntries := [StateMachine.newDirectoryEntry 1 "a" "/a" 0, StateMachine.rootEntry]

/-- The encoding of `directorySnapshot`, and of no other. -/
@[reducible] def directorySnapshotPlatform : Platform where
  serializeAsString snapshot := if snapshot = directorySnapshot then [8, 1, 16, 1] else []
  parseFromString buf := if buf = [8, 1, 16, 1] then some directorySnapshot else none
  hash := id

/-- A request with all of `directorySnapshot`. -/
def installDirectory : InstallSnapshotRequest :=
  { term := 1, leaderId := 2, data := [8, 1, 16, 1], done := true }

/-- A node gets the snapshot of the directory it shows. -/
theorem snapshotInstalled_directory :
    ∃ node, Run (@RaftNode.next directorySnapshotPlatform) (fun _ _ => True) follower node ∧
      node.lastApplied = 1 ∧ "/a" ∈ node.stateMachine.dirEntries ∧
      node.Installs (@RaftNode.handleInstallSnapshotRequest directorySnapshotPlatform {} node
        installDirectory).1 directorySnapshot := by
  obtain ⟨node, hrun, hcheck⟩ := Run.exists_of_exec (@RaftNode.next directorySnapshotPlatform)
    (fun _ _ => True) follower [entriesOf 1 [created 1 "a"] 1]
    (fun node => decide (node.lastApplied = 1 ∧ "/a" ∈ node.stateMachine.dirEntries ∧
      @RaftNode.installed directorySnapshotPlatform node installDirectory =
        some directorySnapshot ∧
      (∀ pair ∈ node.stateMachine.inodes.pairs, pair.2.ino = pair.1) ∧
      (∀ pair ∈ node.stateMachine.dirEntries.pairs, pair.2.path = pair.1) ∧
      0 ∈ node.stateMachine.inodes ∧
      (node.stateMachine.takeSnapshot
        { lastIncludedIndex := 1, lastIncludedTerm := 1 }).withRoot = directorySnapshot))
    (by decide)
  obtain ⟨happlied, hshown, hinstalled, hinodes, hentries, hroot, htaken⟩ :=
    of_decide_eq_true hcheck
  have hkeyed : node.stateMachine.Keyed :=
    ⟨fun _ _ hlookup => hinodes _ (UnorderedMap.mem_pairs.mpr hlookup),
      fun _ _ hlookup => hentries _ (UnorderedMap.mem_pairs.mpr hlookup)⟩
  have hcontents := StateMachine.hasContents_takeSnapshot hkeyed hroot 1 1
  rw [htaken] at hcontents
  exact ⟨node, hrun, happlied, hshown,
    (@snapshotInstalled directorySnapshotPlatform _ _ _ _ hinstalled).mpr
      ⟨happlied.ge, hcontents⟩⟩

/-- A stale snapshot takes back a directory, and a new one leaves the applied index behind. -/
theorem exists_wrong_install :
    (∃ node, Run (@RaftNode.next emptySnapshotPlatform) (fun _ _ => True) follower node ∧
      @RaftNode.installed emptySnapshotPlatform node installEmpty = some {} ∧
      node.lastApplied = 1 ∧ ¬ node.Installs (@RaftNode.handleInstallSnapshotRequest
        emptySnapshotPlatform {} node installEmpty).1 {}) ∧
    ∃ request, @RaftNode.installed oneSnapshotPlatform follower request = some oneSnapshot ∧
      ¬ follower.Installs (@RaftNode.handleInstallSnapshotRequest oneSnapshotPlatform {} follower
        request).1 oneSnapshot := by
  constructor
  · obtain ⟨node, hrun, hcheck⟩ := Run.exists_of_exec (@RaftNode.next emptySnapshotPlatform)
      (fun _ _ => True) follower [entriesOf 1 [created 1 "a"] 1]
      (fun node => decide (@RaftNode.installed emptySnapshotPlatform node installEmpty = some {} ∧
        node.lastApplied = 1 ∧
        (@RaftNode.handleInstallSnapshotRequest emptySnapshotPlatform {} node
          installEmpty).1.stateMachine.inodes.lookup 1 ≠ node.stateMachine.inodes.lookup 1))
      (by decide)
    obtain ⟨hinstalled, happlied, hdiffer⟩ := of_decide_eq_true hcheck
    exact ⟨node, hrun, hinstalled, happlied,
      fun hinstalls => hdiffer ((hinstalls.earlier (Nat.zero_le _)).1.inodes 1)⟩
  · refine ⟨{ term := 1, leaderId := 2, data := [8, 10, 16, 1], done := true }, by decide,
      fun hinstalls => ?_⟩
    have hmoved := (hinstalls.later (by decide)).2.2.2.1
    revert hmoved
    decide

end Vosfs.Raft
