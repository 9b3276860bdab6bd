import Vosfs.Library.Varint
import Vosfs.Raft.Encoding
import Vosfs.Raft.Steps

/-!
# A transfer that ends early

A member takes what it has received for a snapshot as soon as a request says that it is done.  There
is no length and no checksum: if chunks at the end are missing, what is there is parsed as it is.
It is loaded if it ends where a record ends, and then the inodes and the directory entries behind
are missing; and nothing is loaded if it ends inside a record (`partialTransfer`).
-/

namespace Vosfs.Raft.RaftNode

open Wire

variable [Runtime] {env : Env} {node : RaftNode} {request : InstallSnapshotRequest}

omit [Runtime] in
/-- What is installed decides about the state machine and the log. -/
theorem installed_spec [Platform] (hterm : node.currentTerm ≤ request.term) :
    (node.handleInstallSnapshotRequest env request).1.stateMachine =
        ((node.installed request).map node.stateMachine.loadSnapshot).getD node.stateMachine ∧
      (node.handleInstallSnapshotRequest env request).1.logs =
        ((node.installed request).map node.logs.loadSnapshot).getD node.logs := by
  have hheard : KeepsData node ((node.catchUp env request.term).heardFrom env request.leaderId) :=
    catchUp_keepsData.trans heardFrom_keepsData
  generalize hafter : (node.handleInstallSnapshotRequest env request).1 = node'
  cases outcome_of_handleInstallSnapshotRequest hafter with
  | late hlate => exact absurd hlate (Nat.not_lt_of_le hterm)
  | received _ hnone =>
    rw [hnone]
    exact ⟨hheard.stateMachine, hheard.logs⟩
  | installed _ hinstalled =>
    rw [hinstalled]
    exact ⟨rfl, rfl⟩

/-- **A transfer that ends early** is refused, or loads the first records of the snapshot. -/
theorem partialTransfer [LawfulRuntime] (hash : ℕ → ℕ) {s : Snapshot}
    (hrange : Snapshot.format.inRange s = true)
    (hsize : (Snapshot.format.internalSerialize s).length ≤ maxSize) {n : ℕ}
    (hn : n ≤ (Snapshot.format.internalSerialize s).length)
    (hterm : node.currentTerm ≤ request.term) (hdone : request.done = true)
    (hreceived : (if request.offset = 0 then [] else node.snapshotData) ++ request.data =
      ((encodedPlatform hash).serializeAsString s).take n) :
    ∃ loaded : Option Snapshot,
      (@handleInstallSnapshotRequest (encodedPlatform hash) env node request).1.stateMachine =
          (loaded.map node.stateMachine.loadSnapshot).getD node.stateMachine ∧
        (@handleInstallSnapshotRequest (encodedPlatform hash) env node request).1.logs =
          (loaded.map node.logs.loadSnapshot).getD node.logs ∧
        ∀ found, loaded = some found ↔
          ∃ k, n = (Snapshot.format.internalSerialize (s.cut k)).length ∧ s.cut k = found := by
  obtain ⟨hmachine, hlogs⟩ := @installed_spec env node request (encodedPlatform hash) hterm
  refine ⟨_, hmachine, hlogs, fun found => ?_⟩
  have hparsed : @installed (encodedPlatform hash) node request =
      Snapshot.format.parseFromString ((Snapshot.format.internalSerialize s).take n) := by
    have hopen : ¬(request.term < node.currentTerm ∨ request.done = false) := by
      rw [hdone, not_or]
      exact ⟨Nat.not_lt_of_le hterm, Bool.noConfusion⟩
    rw [← Format.serializeAsString_of_le hsize]
    exact (if_neg hopen).trans (congrArg Snapshot.format.parseFromString hreceived)
  rw [hparsed]
  exact Format.parseFromString_take_iff Snapshot.lawful_format Snapshot.cuts_format hrange hsize hn

/-! ### The root without its entry -/

/-- Member 1 of two, which has received nothing yet. -/
def receiver : RaftNode where
  snapshotter := newSnapshotter
  stateMachine := StateMachine.create []
  disk := {}
  logs := { entries := [] }
  transport := ⟨1, [1, 2], nodup_twoMembers⟩
  hardState := {}

/-- A snapshot of the tree that has only its root. -/
def rootSnapshot : Snapshot where
  lastIncludedIndex := 1
  lastIncludedTerm := 1
  inodes := [StateMachine.rootInode]
  dirEntries := [StateMachine.rootEntry]

/-- The last chunk is the first 13 bytes of the snapshot: they end with the inode. -/
def sendFront : InstallSnapshotRequest where
  term := 1
  leaderId := 2
  data := [8, 1, 16, 1, 26, 7, 24, 1, 32, 128, 32, 64, 2]
  done := true

omit [Runtime] in
theorem partialTransfer_rootInode :
    ∃ loaded : Snapshot, loaded.inodes = [StateMachine.rootInode] ∧ loaded.dirEntries = [] ∧
      (@handleInstallSnapshotRequest (@encodedPlatform Varint.base128 id) {} receiver
        sendFront).1.stateMachine = receiver.stateMachine.loadSnapshot loaded := by
  obtain ⟨loaded, hmachine, -, hloaded⟩ := @partialTransfer Varint.base128 {} receiver
    sendFront Varint.lawful_base128 id rootSnapshot (by decide +kernel)
    (by decide +kernel) 13 (by decide +kernel) (by decide) rfl (by decide +kernel)
  have hcut := (hloaded (@Snapshot.cut Varint.base128 rootSnapshot 3)).mpr ⟨3, by decide +kernel, rfl⟩
  rw [hcut, Option.map_some, Option.getD_some] at hmachine
  refine ⟨_, ?_, ?_, hmachine⟩
  · decide +kernel
  · decide +kernel

end Vosfs.Raft.RaftNode
