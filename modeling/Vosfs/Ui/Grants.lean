import Vosfs.Raft.Correspondence
import Vosfs.Ui.Client

/-!
# Granted downloads

For a download, the metadata node looks up the path and answers with the blocks of the inode it
finds, whatever they are.  The client takes the number of the file from the first block.

As long as every file was uploaded with blocks that carry its number (`StockedUploads`), this
goes well for files (`Stocked`).  A directory has no blocks, and the client reads the first
block of an empty list (`downloadsGranted`).
-/

namespace Vosfs.Ui

open Raft Raft.StateMachine

variable {sm sm' : StateMachine}

/-- There are blocks, and they are those of the file with this number. -/
structure Filled (ino : ℕ) (blocks : List Raft.BlockInfo) : Prop where
  blocks_ne : blocks ≠ []
  ino : ∀ block ∈ blocks, block.ino = ino

/-- If the download is granted, it is one of a file and the client can start it. -/
def Grants (sm : StateMachine) (request : PrepareDownloadFileRequest) : Prop :=
  (sm.prepareDownloadFile request).statusCode = .ok →
    ∃ entry, sm.dirEntries.lookup request.remotePath = some entry ∧ entry.isDir = false ∧
      Filled entry.ino (sm.prepareDownloadFile request).blocks ∧
      ∃ task, TransportTask.ofResponse (sm.prepareDownloadFile request).blocks
        (sm.prepareDownloadFile request).localPath
        (sm.prepareDownloadFile request).remotePath = some task ∧ task.ino = entry.ino

/-- Files are uploaded with blocks of their own. -/
def StockedUploads (sm : StateMachine) : ReplicaStep → Prop
  | .apply _ _ entry => sm.acceptsUploadFile entry = true →
    ∀ request ∈ uploadRequest? entry, Filled request.ino request.blocks
  | _ => True

/-! ## The invariant -/

/-- Every entry has an inode, and that of a file has the file's blocks. -/
structure Stocked (sm : StateMachine) : Prop where
  found : ∀ {path entry}, sm.dirEntries.lookup path = some entry →
    ∃ inode, sm.inodes.lookup entry.ino = some inode
  filled : ∀ {path entry inode}, sm.dirEntries.lookup path = some entry →
    entry.isDir = false → sm.inodes.lookup entry.ino = some inode → Filled entry.ino inode.blocks

theorem Stocked.congr (h : Stocked sm) (htree : SameTree sm' sm) : Stocked sm' where
  found hlookup := by
    rw [htree.dirEntries] at hlookup
    rw [htree.inodes]
    exact h.found hlookup
  filled hlookup hfile hinode := by
    rw [htree.dirEntries] at hlookup
    rw [htree.inodes] at hinode
    exact h.filled hlookup hfile hinode

theorem stocked_create (dataNodes : List ℕ) : Stocked (create dataNodes) := by
  constructor
  · intro path entry hlookup
    rw [(dirEntries_create hlookup).2]
    exact ⟨rootInode, rfl⟩
  · intro path entry inode hlookup hfile
    rw [(dirEntries_create hlookup).2] at hfile
    cases hfile

/-- A new entry: a directory's, or a file's with a new number. -/
theorem Stocked.link (h : Stocked sm) {parentPath name : String} {parentIno : ℕ}
    {parentInode inode : Inode} {entry : DirEntry}
    (hplaced : Placed sm parentPath parentIno parentInode entry.path name)
    (hino : entry.ino = inode.ino)
    (hfile : entry.isDir = false → inode.ino ∉ sm.inodes ∧ Filled inode.ino inode.blocks) :
    Stocked (sm.link parentIno parentInode inode entry) := by
  have hparent := UnorderedMap.mem_iff_lookup.mpr ⟨_, hplaced.inode⟩
  constructor
  case found =>
    intro path found hlookup
    rw [lookup_link_dirEntries hplaced.fresh] at hlookup
    rw [← UnorderedMap.mem_iff_lookup, mem_inodes_link hparent]
    split_ifs at hlookup with hpath
    · cases hlookup
      exact Or.inl hino
    · exact Or.inr (UnorderedMap.mem_iff_lookup.mpr (h.found hlookup))
  case filled =>
    intro path found inode' hlookup hkind hinode
    rw [lookup_link_dirEntries hplaced.fresh] at hlookup
    split_ifs at hlookup with hpath
    · cases hlookup
      obtain ⟨hfresh, hfilled⟩ := hfile hkind
      have hne : inode.ino ≠ parentIno := fun heq => hfresh (heq ▸ hparent)
      rw [hino, lookup_link_inodes hparent, if_neg hne, if_pos ⟨rfl, hfresh⟩] at hinode
      cases hinode
      exact hino ▸ hfilled
    · obtain ⟨old, hold⟩ := h.found hlookup
      rw [lookup_link_inodes_of_lookup inode entry hplaced.inode hold] at hinode
      cases hinode
      have hfilled := h.filled hlookup hkind hold
      exact hfilled

theorem Stocked.next (h : Stocked sm) {step : ReplicaStep} (hstocked : StockedUploads sm step)
    (hchange : Change sm sm' step) : Stocked sm' := by
  cases hchange with
  | keeps _ tree => exact h.congr tree
  | prepares _ tree => exact h.congr tree
  | creates _ placed tree =>
    refine Stocked.congr (h.link placed rfl fun hfile => ?_) tree
    cases hfile
  | uploads command accepts fresh _ placed tree =>
    have hfilled := hstocked accepts _ (uploadRequest?_eq_some command)
    exact Stocked.congr (h.link placed rfl fun _ => ⟨fresh, hfilled⟩) tree

/-! ## Downloads -/

/-- A path in use is granted, with the blocks of its inode. -/
theorem prepareDownloadFile_of_lookup {request : PrepareDownloadFileRequest} {entry : DirEntry}
    {inode : Inode} (hlookup : sm.dirEntries.lookup request.remotePath = some entry)
    (hinode : sm.inodes.lookup entry.ino = some inode) :
    sm.prepareDownloadFile request =
      { localPath := request.localPath, remotePath := request.remotePath, statusCode := .ok,
        blocks := inode.blocks } := by
  simp only [prepareDownloadFile, hlookup, hinode]

theorem Filled.exists_task {ino : ℕ} {blocks : List Raft.BlockInfo} (h : Filled ino blocks)
    (localPath remotePath : String) :
    ∃ task, TransportTask.ofResponse blocks localPath remotePath = some task ∧
      task.ino = ino := by
  cases blocks with
  | nil => exact absurd rfl h.blocks_ne
  | cons block blocks => exact ⟨_, rfl, h.ino block List.mem_cons_self⟩

/-- **Downloads are granted for files with blocks, and for directories.** -/
theorem downloadsGranted [Platform] (hreach : Reachable StockedUploads sm)
    (request : PrepareDownloadFileRequest) :
    Grants sm request ↔
      ∀ entry, sm.dirEntries.lookup request.remotePath = some entry → entry.isDir = false := by
  have hstocked : Stocked sm :=
    hreach.invariant Stocked stocked_create
      (fun _ _ h hallowed hchange => h.next hallowed hchange) fun _ _ h htree _ => h.congr htree
  constructor
  · intro hgrants entry hlookup
    obtain ⟨inode, hinode⟩ := hstocked.found hlookup
    have hanswer := prepareDownloadFile_of_lookup hlookup hinode
    obtain ⟨entry', hlookup', hfile, -⟩ := hgrants (by rw [hanswer])
    rw [hlookup] at hlookup'
    cases hlookup'
    exact hfile
  · intro hfiles hok
    cases hlookup : sm.dirEntries.lookup request.remotePath with
    | none => simp [prepareDownloadFile, hlookup] at hok
    | some entry =>
      obtain ⟨inode, hinode⟩ := hstocked.found hlookup
      have hfile := hfiles entry hlookup
      have hfilled := hstocked.filled hlookup hfile hinode
      rw [prepareDownloadFile_of_lookup hlookup hinode]
      exact ⟨entry, rfl, hfile, hfilled, hfilled.exists_task _ _⟩

/-! ## A file, a directory, and a file without blocks -/

instance (ino : ℕ) (blocks : List Raft.BlockInfo) : Decidable (Filled ino blocks) :=
  decidable_of_iff (blocks ≠ [] ∧ ∀ block ∈ blocks, block.ino = ino)
    ⟨fun h => ⟨h.1, h.2⟩, fun h => ⟨h.1, h.2⟩⟩

instance : ∀ step : ReplicaStep, Decidable (StockedUploads sm step)
  | .apply _ _ entry => inferInstanceAs (Decidable (_ → ∀ request ∈ uploadRequest? entry, _))
  | .appendRequest _ _ | .prepareUploadFile _ => inferInstanceAs (Decidable True)

/-- An entry that adds a file of one block. -/
def uploadOneBlock : LogEntry :=
  { command := some (.uploadFile { ino := 1, path := "/f", blocks := [{ ino := 1, size := 10 }] }) }

theorem downloadsGranted_oneBlock :
    ∃ sm, @Reachable plainPlatform StockedUploads sm ∧
      (sm.prepareDownloadFile { remotePath := "/f" }).statusCode = .ok ∧
      Grants sm { remotePath := "/f" } := by
  obtain ⟨sm, hrun, hcheck⟩ := Run.exists_of_exec (@replicaStep plainPlatform) StockedUploads
    (create [7]) [.apply true 40 uploadOneBlock]
    (fun sm => decide ((sm.prepareDownloadFile { remotePath := "/f" }).statusCode = .ok ∧
      (sm.dirEntries.lookup "/f").map DirEntry.isDir = some false)) (by decide)
  have hreach := @Reachable.of_run _ _ plainPlatform _ (@Reachable.create plainPlatform _ [7]) hrun
  obtain ⟨hok, hfile⟩ := of_decide_eq_true hcheck
  refine ⟨sm, hreach, hok, (@downloadsGranted _ plainPlatform hreach _).mpr ?_⟩
  intro entry hlookup
  rw [hlookup] at hfile
  exact Option.some.inj hfile

/-- The root is granted, and so is a file without blocks. -/
theorem exists_granted_without_blocks :
    (∃ sm, @Reachable plainPlatform (fun _ _ => True) sm ∧ ¬ Grants sm { remotePath := "/" }) ∧
    ∃ sm, @Reachable plainPlatform (fun _ _ => True) sm ∧
      (sm.dirEntries.lookup "/f").map DirEntry.isDir = some false ∧
      ¬ Grants sm { remotePath := "/f" } := by
  constructor
  · refine ⟨create [7], @Reachable.create plainPlatform _ [7], fun hgrants => ?_⟩
    obtain ⟨entry, -, -, hfilled, -⟩ := hgrants rfl
    exact hfilled.blocks_ne rfl
  · obtain ⟨sm, hrun, hcheck⟩ := Run.exists_of_exec (@replicaStep plainPlatform)
      (fun _ _ => True) (create [7]) [.apply true 40 (uploadTo 1 "/f")]
      (fun sm => decide ((sm.prepareDownloadFile { remotePath := "/f" }).statusCode = .ok ∧
        (sm.prepareDownloadFile { remotePath := "/f" }).blocks = [] ∧
        (sm.dirEntries.lookup "/f").map DirEntry.isDir = some false)) (by decide)
    obtain ⟨hok, hblocks, hfile⟩ := of_decide_eq_true hcheck
    refine ⟨sm, @Reachable.of_run _ _ plainPlatform _ (@Reachable.create plainPlatform _ [7]) hrun,
      hfile, fun hgrants => ?_⟩
    obtain ⟨entry, -, -, hfilled, -⟩ := hgrants hok
    exact hfilled.blocks_ne hblocks

end Vosfs.Ui
