import Mathlib.Data.Set.Finite.Basic
import Vosfs.Raft.Correspondence
import Vosfs.Raft.Listing

/-!
# Machines restored from a snapshot

A snapshot carries the inodes and the directory entries, and not the counter `next_ino_`, which
`load_snapshot` starts anew above the largest number.  Machines with one tree, one counter and
the same data nodes answer all calls alike (`Alike`, `related_calls`), and those whose counters
differ are told apart by the next directory (`exists_telling`).  So a restored machine behaves
as the original if and only if no number above the largest was handed out (`restoredAlike`).
-/

namespace Vosfs.Raft

namespace StateMachine

variable {sm sm' : StateMachine}

/-! ## Calls and their answers -/

/-- The operations that change a state machine, the clock of an upload with it. -/
inductive Call
  | mkdir (request : MakeDirRequest)
  | uploadFile (currentMs : ℕ) (request : UploadFileRequest)
  | prepareUploadFile (request : PrepareUploadFileRequest)
  deriving DecidableEq, Repr

/-- The response of a call. -/
inductive Answer
  | mkdir (response : MakeDirResponse)
  | uploadFile (response : UploadFileResponse)
  | prepareUploadFile (response : PrepareUploadFileResponse)
  deriving DecidableEq, Repr

/-- Both calls end the process, or both return the same, from machines that are related then. -/
def EndAlike {α : Type} (related : StateMachine → StateMachine → Prop)
    (after after' : Option (StateMachine × α)) : Prop :=
  Option.Rel (fun result result' => result.2 = result'.2 ∧ related result.1 result'.1) after after'

theorem EndAlike.bind {α β : Type} {related related' : StateMachine → StateMachine → Prop}
    {after after' : Option (StateMachine × α)}
    {next next' : StateMachine × α → Option (StateMachine × β)}
    (h : EndAlike related after after')
    (hnext : ∀ sm sm' answer, related sm sm' →
      EndAlike related' (next (sm, answer)) (next' (sm', answer))) :
    EndAlike related' (after.bind next) (after'.bind next') := by
  cases h with
  | none => exact .none
  | @some result result' h =>
    obtain ⟨sm, answer⟩ := result
    obtain ⟨sm', answer'⟩ := result'
    obtain rfl : answer = answer' := h.1
    exact hnext sm sm' answer h.2

theorem EndAlike.imp {α : Type} {related related' : StateMachine → StateMachine → Prop}
    {after after' : Option (StateMachine × α)} (h : EndAlike related after after')
    (himp : ∀ sm sm', related sm sm' → related' sm sm') : EndAlike related' after after' := by
  cases h with
  | none => exact .none
  | some h => exact .some ⟨h.1, himp _ _ h.2⟩

section Calls

variable [Platform]

/-- The state after a call and its answer, none if the process ends. -/
def call (sm : StateMachine) : Call → Option (StateMachine × Answer)
  | .mkdir request =>
    let (sm, response) := sm.mkdirRespond request {}
    some (sm, .mkdir response)
  | .uploadFile currentMs request =>
    let (sm, response) := sm.uploadFileRespond currentMs request {}
    some (sm, .uploadFile response)
  | .prepareUploadFile request => do
    let (sm, response) ← sm.prepareUploadFile request
    some (sm, .prepareUploadFile response)

/-- Calls one after another, as long as the process lives. -/
def calls (sm : StateMachine) : List Call → Option (StateMachine × List Answer)
  | [] => some (sm, [])
  | first :: rest => do
    let (sm, answer) ← sm.call first
    let (sm, answers) ← sm.calls rest
    some (sm, answer :: answers)

/-- All sequences of calls get the same answers and end in the same tree. -/
def BehavesAs (sm sm' : StateMachine) : Prop :=
  ∀ sequence, EndAlike SameTree (sm.calls sequence) (sm'.calls sequence)

end Calls

/-! ## Machines that are alike -/

/-- What the operations read of a machine, apart from suspended clients. -/
structure Alike (sm sm' : StateMachine) : Prop where
  tree : SameTree sm sm'
  nextIno : sm.nextIno = sm'.nextIno
  dataNodes : sm.dataNodes = sm'.dataNodes

theorem Alike.addDirectory (h : Alike sm sm') (request : MakeDirRequest) (parentIno : ℕ)
    (parentInode : Inode) (path : String) :
    Alike (sm.addDirectory request parentIno parentInode path)
      (sm'.addDirectory request parentIno parentInode path) := by
  unfold StateMachine.addDirectory
  rw [h.nextIno]
  have htree : SameTree { sm with nextIno := u64 (sm'.nextIno + 1) }
      { sm' with nextIno := u64 (sm'.nextIno + 1) } := ⟨h.tree.inodes, h.tree.dirEntries⟩
  exact ⟨htree.link _ _ _ _, rfl, h.dataNodes⟩

theorem Alike.mkdirRespond (h : Alike sm sm') (request : MakeDirRequest)
    (response : MakeDirResponse) :
    (sm.mkdirRespond request response).2 = (sm'.mkdirRespond request response).2 ∧
      Alike (sm.mkdirRespond request response).1 (sm'.mkdirRespond request response).1 := by
  unfold StateMachine.mkdirRespond
  rw [h.tree.checkMkdir]
  split
  · exact ⟨rfl, h⟩
  · exact ⟨rfl, h.addDirectory ..⟩

theorem Alike.uploadFileRespond (h : Alike sm sm') (currentMs : ℕ) (request : UploadFileRequest)
    (response : UploadFileResponse) :
    (sm.uploadFileRespond currentMs request response).2 =
        (sm'.uploadFileRespond currentMs request response).2 ∧
      Alike (sm.uploadFileRespond currentMs request response).1
        (sm'.uploadFileRespond currentMs request response).1 := by
  unfold StateMachine.uploadFileRespond
  rw [h.tree.checkUploadFile]
  dsimp only
  split
  · exact ⟨rfl, h⟩
  · exact ⟨rfl, h.tree.link _ _ _ _, h.nextIno, h.dataNodes⟩

section Alike

variable [Platform]

theorem Alike.prepareUploadFile (h : Alike sm sm') (request : PrepareUploadFileRequest) :
    EndAlike Alike (sm.prepareUploadFile request) (sm'.prepareUploadFile request) := by
  unfold StateMachine.prepareUploadFile
  simp only [h.tree.dirEntries.mem_iff, h.dataNodes, h.nextIno]
  split_ifs
  · exact .some ⟨rfl, h⟩
  · exact .none
  · exact .some ⟨rfl, ⟨h.tree.inodes, h.tree.dirEntries⟩, rfl, rfl⟩

/-- One call keeps machines alike, and is answered alike. -/
theorem Alike.call (h : Alike sm sm') (next : Call) :
    EndAlike Alike (sm.call next) (sm'.call next) := by
  cases next with
  | mkdir request =>
    obtain ⟨hanswer, halike⟩ := h.mkdirRespond request {}
    exact .some ⟨congrArg Answer.mkdir hanswer, halike⟩
  | uploadFile currentMs request =>
    obtain ⟨hanswer, halike⟩ := h.uploadFileRespond currentMs request {}
    exact .some ⟨congrArg Answer.uploadFile hanswer, halike⟩
  | prepareUploadFile request =>
    exact (h.prepareUploadFile request).bind fun _ _ _ halike => .some ⟨rfl, halike⟩

/-- All calls do. -/
theorem Alike.calls (h : Alike sm sm') (sequence : List Call) :
    EndAlike Alike (sm.calls sequence) (sm'.calls sequence) := by
  induction sequence generalizing sm sm' with
  | nil => exact .some ⟨rfl, h⟩
  | cons first rest ih =>
    refine (h.call first).bind fun sm sm' answer halike => ?_
    exact (ih halike).bind fun sm sm' answers halike => .some ⟨rfl, halike⟩

theorem Alike.behavesAs (h : Alike sm sm') : BehavesAs sm sm' :=
  fun sequence => (h.calls sequence).imp fun _ _ halike => halike.tree

end Alike

/-! ## Telling machines apart by their counters -/

/-- The root directory is there. -/
def HasRoot (sm : StateMachine) : Prop :=
  sm.dirEntries.lookup "/" = some rootEntry ∧
    ∃ inode, sm.inodes.lookup rootEntry.ino = some inode ∧ inode.isDir = true

theorem HasRoot.congr (h : HasRoot sm) (htree : SameTree sm' sm) : HasRoot sm' := by
  obtain ⟨hentry, inode, hinode, hdir⟩ := h
  exact ⟨(htree.dirEntries _).trans hentry, inode, (htree.inodes _).trans hinode, hdir⟩

theorem HasRoot.link (h : HasRoot sm) {parentPath name : String} {parentIno : ℕ}
    {parentInode inode : Inode} {entry : DirEntry}
    (hplaced : Placed sm parentPath parentIno parentInode entry.path name) :
    HasRoot (sm.link parentIno parentInode inode entry) := by
  obtain ⟨hentry, root, hroot, hdir⟩ := h
  exact ⟨lookup_link_of_lookup hplaced.fresh hentry, _,
    lookup_link_inodes_of_lookup inode entry hplaced.inode hroot, hdir⟩

theorem HasRoot.next (h : HasRoot sm) {step : ReplicaStep} (hchange : Change sm sm' step) :
    HasRoot sm' := by
  cases hchange with
  | keeps _ tree => exact h.congr tree
  | prepares _ tree => exact h.congr tree
  | creates _ placed tree => exact (h.link placed).congr tree
  | uploads _ _ _ _ placed tree => exact (h.link placed).congr tree

theorem Reachable.hasRoot [Platform] {allowed : StateMachine → ReplicaStep → Prop}
    (hreach : Reachable allowed sm) : HasRoot sm :=
  hreach.invariant HasRoot (fun _ => ⟨rfl, rootInode, rfl, rfl⟩)
    (fun _ _ h _ hchange => h.next hchange) (fun _ _ h htree _ => h.congr htree)

/-- A directory of a new name can always be made in the root. -/
theorem HasRoot.exists_checkMkdir (h : HasRoot sm) :
    ∃ name inode, sm.checkMkdir { parentPath := "/", name := name } =
      .ok (rootEntry.ino, inode, "/" ++ name) := by
  obtain ⟨hentry, inode, hinode, hdir⟩ := h
  let nameOf (n : ℕ) : String := String.ofList (List.replicate (n + 1) 'a')
  have hinjective : Function.Injective fun n => "/" ++ nameOf n := by
    intro n n' heq
    simpa [nameOf] using congrArg String.length heq
  -- the paths in use are finitely many
  obtain ⟨path, ⟨n, rfl⟩, hfresh⟩ :=
    (Set.infinite_range_of_injective hinjective).exists_notMem_finset sm.dirEntries.keys.toFinset
  have hpath : childPath "/" (nameOf n) = "/" ++ nameOf n := if_pos rfl
  have hname : ¬ ((nameOf n).isEmpty ∨ '/' ∈ (nameOf n).toList) := by
    simp [nameOf, String.isEmpty_iff]
  refine ⟨nameOf n, inode, ?_⟩
  unfold StateMachine.checkMkdir
  simp only [hentry, hinode, hdir, hpath]
  rw [if_neg (by decide), if_neg hname, if_neg]
  rwa [List.mem_toFinset] at hfresh

theorem calls_mkdir [Platform] {request : MakeDirRequest} {parentIno : ℕ} {parentInode : Inode}
    {path : String} (hcheck : sm.checkMkdir request = .ok (parentIno, parentInode, path)) :
    ∃ answers, sm.calls [.mkdir request] =
      some (sm.addDirectory request parentIno parentInode path, answers) := by
  simp [calls, call, mkdirRespond, hcheck]

/-- The new directory has the number of the counter. -/
theorem lookup_addDirectory {request : MakeDirRequest} {parentIno : ℕ} {parentInode : Inode}
    {path : String} (hfresh : path ∉ sm.dirEntries) :
    (sm.addDirectory request parentIno parentInode path).dirEntries.lookup path =
      some (newDirectoryEntry sm.nextIno request.name path request.timestamp) :=
  (lookup_link_dirEntries hfresh path).trans (if_pos rfl)

theorem nextIno_eq_of_behavesAs [Platform] (hroot : HasRoot sm) (htree : SameTree sm sm')
    (h : BehavesAs sm sm') : sm.nextIno = sm'.nextIno := by
  obtain ⟨name, inode, hcheck⟩ := hroot.exists_checkMkdir
  have hcheck' := (htree.checkMkdir _).symm.trans hcheck
  obtain ⟨answers, hcalls⟩ := @calls_mkdir sm _ _ _ _ _ hcheck
  obtain ⟨answers', hcalls'⟩ := @calls_mkdir sm' _ _ _ _ _ hcheck'
  have hend := h [.mkdir { parentPath := "/", name := name }]
  rw [hcalls, hcalls'] at hend
  obtain ⟨-, hsame⟩ := Option.rel_some_some.mp hend
  have hentry := hsame.dirEntries ("/" ++ name)
  rw [lookup_addDirectory (path_of_checkMkdir hcheck),
    lookup_addDirectory (path_of_checkMkdir hcheck')] at hentry
  exact congrArg DirEntry.ino (Option.some.inj hentry)

/-! ## The restored machine -/

theorem SameTree.maxIno_eq (h : SameTree sm sm') : maxIno sm.inodes = maxIno sm'.inodes := by
  have hle : ∀ {sm sm' : StateMachine}, SameTree sm sm' → maxIno sm.inodes ≤ maxIno sm'.inodes := by
    intro sm sm' h
    refine (maxIno_le_iff _ _).mpr fun inode hinode => ?_
    obtain ⟨ino, hlookup⟩ := UnorderedMap.mem_values.mp hinode
    exact (maxIno_le_iff sm'.inodes _).mp le_rfl inode
      (UnorderedMap.mem_values.mpr ⟨ino, (h.inodes ino).symm.trans hlookup⟩)
  exact le_antisymm (hle h) (hle h.symm)

theorem dataNodes_loadSnapshot (snapshot : Snapshot) :
    (sm.loadSnapshot snapshot).dataNodes = sm.dataNodes := by
  unfold loadSnapshot
  simp only
  split <;> rfl

/-- **When a restored machine behaves as the original.** -/
theorem restoredAlike [Platform] {other : StateMachine}
    (hreach : Reachable (fun _ _ => True) sm) (hnodes : other.dataNodes = sm.dataNodes)
    (index term : ℕ) :
    BehavesAs sm (other.loadSnapshot
        (sm.takeSnapshot { lastIncludedIndex := index, lastIncludedTerm := term })) ↔
      sm.nextIno = u64 (maxIno sm.inodes + 1) := by
  obtain ⟨hkeyed, hroot⟩ := hreach.keyed_root
  have htree := (sameTree_load other hkeyed hroot index term).symm
  have hnext := @nextIno_load other
    (sm.takeSnapshot { lastIncludedIndex := index, lastIncludedTerm := term })
  rw [← htree.maxIno_eq] at hnext
  constructor
  · intro hbehaves
    exact (nextIno_eq_of_behavesAs hreach.hasRoot htree hbehaves).trans hnext
  · intro hcounter
    have halike : Alike sm (other.loadSnapshot
        (sm.takeSnapshot { lastIncludedIndex := index, lastIncludedTerm := term })) :=
      ⟨htree, hcounter.trans hnext.symm, hnodes.symm.trans (dataNodes_loadSnapshot _).symm⟩
    exact halike.behavesAs

/-- A machine that has made a directory, restored on another node. -/
theorem restoredAlike_oneDirectory :
    @BehavesAs plainPlatform ((create [7]).apply true 50 makeDirectory)
      ((create [7]).loadSnapshot (((create [7]).apply true 50 makeDirectory).takeSnapshot
        { lastIncludedIndex := 1, lastIncludedTerm := 1 })) :=
  (@restoredAlike ((create [7]).apply true 50 makeDirectory) plainPlatform (create [7])
    (@Reachable.apply _ plainPlatform (@Reachable.create plainPlatform _ [7]) true 50 makeDirectory)
    rfl 1 1).mpr (by decide)

/-- After the snapshot the number of a prepared upload is handed out again. -/
theorem exists_unlike_original :
    ∃ sm, @Reachable plainPlatform (fun _ _ => True) sm ∧
      ¬ @BehavesAs plainPlatform sm ((create [7]).loadSnapshot
        (sm.takeSnapshot { lastIncludedIndex := 1, lastIncludedTerm := 1 })) := by
  obtain ⟨sm, hrun, hcheck⟩ := Run.exists_of_exec (@replicaStep plainPlatform) (fun _ _ => True)
    (create [7]) [prepareTo "/f"]
    (fun sm => decide ((@calls plainPlatform sm [.mkdir { parentPath := "/", name := "a" }]).map
        (fun after => (after.1.dirEntries.lookup "/a").map DirEntry.ino) = some (some 2) ∧
      (@calls plainPlatform ((create [7]).loadSnapshot
          (sm.takeSnapshot { lastIncludedIndex := 1, lastIncludedTerm := 1 }))
        [.mkdir { parentPath := "/", name := "a" }]).map
        (fun after => (after.1.dirEntries.lookup "/a").map DirEntry.ino) = some (some 1)))
    (by decide)
  obtain ⟨hsecond, hfirst⟩ := of_decide_eq_true hcheck
  refine ⟨sm, @Reachable.of_run _ _ plainPlatform _ (@Reachable.create plainPlatform _ [7]) hrun,
    fun hbehaves => ?_⟩
  obtain ⟨after, hcalls, hino⟩ := Option.map_eq_some_iff.mp hsecond
  obtain ⟨after', hcalls', hino'⟩ := Option.map_eq_some_iff.mp hfirst
  have hend := hbehaves [.mkdir { parentPath := "/", name := "a" }]
  rw [hcalls, hcalls'] at hend
  obtain ⟨-, hsame⟩ := Option.rel_some_some.mp hend
  rw [hsame.dirEntries, hino'] at hino
  exact absurd hino (by decide)

end StateMachine

end Vosfs.Raft
