import Mathlib.Data.List.TakeWhile
import Vosfs.Library.Paths
import Vosfs.Library.Run
import Vosfs.Raft.Numbers

/-!
# Reachable trees

What one step of a replica does to the tree and to the counter (`Change`): both checks
find a directory to put something into (`Placed`), a creation takes the number of the
counter and an upload brings its own.  The states reached from the constructor are those
of `Reachable`, where a state may also be replaced by the snapshot of a reachable one.
The values of the two maps carry their keys (`Keyed`), so that a snapshot restores
the tree it was taken of (`sameTree_load`).
-/

namespace Vosfs.Raft

namespace StateMachine

variable {sm sm' : StateMachine}

/-! ## What the checks find -/

/-- The path is not in use, and is that of a name below an existing directory. -/
structure Placed (sm : StateMachine) (parentPath : String) (parentIno : ℕ)
    (parentInode : Inode) (path name : String) : Prop where
  parent : ∃ parent, sm.dirEntries.lookup parentPath = some parent ∧ parent.ino = parentIno
  inode : sm.inodes.lookup parentIno = some parentInode
  isDir : parentInode.isDir = true
  name_ne : name ≠ ""
  child : parentPath ≠ "" → IsChild path parentPath name
  fresh : path ∉ sm.dirEntries

theorem placed_of_checkMkdir {request : MakeDirRequest} {parentIno : ℕ} {parentInode : Inode}
    {path : String} (hcheck : sm.checkMkdir request = .ok (parentIno, parentInode, path)) :
    Placed sm request.parentPath parentIno parentInode path request.name := by
  have hinode := parent_of_checkMkdir hcheck
  have hfresh := path_of_checkMkdir hcheck
  unfold StateMachine.checkMkdir at hcheck
  split at hcheck
  next parent hparent =>
    split at hcheck
    next =>
      split_ifs at hcheck with hdir hname hexists
      cases hcheck
      rw [not_or, String.isEmpty_iff] at hname
      refine ⟨⟨parent, hparent, rfl⟩, hinode, by simpa using hdir, hname.1, fun hne => ?_, hfresh⟩
      unfold childPath
      split
      next hroot =>
        rw [hroot]
        exact isChild_root hname.2
      next => exact isChild_append hne hname.2
    next => cases hcheck
  next => cases hcheck

theorem isChild_of_splitPath {path parentPath name : String}
    (hsplit : splitPath path = some (parentPath, name)) : IsChild path parentPath name := by
  unfold splitPath at hsplit
  have hparts := List.takeWhile_append_dropWhile (p := (· ≠ '/')) (l := path.toList.reverse)
  simp only at hsplit
  split at hsplit
  next => cases hsplit
  next slash front hdrop =>
    cases hsplit
    -- the dropped part starts at the last `/`
    have hslash : slash = '/' := by
      have hhead := List.head?_dropWhile_not (· ≠ '/') path.toList.reverse
      rw [hdrop] at hhead
      simpa using hhead
    rw [hdrop, hslash] at hparts
    refine ⟨front.reverse, ?_, ?_, ?_⟩
    · simpa using congrArg List.reverse hparts.symm
    · intro hmem
      rw [String.toList_ofList, List.mem_reverse] at hmem
      simpa using List.mem_takeWhile_imp hmem
    · simp

theorem placed_of_checkUploadFile {request : UploadFileRequest} {parentIno : ℕ}
    {parentInode : Inode} {name : String}
    (hcheck : sm.checkUploadFile request = .ok (parentIno, parentInode, name)) :
    ∃ parentPath, IsChild request.path parentPath name ∧
      Placed sm parentPath parentIno parentInode request.path name := by
  have hinode := parent_of_checkUploadFile hcheck
  have hfresh := (path_of_checkUploadFile hcheck).2
  unfold StateMachine.checkUploadFile at hcheck
  split_ifs at hcheck
  split at hcheck
  next parentPath name' hsplit =>
    split at hcheck
    next parent hparent =>
      split at hcheck
      next =>
        split_ifs at hcheck with hdir hname
        cases hcheck
        rw [not_or, String.isEmpty_iff] at hname
        have hchild := isChild_of_splitPath hsplit
        exact ⟨parentPath, hchild, ⟨parent, hparent, rfl⟩, hinode, by simpa using hdir, hname.1,
          fun _ => hchild, hfresh⟩
      next => cases hcheck
    next => cases hcheck
  next => cases hcheck

/-! ## What a step changes -/

/-- The step neither adds to the tree nor hands out a number. -/
def Quiet (sm : StateMachine) : ReplicaStep → Prop
  | .apply _ _ entry => sm.acceptsMkdir entry = false ∧ sm.acceptsUploadFile entry = false
  | .appendRequest _ _ => True
  | .prepareUploadFile request => request.remotePath ∈ sm.dirEntries

/-- What a step does to the tree, in each case with what was checked. -/
inductive Change (sm sm' : StateMachine) : ReplicaStep → Prop
  | keeps {step : ReplicaStep} (quiet : sm.Quiet step) (tree : SameTree sm' sm)
      (nextIno : sm'.nextIno = sm.nextIno) : Change sm sm' step
  | prepares {request : PrepareUploadFileRequest} (fresh : request.remotePath ∉ sm.dirEntries)
      (tree : SameTree sm' sm) (nextIno : sm'.nextIno = u64 (sm.nextIno + 1)) :
      Change sm sm' (.prepareUploadFile request)
  | creates {asLeader : Bool} {currentMs : ℕ} {entry : LogEntry} {request : MakeDirRequest}
      {parentIno : ℕ} {parentInode : Inode} {path : String}
      (accepts : sm.acceptsMkdir entry = true)
      (placed : Placed sm request.parentPath parentIno parentInode path request.name)
      (tree : SameTree sm' (sm.link parentIno parentInode
        (newDirectory sm.nextIno request.timestamp)
        (newDirectoryEntry sm.nextIno request.name path request.timestamp)))
      (nextIno : sm'.nextIno = u64 (sm.nextIno + 1)) :
      Change sm sm' (.apply asLeader currentMs entry)
  | uploads {asLeader : Bool} {currentMs : ℕ} {entry : LogEntry} {request : UploadFileRequest}
      {parentPath : String} {parentIno : ℕ} {parentInode : Inode} {name : String}
      (command : entry.command = some (.uploadFile request))
      (accepts : sm.acceptsUploadFile entry = true) (fresh : request.ino ∉ sm.inodes)
      (child : IsChild request.path parentPath name)
      (placed : Placed sm parentPath parentIno parentInode request.path name)
      (tree : SameTree sm' (sm.link parentIno parentInode (newFile request currentMs)
        (newFileEntry request name currentMs)))
      (nextIno : sm'.nextIno = sm.nextIno) :
      Change sm sm' (.apply asLeader currentMs entry)

theorem acceptsMkdir_of_acceptsUploadFile {entry : LogEntry}
    (haccept : sm.acceptsUploadFile entry = true) : sm.acceptsMkdir entry = false := by
  obtain ⟨request, -, -, -, hcommand, -⟩ := exists_of_acceptsUploadFile haccept
  simp only [acceptsMkdir, hcommand]

theorem change_of_apply (asLeader : Bool) (currentMs : ℕ) (entry : LogEntry) :
    Change sm (sm.apply asLeader currentMs entry) (.apply asLeader currentMs entry) := by
  have htree := sameTree_apply sm asLeader currentMs entry
  have hnext := @nextIno_apply sm asLeader currentMs entry
  by_cases hmkdir : sm.acceptsMkdir entry = true
  · obtain ⟨request, parentIno, parentInode, path, hcommand, hcheck⟩ :=
      exists_of_acceptsMkdir hmkdir
    rw [addition_mkdir currentMs hcommand hcheck] at htree
    rw [if_pos hmkdir] at hnext
    exact .creates hmkdir (placed_of_checkMkdir hcheck) htree hnext
  rw [if_neg hmkdir] at hnext
  by_cases hupload : sm.acceptsUploadFile entry = true
  · obtain ⟨request, parentIno, parentInode, name, hcommand, hcheck⟩ :=
      exists_of_acceptsUploadFile hupload
    rw [addition_uploadFile currentMs hcommand hcheck] at htree
    obtain ⟨parentPath, hchild, hplaced⟩ := placed_of_checkUploadFile hcheck
    exact .uploads hcommand hupload (path_of_checkUploadFile hcheck).1 hchild hplaced htree hnext
  · rcases sm.addition_cases currentMs entry with haccept | haccept | hnone
    · exact absurd haccept hmkdir
    · exact absurd haccept hupload
    · rw [hnone] at htree
      exact .keeps ⟨by simpa using hmkdir, by simpa using hupload⟩ htree hnext

/-- **What one step does.** -/
theorem change_of_step [Platform] {step : ReplicaStep} (hstep : sm.replicaStep step = some sm') :
    Change sm sm' step := by
  cases step with
  | apply asLeader currentMs entry =>
    cases hstep
    exact change_of_apply asLeader currentMs entry
  | appendRequest logIndex request =>
    cases hstep
    exact .keeps trivial (SameTree.of_eq rfl rfl) rfl
  | prepareUploadFile request =>
    obtain ⟨⟨next, response⟩, hprepare, rfl⟩ := Option.map_eq_some_iff.mp hstep
    have htree := (prepareUploadFile_sameTree hprepare).symm
    unfold StateMachine.prepareUploadFile at hprepare
    split_ifs at hprepare with hexists
    · cases hprepare
      exact .keeps hexists htree rfl
    · cases hprepare
      exact .prepares hexists htree rfl

/-- The new entry and the old ones. -/
theorem lookup_link_dirEntries {parentIno : ℕ} {parentInode inode : Inode} {entry : DirEntry}
    (hfresh : entry.path ∉ sm.dirEntries) (path : String) :
    (sm.link parentIno parentInode inode entry).dirEntries.lookup path =
      if path = entry.path then some entry else sm.dirEntries.lookup path := by
  simp [link, UnorderedMap.lookup_emplace, AList.lookup_eq_none.mpr hfresh]

/-- The parent's inode, the new one unless its number is taken, and the old ones. -/
theorem lookup_link_inodes {parentIno : ℕ} {parentInode inode : Inode} {entry : DirEntry}
    (hparent : parentIno ∈ sm.inodes) (ino : ℕ) :
    (sm.link parentIno parentInode inode entry).inodes.lookup ino =
      if ino = parentIno then
        some { parentInode with dirEntries := parentInode.dirEntries ++ [entry] }
      else if ino = inode.ino ∧ inode.ino ∉ sm.inodes then some inode
      else sm.inodes.lookup ino := by
  simp only [link, UnorderedMap.lookup_emplace, UnorderedMap.lookup_insert_eq]
  by_cases hold : ino = parentIno
  · subst hold
    rw [if_pos rfl, if_pos rfl, if_neg]
    rintro ⟨rfl, hnone⟩
    rw [if_pos rfl] at hnone
    cases hnone
  · rw [if_neg hold, if_neg hold]
    by_cases hnew : ino = inode.ino
    · subst hnew
      simp [hold, AList.lookup_eq_none]
    · simp [hnew]

/-- An inode that was there stays, and only the parent gets a child. -/
theorem lookup_link_inodes_of_lookup {parentIno ino : ℕ} {parentInode found : Inode}
    (inode : Inode) (entry : DirEntry) (hparent : sm.inodes.lookup parentIno = some parentInode)
    (hlookup : sm.inodes.lookup ino = some found) :
    (sm.link parentIno parentInode inode entry).inodes.lookup ino =
      some { found with
        dirEntries := found.dirEntries ++ if ino = parentIno then [entry] else [] } := by
  rw [lookup_link_inodes (UnorderedMap.mem_iff_lookup.mpr ⟨_, hparent⟩)]
  by_cases heq : ino = parentIno
  · subst heq
    rw [hparent] at hlookup
    cases hlookup
    rw [if_pos rfl, if_pos rfl]
  · rw [if_neg heq, if_neg, if_neg heq, List.append_nil]
    · exact hlookup
    -- an inode that exists is not replaced, whatever number the new one has
    · rintro ⟨rfl, hfresh⟩
      exact hfresh (UnorderedMap.mem_iff_lookup.mpr ⟨found, hlookup⟩)

/-! ## Snapshots of the tree -/

/-- Inodes and entries stand at their own numbers and paths. -/
structure Keyed (sm : StateMachine) : Prop where
  inodes : UnorderedMap.Keyed Inode.ino sm.inodes
  dirEntries : UnorderedMap.Keyed DirEntry.path sm.dirEntries

theorem Keyed.congr (h : Keyed sm) (htree : SameTree sm' sm) : Keyed sm' :=
  ⟨h.inodes.congr htree.inodes, h.dirEntries.congr htree.dirEntries⟩

theorem Keyed.link (h : Keyed sm) {parentIno : ℕ} {parentInode inode : Inode} {entry : DirEntry}
    (hparent : sm.inodes.lookup parentIno = some parentInode) :
    Keyed (sm.link parentIno parentInode inode entry) := by
  have hino : parentInode.ino = parentIno := h.inodes hparent
  refine ⟨UnorderedMap.Keyed.emplace ?_ rfl, h.dirEntries.emplace rfl⟩
  exact h.inodes.insert hino

theorem Change.keyed {step : ReplicaStep} (hchange : Change sm sm' step) (h : Keyed sm) :
    Keyed sm' := by
  cases hchange with
  | keeps _ tree => exact h.congr tree
  | prepares _ tree => exact h.congr tree
  | creates _ placed tree => exact (h.link placed.inode).congr tree
  | uploads _ _ _ _ placed tree => exact (h.link placed.inode).congr tree

theorem keyed_create (dataNodes : List ℕ) : Keyed (create dataNodes) :=
  ⟨UnorderedMap.keyed_empty.emplace rfl, UnorderedMap.keyed_empty.emplace rfl⟩

theorem mem_create_inodes (dataNodes : List ℕ) {ino : ℕ} :
    ino ∈ (create dataNodes).inodes ↔ ino = 0 := by
  change ino ∈ UnorderedMap.emplace ∅ 0 rootInode ↔ _
  simp [UnorderedMap.mem_emplace]

theorem dirEntries_create {dataNodes : List ℕ} {path : String} {entry : DirEntry}
    (hlookup : (create dataNodes).dirEntries.lookup path = some entry) :
    path = "/" ∧ entry = rootEntry := by
  change (UnorderedMap.emplace ∅ "/" rootEntry).lookup path = some entry at hlookup
  rw [UnorderedMap.lookup_emplace] at hlookup
  split_ifs at hlookup with hpath
  · cases hlookup
    exact ⟨hpath.1, rfl⟩
  · rw [AList.lookup_empty] at hlookup
    cases hlookup

theorem inodes_create {dataNodes : List ℕ} {ino : ℕ} {inode : Inode}
    (hlookup : (create dataNodes).inodes.lookup ino = some inode) : inode = rootInode := by
  obtain rfl := (mem_create_inodes dataNodes).mp (UnorderedMap.mem_iff_lookup.mpr ⟨_, hlookup⟩)
  cases hlookup
  rfl

/-- A snapshot of a tree with a root restores the tree. -/
theorem sameTree_load (sm' : StateMachine) (h : Keyed sm) (hroot : 0 ∈ sm.inodes)
    (index term : ℕ) :
    SameTree (sm'.loadSnapshot
      (sm.takeSnapshot { lastIncludedIndex := index, lastIncludedTerm := term })) sm := by
  have hinodes := UnorderedMap.same_foldl_emplace h.inodes
  have hentries := UnorderedMap.same_foldl_emplace h.dirEntries
  have hsome : 0 ∈ sm.inodes.values.foldl
      (fun inodes inode => UnorderedMap.emplace inodes inode.ino inode) ∅ :=
    hinodes.mem_iff.mpr hroot
  unfold loadSnapshot takeSnapshot
  simp only [List.nil_append]
  rw [if_neg]
  · exact ⟨hinodes, hentries⟩
  · intro hempty
    rw [Bool.and_eq_true, List.isEmpty_iff] at hempty
    obtain ⟨inode, hlookup⟩ := UnorderedMap.mem_iff_lookup.mp hsome
    have hentry := AList.mem_lookup_iff.mp hlookup
    rw [hempty.1] at hentry
    cases hentry

theorem nextIno_load (snapshot : Snapshot) :
    (sm.loadSnapshot snapshot).nextIno = u64 (maxIno (sm.loadSnapshot snapshot).inodes + 1) := by
  unfold loadSnapshot
  simp only
  split <;> rfl

theorem Change.mem_inodes {step : ReplicaStep} (hchange : Change sm sm' step) {ino : ℕ}
    (hmem : ino ∈ sm.inodes) : ino ∈ sm'.inodes := by
  cases hchange with
  | keeps _ tree => exact tree.inodes.mem_iff.mpr hmem
  | prepares _ tree => exact tree.inodes.mem_iff.mpr hmem
  | creates _ placed tree =>
    have hparent := UnorderedMap.mem_iff_lookup.mpr ⟨_, placed.inode⟩
    exact tree.inodes.mem_iff.mpr ((mem_inodes_link hparent).mpr (Or.inr hmem))
  | uploads _ _ _ _ placed tree =>
    have hparent := UnorderedMap.mem_iff_lookup.mpr ⟨_, placed.inode⟩
    exact tree.inodes.mem_iff.mpr ((mem_inodes_link hparent).mpr (Or.inr hmem))

/-! ## Reachable states -/

section Runs

variable [Platform] {allowed : StateMachine → ReplicaStep → Prop}

/-- The states reached from the constructor by steps that are allowed where they happen,
and by loading snapshots of such states. -/
inductive Reachable (allowed : StateMachine → ReplicaStep → Prop) : StateMachine → Prop
  | create (dataNodes : List ℕ) : Reachable allowed (create dataNodes)
  | next {sm sm' : StateMachine} {step : ReplicaStep} (hreach : Reachable allowed sm)
      (hallowed : allowed sm step) (hstep : sm.replicaStep step = some sm') :
      Reachable allowed sm'
  | load {sm other : StateMachine} (hreach : Reachable allowed sm)
      (hother : Reachable allowed other) (index term : ℕ) :
      Reachable allowed (sm.loadSnapshot
        (other.takeSnapshot { lastIncludedIndex := index, lastIncludedTerm := term }))

theorem Reachable.keyed_root (hreach : Reachable allowed sm) : Keyed sm ∧ 0 ∈ sm.inodes := by
  induction hreach with
  | create dataNodes => exact ⟨keyed_create dataNodes, (mem_create_inodes dataNodes).mpr rfl⟩
  | next _ _ hstep ih =>
    have hchange := change_of_step hstep
    exact ⟨hchange.keyed ih.1, hchange.mem_inodes ih.2⟩
  | @load sm _ _ _ index term _ ih =>
    have htree := sameTree_load sm ih.1 ih.2 index term
    exact ⟨ih.1.congr htree, htree.inodes.mem_iff.mpr ih.2⟩

theorem Reachable.of_run (hreach : Reachable allowed sm)
    (hrun : Run replicaStep allowed sm sm') : Reachable allowed sm' :=
  hrun.invariant (Reachable allowed) hreach Reachable.next

theorem Reachable.apply (hreach : Reachable (fun _ _ => True) sm) (asLeader : Bool)
    (currentMs : ℕ) (entry : LogEntry) :
    Reachable (fun _ _ => True) (sm.apply asLeader currentMs entry) := by
  have hstep : sm.replicaStep (.apply asLeader currentMs entry) =
    some (sm.apply asLeader currentMs entry) := rfl
  exact hreach.next trivial hstep

/-- **Invariants of reachable states.**  A loaded state has the tree of a reachable one, and
a counter above its inodes. -/
theorem Reachable.invariant (Inv : StateMachine → Prop)
    (hcreate : ∀ dataNodes, Inv (StateMachine.create dataNodes))
    (hstep : ∀ {sm step sm'}, Keyed sm → 0 ∈ sm.inodes → Inv sm → allowed sm step →
      Change sm sm' step → Inv sm')
    (hload : ∀ {other loaded}, Keyed other → 0 ∈ other.inodes → Inv other →
      SameTree loaded other → loaded.nextIno = u64 (maxIno loaded.inodes + 1) → Inv loaded)
    (hreach : Reachable allowed sm) : Inv sm := by
  induction hreach with
  | create dataNodes => exact hcreate dataNodes
  | next hreach hallowed hnext ih =>
    exact hstep hreach.keyed_root.1 hreach.keyed_root.2 ih hallowed (change_of_step hnext)
  | load _ hother index term _ ih =>
    obtain ⟨hkeyed, hroot⟩ := hother.keyed_root
    exact hload hkeyed hroot ih (sameTree_load _ hkeyed hroot index term) (nextIno_load _)

end Runs

end StateMachine

end Vosfs.Raft
