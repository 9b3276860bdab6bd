import Vosfs.Raft.Reachable

/-!
# What a command may change

A command that is refused changes nothing.  One that is accepted adds one directory entry, as
the last child of the directory it names, and leaves all other entries and inodes alone
(`AddsAt`).  This holds of every state, also of those that no run reaches, in which a number
may be that of the parent or a path may be below a file.
-/

namespace Vosfs.Raft

namespace StateMachine

variable {sm sm' : StateMachine}

/-- `entry` is new, and the inode found for `parent` has it as its last child. -/
structure Gains (sm sm' : StateMachine) (parent : DirEntry) (parentInode : Inode)
    (entry : DirEntry) : Prop where
  fresh : entry.path ∉ sm.dirEntries
  dirEntries : ∀ path, sm'.dirEntries.lookup path =
    if path = entry.path then some entry else sm.dirEntries.lookup path
  inode : sm.inodes.lookup parent.ino = some parentInode
  child : sm'.inodes.lookup parent.ino =
    some { parentInode with dirEntries := parentInode.dirEntries ++ [entry] }
  inodes : ∀ {ino inode}, ino ≠ parent.ino → sm.inodes.lookup ino = some inode →
    sm'.inodes.lookup ino = some inode
  brought : ∀ ino ∈ sm'.inodes, ino ∈ sm.inodes ∨ ino = entry.ino

/-- An entry is added at `path`, in the directory at `parentPath`. -/
def AddsAt (sm sm' : StateMachine) (parentPath path : String) : Prop :=
  ∃ parent parentInode entry, sm.dirEntries.lookup parentPath = some parent ∧
    entry.path = path ∧ Gains sm sm' parent parentInode entry

theorem addsAt_link {parentPath name : String} {parentIno : ℕ} {parentInode inode : Inode}
    {entry : DirEntry} (hplaced : Placed sm parentPath parentIno parentInode entry.path name)
    (hino : entry.ino = inode.ino)
    (htree : SameTree sm' (sm.link parentIno parentInode inode entry)) :
    AddsAt sm sm' parentPath entry.path := by
  obtain ⟨parent, hparent, rfl⟩ := hplaced.parent
  have hmem := UnorderedMap.mem_iff_lookup.mpr ⟨_, hplaced.inode⟩
  refine ⟨parent, parentInode, entry, hparent, rfl, ?_⟩
  constructor
  case fresh => exact hplaced.fresh
  case dirEntries =>
    intro path
    rw [htree.dirEntries, lookup_link_dirEntries hplaced.fresh]
  case inode => exact hplaced.inode
  case child => rw [htree.inodes, lookup_link_inodes hmem, if_pos rfl]
  case inodes =>
    intro ino found hne hlookup
    rw [htree.inodes, lookup_link_inodes_of_lookup inode entry hplaced.inode hlookup, if_neg hne,
      List.append_nil]
  case brought =>
    intro ino hbrought
    rw [htree.inodes.mem_iff, mem_inodes_link hmem] at hbrought
    rcases hbrought with hnew | hold
    · exact Or.inr (hnew.trans hino.symm)
    · exact Or.inl hold

theorem addsAt_addDirectory {request : MakeDirRequest} {parentIno : ℕ} {parentInode : Inode}
    {path : String} (hcheck : sm.checkMkdir request = .ok (parentIno, parentInode, path)) :
    AddsAt sm (sm.addDirectory request parentIno parentInode path) request.parentPath
      (childPath request.parentPath request.name) := by
  have hplaced := placed_of_checkMkdir hcheck
  obtain rfl := path_eq_of_checkMkdir hcheck
  have htree : SameTree
      (sm.addDirectory request parentIno parentInode (childPath request.parentPath request.name))
      (sm.link parentIno parentInode (newDirectory sm.nextIno request.timestamp)
        (newDirectoryEntry sm.nextIno request.name (childPath request.parentPath request.name)
          request.timestamp)) :=
    SameTree.of_eq rfl rfl
  exact addsAt_link hplaced rfl htree

theorem addsAt_addFile {request : UploadFileRequest} {parentIno : ℕ} {parentInode : Inode}
    {name : String} (currentMs : ℕ)
    (hcheck : sm.checkUploadFile request = .ok (parentIno, parentInode, name)) :
    ∃ parentPath, IsChild request.path parentPath name ∧
      AddsAt sm (sm.addFile request currentMs parentIno parentInode name) parentPath
        request.path := by
  obtain ⟨parentPath, hchild, hplaced⟩ := placed_of_checkUploadFile hcheck
  refine ⟨parentPath, hchild, ?_⟩
  have htree : SameTree (sm.addFile request currentMs parentIno parentInode name)
      (sm.link parentIno parentInode (newFile request currentMs)
        (newFileEntry request name currentMs)) :=
    SameTree.refl _
  exact addsAt_link hplaced rfl htree

/-- What a command answered with `status` does to the state. -/
structure RefusesOr (sm sm' : StateMachine) (status : StatusCode) (added : Prop) : Prop where
  refused : status ≠ .ok → sm' = sm
  accepted : status = .ok → added

theorem mkdirRespond_refusesOr (request : MakeDirRequest) (response : MakeDirResponse) :
    RefusesOr sm (sm.mkdirRespond request response).1
      (sm.mkdirRespond request response).2.statusCode
      (AddsAt sm (sm.mkdirRespond request response).1 request.parentPath
        (childPath request.parentPath request.name)) := by
  unfold mkdirRespond
  cases hcheck : sm.checkMkdir request with
  | error message => exact ⟨fun _ => rfl, fun hok => by cases hok⟩
  | ok found => exact ⟨fun hrefused => absurd rfl hrefused, fun _ => addsAt_addDirectory hcheck⟩

theorem uploadFileRespond_refusesOr (currentMs : ℕ) (request : UploadFileRequest)
    (response : UploadFileResponse) :
    RefusesOr sm (sm.uploadFileRespond currentMs request response).1
      (sm.uploadFileRespond currentMs request response).2.statusCode
      (∃ parentPath name, IsChild request.path parentPath name ∧
        AddsAt sm (sm.uploadFileRespond currentMs request response).1 parentPath
          request.path) := by
  unfold uploadFileRespond
  cases hcheck : sm.checkUploadFile request with
  | error message => exact ⟨fun _ => rfl, fun hok => by cases hok⟩
  | ok found =>
    refine ⟨fun hrefused => absurd rfl hrefused, fun _ => ?_⟩
    obtain ⟨parentPath, hchild, hadds⟩ := addsAt_addFile currentMs hcheck
    exact ⟨parentPath, _, hchild, hadds⟩

/-- **A refused command changes nothing, an accepted one adds one entry.** -/
theorem refusedOrAdded (sm : StateMachine) :
    (∀ request response,
      RefusesOr sm (sm.mkdirRespond request response).1
        (sm.mkdirRespond request response).2.statusCode
        (AddsAt sm (sm.mkdirRespond request response).1 request.parentPath
          (childPath request.parentPath request.name))) ∧
    ∀ currentMs request response,
      RefusesOr sm (sm.uploadFileRespond currentMs request response).1
        (sm.uploadFileRespond currentMs request response).2.statusCode
        (∃ parentPath name, IsChild request.path parentPath name ∧
          AddsAt sm (sm.uploadFileRespond currentMs request response).1 parentPath
            request.path) :=
  ⟨mkdirRespond_refusesOr, uploadFileRespond_refusesOr⟩

/-- A directory that is accepted. -/
example : (((create []).mkdirRespond { parentPath := "/", name := "a" } {}).2.statusCode,
    ((create []).mkdirRespond { parentPath := "/", name := "a" } {}).1.dirEntries.keys) =
      (.ok, ["/a", "/"]) := by
  decide

/-- A file that is accepted. -/
example : (((create []).uploadFileRespond 50 { path := "/f", ino := 4 } {}).2.statusCode,
    ((create []).uploadFileRespond 50 { path := "/f", ino := 4 } {}).1.dirEntries.keys) =
      (.ok, ["/f", "/"]) := by
  decide

end StateMachine

end Vosfs.Raft
