import Vosfs.Raft.Reachable

/-!
# The tree of names

In every reachable state the paths are those of a tree, and listing a directory shows the
entries with that parent (`IsTree`), as long as a new directory does not get the number of
a directory (`NewToDirectories`).  The number of a file does no harm: the new
directory then shares the inode of a file, which has no children and takes none.

The children are kept in inodes and the paths in another map.  The invariant is
`Grown`: an inode of a directory belongs to one path, and holds the entries whose parent is
that path.
-/

namespace Vosfs.Raft

namespace StateMachine

variable {sm sm' : StateMachine}

/-- An entry stands at its path, below a directory. -/
structure Located (sm : StateMachine) (path : String) (entry : DirEntry) : Prop where
  startsWithSlash : StartsWithSlash path
  path_eq : entry.path = path
  name_ne : entry.name ≠ ""
  parent : ∃ parent, IsChild path parent entry.name ∧
    ∃ parentEntry, sm.dirEntries.lookup parent = some parentEntry ∧ parentEntry.isDir = true

/-- `entry` is one of those whose parent is `path`. -/
def Under (sm : StateMachine) (path : String) (entry : DirEntry) : Prop :=
  ∃ child name, child ≠ "/" ∧ IsChild child path name ∧ sm.dirEntries.lookup child = some entry

/-- All entries whose parent is `path`, each once. -/
structure Children (sm : StateMachine) (path : String) (entries : List DirEntry) : Prop where
  nodup : entries.Nodup
  mem_iff : ∀ entry, entry ∈ entries ↔ Under sm path entry

/-- The paths are those of a tree, and `ls` of a directory answers `kOk` with its children. -/
structure IsTree (sm : StateMachine) : Prop where
  located : ∀ {path entry}, sm.dirEntries.lookup path = some entry → path ≠ "/" →
    Located sm path entry
  listed : ∀ {request entry}, sm.dirEntries.lookup request.path = some entry →
    entry.isDir = true → (sm.ls request).statusCode = .ok ∧
      Children sm request.path (sm.ls request).dirEntries

/-- A directory that is created gets a number that no directory has. -/
def NewToDirectories (sm : StateMachine) : ReplicaStep → Prop
  | .apply _ _ entry => sm.acceptsMkdir entry = true →
    ∀ inode ∈ sm.inodes.lookup sm.nextIno, inode.isDir = false
  | _ => True

/-! ## The invariant -/

/-- The paths and the inodes agree: a file's entry has a file's inode, a directory's its children,
and no two paths share the inode of a directory. -/
structure Grown (sm : StateMachine) : Prop where
  located : ∀ {path entry}, sm.dirEntries.lookup path = some entry → path ≠ "/" →
    Located sm path entry
  file : ∀ {path entry}, sm.dirEntries.lookup path = some entry → entry.isDir = false →
    ∃ inode, sm.inodes.lookup entry.ino = some inode ∧ inode.isDir = false
  directory : ∀ {path entry}, sm.dirEntries.lookup path = some entry → entry.isDir = true →
    ∃ inode, sm.inodes.lookup entry.ino = some inode ∧ Children sm path inode.dirEntries
  own : ∀ {path path' entry entry' inode}, sm.dirEntries.lookup path = some entry →
    sm.dirEntries.lookup path' = some entry' → entry.ino = entry'.ino →
    sm.inodes.lookup entry.ino = some inode → inode.isDir = true → path = path'
  leaf : ∀ {ino inode}, sm.inodes.lookup ino = some inode → inode.isDir = false →
    inode.dirEntries = []

namespace Grown

theorem isTree (h : Grown sm) : IsTree sm where
  located := h.located
  listed {request entry} hlookup hdir := by
    obtain ⟨inode, hinode, hchildren⟩ := h.directory hlookup hdir
    have hls : sm.ls request =
        { statusCode := .ok, message := "显示目录：" ++ request.path, path := request.path,
          dirEntries := inode.dirEntries } := by
      simp [ls, hlookup, hdir, hinode]
    rw [hls]
    exact ⟨rfl, hchildren⟩

theorem mem_inodes (h : Grown sm) {path : String} {entry : DirEntry}
    (hlookup : sm.dirEntries.lookup path = some entry) : entry.ino ∈ sm.inodes := by
  rw [UnorderedMap.mem_iff_lookup]
  cases hdir : entry.isDir with
  | false => exact (h.file hlookup hdir).imp fun _ => And.left
  | true => exact (h.directory hlookup hdir).imp fun _ => And.left

theorem startsWithSlash (h : Grown sm) {path : String} {entry : DirEntry}
    (hlookup : sm.dirEntries.lookup path = some entry) : StartsWithSlash path := by
  by_cases hroot : path = "/"
  · exact hroot ▸ ⟨[], rfl⟩
  · exact (h.located hlookup hroot).startsWithSlash

end Grown

theorem SameTree.under_iff (htree : SameTree sm' sm) {path : String} {entry : DirEntry} :
    Under sm' path entry ↔ Under sm path entry := by
  simp only [Under, htree.dirEntries _]

theorem SameTree.located (htree : SameTree sm' sm) {path : String} {entry : DirEntry}
    (h : Located sm path entry) : Located sm' path entry := by
  refine ⟨h.startsWithSlash, h.path_eq, h.name_ne, ?_⟩
  simpa only [htree.dirEntries _] using h.parent

theorem SameTree.children (htree : SameTree sm' sm) {path : String} {entries : List DirEntry}
    (h : Children sm path entries) : Children sm' path entries :=
  ⟨h.nodup, fun entry => (h.mem_iff entry).trans htree.under_iff.symm⟩

theorem Grown.congr (h : Grown sm) (htree : SameTree sm' sm) : Grown sm' where
  located hlookup hroot := by
    rw [htree.dirEntries] at hlookup
    exact htree.located (h.located hlookup hroot)
  file hlookup hdir := by
    rw [htree.dirEntries] at hlookup
    rw [htree.inodes]
    exact h.file hlookup hdir
  directory hlookup hdir := by
    rw [htree.dirEntries] at hlookup
    rw [htree.inodes]
    obtain ⟨inode, hinode, hchildren⟩ := h.directory hlookup hdir
    exact ⟨inode, hinode, htree.children hchildren⟩
  own hlookup hlookup' hsame hinode hdir := by
    rw [htree.dirEntries] at hlookup hlookup'
    rw [htree.inodes] at hinode
    exact h.own hlookup hlookup' hsame hinode hdir
  leaf hinode hdir := by
    rw [htree.inodes] at hinode
    exact h.leaf hinode hdir

/-! ## A new entry -/

section Link

variable {parentPath name : String} {parentIno : ℕ} {parentInode inode : Inode}
  {entry : DirEntry}

theorem Grown.child (h : Grown sm)
    (hplaced : Placed sm parentPath parentIno parentInode entry.path name) :
    IsChild entry.path parentPath name := by
  obtain ⟨parent, hlookup, -⟩ := hplaced.parent
  exact hplaced.child (h.startsWithSlash hlookup).ne_empty

/-- A file's entry has a file's inode, so the parent is a directory. -/
theorem Grown.parent_isDir (h : Grown sm)
    (hplaced : Placed sm parentPath parentIno parentInode entry.path name) :
    ∃ parent, sm.dirEntries.lookup parentPath = some parent ∧ parent.ino = parentIno ∧
      parent.isDir = true := by
  obtain ⟨parent, hlookup, rfl⟩ := hplaced.parent
  refine ⟨parent, hlookup, rfl, ?_⟩
  by_contra hfile
  obtain ⟨found, hfound, hkind⟩ := h.file hlookup (by simpa using hfile)
  rw [hplaced.inode] at hfound
  cases hfound
  rw [hplaced.isDir] at hkind
  cases hkind

theorem ne_path_of_lookup {path : String} {found : DirEntry} (hfresh : entry.path ∉ sm.dirEntries)
    (hlookup : sm.dirEntries.lookup path = some found) : path ≠ entry.path := by
  rintro rfl
  exact hfresh (UnorderedMap.mem_iff_lookup.mpr ⟨found, hlookup⟩)

theorem lookup_link_of_lookup {path : String} {found : DirEntry}
    (hfresh : entry.path ∉ sm.dirEntries) (hlookup : sm.dirEntries.lookup path = some found) :
    (sm.link parentIno parentInode inode entry).dirEntries.lookup path = some found := by
  rw [lookup_link_dirEntries hfresh, if_neg (ne_path_of_lookup hfresh hlookup)]
  exact hlookup

/-- Nothing is below a path that is not in use. -/
theorem Grown.not_under (h : Grown sm) {path : String} (hfresh : path ∉ sm.dirEntries)
    {found : DirEntry} : ¬ Under sm path found := by
  rintro ⟨child, name, hroot, hchild, hlookup⟩
  obtain ⟨parent, hparent, parentEntry, hparentEntry, -⟩ := (h.located hlookup hroot).parent
  rw [(hchild.unique hparent).1] at hfresh
  exact hfresh (UnorderedMap.mem_iff_lookup.mpr ⟨_, hparentEntry⟩)

theorem Grown.under_link (h : Grown sm)
    (hplaced : Placed sm parentPath parentIno parentInode entry.path name) (path : String)
    (found : DirEntry) :
    Under (sm.link parentIno parentInode inode entry) path found ↔
      Under sm path found ∨ path = parentPath ∧ found = entry := by
  have hchild := h.child hplaced
  constructor
  · rintro ⟨child, name', hroot, hchild', hlookup⟩
    rw [lookup_link_dirEntries hplaced.fresh] at hlookup
    split_ifs at hlookup with heq
    · cases hlookup
      exact Or.inr ⟨(hchild'.unique (heq ▸ hchild)).1, rfl⟩
    · exact Or.inl ⟨child, name', hroot, hchild', hlookup⟩
  · rintro (⟨child, name', hroot, hchild', hlookup⟩ | ⟨rfl, rfl⟩)
    · exact ⟨child, name', hroot, hchild', lookup_link_of_lookup hplaced.fresh hlookup⟩
    · refine ⟨found.path, name, hchild.ne_root hplaced.name_ne, hchild, ?_⟩
      rw [lookup_link_dirEntries hplaced.fresh, if_pos rfl]

theorem Grown.children_link_parent (h : Grown sm) (hkeyed : Keyed sm)
    (hplaced : Placed sm parentPath parentIno parentInode entry.path name)
    {entries : List DirEntry} (hchildren : Children sm parentPath entries) :
    Children (sm.link parentIno parentInode inode entry) parentPath (entries ++ [entry]) where
  nodup := by
    rw [List.nodup_append_comm, List.singleton_append, List.nodup_cons]
    refine ⟨fun hmem => ?_, hchildren.nodup⟩
    -- an old entry stands at its own path, and the new path was not in use
    obtain ⟨child, _, _, _, hlookup⟩ := (hchildren.mem_iff entry).mp hmem
    exact ne_path_of_lookup hplaced.fresh hlookup (hkeyed.dirEntries hlookup).symm
  mem_iff found := by
    rw [List.mem_append, List.mem_singleton, hchildren.mem_iff, h.under_link hplaced]
    simp

theorem Grown.children_link (h : Grown sm)
    (hplaced : Placed sm parentPath parentIno parentInode entry.path name) {path : String}
    (hne : path ≠ parentPath) {entries : List DirEntry} (hchildren : Children sm path entries) :
    Children (sm.link parentIno parentInode inode entry) path entries := by
  refine ⟨hchildren.nodup, fun found => ?_⟩
  rw [hchildren.mem_iff, h.under_link hplaced]
  simp [hne]

/-- The new entry's inode is new, or that of a file. -/
theorem Grown.lookup_link_new (h : Grown sm)
    (hplaced : Placed sm parentPath parentIno parentInode entry.path name)
    (hkind : inode.isDir = entry.isDir) (hempty : inode.dirEntries = [])
    (htaken : ∀ found, sm.inodes.lookup inode.ino = some found →
      found.isDir = false ∧ entry.isDir = true) :
    ∃ found, (sm.link parentIno parentInode inode entry).inodes.lookup inode.ino = some found ∧
      found.dirEntries = [] ∧ (found.isDir = true → inode.ino ∉ sm.inodes) ∧
      (entry.isDir = false → found.isDir = false) := by
  by_cases hmem : inode.ino ∈ sm.inodes
  · obtain ⟨old, hold⟩ := UnorderedMap.mem_iff_lookup.mp hmem
    obtain ⟨hfile, hdir⟩ := htaken old hold
    have hne : inode.ino ≠ parentIno := by
      intro heq
      rw [heq, hplaced.inode] at hold
      cases hold
      rw [hplaced.isDir] at hfile
      cases hfile
    refine ⟨old, ?_, h.leaf hold hfile, ?_, fun _ => hfile⟩
    · rw [lookup_link_inodes (UnorderedMap.mem_iff_lookup.mpr ⟨_, hplaced.inode⟩), if_neg hne,
        if_neg fun hnew => hnew.2 hmem, hold]
    · rw [hfile]
      exact fun hdir' => absurd hdir' (by decide)
  · have hne : inode.ino ≠ parentIno :=
      fun heq => hmem (heq ▸ UnorderedMap.mem_iff_lookup.mpr ⟨_, hplaced.inode⟩)
    refine ⟨inode, ?_, hempty, fun _ => hmem, fun hfile => hkind.trans hfile⟩
    rw [lookup_link_inodes (UnorderedMap.mem_iff_lookup.mpr ⟨_, hplaced.inode⟩), if_neg hne,
      if_pos ⟨rfl, hmem⟩]

theorem Grown.located_link (h : Grown sm)
    (hplaced : Placed sm parentPath parentIno parentInode entry.path name)
    (hname : entry.name = name) {path : String} {found : DirEntry}
    (hlookup : (sm.link parentIno parentInode inode entry).dirEntries.lookup path = some found)
    (hroot : path ≠ "/") : Located (sm.link parentIno parentInode inode entry) path found := by
  rw [lookup_link_dirEntries hplaced.fresh] at hlookup
  split_ifs at hlookup with heq
  · cases hlookup
    subst heq
    obtain ⟨parent, hparent, -, hparentDir⟩ := h.parent_isDir hplaced
    have hchild := h.child hplaced
    exact ⟨hchild.startsWithSlash (h.startsWithSlash hparent), rfl, hname ▸ hplaced.name_ne,
      parentPath, hname ▸ hchild, parent, lookup_link_of_lookup hplaced.fresh hparent, hparentDir⟩
  · obtain ⟨hslash, hpath, hne, above, habove, aboveEntry, haboveEntry, haboveDir⟩ :=
      h.located hlookup hroot
    exact ⟨hslash, hpath, hne, above, habove, aboveEntry,
      lookup_link_of_lookup hplaced.fresh haboveEntry, haboveDir⟩

theorem Grown.file_link (h : Grown sm)
    (hplaced : Placed sm parentPath parentIno parentInode entry.path name)
    (hino : entry.ino = inode.ino) {new : Inode}
    (hnew : (sm.link parentIno parentInode inode entry).inodes.lookup inode.ino = some new)
    (hnewFile : entry.isDir = false → new.isDir = false) {path : String} {found : DirEntry}
    (hlookup : (sm.link parentIno parentInode inode entry).dirEntries.lookup path = some found)
    (hfile : found.isDir = false) :
    ∃ inode', (sm.link parentIno parentInode inode entry).inodes.lookup found.ino = some inode' ∧
      inode'.isDir = false := by
  rw [lookup_link_dirEntries hplaced.fresh] at hlookup
  split_ifs at hlookup with heq
  · cases hlookup
    exact ⟨new, hino ▸ hnew, hnewFile hfile⟩
  · obtain ⟨inode', hinode', hfile'⟩ := h.file hlookup hfile
    exact ⟨_, lookup_link_inodes_of_lookup inode entry hplaced.inode hinode', hfile'⟩

/-- A new directory is empty, the parent gains the entry, and no other listing changes. -/
theorem Grown.directory_link (h : Grown sm) (hkeyed : Keyed sm)
    (hplaced : Placed sm parentPath parentIno parentInode entry.path name)
    (hino : entry.ino = inode.ino) {new : Inode}
    (hnew : (sm.link parentIno parentInode inode entry).inodes.lookup inode.ino = some new)
    (hnewEntries : new.dirEntries = []) {path : String} {found : DirEntry}
    (hlookup : (sm.link parentIno parentInode inode entry).dirEntries.lookup path = some found)
    (hdir : found.isDir = true) :
    ∃ inode', (sm.link parentIno parentInode inode entry).inodes.lookup found.ino = some inode' ∧
      Children (sm.link parentIno parentInode inode entry) path inode'.dirEntries := by
  obtain ⟨parent, hparent, hparentIno, -⟩ := h.parent_isDir hplaced
  rw [lookup_link_dirEntries hplaced.fresh] at hlookup
  split_ifs at hlookup with heq
  · cases hlookup
    subst heq
    refine ⟨new, hino ▸ hnew, ?_⟩
    rw [hnewEntries]
    refine ⟨List.nodup_nil, fun other => ?_⟩
    rw [h.under_link hplaced]
    have hne : entry.path ≠ parentPath := (ne_path_of_lookup hplaced.fresh hparent).symm
    simp [h.not_under hplaced.fresh, hne]
  · obtain ⟨inode', hinode', hchildren⟩ := h.directory hlookup hdir
    refine ⟨_, lookup_link_inodes_of_lookup inode entry hplaced.inode hinode', ?_⟩
    by_cases hpath : path = parentPath
    · subst hpath
      rw [hparent] at hlookup
      cases hlookup
      rw [if_pos hparentIno]
      exact h.children_link_parent hkeyed hplaced hchildren
    · rw [if_neg, List.append_nil]
      · exact h.children_link hplaced hpath hchildren
      · intro hsame
        rw [hsame] at hinode'
        exact hpath (h.own hlookup hparent (hsame.trans hparentIno.symm)
          (hsame ▸ hplaced.inode) hplaced.isDir)

/-- The inode of a new directory was not in use, so it belongs to the new path alone. -/
theorem Grown.own_link (h : Grown sm)
    (hplaced : Placed sm parentPath parentIno parentInode entry.path name)
    (hino : entry.ino = inode.ino) {new : Inode}
    (hnew : (sm.link parentIno parentInode inode entry).inodes.lookup inode.ino = some new)
    (hnewDir : new.isDir = true → inode.ino ∉ sm.inodes) {path path' : String}
    {found found' : DirEntry} {inode' : Inode}
    (hlookup : (sm.link parentIno parentInode inode entry).dirEntries.lookup path = some found)
    (hlookup' : (sm.link parentIno parentInode inode entry).dirEntries.lookup path' = some found')
    (hsame : found.ino = found'.ino)
    (hinode' : (sm.link parentIno parentInode inode entry).inodes.lookup found.ino = some inode')
    (hdir : inode'.isDir = true) : path = path' := by
  have hnotOld : ∀ {path found}, sm.dirEntries.lookup path = some found →
      found.ino = inode.ino → new.isDir = false := by
    intro path found hold heq
    by_contra hnewDir'
    exact hnewDir (by simpa using hnewDir') (heq ▸ h.mem_inodes hold)
  rw [lookup_link_dirEntries hplaced.fresh] at hlookup hlookup'
  split_ifs at hlookup with heq <;> split_ifs at hlookup' with heq'
  · exact heq.trans heq'.symm
  · cases hlookup
    rw [hino, hnew] at hinode'
    cases hinode'
    rw [hnotOld hlookup' (hsame.symm.trans hino)] at hdir
    cases hdir
  · cases hlookup'
    rw [hsame, hino, hnew] at hinode'
    cases hinode'
    rw [hnotOld hlookup (hsame.trans hino)] at hdir
    cases hdir
  · obtain ⟨old, hold⟩ := UnorderedMap.mem_iff_lookup.mp (h.mem_inodes hlookup)
    rw [lookup_link_inodes_of_lookup inode entry hplaced.inode hold] at hinode'
    cases hinode'
    exact h.own hlookup hlookup' hsame hold hdir

theorem Grown.leaf_link (h : Grown sm)
    (hplaced : Placed sm parentPath parentIno parentInode entry.path name)
    (hempty : inode.dirEntries = []) {ino : ℕ} {found : Inode}
    (hlookup : (sm.link parentIno parentInode inode entry).inodes.lookup ino = some found)
    (hfile : found.isDir = false) : found.dirEntries = [] := by
  by_cases hmem : ino ∈ sm.inodes
  · obtain ⟨old, hold⟩ := UnorderedMap.mem_iff_lookup.mp hmem
    rw [lookup_link_inodes_of_lookup inode entry hplaced.inode hold] at hlookup
    cases hlookup
    -- the parent is a directory, so a file's inode is not the one that gains the entry
    have hne : ino ≠ parentIno := by
      rintro rfl
      rw [hplaced.inode] at hold
      cases hold
      exact absurd (hplaced.isDir.symm.trans hfile) (by decide)
    rw [h.leaf hold hfile, if_neg hne, List.append_nil]
  · rw [lookup_link_inodes (UnorderedMap.mem_iff_lookup.mpr ⟨_, hplaced.inode⟩)] at hlookup
    split_ifs at hlookup with hsame hfresh
    · exact absurd (hsame ▸ UnorderedMap.mem_iff_lookup.mpr ⟨_, hplaced.inode⟩) hmem
    · cases hlookup
      exact hempty
    · exact absurd (UnorderedMap.mem_iff_lookup.mpr ⟨_, hlookup⟩) hmem

/-- A new entry whose number is new, or that of a file. -/
theorem Grown.link (h : Grown sm) (hkeyed : Keyed sm)
    (hplaced : Placed sm parentPath parentIno parentInode entry.path name)
    (hname : entry.name = name) (hino : entry.ino = inode.ino) (hkind : inode.isDir = entry.isDir)
    (hempty : inode.dirEntries = [])
    (htaken : ∀ found, sm.inodes.lookup inode.ino = some found →
      found.isDir = false ∧ entry.isDir = true) :
    Grown (sm.link parentIno parentInode inode entry) := by
  obtain ⟨new, hnew, hnewEntries, hnewDir, hnewFile⟩ :=
    h.lookup_link_new hplaced hkind hempty htaken
  exact
    { located := h.located_link hplaced hname
      file := h.file_link hplaced hino hnew hnewFile
      directory := h.directory_link hkeyed hplaced hino hnew hnewEntries
      own := h.own_link hplaced hino hnew hnewDir
      leaf := h.leaf_link hplaced hempty }

end Link

/-! ## Steps -/

theorem grown_create (dataNodes : List ℕ) : Grown (create dataNodes) := by
  constructor
  · intro path entry hlookup hroot
    exact absurd (dirEntries_create hlookup).1 hroot
  · intro path entry hlookup hfile
    rw [(dirEntries_create hlookup).2] at hfile
    cases hfile
  · intro path entry hlookup hdir
    obtain ⟨rfl, rfl⟩ := dirEntries_create hlookup
    refine ⟨rootInode, rfl, List.nodup_nil, fun entry => ?_⟩
    rw [iff_comm, rootInode]
    simp only [List.not_mem_nil, iff_false]
    rintro ⟨child, name, hroot, -, hchild⟩
    exact hroot (dirEntries_create hchild).1
  · intro path path' entry entry' inode hlookup hlookup' _ _ _
    exact (dirEntries_create hlookup).1.trans (dirEntries_create hlookup').1.symm
  · intro ino inode hlookup hfile
    rw [inodes_create hlookup] at hfile
    cases hfile

theorem Grown.next (h : Grown sm) (hkeyed : Keyed sm) {step : ReplicaStep}
    (hnew : sm.NewToDirectories step) (hchange : Change sm sm' step) : Grown sm' := by
  cases hchange with
  | keeps _ tree => exact h.congr tree
  | prepares _ tree => exact h.congr tree
  | creates accepts placed tree =>
    refine Grown.congr (h.link hkeyed placed rfl rfl rfl rfl fun found hfound => ?_) tree
    exact ⟨hnew accepts found hfound, rfl⟩
  | uploads _ _ fresh _ placed tree =>
    refine Grown.congr (h.link hkeyed placed rfl rfl rfl rfl fun found hfound => ?_) tree
    exact absurd (UnorderedMap.mem_iff_lookup.mpr ⟨found, hfound⟩) fresh

section Theorem

variable [Platform]

theorem Reachable.grown {allowed : StateMachine → ReplicaStep → Prop}
    (hallowed : ∀ {sm step}, allowed sm step → sm.NewToDirectories step)
    (hreach : Reachable allowed sm) : Grown sm :=
  hreach.invariant Grown grown_create
    (fun hkeyed _ h hnew hchange => h.next hkeyed (hallowed hnew) hchange)
    fun _ _ h htree _ => h.congr htree

/-- **The namespace is a tree, and listings agree with the paths.** -/
theorem namespaceIsTree (hreach : Reachable NewToDirectories sm) : IsTree sm :=
  (hreach.grown id).isTree

end Theorem

/-! ## A directory with the number of a file, and one with that of the root -/

instance : ∀ step : ReplicaStep, Decidable (sm.NewToDirectories step)
  | .apply _ _ _ => inferInstanceAs (Decidable (_ → ∀ inode ∈ sm.inodes.lookup sm.nextIno, _))
  | .appendRequest _ _ | .prepareUploadFile _ => inferInstanceAs (Decidable True)

/-- The directory `"/a"` has the number 1 of the file `"/f"`. -/
theorem namespaceIsTree_sharedInode :
    ∃ sm, @Reachable plainPlatform NewToDirectories sm ∧
      (sm.dirEntries.lookup "/a").map DirEntry.ino = (sm.dirEntries.lookup "/f").map DirEntry.ino ∧
        IsTree sm := by
  obtain ⟨sm, hrun, hsame⟩ := Run.exists_of_exec (@replicaStep plainPlatform) NewToDirectories
    (create [7]) [.apply true 40 (uploadTo 1 "/f"), .apply true 50 makeDirectory]
    (fun sm => decide ((sm.dirEntries.lookup "/a").map DirEntry.ino =
      (sm.dirEntries.lookup "/f").map DirEntry.ino)) (by decide)
  have hreach := @Reachable.of_run _ _ plainPlatform _ (@Reachable.create plainPlatform _ [7]) hrun
  exact ⟨sm, hreach, of_decide_eq_true hsame, @namespaceIsTree _ plainPlatform hreach⟩

/-- A file with the last number. -/
def lastUploaded : StateMachine :=
  (create [7]).apply true 40 (uploadTo (2 ^ 64 - 1) "/f")

/-- The counter wraps around at the load, and the new directory gets the root's number. -/
def rootShared : StateMachine :=
  (lastUploaded.loadSnapshot (lastUploaded.takeSnapshot
    { lastIncludedIndex := 0, lastIncludedTerm := 0 })).apply true 50 makeDirectory

theorem reachable_rootShared : @Reachable plainPlatform (fun _ _ => True) rootShared := by
  have hupload : @Reachable plainPlatform (fun _ _ => True) lastUploaded :=
    @Reachable.apply _ plainPlatform (@Reachable.create plainPlatform _ [7]) ..
  exact @Reachable.apply _ plainPlatform (@Reachable.load plainPlatform _ _ _ hupload hupload 0 0) ..

/-- The directory `"/a"` lists itself. -/
theorem exists_directory_in_itself :
    ∃ sm, @Reachable plainPlatform (fun _ _ => True) sm ∧ ¬ IsTree sm := by
  refine ⟨rootShared, reachable_rootShared, fun htree => ?_⟩
  let entry := newDirectoryEntry 0 "a" "/a" 7
  have hlookup : rootShared.dirEntries.lookup "/a" = some entry := by decide +kernel
  have hlisted : entry ∈ (rootShared.ls { path := "/a" }).dirEntries := by decide +kernel
  have hchildren := (@IsTree.listed _ htree { path := "/a" } entry hlookup rfl).2
  obtain ⟨child, name, hroot, hchild, hfound⟩ := (hchildren.mem_iff entry).mp hlisted
  have hparent : IsChild ("/" ++ "a") "/" "a" := isChild_root (by decide)
  obtain rfl : "/a" = child := (htree.located hfound hroot).path_eq
  exact absurd (hparent.unique hchild).1 (by decide)

end StateMachine

end Vosfs.Raft
