import Vosfs.Library.Namespace
import Vosfs.Library.Replicas
import Vosfs.Raft.Correspondence
import Vosfs.Raft.Listing

/-!
# The state machine is a namespace

What the state machine is for: commands add directories and files to a namespace, which is a
function of the commands alone (`fileSystem`).  Inode numbers, times, the counter, clients that
wait, and the way in which the tree is kept in two maps are not part of it.

The state machine keeps to this (`treeRefines`) as long as a number is free when it is taken
(`NumberFree`): that of the counter when a directory is created, and the one that an upload
brings.  Clocks, the role in which an entry is applied, uploads that are prepared in between, and
snapshots make no difference, and its answers are those of the namespace (`Responds`).
-/

namespace Vosfs.Raft

namespace StateMachine

/-! ## What the commands mean -/

/-- The path that a command asks to add. -/
def insertionOf : Option EntryCommand → Option (Insertion (List BlockInfo))
  | some (.mkdir request) =>
    some
      { parent := request.parentPath
        name := request.name
        path := childPath request.parentPath request.name
        kind := .directory }
  | some (.uploadFile request) =>
    (splitPath request.path).map fun (parentPath, name) =>
      { parent := parentPath, name := name, path := request.path, kind := .file request.blocks }
  | _ => none

/-- The sequential file system. -/
noncomputable def fileSystem : Machine (Namespace (List BlockInfo)) (Option EntryCommand) where
  start := Namespace.empty
  apply ns command :=
    match insertionOf command with
    | none => ns
    | some added => ns.add added

theorem growing_fileSystem : fileSystem.Growing := by
  intro ns command
  change ns ≤ match insertionOf command with
    | none => ns
    | some added => ns.add added
  split
  · exact le_rfl
  · exact ns.le_add _

/-! ## What the state machine shows -/

variable {sm sm' : StateMachine} {ns : Namespace (List BlockInfo)}

/-- What a path names. -/
def kindAt (sm : StateMachine) (path : String) : Option (Kind (List BlockInfo)) :=
  (sm.dirEntries.lookup path).map fun entry =>
    if entry.isDir then .directory
    else .file (((sm.inodes.lookup entry.ino).map Inode.blocks).getD [])

/-- The two maps fit together, and directories have no content. -/
structure Orderly (sm : StateMachine) : Prop where
  keyed : Keyed sm
  grown : Grown sm
  matched : Matched sm
  root : 0 ∈ sm.inodes
  bare : ∀ {ino inode}, sm.inodes.lookup ino = some inode → inode.isDir = true → inode.blocks = []

/-- The namespace that an orderly state machine shows. -/
structure Shows (sm : StateMachine) (ns : Namespace (List BlockInfo)) : Prop where
  orderly : Orderly sm
  find : ∀ path, sm.kindAt path = ns.find path

/-- The numbers that an entry takes are free. -/
def NumberFree (sm : StateMachine) (entry : LogEntry) : Prop :=
  (sm.acceptsMkdir entry = true → sm.nextIno ∉ sm.inodes) ∧
    ∀ request ∈ uploadRequest? entry, request.ino ∈ sm.inodes → request.path ∈ sm.dirEntries

theorem Orderly.congr (h : Orderly sm) (htree : SameTree sm' sm) : Orderly sm' :=
  ⟨h.keyed.congr htree, h.grown.congr htree, h.matched.congr htree,
    htree.inodes.mem_iff.mpr h.root, fun hlookup => h.bare (htree.inodes _ ▸ hlookup)⟩

theorem SameTree.kindAt (htree : SameTree sm' sm) (path : String) :
    sm'.kindAt path = sm.kindAt path := by
  simp only [StateMachine.kindAt, htree.dirEntries path, htree.inodes _]

theorem Shows.congr (h : Shows sm ns) (htree : SameTree sm' sm) : Shows sm' ns :=
  ⟨h.orderly.congr htree, fun path => (htree.kindAt path).trans (h.find path)⟩

theorem shows_create (dataNodes : List ℕ) : Shows (create dataNodes) Namespace.empty where
  orderly :=
    { keyed := keyed_create dataNodes
      grown := grown_create dataNodes
      matched := matched_create dataNodes
      root := (mem_create_inodes dataNodes).mpr rfl
      bare := fun hlookup _ => by rw [inodes_create hlookup]; rfl }
  find path := by
    by_cases hroot : path = "/"
    · subst hroot
      rfl
    · have hnone : (create dataNodes).dirEntries.lookup path = none := by
        by_contra hsome
        obtain ⟨entry, hlookup⟩ := Option.ne_none_iff_exists'.mp hsome
        exact hroot (dirEntries_create hlookup).1
      simp [kindAt, hnone, Namespace.empty, hroot]

namespace Shows

theorem find_of_lookup (h : Shows sm ns) {path : String} {entry : DirEntry}
    (hlookup : sm.dirEntries.lookup path = some entry) :
    ns.find path = some (if entry.isDir then .directory
      else .file (((sm.inodes.lookup entry.ino).map Inode.blocks).getD [])) := by
  rw [← h.find, kindAt, hlookup, Option.map_some]

theorem find_eq_none_iff (h : Shows sm ns) {path : String} :
    ns.find path = none ↔ path ∉ sm.dirEntries := by
  rw [← h.find, kindAt, Option.map_eq_none_iff, AList.lookup_eq_none]

/-- What names a directory has the inode of one. -/
theorem find_eq_directory_iff (h : Shows sm ns) {path : String} :
    ns.find path = some .directory ↔ ∃ entry inode, sm.dirEntries.lookup path = some entry ∧
      entry.isDir = true ∧ sm.inodes.lookup entry.ino = some inode ∧ inode.isDir = true := by
  constructor
  · intro hfind
    have hmem : path ∈ sm.dirEntries := by
      by_contra hnone
      rw [h.find_eq_none_iff.mpr hnone] at hfind
      cases hfind
    obtain ⟨entry, hlookup⟩ := UnorderedMap.mem_iff_lookup.mp hmem
    rw [h.find_of_lookup hlookup] at hfind
    have hdir : entry.isDir = true := by
      by_contra hfile
      rw [if_neg hfile] at hfind
      cases hfind
    obtain ⟨inode, hinode, hkind⟩ := h.orderly.matched.target hlookup
    exact ⟨entry, inode, hlookup, hdir, hinode, hkind.trans hdir⟩
  · rintro ⟨entry, inode, hlookup, hdir, -, -⟩
    rw [h.find_of_lookup hlookup, if_pos hdir]

end Shows

/-! ## Which commands are accepted -/

theorem splitPath_of_isChild {path parent name : String} (h : IsChild path parent name) :
    splitPath path = some (parent, name) := by
  obtain ⟨front, hpath, hname, rfl⟩ := h
  have hletters : ∀ letter ∈ name.toList.reverse, decide (letter ≠ '/') = true := by
    intro letter hmem
    rw [List.mem_reverse] at hmem
    exact decide_eq_true fun heq => hname (heq ▸ hmem)
  have hreversed : path.toList.reverse = name.toList.reverse ++ '/' :: front.reverse := by
    rw [hpath, List.reverse_append, List.reverse_cons, List.append_assoc, List.singleton_append]
  have hdrop : path.toList.reverse.dropWhile (· ≠ '/') = '/' :: front.reverse := by
    rw [hreversed, List.dropWhile_append_of_pos hletters]
    rfl
  have htake : path.toList.reverse.takeWhile (· ≠ '/') = name.toList.reverse := by
    rw [hreversed, List.takeWhile_append_of_pos hletters]
    simp
  simp only [splitPath, hdrop, htake, List.isEmpty_iff, List.reverse_reverse,
    List.reverse_eq_nil_iff, String.ofList_toList]

section Checks

variable {entry : LogEntry} {added : Insertion (List BlockInfo)}

/-- Where the checks find room, the namespace has it. -/
theorem Shows.fits_of_placed (h : Shows sm ns) {parentPath path name : String} {parentIno : ℕ}
    {parentInode : Inode} (hplaced : Placed sm parentPath parentIno parentInode path name)
    (kind : Kind (List BlockInfo)) :
    ns.Fits { parent := parentPath, name := name, path := path, kind := kind } := by
  have hentry : Placed sm parentPath parentIno parentInode
    ({ path := path } : DirEntry).path name := hplaced
  obtain ⟨parent, hlookup, -, hdir⟩ := h.orderly.grown.parent_isDir hentry
  refine ⟨?_, h.orderly.grown.child hentry, hplaced.name_ne, h.find_eq_none_iff.mpr hplaced.fresh⟩
  rw [h.find_of_lookup hlookup, if_pos hdir]

theorem Shows.checkMkdir_isOk (h : Shows sm ns) (request : MakeDirRequest) :
    (sm.checkMkdir request).isOk = true ↔
      ∃ added ∈ insertionOf (some (.mkdir request)), ns.Fits added := by
  simp only [insertionOf, Option.mem_def, Option.some.injEq, exists_eq_left']
  constructor
  · intro hok
    cases hcheck : sm.checkMkdir request with
    | error message =>
      rw [hcheck] at hok
      cases hok
    | ok found =>
      rw [← path_eq_of_checkMkdir hcheck]
      exact h.fits_of_placed (placed_of_checkMkdir hcheck) _
  · rintro ⟨hparent, ⟨front, -, hslash, -⟩, hname, hfree⟩
    obtain ⟨parent, parentInode, hlookup, -, hinode, hdir⟩ := h.find_eq_directory_iff.mp hparent
    have hfresh := h.find_eq_none_iff.mp hfree
    have hempty : ¬ (request.name.isEmpty = true ∨ '/' ∈ request.name.toList) := by
      rw [not_or, String.isEmpty_iff]
      exact ⟨hname, hslash⟩
    dsimp only at hlookup hfresh
    simp only [checkMkdir, hlookup, hinode, hdir, if_neg hempty, if_neg hfresh]
    rfl

/-- A file is accepted where it fits, if its number is free. -/
theorem Shows.checkUploadFile_isOk (h : Shows sm ns) {request : UploadFileRequest}
    (hnumber : request.ino ∈ sm.inodes → request.path ∈ sm.dirEntries) :
    (sm.checkUploadFile request).isOk = true ↔
      ∃ added ∈ insertionOf (some (.uploadFile request)), ns.Fits added := by
  constructor
  · intro hok
    cases hcheck : sm.checkUploadFile request with
    | error message =>
      rw [hcheck] at hok
      cases hok
    | ok found =>
      obtain ⟨parentPath, hchild, hplaced⟩ := placed_of_checkUploadFile hcheck
      refine ⟨_, ?_, h.fits_of_placed hplaced (.file request.blocks)⟩
      rw [insertionOf, splitPath_of_isChild hchild]
      rfl
  · rintro ⟨added, hadded, hfits⟩
    obtain ⟨⟨parentPath, name⟩, hsplit, rfl⟩ := Option.map_eq_some_iff.mp hadded
    obtain ⟨hparent, ⟨front, -, hslash, -⟩, hname, hfree⟩ := hfits
    obtain ⟨parent, parentInode, hlookup, -, hinode, hdir⟩ := h.find_eq_directory_iff.mp hparent
    have hfresh := h.find_eq_none_iff.mp hfree
    have hexists : ¬ (request.ino ∈ sm.inodes ∨ request.path ∈ sm.dirEntries) :=
      fun hexists => hfresh (hexists.elim hnumber id)
    have hempty : ¬ (name.isEmpty = true ∨ '/' ∈ name.toList) := by
      rw [not_or, String.isEmpty_iff]
      exact ⟨hname, hslash⟩
    dsimp only at hlookup
    simp only [checkUploadFile, if_neg hexists, hsplit, hlookup, hinode, hdir, if_neg hempty]
    rfl

/-- The entry adds something to the tree. -/
def Accepts (sm : StateMachine) (entry : LogEntry) : Prop :=
  sm.acceptsMkdir entry = true ∨ sm.acceptsUploadFile entry = true

theorem Shows.accepts_iff (h : Shows sm ns) (hnumber : sm.NumberFree entry) :
    sm.Accepts entry ↔ ∃ added ∈ insertionOf entry.command, ns.Fits added := by
  unfold Accepts acceptsMkdir acceptsUploadFile
  have hupload := hnumber.2
  rcases hcommand : entry.command with - | (- | request | request)
  · simp [insertionOf]
  · simp [insertionOf]
  · simpa using h.checkMkdir_isOk request
  · simpa using h.checkUploadFile_isOk (hupload request (uploadRequest?_eq_some hcommand))

end Checks

/-! ## Steps -/

section Link

variable {parentPath name : String} {parentIno : ℕ} {parentInode inode : Inode}
  {entry : DirEntry}

theorem kindAt_link (hplaced : Placed sm parentPath parentIno parentInode entry.path name)
    (hmatched : Matched sm) (hfresh : inode.ino ∉ sm.inodes) (hino : entry.ino = inode.ino)
    (path : String) :
    (sm.link parentIno parentInode inode entry).kindAt path =
      if path = entry.path then
        some (if entry.isDir then .directory else .file inode.blocks)
      else sm.kindAt path := by
  have hparent := UnorderedMap.mem_iff_lookup.mpr ⟨_, hplaced.inode⟩
  simp only [kindAt, lookup_link_dirEntries hplaced.fresh]
  split
  · have hne : ¬ inode.ino = parentIno := fun heq => hfresh (heq ▸ hparent)
    simp [hino, lookup_link_inodes hparent, hne, hfresh]
  · cases hlookup : sm.dirEntries.lookup path with
    | none => rfl
    | some found =>
      -- the inode of an older entry may get a child, and keeps its blocks
      obtain ⟨old, hold, -⟩ := hmatched.target hlookup
      rw [Option.map_some, Option.map_some, hold,
        lookup_link_inodes_of_lookup inode entry hplaced.inode hold]
      rfl

/-- A new inode with its entry, at a free number. -/
theorem Shows.link (h : Shows sm ns)
    (hplaced : Placed sm parentPath parentIno parentInode entry.path name)
    (hfresh : inode.ino ∉ sm.inodes) (hino : entry.ino = inode.ino) (hname : entry.name = name)
    (hkind : inode.isDir = entry.isDir) (hempty : inode.dirEntries = [])
    (hbare : inode.isDir = true → inode.blocks = []) :
    Shows (sm.link parentIno parentInode inode entry)
      (ns.add
        { parent := parentPath
          name := name
          path := entry.path
          kind := if entry.isDir then .directory else .file inode.blocks }) where
  orderly :=
    { keyed := h.orderly.keyed.link hplaced.inode
      grown := by
        refine h.orderly.grown.link h.orderly.keyed hplaced hname hino hkind hempty ?_
        exact fun found hfound => absurd (UnorderedMap.mem_iff_lookup.mpr ⟨found, hfound⟩) hfresh
      matched := h.orderly.matched.link hplaced hfresh hino hkind
      root := (mem_inodes_link (UnorderedMap.mem_iff_lookup.mpr ⟨_, hplaced.inode⟩)).mpr
        (Or.inr h.orderly.root)
      bare := by
        intro ino found hlookup hdir
        rw [lookup_link_inodes (UnorderedMap.mem_iff_lookup.mpr ⟨_, hplaced.inode⟩)] at hlookup
        split_ifs at hlookup
        · cases hlookup
          have hold := h.orderly.bare hplaced.inode hplaced.isDir
          exact hold
        · cases hlookup
          exact hbare hdir
        · exact h.orderly.bare hlookup hdir }
  find path := by
    rw [kindAt_link hplaced h.orderly.matched hfresh hino, h.find path,
      Namespace.find_add_of_fits (h.fits_of_placed hplaced _)]

end Link

/-- A command that does not fit is ignored. -/
theorem fileSystem_apply_of_not_fits {command : Option EntryCommand}
    (hnone : ¬ ∃ added ∈ insertionOf command, ns.Fits added) : fileSystem.apply ns command = ns := by
  change (match insertionOf command with
    | none => ns
    | some added => ns.add added) = ns
  cases hadded : insertionOf command with
  | none => rfl
  | some added => exact Namespace.add_of_not_fits fun hfits => hnone ⟨added, hadded, hfits⟩

theorem fileSystem_apply_of_eq {command : Option EntryCommand}
    {added : Insertion (List BlockInfo)} (hadded : insertionOf command = some added) :
    fileSystem.apply ns command = ns.add added := by
  change (match insertionOf command with
    | none => ns
    | some added => ns.add added) = ns.add added
  rw [hadded]

theorem insertionOf_upload {command : Option EntryCommand} {request : UploadFileRequest}
    {parentPath name : String} (hcommand : command = some (.uploadFile request))
    (hchild : IsChild request.path parentPath name) :
    insertionOf command = some
      { parent := parentPath, name := name, path := request.path, kind := .file request.blocks } := by
  rw [hcommand, insertionOf, splitPath_of_isChild hchild]
  rfl

theorem Shows.apply (h : Shows sm ns) {entry : LogEntry} (hnumber : sm.NumberFree entry)
    (asLeader : Bool) (currentMs : ℕ) :
    Shows (sm.apply asLeader currentMs entry) (fileSystem.apply ns entry.command) := by
  refine Shows.congr ?_ (sameTree_apply sm asLeader currentMs entry)
  by_cases hmkdir : sm.acceptsMkdir entry = true
  · obtain ⟨request, parentIno, parentInode, path, hcommand, hcheck⟩ :=
      exists_of_acceptsMkdir hmkdir
    have hplaced := placed_of_checkMkdir hcheck
    have hpath := path_eq_of_checkMkdir hcheck
    rw [addition_mkdir currentMs hcommand hcheck, hcommand, fileSystem_apply_of_eq rfl, ← hpath]
    let directory := newDirectory sm.nextIno request.timestamp
    let created := newDirectoryEntry sm.nextIno request.name path request.timestamp
    have hshows : Shows (sm.link parentIno parentInode directory created) _ :=
      h.link hplaced (hnumber.1 hmkdir) rfl rfl rfl rfl fun _ => rfl
    exact hshows
  by_cases hupload : sm.acceptsUploadFile entry = true
  · obtain ⟨request, parentIno, parentInode, name, hcommand, hcheck⟩ :=
      exists_of_acceptsUploadFile hupload
    obtain ⟨parentPath, hchild, hplaced⟩ := placed_of_checkUploadFile hcheck
    have hfresh := (path_of_checkUploadFile hcheck).1
    rw [addition_uploadFile currentMs hcommand hcheck,
      fileSystem_apply_of_eq (insertionOf_upload hcommand hchild)]
    let file := newFile request currentMs
    let created := newFileEntry request name currentMs
    have hshows : Shows (sm.link parentIno parentInode file created) _ :=
      h.link hplaced hfresh rfl rfl rfl rfl fun hdir => by cases hdir
    exact hshows
  · have hnone : ¬ sm.Accepts entry := fun haccepts => haccepts.elim hmkdir hupload
    rw [fileSystem_apply_of_not_fits (mt (h.accepts_iff hnumber).mpr hnone)]
    rcases sm.addition_cases currentMs entry with haccept | haccept | hadd
    · exact absurd haccept hmkdir
    · exact absurd haccept hupload
    · rw [hadd]
      exact h

/-! ## Answers -/

/-- The entries of a listing are those of the directory, each once. -/
structure Lists (ns : Namespace (List BlockInfo)) (parent : String) (entries : List DirEntry) :
    Prop where
  nodup : (entries.map DirEntry.path).Nodup
  mem_iff : ∀ path name isDir,
    (∃ entry ∈ entries, entry.path = path ∧ entry.name = name ∧ entry.isDir = isDir) ↔
      ∃ kind, ns.Listed parent path name kind ∧ kind.isDirectory = isDir

/-- The blocks that a client downloads. -/
def contents : Kind (List BlockInfo) → List BlockInfo
  | .directory => []
  | .file blocks => blocks

/-- What clients are told is read off the namespace. -/
structure Responds [Platform] (sm : StateMachine) (ns : Namespace (List BlockInfo)) : Prop where
  ls : ∀ request, (sm.ls request).statusCode = .ok ↔ ns.find request.path = some .directory
  listing : ∀ request, (sm.ls request).statusCode = .ok →
    Lists ns request.path (sm.ls request).dirEntries
  download : ∀ request, (sm.prepareDownloadFile request).statusCode = .ok ↔
    (ns.find request.remotePath).isSome
  blocks : ∀ request kind, ns.find request.remotePath = some kind →
    (sm.prepareDownloadFile request).blocks = contents kind
  upload : ∀ {request next response}, sm.prepareUploadFile request = some (next, response) →
    (response.statusCode = .ok ↔ ns.find request.remotePath = none)
  mkdir : ∀ request response, (sm.mkdirRespond request response).2.statusCode = .ok ↔
    ∃ added ∈ insertionOf (some (.mkdir request)), ns.Fits added
  uploaded : ∀ currentMs request response,
    (request.ino ∈ sm.inodes → request.path ∈ sm.dirEntries) →
    ((sm.uploadFileRespond currentMs request response).2.statusCode = .ok ↔
      ∃ added ∈ insertionOf (some (.uploadFile request)), ns.Fits added)

namespace Shows

theorem mem_iff_isSome (h : Shows sm ns) {path : String} :
    path ∈ sm.dirEntries ↔ (ns.find path).isSome := by
  rw [Option.isSome_iff_ne_none, ne_eq, h.find_eq_none_iff, not_not]

/-- What stands under a directory is listed in it. -/
theorem listed_iff_under (h : Shows sm ns) {parent path name : String} {isDir : Bool} :
    (∃ entry, Under sm parent entry ∧ entry.path = path ∧ entry.name = name ∧
        entry.isDir = isDir) ↔
      ∃ kind, ns.Listed parent path name kind ∧ kind.isDirectory = isDir := by
  constructor
  · rintro ⟨entry, ⟨child, found, hroot, hchild, hlookup⟩, rfl, rfl, rfl⟩
    have hlocated := h.orderly.grown.located hlookup hroot
    obtain ⟨above, habove, -⟩ := hlocated.parent
    obtain ⟨rfl, rfl⟩ := hchild.unique habove
    rw [hlocated.path_eq]
    refine ⟨_, ⟨hroot, hchild, h.find_of_lookup hlookup⟩, ?_⟩
    cases entry.isDir <;> rfl
  · rintro ⟨kind, ⟨hroot, hchild, hfind⟩, rfl⟩
    obtain ⟨entry, hlookup⟩ := UnorderedMap.mem_iff_lookup.mp
      (h.mem_iff_isSome.mpr (Option.isSome_of_eq_some hfind))
    have hlocated := h.orderly.grown.located hlookup hroot
    obtain ⟨above, habove, -⟩ := hlocated.parent
    refine ⟨entry, ⟨path, name, hroot, hchild, hlookup⟩, hlocated.path_eq,
      (habove.unique hchild).2, ?_⟩
    rw [h.find_of_lookup hlookup] at hfind
    cases hfind
    cases entry.isDir <;> rfl

theorem lists (h : Shows sm ns) {parent : String} {entries : List DirEntry}
    (hchildren : Children sm parent entries) : Lists ns parent entries where
  nodup := by
    refine List.Nodup.map_on (fun entry hmem entry' hmem' hpath => ?_) hchildren.nodup
    obtain ⟨child, _, _, _, hlookup⟩ := (hchildren.mem_iff entry).mp hmem
    obtain ⟨child', _, _, _, hlookup'⟩ := (hchildren.mem_iff entry').mp hmem'
    have hkeyed := h.orderly.keyed.dirEntries
    rw [← hkeyed hlookup, hpath, hkeyed hlookup', hlookup'] at hlookup
    exact (Option.some.inj hlookup).symm
  mem_iff path name isDir := by
    simp only [hchildren.mem_iff]
    exact h.listed_iff_under

theorem responds [Platform] (h : Shows sm ns) : Responds sm ns where
  ls request := by
    rw [h.find_eq_directory_iff]
    constructor
    · intro hok
      unfold StateMachine.ls at hok
      split at hok
      next => cases hok
      next entry hlookup =>
        split_ifs at hok with hdir
        have hdir : entry.isDir = true := by simpa using hdir
        obtain ⟨inode, hinode, hkind⟩ := h.orderly.matched.target hlookup
        exact ⟨entry, inode, hlookup, hdir, hinode, hkind.trans hdir⟩
    · rintro ⟨entry, inode, hlookup, hdir, hinode, -⟩
      simp [StateMachine.ls, hlookup, hdir, hinode]
  listing request hok := by
    unfold StateMachine.ls at hok
    split at hok
    next => cases hok
    next entry hlookup =>
      split_ifs at hok with hdir
      exact h.lists (h.orderly.grown.isTree.listed hlookup (by simpa using hdir)).2
  download request := by
    rw [← h.mem_iff_isSome, UnorderedMap.mem_iff_lookup]
    cases hlookup : sm.dirEntries.lookup request.remotePath with
    | none => simp [prepareDownloadFile, hlookup]
    | some entry =>
      obtain ⟨inode, hinode, -⟩ := h.orderly.matched.target hlookup
      simp [prepareDownloadFile, hlookup, hinode]
  blocks request kind hfind := by
    obtain ⟨entry, hlookup⟩ := UnorderedMap.mem_iff_lookup.mp
      (h.mem_iff_isSome.mpr (Option.isSome_of_eq_some hfind))
    obtain ⟨inode, hinode, hkind⟩ := h.orderly.matched.target hlookup
    have hanswer : (sm.prepareDownloadFile request).blocks = inode.blocks := by
      simp [prepareDownloadFile, hlookup, hinode]
    rw [h.find_of_lookup hlookup, hinode] at hfind
    rw [hanswer]
    cases hdir : entry.isDir with
    | true =>
      rw [hdir] at hfind hkind
      cases hfind
      exact h.orderly.bare hinode hkind
    | false =>
      rw [hdir] at hfind
      cases hfind
      rfl
  upload {request next response} hprepare := by
    rw [h.find_eq_none_iff]
    unfold StateMachine.prepareUploadFile at hprepare
    split_ifs at hprepare with hexists <;> cases hprepare <;> simp [hexists]
  mkdir request response := by
    rw [← h.checkMkdir_isOk]
    unfold mkdirRespond
    cases sm.checkMkdir request with
    | error message => simp [Except.isOk, Except.toBool]
    | ok found => simp [Except.isOk, Except.toBool]
  uploaded currentMs request response hnumber := by
    rw [← h.checkUploadFile_isOk hnumber]
    unfold uploadFileRespond
    cases sm.checkUploadFile request with
    | error message => simp [Except.isOk, Except.toBool]
    | ok found => simp [Except.isOk, Except.toBool]

end Shows

/-! ## Every state -/

section Theorem

variable [Platform] {log : List LogEntry}

/-- The states that have applied the entries of a log: those reached from the constructor by
steps whose numbers are free, and by loading a snapshot of such a state. -/
inductive Recorded : List LogEntry → StateMachine → Prop
  | create (dataNodes : List ℕ) : Recorded [] (create dataNodes)
  | next {log : List LogEntry} {sm sm' : StateMachine} {step : ReplicaStep}
      (hrecorded : Recorded log sm) (hnumber : ∀ entry ∈ step.entry?, sm.NumberFree entry)
      (hstep : sm.replicaStep step = some sm') : Recorded (log ++ Option.toList step.entry?) sm'
  | load {log lost : List LogEntry} {sm other : StateMachine} (hrecorded : Recorded lost sm)
      (hother : Recorded log other) (index term : ℕ) :
      Recorded log (sm.loadSnapshot
        (other.takeSnapshot { lastIncludedIndex := index, lastIncludedTerm := term }))

theorem Shows.next (h : Shows sm (fileSystem.replay (log.map LogEntry.command)))
    {step : ReplicaStep} (hnumber : ∀ entry ∈ step.entry?, sm.NumberFree entry)
    (hstep : sm.replicaStep step = some sm') :
    Shows sm' (fileSystem.replay ((log ++ Option.toList step.entry?).map LogEntry.command)) := by
  by_cases hquiet : step.entry? = none
  · rw [hquiet, Option.toList_none, List.append_nil]
    exact h.congr (replicaStep_sameTree hstep hquiet).symm
  · cases step with
    | apply asLeader currentMs entry =>
      cases hstep
      have hentry : ReplicaStep.entry? (.apply asLeader currentMs entry) = some entry := rfl
      rw [hentry, Option.toList_some, List.map_append, List.map_singleton, Machine.replay_concat]
      exact h.apply (hnumber entry rfl) asLeader currentMs
    | appendRequest => exact absurd rfl hquiet
    | prepareUploadFile => exact absurd rfl hquiet

/-- **The state machine refines the file system**: what it has applied decides what it shows, and
what it answers. -/
theorem treeRefines (hrecorded : Recorded log sm) :
    Shows sm (fileSystem.replay (log.map LogEntry.command)) ∧
      Responds sm (fileSystem.replay (log.map LogEntry.command)) := by
  have hshows : Shows sm (fileSystem.replay (log.map LogEntry.command)) := by
    induction hrecorded with
    | create dataNodes => exact shows_create dataNodes
    | next _ hnumber hstep ih => exact ih.next hnumber hstep
    | @load _ _ sm _ _ _ index term _ ih =>
      exact ih.congr (sameTree_load sm ih.orderly.keyed ih.orderly.root index term)
  exact ⟨hshows, hshows.responds⟩

end Theorem

/-! ## A directory, and a file in it -/

instance {entry : LogEntry} : Decidable (sm.NumberFree entry) :=
  inferInstanceAs (Decidable ((_ → _) ∧ ∀ request ∈ uploadRequest? entry, _ → _))

/-- After a directory is created, an upload prepared, and the file added. -/
def uploadedOnce : StateMachine :=
  { (create [7]).apply true 40 makeDirectory with nextIno := 3 }.apply true 50 (uploadTo 2 "/a/f")

theorem recorded_uploadedOnce :
    @Recorded plainPlatform [makeDirectory, uploadTo 2 "/a/f"] uploadedOnce := by
  have hcreated : @Recorded plainPlatform [makeDirectory]
      ((create [7]).apply true 40 makeDirectory) :=
    @Recorded.next plainPlatform [] _ _ (.apply true 40 makeDirectory)
      (@Recorded.create plainPlatform [7]) (by decide) rfl
  have hprepared : @Recorded plainPlatform [makeDirectory]
      { (create [7]).apply true 40 makeDirectory with nextIno := 3 } :=
    @Recorded.next plainPlatform [makeDirectory] _ _ (prepareTo "/a/f") hcreated (by decide) rfl
  exact @Recorded.next plainPlatform [makeDirectory] _ _ (.apply true 50 (uploadTo 2 "/a/f"))
    hprepared (by decide) rfl

/-- A node that was restarted loads the snapshot of it. -/
theorem treeRefines_loaded :
    ∃ sm ns, @Recorded plainPlatform [makeDirectory, uploadTo 2 "/a/f"] sm ∧
      (sm.ls { path := "/a" }).dirEntries.map DirEntry.path = ["/a/f"] ∧
      Shows sm ns ∧ @Responds plainPlatform sm ns := by
  have hloaded := @Recorded.load plainPlatform _ _ _ _ (@Recorded.create plainPlatform [8])
    recorded_uploadedOnce 2 1
  exact ⟨_, _, hloaded, by decide, @treeRefines _ plainPlatform _ hloaded⟩

end StateMachine

end Vosfs.Raft
