import Vosfs.Library.UnorderedMap
import Vosfs.Raft.Message

/-!
# The state machine

The tree of files and directories: inodes by number and directory entries by path.

`mkdir` and `upload_file` exist twice in the source, for an entry whose client waits
on this node and for all others, and so they do here.  In the copies with a response
the checks are a definition of their own (`checkMkdir`, `checkUploadFile`), which
returns the message the client gets; the others are written out from the source.

The members written in `pendingRequests` are suspended client requests by log
index; `resumed` records the responses they were resumed with.
-/

namespace Vosfs.Raft

/-- How many data nodes get a block. -/
def replicaNodeSize : ℕ :=
  2

/-- A response that a client may wait for. -/
structure PendingRequest where
  /-- Whether a suspended coroutine waits for the response. -/
  handle : Bool := false
  response : PendingResponse := .notSet
  deriving DecidableEq, Repr

/-- The tree of names as inodes and paths, and the requests that wait for their entries. -/
structure StateMachine where
  inodes : UnorderedMap ℕ Inode := ∅
  dirEntries : UnorderedMap String DirEntry := ∅
  /-- The ids of the data nodes. -/
  dataNodes : List ℕ := []
  nextIno : ℕ := 0
  pendingRequests : UnorderedMap ℕ PendingRequest := ∅
  resumed : List (ℕ × PendingResponse) := []

namespace StateMachine

/-- The inode of the root. -/
def rootInode : Inode :=
  { ino := 0, isDir := true, size := 4096, nlink := 2 }

/-- The entry of the root, which is its own path. -/
def rootEntry : DirEntry :=
  { ino := rootInode.ino, name := "/", isDir := true, path := "/" }

/-- Adds the root directory. -/
def addRoot (sm : StateMachine) : StateMachine :=
  { sm with
    inodes := sm.inodes.emplace rootInode.ino rootInode
    dirEntries := sm.dirEntries.emplace rootEntry.path rootEntry }

/-- The largest number in use, or 0. -/
def maxIno (inodes : UnorderedMap ℕ Inode) : ℕ :=
  inodes.values.foldl (fun maxIno inode => max maxIno inode.ino) 0

/-- Lets the numbers handed out start above those of the inodes. -/
def restartIno (sm : StateMachine) : StateMachine :=
  { sm with nextIno := u64 (maxIno sm.inodes + 1) }

/-- The tree that has only its root. -/
def create (dataNodes : List ℕ) : StateMachine :=
  (addRoot { dataNodes := dataNodes }).restartIno

/-- The tree of a snapshot; the numbers go on behind the largest one, and pending requests stay. -/
def loadSnapshot (sm : StateMachine) (snapshot : Snapshot) : StateMachine :=
  let inodes : UnorderedMap ℕ Inode :=
    snapshot.inodes.foldl (fun inodes inode => inodes.emplace inode.ino inode) ∅
  let dirEntries : UnorderedMap String DirEntry :=
    snapshot.dirEntries.foldl (fun entries entry => entries.emplace entry.path entry) ∅
  let loaded := { sm with inodes := inodes, dirEntries := dirEntries }
  if inodes.entries.isEmpty && dirEntries.entries.isEmpty then
    loaded.addRoot.restartIno
  else
    loaded.restartIno

/-- The tree as a snapshot, without the counter. -/
def takeSnapshot (sm : StateMachine) (snapshot : Snapshot) : Snapshot :=
  { snapshot with
    inodes := snapshot.inodes ++ sm.inodes.values
    dirEntries := snapshot.dirEntries ++ sm.dirEntries.values }

/-! ## Creating directories -/

/-- The path of a name below a directory. -/
def childPath (parentPath name : String) : String :=
  if parentPath = "/" then parentPath ++ name else parentPath ++ "/" ++ name

/-- The checks of `mkdir`, with the parent and the new path. -/
def checkMkdir (sm : StateMachine) (request : MakeDirRequest) :
    Except String (ℕ × Inode × String) := do
  let some parent := sm.dirEntries.lookup request.parentPath
    | .error "目录创建失败：父目录不存在"
  let some parentInode := sm.inodes.lookup parent.ino
    | .error "目录创建失败：父节点不存在"
  if !parentInode.isDir then
    .error "目录创建失败：父节点不是目录"
  else if request.name.isEmpty ∨ '/' ∈ request.name.toList then
    .error "目录创建失败：非法目录名，不能为空或包含'/'"
  else if childPath request.parentPath request.name ∈ sm.dirEntries then
    .error "目录创建失败：目录已存在"
  else
    .ok (parent.ino, parentInode, childPath request.parentPath request.name)

/-- Adds an inode under a directory, with its entry there.  The number of the
parent's inode is the key it was found at. -/
def link (sm : StateMachine) (parentIno : ℕ) (parentInode : Inode) (inode : Inode)
    (entry : DirEntry) : StateMachine :=
  { sm with
    inodes := UnorderedMap.emplace
      (sm.inodes.insert parentIno
        { parentInode with dirEntries := parentInode.dirEntries ++ [entry] })
      inode.ino inode
    dirEntries := sm.dirEntries.emplace entry.path entry }

/-- The inode of a new directory. -/
def newDirectory (ino timestamp : ℕ) : Inode :=
  { ino := ino, isDir := true, size := 4096, ctime := timestamp, mtime := timestamp, nlink := 2 }

/-- Its entry. -/
def newDirectoryEntry (ino : ℕ) (name path : String) (timestamp : ℕ) : DirEntry :=
  { ino := ino, name := name, isDir := true, path := path, size := 4096,
    ctime := timestamp, mtime := timestamp }

/-- The next number goes to the directory. -/
def addDirectory (sm : StateMachine) (request : MakeDirRequest) (parentIno : ℕ)
    (parentInode : Inode) (path : String) : StateMachine :=
  let newIno := sm.nextIno
  { sm with nextIno := u64 (newIno + 1) }.link parentIno parentInode
    (newDirectory newIno request.timestamp)
    (newDirectoryEntry newIno request.name path request.timestamp)

/-- The copy without a response. -/
def mkdir (sm : StateMachine) (request : MakeDirRequest) : StateMachine :=
  let parentPath := request.parentPath
  let name := request.name
  match sm.dirEntries.lookup parentPath with
  | none => sm
  | some parent =>
    match sm.inodes.lookup parent.ino with
    | none => sm
    | some parentInode =>
      if !parentInode.isDir then
        sm
      else if name.isEmpty ∨ '/' ∈ name.toList then
        sm
      else
        let path := if parentPath = "/" then parentPath ++ name else parentPath ++ "/" ++ name
        if path ∈ sm.dirEntries then
          sm
        else
          let newIno := sm.nextIno
          let newInode : Inode :=
            { ino := newIno, isDir := true, size := 4096, ctime := request.timestamp,
              mtime := request.timestamp, nlink := 2 }
          let newEntry : DirEntry :=
            { ino := newIno, name := name, isDir := true, path := path, size := 4096,
              ctime := request.timestamp, mtime := request.timestamp }
          let parentInode :=
            { parentInode with dirEntries := parentInode.dirEntries ++ [newEntry] }
          { sm with
            nextIno := u64 (newIno + 1)
            inodes := UnorderedMap.emplace (sm.inodes.insert parent.ino parentInode) newIno newInode
            dirEntries := sm.dirEntries.emplace path newEntry }

/-- `mkdir` with its response. -/
def mkdirRespond (sm : StateMachine) (request : MakeDirRequest) (response : MakeDirResponse) :
    StateMachine × MakeDirResponse :=
  match sm.checkMkdir request with
  | .error message =>
    (sm, { response with statusCode := .invalidArgument, message := message })
  | .ok (parentIno, parentInode, path) =>
    (sm.addDirectory request parentIno parentInode path,
      { response with
        statusCode := .ok
        message := "创建目录成功：" ++ path
        parentPath := request.parentPath })

/-! ## Uploading files -/

/-- The parent path and the name after the last `/`, if there is one. -/
def splitPath (path : String) : Option (String × String) :=
  let reversed := path.toList.reverse
  match reversed.dropWhile (· ≠ '/') with
  | [] => none
  | _ :: front =>
    some (if front.isEmpty then "/" else String.ofList front.reverse,
      String.ofList (reversed.takeWhile (· ≠ '/')).reverse)

/-- The checks of `upload_file`, with the parent and the name. -/
def checkUploadFile (sm : StateMachine) (request : UploadFileRequest) :
    Except String (ℕ × Inode × String) := do
  if request.ino ∈ sm.inodes ∨ request.path ∈ sm.dirEntries then
    .error "文件上传失败：已存在"
  else
    let some (parentPath, name) := splitPath request.path
      | .error "文件路径非法：无分隔符"
    let some parent := sm.dirEntries.lookup parentPath
      | .error ("文件上传失败：父目录不存在 " ++ parentPath)
    let some parentInode := sm.inodes.lookup parent.ino
      | .error "文件上传失败：父节点不存在"
    if !parentInode.isDir then
      .error "文件上传失败：父节点不是目录"
    else if name.isEmpty ∨ '/' ∈ name.toList then
      .error "文件上传失败：非法文件名，不能为空或包含'/'"
    else
      .ok (parent.ino, parentInode, name)

/-- The size of a file, in `uint64_t`. -/
def totalSize (blocks : List BlockInfo) : ℕ :=
  blocks.foldl (fun size block => u64 (size + block.size)) 0

/-- The inode of a new file, with the clock of the node that applies the entry. -/
def newFile (request : UploadFileRequest) (currentMs : ℕ) : Inode :=
  { ino := request.ino, isDir := false, size := totalSize request.blocks,
    ctime := currentMs, mtime := currentMs, nlink := 1, blocks := request.blocks }

/-- Its entry. -/
def newFileEntry (request : UploadFileRequest) (name : String) (currentMs : ℕ) : DirEntry :=
  { ino := request.ino, name := name, path := request.path, isDir := false,
    size := totalSize request.blocks, ctime := currentMs, mtime := currentMs }

/-- The file gets the number of the request. -/
def addFile (sm : StateMachine) (request : UploadFileRequest) (currentMs parentIno : ℕ)
    (parentInode : Inode) (name : String) : StateMachine :=
  sm.link parentIno parentInode (newFile request currentMs) (newFileEntry request name currentMs)

/-- The copy without a response. -/
def uploadFile (sm : StateMachine) (currentMs : ℕ) (request : UploadFileRequest) :
    StateMachine :=
  let ino := request.ino
  let path := request.path
  if ino ∈ sm.inodes ∨ path ∈ sm.dirEntries then
    sm
  else
    let size := request.blocks.foldl (fun size block => u64 (size + block.size)) 0
    let newInode : Inode :=
      { ino := ino, isDir := false, size := size, ctime := currentMs, mtime := currentMs,
        nlink := 1, blocks := request.blocks }
    match splitPath path with
    | none => sm
    | some (parentPath, name) =>
      match sm.dirEntries.lookup parentPath with
      | none => sm
      | some parent =>
        match sm.inodes.lookup parent.ino with
        | none => sm
        | some parentInode =>
          if !parentInode.isDir then
            sm
          else if name.isEmpty ∨ '/' ∈ name.toList then
            sm
          else
            let newEntry : DirEntry :=
              { ino := ino, name := name, path := path, isDir := false, size := size,
                ctime := currentMs, mtime := currentMs }
            let parentInode :=
              { parentInode with dirEntries := parentInode.dirEntries ++ [newEntry] }
            { sm with
              inodes := UnorderedMap.emplace (sm.inodes.insert parent.ino parentInode) ino newInode
              dirEntries := sm.dirEntries.emplace path newEntry }

/-- `upload_file` with its response. -/
def uploadFileRespond (sm : StateMachine) (currentMs : ℕ) (request : UploadFileRequest)
    (response : UploadFileResponse) : StateMachine × UploadFileResponse :=
  let response := { response with ino := request.ino }
  match sm.checkUploadFile request with
  | .error message =>
    (sm, { response with statusCode := .invalidArgument, message := message })
  | .ok (parentIno, parentInode, name) =>
    (sm.addFile request currentMs parentIno parentInode name,
      { response with statusCode := .ok, message := "文件上传成功：" ++ request.path })

/-! ## Applying log entries -/

/-- Stores the response and resumes the client that waits for it, if there is one. -/
def respond (sm : StateMachine) (index : ℕ) (request : PendingRequest)
    (response : PendingResponse) : StateMachine :=
  { sm with
    pendingRequests := sm.pendingRequests.insert index { request with response := response }
    resumed := if request.handle then sm.resumed ++ [(index, response)] else sm.resumed }

/-- What a leader does with an entry: the response goes to the request at its index. -/
def applyEntry (sm : StateMachine) (currentMs : ℕ) (entry : LogEntry) : StateMachine :=
  let pending := (sm.pendingRequests.lookup entry.index).getD {}
  match entry.command with
  | none => sm.respond entry.index pending pending.response
  | some (.mkdir request) =>
    let (sm, response) := sm.mkdirRespond request pending.response.mutableMkdir
    sm.respond entry.index pending (.mkdir response)
  | some (.uploadFile request) =>
    let (sm, response) :=
      sm.uploadFileRespond currentMs request pending.response.mutableUploadFile
    sm.respond entry.index pending (.uploadFile response)
  | some .notSet => sm.respond entry.index pending pending.response

/-- What the others do with it. -/
def applyEntryNoResponse (sm : StateMachine) (currentMs : ℕ) (entry : LogEntry) :
    StateMachine :=
  match entry.command with
  | none => sm
  | some (.mkdir request) => sm.mkdir request
  | some (.uploadFile request) => sm.uploadFile currentMs request
  | some .notSet => sm

/-- The request waits for the entry at its index, unless one already does. -/
def appendRequest (sm : StateMachine) (logIndex : ℕ) (request : PendingRequest) :
    StateMachine :=
  { sm with pendingRequests := sm.pendingRequests.emplace logIndex request }

/-! ## Reading, and preparing uploads -/

/-- The children that the inode of a directory lists. -/
def ls (sm : StateMachine) (request : ListDirRequest) : ListDirResponse :=
  match sm.dirEntries.lookup request.path with
  | none => { statusCode := .invalidArgument, message := "路径不存在" }
  | some entry =>
    if !entry.isDir then
      { statusCode := .internal, message := "节点不是目录" }
    else
      match sm.inodes.lookup entry.ino with
      | none => { statusCode := .invalidArgument, message := "节点不存在" }
      | some inode =>
        { statusCode := .ok
          message := "显示目录：" ++ request.path
          path := request.path
          dirEntries := inode.dirEntries }

/-- The blocks of the inode at a path, whatever stands there. -/
def prepareDownloadFile (sm : StateMachine) (request : PrepareDownloadFileRequest) :
    PrepareDownloadFileResponse :=
  let response : PrepareDownloadFileResponse :=
    { localPath := request.localPath, remotePath := request.remotePath }
  match sm.dirEntries.lookup request.remotePath with
  | none =>
    { response with statusCode := .invalidArgument, message := "文件下载失败：不存在" }
  | some entry =>
    match sm.inodes.lookup entry.ino with
    | none =>
      { response with statusCode := .invalidArgument, message := "文件下载失败：节点不存在" }
    | some inode => { response with statusCode := .ok, blocks := inode.blocks }

/-- The data nodes from `nodeIndex` on that hold the replicas of a block. -/
def replicas (dataNodes : List ℕ) (nodeIndex : ℕ) : List ℕ :=
  (List.range replicaNodeSize).map fun i =>
    dataNodes.getD ((nodeIndex + i) % dataNodes.length) 0

variable [Platform]

/-- The block is given the number of its file, and the data nodes that its key picks. -/
def placeBlock (dataNodes : List ℕ) (ino : ℕ) (block : BlockInfo) : BlockInfo :=
  let key := u64 (ino * 2 ^ 32) ||| block.id
  { block with
    ino := ino
    dataNodeId := block.dataNodeId ++
      replicas dataNodes (Platform.hash key % dataNodes.length) }

/-- Without data nodes, placing a block divides by zero and ends the process. -/
def prepareUploadFile (sm : StateMachine) (request : PrepareUploadFileRequest) :
    Option (StateMachine × PrepareUploadFileResponse) :=
  let response : PrepareUploadFileResponse :=
    { localPath := request.localPath, remotePath := request.remotePath }
  if request.remotePath ∈ sm.dirEntries then
    some (sm, { response with
      statusCode := .invalidArgument, message := "文件上传失败：存在同名文件" })
  else if sm.dataNodes.isEmpty && !request.blocks.isEmpty then
    none
  else
    let ino := sm.nextIno
    some ({ sm with nextIno := u64 (ino + 1) },
      { response with
        blocks := request.blocks.map (placeBlock sm.dataNodes ino)
        statusCode := .ok })

end StateMachine

end Vosfs.Raft
