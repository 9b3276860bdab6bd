import Mathlib.Data.Int.Notation
import Mathlib.Logic.Function.Basic
import Vosfs.Library.Conversions
import Vosfs.Library.UnorderedMap
import Vosfs.Raft.Message

/-!
# The client

The client keeps a task for each file in transport: its blocks, and the data nodes of each
block that have not answered yet.  What the client sets going, a request or the reading of its
tasks from a file, is appended to `tasks`.

The tasks of a user are saved to a file as lists, without the keys of the maps, and the keys
are made again when they are loaded.
-/

namespace Vosfs.Ui

open Function
open Raft (ListDirResponse MakeDirResponse PrepareUploadFileResponse UploadFileResponse
  PrepareDownloadFileResponse)

/-! ## Transport tasks -/

/-- A block of a transport task, and how many answers it waits for. -/
structure BlockInfo where
  remaingTimes : ℕ := 0
  id : ℕ := 0
  ino : ℕ := 0
  offset : ℕ := 0
  size : ℕ := 0
  /-- Whether a data node has answered. -/
  dataNodeIds : UnorderedMap ℕ Bool := ∅

/-- An upload or a download in progress. -/
structure TransportTask where
  ino : ℕ := 0
  totalBlocks : ℕ := 0
  doneBlocks : ℕ := 0
  localPath : String := ""
  remotePath : String := ""
  blocks : UnorderedMap ℕ BlockInfo := ∅

/-- A block as the metadata nodes describe it, with no answers so far.  A data node that is
listed twice is counted twice. -/
def BlockInfo.ofResponse (block : Raft.BlockInfo) : BlockInfo where
  remaingTimes := block.dataNodeId.length
  id := block.id
  ino := block.ino
  offset := block.offset
  size := block.size
  dataNodeIds := block.dataNodeId.foldl (fun ids id => ids.emplace id false) ∅

/-- The blocks by their ids: the first block with an id stays. -/
def blocksOf (blocks : List BlockInfo) : UnorderedMap ℕ BlockInfo :=
  blocks.foldl (fun blocks block => blocks.emplace block.id block) ∅

/-- `none`: the first block of an empty list is read. -/
def TransportTask.ofResponse (blocks : List Raft.BlockInfo) (localPath remotePath : String) :
    Option TransportTask :=
  blocks.head?.map fun block =>
    { ino := block.ino
      totalBlocks := blocks.length
      doneBlocks := 0
      localPath := localPath
      remotePath := remotePath
      blocks := blocksOf (blocks.map BlockInfo.ofResponse) }

/-! ## The file of the tasks -/

/-- A task as it is saved: the blocks in a list. -/
structure TransportTaskJson where
  ino : ℕ
  totalBlocks : ℕ
  doneBlocks : ℕ
  localPath : String
  remotePath : String
  blocks : List BlockInfo

/-- All tasks as they are saved. -/
structure TransportTasksJson where
  uploadTasks : List TransportTaskJson := []
  downloadTasks : List TransportTaskJson := []

/-- A task as it is saved. -/
def TransportTask.toJson (task : TransportTask) : TransportTaskJson where
  ino := task.ino
  totalBlocks := task.totalBlocks
  doneBlocks := task.doneBlocks
  localPath := task.localPath
  remotePath := task.remotePath
  blocks := task.blocks.values

/-- A task as it is read back. -/
def TransportTask.ofJson (task : TransportTaskJson) : TransportTask where
  ino := task.ino
  totalBlocks := task.totalBlocks
  doneBlocks := task.doneBlocks
  localPath := task.localPath
  remotePath := task.remotePath
  blocks := blocksOf task.blocks

/-- The tasks by their inodes: the first task of an inode stays. -/
def tasksOf (tasks : List TransportTask) : UnorderedMap ℕ TransportTask :=
  tasks.foldl (fun tasks task => tasks.emplace task.ino task) ∅

/-! ### Maps that are made of lists -/

open UnorderedMap

theorem lookup_empty_ne {ino : ℕ} {task : TransportTask} :
    (∅ : UnorderedMap ℕ TransportTask).lookup ino ≠ some task := by
  rw [AList.lookup_empty]
  exact (Option.some_ne_none task).symm

theorem lookup_blocksOf (blocks : List BlockInfo) (blockId : ℕ) :
    (blocksOf blocks).lookup blockId = blocks.find? fun block => block.id = blockId := by
  rw [blocksOf, lookup_foldl_emplace, AList.lookup_empty, Option.none_or]

theorem keyed_blocksOf (blocks : List BlockInfo) : Keyed BlockInfo.id (blocksOf blocks) := by
  intro blockId block hlookup
  rw [lookup_blocksOf] at hlookup
  simpa using List.find?_some hlookup

theorem length_blocksOf (blocks : List BlockInfo) :
    (blocksOf blocks).values.length ≤ blocks.length := by
  have hsub : (blocksOf blocks).keys.toFinset ⊆ (blocks.map BlockInfo.id).toFinset := by
    intro blockId hmem
    obtain ⟨block, hlookup⟩ :=
      mem_iff_lookup.mp (AList.mem_keys.mpr (List.mem_toFinset.mp hmem))
    rw [lookup_blocksOf] at hlookup
    have hid : block.id = blockId := by simpa using List.find?_some hlookup
    exact List.mem_toFinset.mpr (List.mem_map.mpr ⟨block, List.mem_of_find?_eq_some hlookup, hid⟩)
  calc (blocksOf blocks).values.length
      = (blocksOf blocks).keys.toFinset.card := length_values _
    _ ≤ (blocks.map BlockInfo.id).toFinset.card := Finset.card_le_card hsub
    _ ≤ (blocks.map BlockInfo.id).length := List.toFinset_card_le _
    _ = blocks.length := List.length_map _

/-- Saving and loading may change the order of the blocks. -/
theorem same_blocks_ofJson {task : TransportTask} (h : Keyed BlockInfo.id task.blocks) :
    Same (TransportTask.ofJson task.toJson).blocks task.blocks :=
  same_foldl_emplace h

theorem lookup_tasksOf {tasks : UnorderedMap ℕ TransportTask} (h : Keyed TransportTask.ino tasks)
    (ino : ℕ) :
    (tasksOf ((tasks.values.map TransportTask.toJson).map TransportTask.ofJson)).lookup ino =
      (tasks.lookup ino).map fun task => TransportTask.ofJson task.toJson := by
  rw [tasksOf, lookup_foldl_emplace, AList.lookup_empty, Option.none_or, List.map_map,
    List.find?_map, ← find?_values h]
  rfl

/-- The files of the client's machine that hold tasks. -/
abbrev TaskFiles := String → Option TransportTasksJson

/-! ## The state -/

/-- Who is logged in; an empty token is nobody. -/
structure UserSession where
  token : String := ""
  uid : ℤ := 0

/-- What the client sets going. -/
inductive Task
  | sendListDirRequest (path : String)
  | sendUploadBlockRequest (localPath : String) (blockId ino offset size dataNodeId : ℕ)
  | sendUploadFileRequest (ino : ℕ)
  | sendDownloadBlockRequest (blockId ino dataNodeId : ℕ)
  | loadTransportTasksJson
  deriving DecidableEq

/-- The client, with the coroutines it starts. -/
structure VosfsClient where
  session : UserSession := {}
  leaderId : ℕ := 0
  tasks : List Task := []
  uploadTasks : UnorderedMap ℕ TransportTask := ∅
  downloadTasks : UnorderedMap ℕ TransportTask := ∅

namespace VosfsClient

/-- Coroutines are started. -/
def setGoing (client : VosfsClient) (tasks : List Task) : VosfsClient :=
  { client with tasks := client.tasks ++ tasks }

/-! ## Requests for blocks -/

/-- The requests of a task that is not complete. -/
def uploadBlockRequests (task : TransportTask) : List Task :=
  task.blocks.values.flatMap fun block =>
    if block.remaingTimes = 0 then
      []
    else
      (block.dataNodeIds.pairs.filter fun node => !node.2).map fun node =>
        .sendUploadBlockRequest task.localPath block.id block.ino block.offset block.size node.1

/-- Sends the blocks, or the request that publishes the file once all are counted. -/
def doUploadTask (client : VosfsClient) (task : TransportTask) : VosfsClient :=
  if task.totalBlocks ≤ task.doneBlocks then
    client.setGoing [.sendUploadFileRequest task.ino]
  else
    client.setGoing (uploadBlockRequests task)

/-- One request for each block that is missing, to its first data node. -/
def downloadBlockRequests (task : TransportTask) : List Task :=
  task.blocks.values.flatMap fun block =>
    if block.remaingTimes = 0 then
      []
    else
      ((block.dataNodeIds.pairs.find? fun node => !node.2).map fun node =>
        Task.sendDownloadBlockRequest block.id block.ino node.1).toList

/-- A counted-out task is dropped, and the next block is asked for. -/
def doDownloadTask (client : VosfsClient) (task : TransportTask) : VosfsClient :=
  let client :=
    if task.totalBlocks ≤ task.doneBlocks then
      { client with downloadTasks := client.downloadTasks.erase task.ino }
    else
      client
  if task.doneBlocks ∈ task.blocks then
    client.setGoing (downloadBlockRequests task)
  else
    client

/-! ## Saving and loading -/

/-- The file of a user. -/
def tasksFile (client : VosfsClient) : String :=
  toString client.session.uid ++ "-transport_tasks.json"

/-- Replaces the file of the user who is logged in. -/
def saveTransportTasksJson (client : VosfsClient) (files : TaskFiles) : TaskFiles :=
  if client.session.token = "" then
    files
  else
    update files client.tasksFile (some
      { uploadTasks := client.uploadTasks.values.map TransportTask.toJson
        downloadTasks := client.downloadTasks.values.map TransportTask.toJson })

/-- The content of the file, which is created if need be. -/
def savedTasks (client : VosfsClient) (files : TaskFiles) : TransportTasksJson :=
  (files client.tasksFile).getD {}

/-- The tasks that are loaded replace the tasks in memory. -/
def loadTransportTasksJson (client : VosfsClient) (files : TaskFiles) : VosfsClient × TaskFiles :=
  let saved := client.savedTasks files
  let uploadTasks := saved.uploadTasks.map TransportTask.ofJson
  let downloadTasks := saved.downloadTasks.map TransportTask.ofJson
  let requested := downloadTasks.foldl doDownloadTask (uploadTasks.foldl doUploadTask client)
  ({ requested with
      uploadTasks := tasksOf uploadTasks
      downloadTasks := tasksOf downloadTasks },
    update files client.tasksFile (some saved))

/-! ### What is in the files -/

section Files

variable {client : VosfsClient} {files : TaskFiles} {path : String} {saved : TransportTasksJson}

theorem savedTasks_cases (client : VosfsClient) (files : TaskFiles) :
    client.savedTasks files = {} ∨ files client.tasksFile = some (client.savedTasks files) := by
  unfold savedTasks
  cases files client.tasksFile with
  | none => exact Or.inl rfl
  | some saved => exact Or.inr rfl

theorem saved_of_load (hpath : (client.loadTransportTasksJson files).2 path = some saved) :
    files path = some saved ∨ saved = client.savedTasks files := by
  dsimp only [loadTransportTasksJson] at hpath
  by_cases heq : path = client.tasksFile
  · rw [heq, update_self] at hpath
    exact Or.inr (Option.some.inj hpath).symm
  · rw [update_of_ne heq] at hpath
    exact Or.inl hpath

theorem saved_of_save (hpath : client.saveTransportTasksJson files path = some saved) :
    files path = some saved ∨ saved =
      { uploadTasks := client.uploadTasks.values.map TransportTask.toJson
        downloadTasks := client.downloadTasks.values.map TransportTask.toJson } := by
  unfold saveTransportTasksJson at hpath
  split at hpath
  next => exact Or.inl hpath
  next =>
    by_cases heq : path = client.tasksFile
    · rw [heq, update_self] at hpath
      exact Or.inr (Option.some.inj hpath).symm
    · rw [update_of_ne heq] at hpath
      exact Or.inl hpath

end Files

/-! ### What loading sets going -/

/-- What `do_upload_task` starts. -/
def uploadOrders (task : TransportTask) : List Task :=
  if task.totalBlocks ≤ task.doneBlocks then
    [.sendUploadFileRequest task.ino]
  else
    uploadBlockRequests task

/-- What `do_download_task` starts. -/
def downloadOrders (task : TransportTask) : List Task :=
  if task.doneBlocks ∈ task.blocks then downloadBlockRequests task else []

@[simp] theorem tasks_setGoing (client : VosfsClient) (tasks : List Task) :
    (client.setGoing tasks).tasks = client.tasks ++ tasks := rfl

theorem doUploadTask_eq (client : VosfsClient) (task : TransportTask) :
    client.doUploadTask task = client.setGoing (uploadOrders task) := by
  unfold doUploadTask uploadOrders
  split <;> rfl

theorem tasks_doDownloadTask (client : VosfsClient) (task : TransportTask) :
    (client.doDownloadTask task).tasks = client.tasks ++ downloadOrders task := by
  unfold doDownloadTask downloadOrders
  split <;> split <;> simp

theorem tasks_foldl_doUploadTask (tasks : List TransportTask) (client : VosfsClient) :
    (tasks.foldl doUploadTask client).tasks = client.tasks ++ tasks.flatMap uploadOrders := by
  induction tasks generalizing client with
  | nil => simp
  | cons task tasks ih => rw [List.foldl_cons, ih, doUploadTask_eq]; simp

theorem tasks_foldl_doDownloadTask (tasks : List TransportTask) (client : VosfsClient) :
    (tasks.foldl doDownloadTask client).tasks = client.tasks ++ tasks.flatMap downloadOrders := by
  induction tasks generalizing client with
  | nil => simp
  | cons task tasks ih => rw [List.foldl_cons, ih, tasks_doDownloadTask]; simp

theorem tasks_loadTransportTasksJson (client : VosfsClient) (files : TaskFiles) :
    (client.loadTransportTasksJson files).1.tasks = client.tasks ++
      ((((client.savedTasks files).uploadTasks.map TransportTask.ofJson).flatMap
          uploadOrders) ++
        (((client.savedTasks files).downloadTasks.map TransportTask.ofJson).flatMap
          downloadOrders)) := by
  simp only [loadTransportTasksJson]
  rw [tasks_foldl_doDownloadTask, tasks_foldl_doUploadTask,
    List.append_assoc]

theorem sendUploadFileRequest_notMem_uploadBlockRequests (ino : ℕ) (task : TransportTask) :
    .sendUploadFileRequest ino ∉ uploadBlockRequests task := by
  intro hmem
  obtain ⟨block, -, hblock⟩ := List.mem_flatMap.mp hmem
  split at hblock
  next => cases hblock
  next =>
    obtain ⟨node, -, heq⟩ := List.mem_map.mp hblock
    cases heq

theorem sendUploadFileRequest_notMem_downloadOrders (ino : ℕ) (task : TransportTask) :
    .sendUploadFileRequest ino ∉ downloadOrders task := by
  intro hmem
  unfold downloadOrders at hmem
  split at hmem
  next =>
    obtain ⟨block, -, hblock⟩ := List.mem_flatMap.mp hmem
    split at hblock
    next => cases hblock
    next => simp at hblock
  next => cases hmem

/-- Only complete tasks are published. -/
theorem sendUploadFileRequest_mem_uploadOrders {ino : ℕ} {task : TransportTask}
    (hmem : .sendUploadFileRequest ino ∈ uploadOrders task) :
    task.totalBlocks ≤ task.doneBlocks ∧ task.ino = ino := by
  unfold uploadOrders at hmem
  split at hmem
  next hdone => exact ⟨hdone, by simpa [eq_comm] using hmem⟩
  next => exact absurd hmem (sendUploadFileRequest_notMem_uploadBlockRequests ino task)

/-! ## Responses of the metadata nodes

`status` says whether the call itself went well.  `none` is an exception. -/

/-- `leader_id_ = std::stoull(response.message())`. -/
def redirect (client : VosfsClient) (message : String) : Option VosfsClient :=
  (stoull message).map fun leaderId => { client with leaderId := leaderId }

/-- The entries are shown, and nothing else changes. -/
def handleListDirResponse (client : VosfsClient) (status : Bool) (response : ListDirResponse) :
    Option VosfsClient :=
  if !status then
    some client
  else if response.statusCode = .notLeader then
    client.redirect response.message
  else
    some client

/-- The directory is listed again. -/
def handleMakeDirResponse (client : VosfsClient) (status : Bool) (response : MakeDirResponse) :
    Option VosfsClient :=
  if !status then
    some client
  else if response.statusCode = .notLeader then
    client.redirect response.message
  else if response.statusCode = .ok then
    some (client.setGoing [.sendListDirRequest response.parentPath])
  else
    some client

/-- A task is made of the response, and started. -/
def handlePrepareUploadFileResponse (client : VosfsClient) (status : Bool)
    (response : PrepareUploadFileResponse) : Option VosfsClient :=
  if !status then
    some client
  else if response.statusCode = .notLeader then
    client.redirect response.message
  else if response.statusCode = .ok then
    (TransportTask.ofResponse response.blocks response.localPath response.remotePath).map
      fun task =>
        let client := client.doUploadTask task
        { client with uploadTasks := client.uploadTasks.emplace task.ino task }
  else
    some client

/-- Whatever became of the file, its task is dropped. -/
def handleUploadFileResponse (client : VosfsClient) (status : Bool)
    (response : UploadFileResponse) : Option VosfsClient :=
  if !status then
    some client
  else if response.statusCode = .notLeader then
    client.redirect response.message
  else
    some { client with uploadTasks := client.uploadTasks.erase response.ino }

/-- A task is made of the response, and started. -/
def handlePrepareDownloadFileResponse (client : VosfsClient) (status : Bool)
    (response : PrepareDownloadFileResponse) : Option VosfsClient :=
  if !status then
    some client
  else if response.statusCode = .notLeader then
    client.redirect response.message
  else if response.statusCode = .ok then
    (TransportTask.ofResponse response.blocks response.localPath response.remotePath).map
      fun task =>
        let client := client.doDownloadTask task
        { client with downloadTasks := client.downloadTasks.emplace task.ino task }
  else
    some client

/-- The user and the token of a successful login, and the user's tasks. -/
def handleLoginUserByNameResponse (client : VosfsClient) (session : UserSession) : VosfsClient :=
  { client with session := session }.setGoing [.loadTransportTasksJson]

/-! ## Responses of the data nodes

Both handlers keep references to the task and to the block while they wait: the functions below
are the parts between two points where a handler may wait. -/

/-- `upload_tasks_[ino]` and `download_tasks_[ino]`. -/
def taskAt (tasks : UnorderedMap ℕ TransportTask) (ino : ℕ) : TransportTask :=
  (tasks.lookup ino).getD {}

/-- `blocks[block_id]`. -/
def blockAt (task : TransportTask) (blockId : ℕ) : BlockInfo :=
  (task.blocks.lookup blockId).getD {}

theorem taskAt_of_lookup {tasks : UnorderedMap ℕ TransportTask} {ino : ℕ} {task : TransportTask}
    (hlookup : tasks.lookup ino = some task) : taskAt tasks ino = task := by
  rw [taskAt, hlookup]
  rfl

theorem blockAt_of_lookup {task : TransportTask} {blockId : ℕ} {block : BlockInfo}
    (hlookup : task.blocks.lookup blockId = some block) : blockAt task blockId = block := by
  rw [blockAt, hlookup]
  rfl

/-- The data node has answered. -/
def answeredBy (block : BlockInfo) (dataNodeId : ℕ) : BlockInfo :=
  { block with
    remaingTimes := if 0 < block.remaingTimes then block.remaingTimes - 1 else block.remaingTimes
    dataNodeIds := block.dataNodeIds.insert dataNodeId true }

/-- `handle_upload_block_response` before it locks the mutex: the answer is noted. -/
def handleUploadBlockResponse (client : VosfsClient) (response : Raft.UploadBlockResponse) :
    VosfsClient :=
  let uploadTask := taskAt client.uploadTasks response.ino
  let block := answeredBy (blockAt uploadTask response.blockId) response.dataNodeId
  let uploadTask := { uploadTask with
    blocks := uploadTask.blocks.insert response.blockId block }
  { client with uploadTasks := client.uploadTasks.insert response.ino uploadTask }

/-- The block is counted when no answer is missing. -/
def counted (task : TransportTask) (blockId : ℕ) : TransportTask :=
  if (blockAt task blockId).remaingTimes = 0 then
    { task with doneBlocks := task.doneBlocks + 1 }
  else
    task

/-- `handle_upload_block_response` with the mutex locked: the block is counted, and the file is
published. -/
def handleUploadBlockResponseLocked (client : VosfsClient) (ino blockId : ℕ) : VosfsClient :=
  let uploadTask := counted (taskAt client.uploadTasks ino) blockId
  let client := { client with uploadTasks := client.uploadTasks.insert ino uploadTask }
  if uploadTask.totalBlocks ≤ uploadTask.doneBlocks then
    client.setGoing [.sendUploadFileRequest uploadTask.ino]
  else
    client

/-- `handle_download_block_response` before it opens the local file: the task and the block are
made if there are none. -/
def handleDownloadBlockResponse (client : VosfsClient) (response : Raft.DownloadBlockResponse) :
    VosfsClient :=
  let downloadTask := taskAt client.downloadTasks response.ino
  let block := blockAt downloadTask response.blockId
  let downloadTask := { downloadTask with
    blocks := downloadTask.blocks.insert response.blockId block }
  { client with downloadTasks := client.downloadTasks.insert response.ino downloadTask }

/-- `handle_download_block_response` when the data is written. -/
def handleDownloadBlockResponseWritten (client : VosfsClient) (ino blockId : ℕ) : VosfsClient :=
  let downloadTask := taskAt client.downloadTasks ino
  let block := { blockAt downloadTask blockId with remaingTimes := 0 }
  let downloadTask := { downloadTask with blocks := downloadTask.blocks.insert blockId block }
  { client with downloadTasks := client.downloadTasks.insert ino downloadTask }

/-- `handle_download_block_response` with the mutex locked: the block is counted, and a task that
is complete is dropped. -/
def handleDownloadBlockResponseLocked (client : VosfsClient) (ino : ℕ) : VosfsClient :=
  let downloadTask := taskAt client.downloadTasks ino
  let downloadTask := { downloadTask with doneBlocks := downloadTask.doneBlocks + 1 }
  let downloadTasks := client.downloadTasks.insert ino downloadTask
  { client with
    downloadTasks :=
      if downloadTask.totalBlocks ≤ downloadTask.doneBlocks then
        downloadTasks.erase downloadTask.ino
      else
        downloadTasks }

end VosfsClient

end Vosfs.Ui
