import Vosfs.Ui.Downloads
import Vosfs.Ui.Uploads

/-!
# Saved tasks

The file of the tasks has neither the inodes nor the ids under which the maps hold tasks and
blocks: they are made again from the records.  So the maps come back exactly if every record
stands under its own key (`reloads_iff`).

The prepare responses and the loading put records under their own keys.  But the responses for
blocks look up both records with `operator[]`, which makes an empty record under any other key.
As long as they name a block in memory (`Transfers.NamesKnown`), or a record that would be made
under the key 0, the tasks come back (`tasksReload`), and only so long.
-/

namespace Vosfs.Ui

open Function
open UnorderedMap
open VosfsClient (taskAt blockAt)
open Raft (PrepareUploadFileResponse UploadBlockResponse UploadFileResponse
  PrepareDownloadFileResponse DownloadBlockResponse)

/-! ## Records under their own keys -/

/-- Tasks stand under their inodes, and blocks under their ids. -/
structure KeyedTasks (tasks : UnorderedMap ℕ TransportTask) : Prop where
  inos : Keyed TransportTask.ino tasks
  ids : ∀ ⦃ino task⦄, tasks.lookup ino = some task → Keyed BlockInfo.id task.blocks

/-- The block of a response is in memory, or would be made under the keys of an empty record. -/
def NamesBlock (tasks : UnorderedMap ℕ TransportTask) (ino blockId : ℕ) : Prop :=
  (ino ∈ tasks ∨ ino = 0) ∧ (blockId ∈ (taskAt tasks ino).blocks ∨ blockId = 0)

instance {tasks : UnorderedMap ℕ TransportTask} {ino blockId : ℕ} :
    Decidable (NamesBlock tasks ino blockId) :=
  inferInstanceAs (Decidable (_ ∧ _))

/-- Equality of the contents. -/
structure SameTask (task task' : TransportTask) : Prop where
  ino : task.ino = task'.ino
  totalBlocks : task.totalBlocks = task'.totalBlocks
  doneBlocks : task.doneBlocks = task'.doneBlocks
  localPath : task.localPath = task'.localPath
  remotePath : task.remotePath = task'.remotePath
  blocks : Same task.blocks task'.blocks

/-- The same keys, with equal tasks. -/
def SameTasks (tasks tasks' : UnorderedMap ℕ TransportTask) : Prop :=
  ∀ ino, Option.Rel SameTask (tasks.lookup ino) (tasks'.lookup ino)

section KeyedTasks

variable {tasks tasks' : UnorderedMap ℕ TransportTask} {ino blockId : ℕ}
  {task task' : TransportTask} {block : BlockInfo}

theorem KeyedTasks.empty : KeyedTasks ∅ :=
  ⟨keyed_empty, fun _ _ hlookup => absurd hlookup lookup_empty_ne⟩

theorem KeyedTasks.insert (h : KeyedTasks tasks) (hino : task.ino = ino)
    (hids : Keyed BlockInfo.id task.blocks) : KeyedTasks (tasks.insert ino task) := by
  refine ⟨h.inos.insert hino, fun other found hfound => ?_⟩
  rw [lookup_insert_eq] at hfound
  split_ifs at hfound
  · cases hfound
    exact hids
  · exact h.ids hfound

theorem KeyedTasks.emplace (h : KeyedTasks tasks) (hids : Keyed BlockInfo.id task.blocks) :
    KeyedTasks (tasks.emplace task.ino task) := by
  unfold UnorderedMap.emplace
  split
  next => exact h
  next => exact h.insert rfl hids

theorem lookup_of_lookup_erase (hlookup : (tasks.erase ino).lookup blockId = some task) :
    tasks.lookup blockId = some task := by
  by_cases heq : blockId = ino
  · rw [heq, AList.lookup_erase] at hlookup
    cases hlookup
  · exact (AList.lookup_erase_ne heq).symm.trans hlookup

theorem KeyedTasks.erase (h : KeyedTasks tasks) (ino : ℕ) : KeyedTasks (tasks.erase ino) :=
  ⟨fun _ _ hlookup => h.inos (lookup_of_lookup_erase hlookup),
    fun _ _ hlookup => h.ids (lookup_of_lookup_erase hlookup)⟩

/-- Whatever a file lists, the maps that are made of it are keyed. -/
theorem keyedTasks_tasksOf (saved : List TransportTaskJson) :
    KeyedTasks (tasksOf (saved.map TransportTask.ofJson)) := by
  have hfind : ∀ {ino task}, (tasksOf (saved.map TransportTask.ofJson)).lookup ino = some task →
      (saved.map TransportTask.ofJson).find? (fun task => task.ino = ino) = some task := by
    intro ino task hlookup
    rwa [tasksOf, lookup_foldl_emplace, AList.lookup_empty, Option.none_or] at hlookup
  refine ⟨fun ino task hlookup => by simpa using List.find?_some (hfind hlookup),
    fun ino task hlookup => ?_⟩
  obtain ⟨json, -, rfl⟩ := List.mem_map.mp (List.mem_of_find?_eq_some (hfind hlookup))
  exact keyed_blocksOf json.blocks

theorem keyed_ofResponse {blocks : List Raft.BlockInfo} {localPath remotePath : String}
    (htask : TransportTask.ofResponse blocks localPath remotePath = some task) :
    Keyed BlockInfo.id task.blocks ∧ task.doneBlocks < task.totalBlocks := by
  obtain ⟨first, hfirst, rfl⟩ := Option.map_eq_some_iff.mp htask
  have hne := List.ne_nil_of_mem (List.mem_of_mem_head? hfirst)
  exact ⟨keyed_blocksOf _, List.length_pos_iff.mpr hne⟩

/-! ### Maps with equal tasks -/

theorem SameTask.refl (task : TransportTask) : SameTask task task :=
  ⟨rfl, rfl, rfl, rfl, rfl, .refl _⟩

theorem SameTasks.of_same (h : Same tasks tasks') : SameTasks tasks tasks' := by
  intro ino
  rw [h ino]
  cases tasks'.lookup ino with
  | none => exact .none
  | some task => exact .some (.refl task)

theorem SameTasks.exists_lookup (h : SameTasks tasks tasks')
    (hlookup : tasks'.lookup ino = some task) :
    ∃ found, tasks.lookup ino = some found ∧ SameTask found task := by
  have hrel := h ino
  rw [hlookup] at hrel
  cases hfound : tasks.lookup ino with
  | none =>
    rw [hfound] at hrel
    cases hrel
  | some found =>
    rw [hfound] at hrel
    cases hrel with
    | some hsame => exact ⟨found, rfl, hsame⟩

theorem KeyedTasks.congr (h : KeyedTasks tasks) (hsame : SameTasks tasks tasks') :
    KeyedTasks tasks' := by
  refine ⟨fun ino task hlookup => ?_, fun ino task hlookup => ?_⟩
  · obtain ⟨found, hfound, hrel⟩ := hsame.exists_lookup hlookup
    rw [← hrel.ino, h.inos hfound]
  · obtain ⟨found, hfound, hrel⟩ := hsame.exists_lookup hlookup
    exact (h.ids hfound).congr fun blockId => (hrel.blocks blockId).symm

/-- Only counters change. -/
theorem keyedTasks_insert_iff (hlookup : tasks.lookup ino = some task)
    (hino : task'.ino = task.ino) (hblocks : task'.blocks = task.blocks) :
    KeyedTasks (tasks.insert ino task') ↔ KeyedTasks tasks := by
  have hnew : (tasks.insert ino task').lookup ino = some task' := AList.lookup_insert _
  refine ⟨fun h => ?_, fun h => h.insert (hino.trans (h.inos hlookup)) (hblocks ▸ h.ids hlookup)⟩
  -- the old task is put in again
  refine (h.insert (hino.symm.trans (h.inos hnew)) (hblocks ▸ h.ids hnew)).congr (.of_same ?_)
  intro other
  rw [lookup_insert_eq, lookup_insert_eq]
  split
  next heq => rw [heq, hlookup]
  next => rfl

/-- `tasks[ino].blocks[block_id] = block`, with the id that the block has there. -/
theorem keyedTasks_assign_iff (h : KeyedTasks tasks)
    (hid : block.id = (blockAt (taskAt tasks ino) blockId).id) :
    KeyedTasks (tasks.insert ino { taskAt tasks ino with
      blocks := (taskAt tasks ino).blocks.insert blockId block }) ↔
        NamesBlock tasks ino blockId := by
  have hino : (taskAt tasks ino).ino = ino ↔ ino ∈ tasks ∨ ino = 0 := by
    cases hlookup : tasks.lookup ino with
    | none =>
      rw [taskAt, hlookup, or_iff_right (AList.lookup_eq_none.mp hlookup)]
      exact eq_comm
    | some task =>
      rw [VosfsClient.taskAt_of_lookup hlookup]
      exact iff_of_true (h.inos hlookup) (Or.inl (mem_iff_lookup.mpr ⟨task, hlookup⟩))
  have hids : Keyed BlockInfo.id (taskAt tasks ino).blocks := by
    cases hlookup : tasks.lookup ino with
    | none =>
      rw [taskAt, hlookup]
      exact keyed_empty
    | some task =>
      rw [VosfsClient.taskAt_of_lookup hlookup]
      exact h.ids hlookup
  have hblockId : block.id = blockId ↔ blockId ∈ (taskAt tasks ino).blocks ∨ blockId = 0 := by
    rw [hid]
    cases hlookup : (taskAt tasks ino).blocks.lookup blockId with
    | none =>
      rw [blockAt, hlookup, or_iff_right (AList.lookup_eq_none.mp hlookup)]
      exact eq_comm
    | some found =>
      rw [VosfsClient.blockAt_of_lookup hlookup]
      exact iff_of_true (hids hlookup) (Or.inl (mem_iff_lookup.mpr ⟨found, hlookup⟩))
  constructor
  · intro hkeyed
    have htask := hkeyed.inos (AList.lookup_insert _)
    have hblock := hkeyed.ids (AList.lookup_insert _) (AList.lookup_insert _)
    exact ⟨hino.mp htask, hblockId.mp hblock⟩
  · rintro ⟨htask, hblock⟩
    exact h.insert (hino.mpr htask) (hids.insert (hblockId.mpr hblock))

/-- Taking the tasks out and putting them in again. -/
theorem sameTasks_tasksOf_iff : SameTasks
    (tasksOf ((tasks.values.map TransportTask.toJson).map TransportTask.ofJson)) tasks ↔
      KeyedTasks tasks := by
  refine ⟨fun h => (keyedTasks_tasksOf _).congr h, fun h ino => ?_⟩
  rw [lookup_tasksOf h.inos]
  cases hlookup : tasks.lookup ino with
  | none => exact .none
  | some task => exact .some ⟨rfl, rfl, rfl, rfl, rfl, same_blocks_ofJson (h.ids hlookup)⟩

end KeyedTasks

/-! ## The round trip -/

namespace VosfsClient

variable {client : VosfsClient} {files : TaskFiles}

/-- Any client of the same user that loads what is saved has the same tasks. -/
def Reloads (client : VosfsClient) (files : TaskFiles) : Prop :=
  ∀ reader : VosfsClient, reader.session.uid = client.session.uid →
    let loaded := (reader.loadTransportTasksJson (client.saveTransportTasksJson files)).1
    SameTasks loaded.uploadTasks client.uploadTasks ∧
      SameTasks loaded.downloadTasks client.downloadTasks

theorem savedTasks_saveTransportTasksJson {reader : VosfsClient}
    (hreader : reader.session.uid = client.session.uid) (htoken : client.session.token ≠ "") :
    reader.savedTasks (client.saveTransportTasksJson files) =
      { uploadTasks := client.uploadTasks.values.map TransportTask.toJson
        downloadTasks := client.downloadTasks.values.map TransportTask.toJson } := by
  have hfile : reader.tasksFile = client.tasksFile := by rw [tasksFile, tasksFile, hreader]
  rw [savedTasks, saveTransportTasksJson, if_neg htoken, hfile, update_self]
  rfl

/-- Tasks and blocks come back if and only if they stand under their own keys. -/
theorem reloads_iff (htoken : client.session.token ≠ "") : client.Reloads files ↔
    KeyedTasks client.uploadTasks ∧ KeyedTasks client.downloadTasks := by
  rw [← sameTasks_tasksOf_iff, ← sameTasks_tasksOf_iff]
  constructor
  · intro h
    have hloaded := h client rfl
    simp only [loadTransportTasksJson, savedTasks_saveTransportTasksJson rfl htoken] at hloaded
    exact hloaded
  · intro h reader hreader
    simp only [loadTransportTasksJson, savedTasks_saveTransportTasksJson hreader htoken]
    exact h

end VosfsClient

/-! ## The system -/

/-- Uploads and downloads of one client. -/
structure Transfers where
  client : VosfsClient := {}
  files : TaskFiles := fun _ => none
  waiting : List Waiting := []
  handlers : List Handler := []

/-- A step of the uploads or of the downloads. -/
inductive TransferAction
  | upload (action : UploadAction)
  | download (action : DownloadAction)

namespace Transfers

/-- The client as it uploads. -/
def uploads (s : Transfers) : Uploads where
  client := s.client
  files := s.files
  waiting := s.waiting

/-- The client as it downloads. -/
def downloads (s : Transfers) : Downloads where
  client := s.client
  files := s.files
  handlers := s.handlers

/-- What happens to the one half happens to the other when the tasks are loaded and when the
client starts again. -/
def step (s : Transfers) : TransferAction → Option Transfers
  | .upload action =>
    (s.uploads.step action).map fun uploads =>
      { client := uploads.client
        files := uploads.files
        waiting := uploads.waiting
        handlers :=
          match action with
          | .loadTasks => Downloads.displace (fun _ => true) s.handlers
          | .restart => []
          | _ => s.handlers }
  | .download action =>
    (s.downloads.step action).map fun downloads =>
      { client := downloads.client
        files := downloads.files
        handlers := downloads.handlers
        waiting :=
          match action with
          | .loadTasks => Uploads.displace (fun _ => true) s.waiting
          | .restart => []
          | _ => s.waiting }

/-! ## Tasks under their own inodes -/

/-- Every task is kept under its own inode. -/
def OwnInos (s : Transfers) : Prop :=
  Keyed TransportTask.ino s.client.uploadTasks ∧ Keyed TransportTask.ino s.client.downloadTasks

/-! ## Responses for known blocks -/

/-- Responses that are looked up name a block in memory. -/
def NamesKnown (s : Transfers) : TransferAction → Prop
  | .upload (.uploadBlockResponse status response _) =>
    status = true ∧ response.statusCode = .ok →
      NamesBlock s.client.uploadTasks response.ino response.blockId
  | .download (.downloadBlockResponse status response) =>
    status = true → NamesBlock s.client.downloadTasks response.ino response.blockId
  | _ => True

instance {s : Transfers} : ∀ {action : TransferAction}, Decidable (s.NamesKnown action)
  | .upload (.uploadBlockResponse _ _ _) => inferInstanceAs (Decidable (_ → _))
  | .download (.downloadBlockResponse _ _) => inferInstanceAs (Decidable (_ → _))
  | .upload (.prepareUploadFileResponse _ _) | .upload (.resume _)
  | .upload (.uploadFileResponse _ _) | .upload (.login _) | .upload .loadTasks
  | .upload .saveTasks | .upload .restart
  | .download (.prepareDownloadFileResponse _ _) | .download (.write _)
  | .download (.failToWrite _) | .download (.finish _) | .download (.login _)
  | .download .loadTasks | .download .saveTasks | .download .restart =>
    inferInstanceAs (Decidable True)

end Transfers

/-! ## What the handlers do to the maps -/

section Handlers

variable {client client' : VosfsClient} {tasks tasks' : UnorderedMap ℕ TransportTask}
  {ino blockId : ℕ} {task : TransportTask}

/-- Nothing changes, or a new task comes unless there is one with its inode. -/
def Adds (tasks tasks' : UnorderedMap ℕ TransportTask) : Prop :=
  tasks' = tasks ∨
    ∃ task, Keyed BlockInfo.id task.blocks ∧ tasks' = tasks.emplace task.ino task

theorem KeyedTasks.of_adds (h : KeyedTasks tasks) (hadds : Adds tasks tasks') :
    KeyedTasks tasks' := by
  rcases hadds with rfl | ⟨task, hids, rfl⟩
  · exact h
  · exact h.emplace hids

theorem handlePrepareUploadFileResponse_adds {status : Bool} {response : PrepareUploadFileResponse}
    (hclient : client.handlePrepareUploadFileResponse status response = some client') :
    Adds client.uploadTasks client'.uploadTasks ∧
      client'.downloadTasks = client.downloadTasks := by
  unfold VosfsClient.handlePrepareUploadFileResponse at hclient
  split_ifs at hclient
  · cases hclient; exact ⟨Or.inl rfl, rfl⟩
  · obtain ⟨leaderId, -, rfl⟩ := Option.map_eq_some_iff.mp hclient
    exact ⟨Or.inl rfl, rfl⟩
  · obtain ⟨task, htask, rfl⟩ := Option.map_eq_some_iff.mp hclient
    rw [VosfsClient.doUploadTask_eq]
    exact ⟨Or.inr ⟨task, (keyed_ofResponse htask).1, rfl⟩, rfl⟩
  · cases hclient; exact ⟨Or.inl rfl, rfl⟩

/-- A new task is not complete, so that none is dropped for it. -/
theorem handlePrepareDownloadFileResponse_adds {status : Bool}
    {response : PrepareDownloadFileResponse}
    (hclient : client.handlePrepareDownloadFileResponse status response = some client') :
    Adds client.downloadTasks client'.downloadTasks ∧
      client'.uploadTasks = client.uploadTasks := by
  unfold VosfsClient.handlePrepareDownloadFileResponse at hclient
  split_ifs at hclient
  · cases hclient; exact ⟨Or.inl rfl, rfl⟩
  · obtain ⟨leaderId, -, rfl⟩ := Option.map_eq_some_iff.mp hclient
    exact ⟨Or.inl rfl, rfl⟩
  · obtain ⟨task, htask, rfl⟩ := Option.map_eq_some_iff.mp hclient
    obtain ⟨hids, hless⟩ := keyed_ofResponse htask
    unfold VosfsClient.doDownloadTask
    rw [if_neg (not_le.mpr hless)]
    split
    next => exact ⟨Or.inr ⟨task, hids, rfl⟩, rfl⟩
    next => exact ⟨Or.inr ⟨task, hids, rfl⟩, rfl⟩
  · cases hclient; exact ⟨Or.inl rfl, rfl⟩

/-- The task of the response is dropped, or nothing changes. -/
theorem handleUploadFileResponse_erases {status : Bool} {response : UploadFileResponse}
    (hclient : client.handleUploadFileResponse status response = some client') :
    (client'.uploadTasks = client.uploadTasks ∨
      client'.uploadTasks = client.uploadTasks.erase response.ino) ∧
      client'.downloadTasks = client.downloadTasks := by
  unfold VosfsClient.handleUploadFileResponse at hclient
  split_ifs at hclient
  · cases hclient; exact ⟨Or.inl rfl, rfl⟩
  · obtain ⟨leaderId, -, rfl⟩ := Option.map_eq_some_iff.mp hclient
    exact ⟨Or.inl rfl, rfl⟩
  · cases hclient; exact ⟨Or.inr rfl, rfl⟩

theorem counted_ino (task : TransportTask) (blockId : ℕ) :
    (VosfsClient.counted task blockId).ino = task.ino := by
  unfold VosfsClient.counted
  split <;> rfl

theorem counted_blocks (task : TransportTask) (blockId : ℕ) :
    (VosfsClient.counted task blockId).blocks = task.blocks := by
  unfold VosfsClient.counted
  split <;> rfl

theorem uploadTasks_handleUploadBlockResponseLocked (client : VosfsClient) (ino blockId : ℕ) :
    (client.handleUploadBlockResponseLocked ino blockId).uploadTasks = client.uploadTasks.insert ino
      (VosfsClient.counted (taskAt client.uploadTasks ino) blockId) := by
  unfold VosfsClient.handleUploadBlockResponseLocked
  dsimp only
  split <;> rfl

theorem downloadTasks_handleUploadBlockResponseLocked (client : VosfsClient) (ino blockId : ℕ) :
    (client.handleUploadBlockResponseLocked ino blockId).downloadTasks = client.downloadTasks := by
  unfold VosfsClient.handleUploadBlockResponseLocked
  dsimp only
  split <;> rfl

/-- With the mutex locked, records stay under their keys. -/
theorem keyedTasks_locked_iff (hmem : ino ∈ client.uploadTasks) :
    KeyedTasks (client.handleUploadBlockResponseLocked ino blockId).uploadTasks ↔
      KeyedTasks client.uploadTasks := by
  obtain ⟨task, hlookup⟩ := mem_iff_lookup.mp hmem
  rw [uploadTasks_handleUploadBlockResponseLocked, VosfsClient.taskAt_of_lookup hlookup]
  exact keyedTasks_insert_iff hlookup (counted_ino ..) (counted_blocks ..)

theorem mem_handleUploadBlockResponseLocked {other : ℕ} (hmem : other ∈ client.uploadTasks) :
    other ∈ (client.handleUploadBlockResponseLocked ino blockId).uploadTasks := by
  rw [uploadTasks_handleUploadBlockResponseLocked]
  exact (AList.mem_insert _).mpr (Or.inr hmem)

end Handlers

namespace Transfers

variable {s s' : Transfers}

/-! ## The half of the uploads -/

/-- The handlers that still refer to their tasks find them in the map. -/
def Finds (tasks : UnorderedMap ℕ TransportTask) (waiting : List Waiting) : Prop :=
  ∀ handler ∈ waiting, handler.inPlace = true → handler.ino ∈ tasks

section Finds

variable {tasks tasks' : UnorderedMap ℕ TransportTask} {waiting waiting' : List Waiting}

theorem Finds.nil : Finds tasks [] :=
  fun _ hmem => absurd hmem List.not_mem_nil

theorem Finds.mono (h : Finds tasks waiting) (hwaiting : waiting' ⊆ waiting)
    (hmem : ∀ ino ∈ tasks, ino ∈ tasks') : Finds tasks' waiting' :=
  fun handler hhandler hplace => hmem _ (h handler (hwaiting hhandler) hplace)

theorem Finds.of_adds (h : Finds tasks waiting) (hadds : Adds tasks tasks') :
    Finds tasks' waiting := by
  rcases hadds with rfl | ⟨task, -, rfl⟩
  · exact h
  · exact h.mono (List.Subset.refl _) fun ino hmem => mem_emplace.mpr (Or.inr hmem)

theorem finds_displace (tasks : UnorderedMap ℕ TransportTask) (waiting : List Waiting) :
    Finds tasks (Uploads.displace (fun ino => ino ∉ tasks) waiting) := by
  intro handler hhandler hplace
  obtain ⟨before, -, rfl⟩ := List.mem_map.mp hhandler
  split at hplace
  next => cases hplace
  next hmem =>
    rw [if_neg hmem]
    simpa using hmem

theorem finds_displace_all (tasks : UnorderedMap ℕ TransportTask) (waiting : List Waiting) :
    Finds tasks (Uploads.displace (fun _ => true) waiting) := by
  intro handler hhandler hplace
  obtain ⟨before, -, rfl⟩ := List.mem_map.mp hhandler
  cases hplace

end Finds

theorem upload_uploadBlockResponse {response : UploadBlockResponse} {waits : Bool}
    {uploads : Uploads} (hkeyed : KeyedTasks s.client.uploadTasks)
    (hfinds : Finds s.client.uploadTasks s.waiting) (hok : response.statusCode = .ok)
    (hstep : s.uploads.step (.uploadBlockResponse true response waits) = some uploads) :
    (KeyedTasks uploads.client.uploadTasks ↔
      NamesBlock s.client.uploadTasks response.ino response.blockId) ∧
      Finds uploads.client.uploadTasks uploads.waiting := by
  have hnoted : KeyedTasks (s.client.handleUploadBlockResponse response).uploadTasks ↔
      NamesBlock s.client.uploadTasks response.ino response.blockId :=
    keyedTasks_assign_iff hkeyed rfl
  have hmem : response.ino ∈ (s.client.handleUploadBlockResponse response).uploadTasks :=
    (AList.mem_insert _).mpr (Or.inl rfl)
  have hkeeps : ∀ ino ∈ s.client.uploadTasks,
      ino ∈ (s.client.handleUploadBlockResponse response).uploadTasks :=
    fun ino hino => (AList.mem_insert _).mpr (Or.inr hino)
  simp only [Uploads.step, hok, and_self, if_true] at hstep
  split at hstep
  next =>
    cases hstep
    refine ⟨hnoted, fun handler hhandler hplace => ?_⟩
    rcases List.mem_append.mp hhandler with hbefore | hnew
    · exact hkeeps _ (hfinds handler hbefore hplace)
    · rw [List.mem_singleton.mp hnew]
      exact hmem
  next =>
    cases hstep
    exact ⟨(keyedTasks_locked_iff hmem).trans hnoted, hfinds.mono (List.Subset.refl _)
      fun ino hino => mem_handleUploadBlockResponseLocked (hkeeps ino hino)⟩

/-- Only a response for an unknown block puts a record under another key. -/
theorem upload_step {action : UploadAction} {uploads : Uploads}
    (hkeyed : KeyedTasks s.client.uploadTasks) (hfinds : Finds s.client.uploadTasks s.waiting)
    (hstep : s.uploads.step action = some uploads) :
    (KeyedTasks uploads.client.uploadTasks ↔ s.NamesKnown (.upload action)) ∧
      Finds uploads.client.uploadTasks uploads.waiting := by
  cases action with
  | prepareUploadFileResponse status response =>
    obtain ⟨client, hclient, rfl⟩ := Option.map_eq_some_iff.mp hstep
    have hadds := (handlePrepareUploadFileResponse_adds hclient).1
    exact ⟨iff_of_true (hkeyed.of_adds hadds) trivial, hfinds.of_adds hadds⟩
  | uploadBlockResponse status response waits =>
    by_cases hok : status = true ∧ response.statusCode = .ok
    · obtain ⟨rfl, hcode⟩ := hok
      obtain ⟨hiff, hfinds'⟩ := upload_uploadBlockResponse hkeyed hfinds hcode hstep
      exact ⟨hiff.trans ⟨fun hnames _ => hnames, fun hnames => hnames ⟨rfl, hcode⟩⟩, hfinds'⟩
    · rw [Uploads.step, if_neg hok] at hstep
      cases hstep
      exact ⟨iff_of_true hkeyed fun h => absurd h hok, hfinds⟩
  | resume handler =>
    simp only [Uploads.step] at hstep
    split at hstep
    next hhandler =>
      cases hstep
      have hmem := hfinds handler hhandler.1 hhandler.2
      exact ⟨iff_of_true ((keyedTasks_locked_iff hmem).mpr hkeyed) trivial,
        hfinds.mono List.erase_subset fun ino hino => mem_handleUploadBlockResponseLocked hino⟩
    next => cases hstep
  | uploadFileResponse status response =>
    obtain ⟨client, hclient, rfl⟩ := Option.map_eq_some_iff.mp hstep
    refine ⟨iff_of_true ?_ trivial, finds_displace _ _⟩
    rcases (handleUploadFileResponse_erases hclient).1 with heq | heq
    · exact heq ▸ hkeyed
    · exact heq ▸ hkeyed.erase response.ino
  | login session =>
    cases hstep
    exact ⟨iff_of_true hkeyed trivial, hfinds⟩
  | loadTasks =>
    simp only [Uploads.step] at hstep
    split at hstep
    next =>
      cases hstep
      exact ⟨iff_of_true (keyedTasks_tasksOf _) trivial, finds_displace_all _ _⟩
    next => cases hstep
  | saveTasks =>
    cases hstep
    exact ⟨iff_of_true hkeyed trivial, hfinds⟩
  | restart =>
    cases hstep
    exact ⟨iff_of_true .empty trivial, .nil⟩

/-! ## The half of the downloads -/

/-- The handlers that still refer to their tasks find the blocks in the map. -/
def FindsBlocks (tasks : UnorderedMap ℕ TransportTask) (handlers : List Handler) : Prop :=
  ∀ handler ∈ handlers, handler.inPlace = true →
    ∃ task, tasks.lookup handler.ino = some task ∧ handler.blockId ∈ task.blocks

section FindsBlocks

variable {tasks tasks' : UnorderedMap ℕ TransportTask} {handlers handlers' : List Handler}
  {handler : Handler} {ino blockId : ℕ} {task : TransportTask}

theorem FindsBlocks.nil : FindsBlocks tasks [] :=
  fun _ hmem => absurd hmem List.not_mem_nil

theorem FindsBlocks.subset (h : FindsBlocks tasks handlers) (hhandlers : handlers' ⊆ handlers) :
    FindsBlocks tasks handlers' :=
  fun handler hhandler => h handler (hhandlers hhandler)

/-- A task is assigned that has the blocks of the old one. -/
theorem FindsBlocks.insert (h : FindsBlocks tasks handlers)
    (hblocks : ∀ blockId ∈ (taskAt tasks ino).blocks, blockId ∈ task.blocks) :
    FindsBlocks (tasks.insert ino task) handlers := by
  intro handler hhandler hplace
  obtain ⟨found, hfound, hmem⟩ := h handler hhandler hplace
  rw [lookup_insert_eq]
  split
  next heq =>
    rw [heq] at hfound
    rw [VosfsClient.taskAt_of_lookup hfound] at hblocks
    exact ⟨task, rfl, hblocks _ hmem⟩
  next => exact ⟨found, hfound, hmem⟩

theorem FindsBlocks.of_adds (h : FindsBlocks tasks handlers) (hadds : Adds tasks tasks') :
    FindsBlocks tasks' handlers := by
  rcases hadds with rfl | ⟨task, -, rfl⟩
  · exact h
  · intro handler hhandler hplace
    obtain ⟨found, hfound, hmem⟩ := h handler hhandler hplace
    refine ⟨found, ?_, hmem⟩
    rw [lookup_emplace, if_neg fun hnew => ?_, hfound]
    rw [← hnew.1, hfound] at hnew
    cases hnew.2

theorem findsBlocks_displace_all (tasks : UnorderedMap ℕ TransportTask) (handlers : List Handler) :
    FindsBlocks tasks (Downloads.displace (fun _ => true) handlers) := by
  intro handler hhandler hplace
  obtain ⟨before, -, rfl⟩ := List.mem_map.mp hhandler
  cases hplace

/-- A task is dropped, and its handlers lose it. -/
theorem FindsBlocks.erase (h : FindsBlocks tasks handlers) (ino : ℕ) :
    FindsBlocks (tasks.erase ino)
      (Downloads.displace (fun other => other ∉ tasks.erase ino) handlers) := by
  intro handler hhandler hplace
  obtain ⟨before, hbefore, rfl⟩ := List.mem_map.mp hhandler
  split at hplace
  next => cases hplace
  next hmem =>
    rw [if_neg hmem]
    obtain ⟨hne, -⟩ := AList.mem_erase.mp (by simpa using hmem)
    obtain ⟨found, hfound, hblock⟩ := h before hbefore hplace
    exact ⟨found, (AList.lookup_erase_ne hne).trans hfound, hblock⟩

/-- No task is dropped. -/
theorem FindsBlocks.displace (h : FindsBlocks tasks handlers) :
    FindsBlocks tasks (Downloads.displace (fun other => other ∉ tasks) handlers) := by
  intro handler hhandler hplace
  obtain ⟨before, hbefore, rfl⟩ := List.mem_map.mp hhandler
  split at hplace
  next => cases hplace
  next hmem =>
    rw [if_neg hmem]
    exact h before hbefore hplace

end FindsBlocks

/-- A block is counted, and a task that is complete is dropped. -/
theorem download_finish {handler : Handler} {handlers : List Handler} {client : VosfsClient}
    (hkeyed : KeyedTasks client.downloadTasks) (hmem : handler.ino ∈ client.downloadTasks)
    (hfinds : FindsBlocks client.downloadTasks handlers) :
    let tasks := (client.handleDownloadBlockResponseLocked handler.ino).downloadTasks
    KeyedTasks tasks ∧
      FindsBlocks tasks (Downloads.displace (fun ino => ino ∉ tasks) handlers) := by
  obtain ⟨task, hlookup⟩ := mem_iff_lookup.mp hmem
  unfold VosfsClient.handleDownloadBlockResponseLocked
  simp only [VosfsClient.taskAt_of_lookup hlookup]
  have hcounted : KeyedTasks (client.downloadTasks.insert handler.ino
      { task with doneBlocks := task.doneBlocks + 1 }) := by
    refine (keyedTasks_insert_iff hlookup ?_ ?_).mpr hkeyed <;> rfl
  have hcounts : FindsBlocks (client.downloadTasks.insert handler.ino
      { task with doneBlocks := task.doneBlocks + 1 }) handlers :=
    hfinds.insert fun blockId hblock => by
      rwa [VosfsClient.taskAt_of_lookup hlookup] at hblock
  split
  next => exact ⟨hcounted.erase _, hcounts.erase _⟩
  next => exact ⟨hcounted, hcounts.displace⟩

/-- The answer for a block is recorded under the key it names. -/
theorem download_answer {response : DownloadBlockResponse} {downloads : Downloads}
    (hkeyed : KeyedTasks s.client.downloadTasks)
    (hfinds : FindsBlocks s.client.downloadTasks s.handlers)
    (hstep : s.downloads.step (.downloadBlockResponse true response) = some downloads) :
    (KeyedTasks downloads.client.downloadTasks ↔
      NamesBlock s.client.downloadTasks response.ino response.blockId) ∧
      FindsBlocks downloads.client.downloadTasks downloads.handlers := by
  have hfinds' : FindsBlocks (s.client.handleDownloadBlockResponse response).downloadTasks
      s.handlers :=
    hfinds.insert fun blockId hblock => (AList.mem_insert _).mpr (Or.inr hblock)
  simp only [Downloads.step, if_true] at hstep
  cases hstep
  refine ⟨keyedTasks_assign_iff hkeyed rfl, ?_⟩
  dsimp only
  split
  next =>
    intro handler hhandler hplace
    rcases List.mem_append.mp hhandler with hbefore | hnew
    · exact hfinds' handler hbefore hplace
    · rw [List.mem_singleton.mp hnew]
      exact ⟨_, AList.lookup_insert _, (AList.mem_insert _).mpr (Or.inl rfl)⟩
  next => exact hfinds'

/-- A handler that waits finds its block. -/
theorem download_write {handler : Handler} {downloads : Downloads}
    (hkeyed : KeyedTasks s.client.downloadTasks)
    (hfinds : FindsBlocks s.client.downloadTasks s.handlers)
    (hstep : s.downloads.step (.write handler) = some downloads) :
    KeyedTasks downloads.client.downloadTasks ∧
      FindsBlocks downloads.client.downloadTasks downloads.handlers := by
  simp only [Downloads.step] at hstep
  split at hstep
  next hhandler =>
    cases hstep
    obtain ⟨task, hlookup, hblock⟩ := hfinds handler hhandler.1 hhandler.2.1
    have htask := VosfsClient.taskAt_of_lookup hlookup
    have hnames : NamesBlock s.client.downloadTasks handler.ino handler.blockId :=
      ⟨Or.inl (mem_iff_lookup.mpr ⟨task, hlookup⟩), Or.inl (htask ▸ hblock)⟩
    have hfinds' : FindsBlocks (s.client.handleDownloadBlockResponseWritten handler.ino
        handler.blockId).downloadTasks s.handlers :=
      hfinds.insert fun blockId hblock => (AList.mem_insert _).mpr (Or.inr hblock)
    constructor
    · refine (keyedTasks_assign_iff hkeyed ?_).mpr hnames
      rfl
    · intro other hother hplace
      rcases List.mem_cons.mp hother with rfl | hrest
      · exact hfinds' handler hhandler.1 hplace
      · exact hfinds' other (List.mem_of_mem_erase hrest) hplace
  next => cases hstep

/-- Only a response for an unknown block puts a record under another key. -/
theorem download_step {action : DownloadAction} {downloads : Downloads}
    (hkeyed : KeyedTasks s.client.downloadTasks)
    (hfinds : FindsBlocks s.client.downloadTasks s.handlers)
    (hstep : s.downloads.step action = some downloads) :
    (KeyedTasks downloads.client.downloadTasks ↔ s.NamesKnown (.download action)) ∧
      FindsBlocks downloads.client.downloadTasks downloads.handlers := by
  cases action with
  | prepareDownloadFileResponse status response =>
    obtain ⟨client, hclient, rfl⟩ := Option.map_eq_some_iff.mp hstep
    have hadds := (handlePrepareDownloadFileResponse_adds hclient).1
    exact ⟨iff_of_true (hkeyed.of_adds hadds) trivial, hfinds.of_adds hadds⟩
  | downloadBlockResponse status response =>
    cases status with
    | false =>
      cases hstep
      exact ⟨iff_of_true hkeyed fun hok => absurd hok Bool.false_ne_true, hfinds⟩
    | true =>
      obtain ⟨hiff, hfinds'⟩ := download_answer hkeyed hfinds hstep
      exact ⟨hiff.trans ⟨fun hnames _ => hnames, fun hnames => hnames rfl⟩, hfinds'⟩
  | write handler =>
    obtain ⟨hkeyed', hfinds'⟩ := download_write hkeyed hfinds hstep
    exact ⟨iff_of_true hkeyed' trivial, hfinds'⟩
  | failToWrite handler =>
    simp only [Downloads.step] at hstep
    split at hstep
    next =>
      cases hstep
      exact ⟨iff_of_true hkeyed trivial, hfinds.subset List.erase_subset⟩
    next => cases hstep
  | finish handler =>
    simp only [Downloads.step] at hstep
    split at hstep
    next hhandler =>
      cases hstep
      obtain ⟨task, hlookup, -⟩ := hfinds handler hhandler.1 hhandler.2.1
      obtain ⟨hkeyed', hfinds'⟩ := download_finish hkeyed (mem_iff_lookup.mpr ⟨task, hlookup⟩)
        (hfinds.subset (List.erase_subset (a := handler)))
      exact ⟨iff_of_true hkeyed' trivial, hfinds'⟩
    next => cases hstep
  | login session =>
    cases hstep
    exact ⟨iff_of_true hkeyed trivial, hfinds⟩
  | loadTasks =>
    simp only [Downloads.step] at hstep
    split at hstep
    next =>
      cases hstep
      exact ⟨iff_of_true (keyedTasks_tasksOf _) trivial, findsBlocks_displace_all _ _⟩
    next => cases hstep
  | saveTasks =>
    cases hstep
    exact ⟨iff_of_true hkeyed trivial, hfinds⟩
  | restart =>
    cases hstep
    exact ⟨iff_of_true .empty trivial, .nil⟩

/-! ## Both halves -/

/-- The invariant: tasks and blocks are kept under their own keys, and whoever is at work finds its
task. -/
structure Sound (s : Transfers) : Prop where
  uploads : KeyedTasks s.client.uploadTasks
  downloads : KeyedTasks s.client.downloadTasks
  waiting : Finds s.client.uploadTasks s.waiting
  handlers : FindsBlocks s.client.downloadTasks s.handlers

theorem Sound.initial (files : TaskFiles) : Sound { files := files } :=
  ⟨.empty, .empty, .nil, .nil⟩

/-- What an upload does to the downloads. -/
theorem Sound.upload_others {action : UploadAction} (h : s.Sound)
    (hstep : s.step (.upload action) = some s') :
    KeyedTasks s'.client.downloadTasks ∧ FindsBlocks s'.client.downloadTasks s'.handlers := by
  obtain ⟨uploads, huploads, rfl⟩ := Option.map_eq_some_iff.mp hstep
  cases action with
  | prepareUploadFileResponse status response =>
    obtain ⟨client, hclient, rfl⟩ := Option.map_eq_some_iff.mp huploads
    have hsame := (handlePrepareUploadFileResponse_adds hclient).2
    exact ⟨hsame ▸ h.downloads, hsame ▸ h.handlers⟩
  | uploadBlockResponse status response waits =>
    simp only [Uploads.step] at huploads
    split_ifs at huploads
    · cases huploads; exact ⟨h.downloads, h.handlers⟩
    · cases huploads
      dsimp only
      rw [downloadTasks_handleUploadBlockResponseLocked]
      exact ⟨h.downloads, h.handlers⟩
    · cases huploads; exact ⟨h.downloads, h.handlers⟩
  | resume handler =>
    simp only [Uploads.step] at huploads
    split at huploads
    next =>
      cases huploads
      dsimp only
      rw [downloadTasks_handleUploadBlockResponseLocked]
      exact ⟨h.downloads, h.handlers⟩
    next => cases huploads
  | uploadFileResponse status response =>
    obtain ⟨client, hclient, rfl⟩ := Option.map_eq_some_iff.mp huploads
    have hsame := (handleUploadFileResponse_erases hclient).2
    exact ⟨hsame ▸ h.downloads, hsame ▸ h.handlers⟩
  | login session => cases huploads; exact ⟨h.downloads, h.handlers⟩
  | loadTasks =>
    simp only [Uploads.step] at huploads
    split at huploads
    next => cases huploads; exact ⟨keyedTasks_tasksOf _, findsBlocks_displace_all _ _⟩
    next => cases huploads
  | saveTasks => cases huploads; exact ⟨h.downloads, h.handlers⟩
  | restart => cases huploads; exact ⟨.empty, .nil⟩

/-- What a download does to the uploads. -/
theorem Sound.download_others {action : DownloadAction} (h : s.Sound)
    (hstep : s.step (.download action) = some s') :
    KeyedTasks s'.client.uploadTasks ∧ Finds s'.client.uploadTasks s'.waiting := by
  obtain ⟨downloads, hdownloads, rfl⟩ := Option.map_eq_some_iff.mp hstep
  cases action with
  | prepareDownloadFileResponse status response =>
    obtain ⟨client, hclient, rfl⟩ := Option.map_eq_some_iff.mp hdownloads
    have hsame := (handlePrepareDownloadFileResponse_adds hclient).2
    exact ⟨hsame ▸ h.uploads, hsame ▸ h.waiting⟩
  | downloadBlockResponse status response =>
    simp only [Downloads.step] at hdownloads
    split at hdownloads
    next => cases hdownloads; exact ⟨h.uploads, h.waiting⟩
    next => cases hdownloads; exact ⟨h.uploads, h.waiting⟩
  | write handler | failToWrite handler | finish handler =>
    simp only [Downloads.step] at hdownloads
    split at hdownloads
    next => cases hdownloads; exact ⟨h.uploads, h.waiting⟩
    next => cases hdownloads
  | login session => cases hdownloads; exact ⟨h.uploads, h.waiting⟩
  | loadTasks =>
    simp only [Downloads.step] at hdownloads
    split at hdownloads
    next => cases hdownloads; exact ⟨keyedTasks_tasksOf _, finds_displace_all _ _⟩
    next => cases hdownloads
  | saveTasks => cases hdownloads; exact ⟨h.uploads, h.waiting⟩
  | restart => cases hdownloads; exact ⟨.empty, .nil⟩

/-- **The step lemma.** -/
theorem Sound.step {action : TransferAction} (h : s.Sound) (hstep : s.step action = some s') :
    (KeyedTasks s'.client.uploadTasks ∧ KeyedTasks s'.client.downloadTasks ↔
      s.NamesKnown action) ∧ (s.NamesKnown action → s'.Sound) := by
  cases action with
  | upload action =>
    obtain ⟨hdownloads, hhandlers⟩ := h.upload_others hstep
    obtain ⟨uploads, huploads, rfl⟩ := Option.map_eq_some_iff.mp hstep
    obtain ⟨hiff, hwaiting⟩ := upload_step h.uploads h.waiting huploads
    exact ⟨(and_iff_left hdownloads).trans hiff, fun hnames =>
      ⟨hiff.mpr hnames, hdownloads, hwaiting, hhandlers⟩⟩
  | download action =>
    obtain ⟨huploads, hwaiting⟩ := h.download_others hstep
    obtain ⟨downloads, hdownloads, rfl⟩ := Option.map_eq_some_iff.mp hstep
    obtain ⟨hiff, hhandlers⟩ := download_step h.downloads h.handlers hdownloads
    exact ⟨(and_iff_right huploads).trans hiff, fun hnames =>
      ⟨huploads, hiff.mpr hnames, hwaiting, hhandlers⟩⟩

/-- **Saved tasks come back.**  They do so after every run whose responses name blocks in memory,
and after one more step only if its response does. -/
theorem tasksReload {files : TaskFiles}
    (hrun : Run Transfers.step Transfers.NamesKnown { files := files } s) :
    s.OwnInos ∧ (s.client.session.token ≠ "" → s.client.Reloads s.files) ∧
      ∀ {action s'}, s.step action = some s' → s'.client.session.token ≠ "" →
        (s'.OwnInos ∧ s'.client.Reloads s'.files ↔ s.NamesKnown action) := by
  have hsound : s.Sound := hrun.invariant Transfers.Sound (.initial files)
    fun h hnames hstep => (h.step hstep).2 hnames
  refine ⟨⟨hsound.uploads.inos, hsound.downloads.inos⟩, fun htoken =>
    (VosfsClient.reloads_iff htoken).mpr ⟨hsound.uploads, hsound.downloads⟩,
    fun {action s'} hstep htoken => ?_⟩
  rw [VosfsClient.reloads_iff htoken, ← (hsound.step hstep).1]
  exact and_iff_right_of_imp fun hkeyed => ⟨hkeyed.1.inos, hkeyed.2.inos⟩

/-! ### A response for a task that is dropped -/

/-- One file is uploaded while another one is downloaded. -/
def transferBoth : List TransferAction :=
  Uploads.uploadOnce.map .upload ++
    [.download (.prepareDownloadFileResponse true Downloads.prepared),
      .download (Downloads.answer 1)]

theorem tasksReload_transferBoth :
    ∃ s : Transfers, 5 ∈ s.client.uploadTasks ∧ 5 ∈ s.client.downloadTasks ∧
      s.OwnInos ∧ s.client.Reloads s.files := by
  obtain ⟨s, hrun, hcheck⟩ := Run.exists_of_exec Transfers.step Transfers.NamesKnown
    { files := fun _ => none } transferBoth
    (fun s => decide (s.client.session.token ≠ "" ∧ 5 ∈ s.client.uploadTasks ∧
      5 ∈ s.client.downloadTasks)) (by decide)
  obtain ⟨htoken, huploads, hdownloads⟩ := of_decide_eq_true hcheck
  obtain ⟨hown, hreloads, -⟩ := tasksReload hrun
  exact ⟨s, huploads, hdownloads, hown, hreloads htoken⟩

/-- Data node 1 answers both requests, the file is published and its task dropped, and data
node 2 answers. -/
def answerLate : List UploadAction :=
  Uploads.uploadTwice ++ [.uploadBlockResponse true (Uploads.stored 1) false,
    .uploadFileResponse true { ino := 5 }, .uploadBlockResponse true (Uploads.stored 2) false]

/-- The last answer makes a task with the inode 0 under the key 5. -/
theorem exists_lost_task :
    ∃ s : Transfers, Run Transfers.step (fun _ _ => True) {} s ∧
      s.client.session.token ≠ "" ∧ ¬ s.OwnInos ∧ ¬ s.client.Reloads s.files := by
  obtain ⟨s, hrun, hcheck⟩ := Run.exists_of_exec Transfers.step (fun _ _ => True) {}
    (answerLate.map .upload) (fun s => decide (s.client.session.token ≠ "" ∧
      ∃ task ∈ s.client.uploadTasks.lookup (5 : ℕ), task.ino = 0)) (by decide)
  obtain ⟨htoken, task, htask, hino⟩ := of_decide_eq_true hcheck
  have hown : ¬ Keyed TransportTask.ino s.client.uploadTasks := by
    intro hkeyed
    have hfive := hkeyed htask
    omega
  exact ⟨s, hrun, htoken, fun h => hown h.1, fun h =>
    hown ((VosfsClient.reloads_iff htoken).mp h).1.inos⟩

end Transfers

end Vosfs.Ui
