import Vosfs.Library.Run
import Vosfs.Ui.Client

/-!
# Downloads

A download is complete when as many blocks are done as the file has.  But `done_blocks` counts
answers: a block that is requested twice, because the user logged in again, is counted twice.
Then the task is dropped too early, and the answers that are still missing make a new, empty
task under its inode.

As long as every answer is the first one for its block since the block was last requested, and
what is loaded does not lag behind what is in memory (`Downloads.Orderly`), a task is dropped
only when all its blocks are in the local file, and no answer makes a task
(`downloadsComplete`).
-/

namespace Vosfs.Ui

open UnorderedMap
open Raft (PrepareDownloadFileResponse DownloadBlockResponse)

/-! ## The system -/

/-- A handler of a block's answer that opens or writes the local file, or waits for the mutex. -/
structure Handler where
  ino : ℕ
  blockId : ℕ
  /-- The data is in the local file. -/
  written : Bool := false
  /-- The task it refers to is still where it was. -/
  inPlace : Bool := true
  deriving DecidableEq

/-- The data of a block, written to a local file. -/
structure Write where
  localPath : String
  offset : ℕ
  ino : ℕ
  blockId : ℕ
  deriving DecidableEq

/-- A client that downloads, with the answers it is at work on. -/
structure Downloads where
  client : VosfsClient := {}
  files : TaskFiles := fun _ => none
  handlers : List Handler := []
  /-- History: the blocks that were requested for the tasks in memory, without an answer so far. -/
  requested : List (ℕ × ℕ) := []
  /-- History: what was written for a task since it was made. -/
  writes : List Write := []

/-- A response, a step of the handler that writes a block, or what the user does. -/
inductive DownloadAction
  | prepareDownloadFileResponse (status : Bool) (response : PrepareDownloadFileResponse)
  | downloadBlockResponse (status : Bool) (response : DownloadBlockResponse)
  | write (handler : Handler)
  | failToWrite (handler : Handler)
  | finish (handler : Handler)
  | login (session : UserSession)
  | loadTasks
  | saveTasks
  | restart

/-- The inodes and the ids of the blocks that are requested. -/
def requestedBlocks (tasks : List Task) : List (ℕ × ℕ) :=
  tasks.filterMap fun
    | .sendDownloadBlockRequest blockId ino _ => some (ino, blockId)
    | _ => none

namespace Downloads

/-- The handlers that refer to a task that satisfies `gone` lose it. -/
def displace (gone : ℕ → Bool) (handlers : List Handler) : List Handler :=
  handlers.map fun handler =>
    if gone handler.ino then { handler with inPlace := false } else handler

/-- What a handler writes. -/
def written (client : VosfsClient) (ino blockId : ℕ) : Write :=
  let downloadTask := VosfsClient.taskAt client.downloadTasks ino
  ⟨downloadTask.localPath, (VosfsClient.blockAt downloadTask blockId).offset, ino, blockId⟩

/-- There is no step where a handler throws, or goes on with a task that is gone. -/
def step (s : Downloads) : DownloadAction → Option Downloads
  | .prepareDownloadFileResponse status response =>
    (s.client.handlePrepareDownloadFileResponse status response).map fun client =>
      { s with
        client := client
        requested := s.requested ++ requestedBlocks (client.tasks.drop s.client.tasks.length)
        writes := s.writes.filter fun write =>
          write.ino ∈ s.client.downloadTasks ∨ write.ino ∉ client.downloadTasks }
  | .downloadBlockResponse status response =>
    if status then
      some { s with
        client := s.client.handleDownloadBlockResponse response
        handlers :=
          if response.statusCode = .ok then
            s.handlers ++ [⟨response.ino, response.blockId, false, true⟩]
          else
            s.handlers
        requested := s.requested.erase (response.ino, response.blockId) }
    else
      some s
  | .write handler =>
    if handler ∈ s.handlers ∧ handler.inPlace ∧ !handler.written then
      some { s with
        client := s.client.handleDownloadBlockResponseWritten handler.ino handler.blockId
        handlers := { handler with written := true } :: s.handlers.erase handler
        writes := s.writes ++ [written s.client handler.ino handler.blockId] }
    else
      none
  | .failToWrite handler =>
    if handler ∈ s.handlers ∧ handler.inPlace ∧ !handler.written then
      some { s with handlers := s.handlers.erase handler }
    else
      none
  | .finish handler =>
    if handler ∈ s.handlers ∧ handler.inPlace ∧ handler.written then
      let client := s.client.handleDownloadBlockResponseLocked handler.ino
      some { s with
        client := client
        handlers := displace (fun ino => ino ∉ client.downloadTasks) (s.handlers.erase handler) }
    else
      none
  | .login session => some { s with client := s.client.handleLoginUserByNameResponse session }
  | .loadTasks =>
    if .loadTransportTasksJson ∈ s.client.tasks then
      let client := (s.client.loadTransportTasksJson s.files).1
      some { s with
        client := client
        files := (s.client.loadTransportTasksJson s.files).2
        handlers := displace (fun _ => true) s.handlers
        requested := requestedBlocks (client.tasks.drop s.client.tasks.length) }
    else
      none
  | .saveTasks => some { s with files := s.client.saveTransportTasksJson s.files }
  | .restart => some { s with client := {}, handlers := [], requested := [] }

/-! ## Written blocks and complete tasks -/

/-- The block is in the local file of the task. -/
def Written (writes : List Write) (ino : ℕ) (localPath : String) (block : BlockInfo) : Prop :=
  ⟨localPath, block.offset, ino, block.id⟩ ∈ writes

instance {writes : List Write} {ino : ℕ} {localPath : String} {block : BlockInfo} :
    Decidable (Written writes ino localPath block) :=
  inferInstanceAs (Decidable (_ ∈ _))

/-- All blocks of the task are in its local file. -/
def Complete (writes : List Write) (ino : ℕ) (task : TransportTask) : Prop :=
  ∀ block ∈ task.blocks.values, Written writes ino task.localPath block

instance {writes : List Write} {ino : ℕ} {task : TransportTask} :
    Decidable (Complete writes ino task) :=
  inferInstanceAs (Decidable (∀ _ ∈ _, _))

/-- The second task writes the blocks of the first one to the same places. -/
def SameTarget (task task' : TransportTask) : Prop :=
  task'.localPath = task.localPath ∧ ∀ block ∈ task.blocks.values,
    ∃ block' ∈ task'.blocks.lookup block.id, block'.offset = block.offset

instance {task task' : TransportTask} : Decidable (SameTarget task task') :=
  inferInstanceAs (Decidable (_ ∧ ∀ _ ∈ _, ∃ _ ∈ _, _))

/-- A task stays in memory, unless it is complete. -/
def KeepsMissing (s s' : Downloads) : Prop :=
  ∀ ino task, s.client.downloadTasks.lookup ino = some task →
    (∃ task', s'.client.downloadTasks.lookup ino = some task' ∧ SameTarget task task') ∨
      Complete s'.writes ino task

/-- Every task was there before. -/
def MakesNoTask (s s' : Downloads) : Prop :=
  ∀ ino ∈ s'.client.downloadTasks, ino ∈ s.client.downloadTasks

/-! ## Orderly answers -/

/-- Every answer is the first one to the last request of its block, and what is loaded has the
tasks in memory and no blocks that were not written.  A new task has no predecessor in memory,
and its blocks are blocks of its inode that lie on some data node. -/
def Orderly (s : Downloads) : DownloadAction → Prop
  | .prepareDownloadFileResponse status response =>
    status = true ∧ response.statusCode = .ok →
      ∀ first ∈ response.blocks.head?, first.ino ∉ s.client.downloadTasks ∧
        ∀ block ∈ response.blocks, block.ino = first.ino ∧ block.dataNodeId ≠ []
  | .downloadBlockResponse status response =>
    status = true → (response.ino, response.blockId) ∈ s.requested
  | .write handler | .finish handler => handler.inPlace = true
  | .loadTasks =>
    (∀ entry ∈ s.client.downloadTasks.pairs,
      (∃ task ∈ (s.client.savedTasks s.files).downloadTasks, task.ino = entry.1 ∧
        SameTarget entry.2 (TransportTask.ofJson task)) ∨ Complete s.writes entry.1 entry.2) ∧
    ∀ task ∈ (s.client.savedTasks s.files).downloadTasks, ∀ block ∈ task.blocks,
      block.remaingTimes = 0 → Written s.writes task.ino task.localPath block
  | _ => True

instance {s : Downloads} : ∀ {action : DownloadAction}, Decidable (s.Orderly action)
  | .prepareDownloadFileResponse _ _ =>
    inferInstanceAs (Decidable (_ → ∀ _ ∈ _, _ ∧ ∀ _ ∈ _, _ ∧ _))
  | .downloadBlockResponse _ _ => inferInstanceAs (Decidable (_ → _))
  | .write _ | .finish _ => inferInstanceAs (Decidable (_ = _))
  | .loadTasks =>
    inferInstanceAs (Decidable ((∀ _ ∈ _, (∃ _ ∈ _, _ ∧ _) ∨ _) ∧ ∀ _ ∈ _, ∀ _ ∈ _, _))
  | .failToWrite _ | .login _ | .saveTasks | .restart => inferInstanceAs (Decidable True)

/-! ## Handlers under way -/

/-- The handlers of an inode that have written their block and have not counted it. -/
def pending (handlers : List Handler) (ino : ℕ) : ℕ :=
  handlers.countP fun handler => handler.inPlace && handler.written && handler.ino = ino

/-- The blocks that handlers are going to write. -/
def opened (handlers : List Handler) : List (ℕ × ℕ) :=
  (handlers.filter fun handler => handler.inPlace && !handler.written).map fun handler =>
    (handler.ino, handler.blockId)

variable {handlers : List Handler} {handler : Handler}

theorem pending_append_new (ino ino' blockId : ℕ) :
    pending (handlers ++ [⟨ino', blockId, false, true⟩]) ino = pending handlers ino := by
  simp [pending]

theorem opened_append_new (ino blockId : ℕ) :
    opened (handlers ++ [⟨ino, blockId, false, true⟩]) = opened handlers ++ [(ino, blockId)] := by
  simp [opened]

/-- A handler and the others. -/
theorem pending_erase (hmem : handler ∈ handlers) (ino : ℕ) :
    pending handlers ino = pending (handlers.erase handler) ino +
      if handler.inPlace && handler.written && handler.ino = ino then 1 else 0 := by
  rw [pending, (List.perm_cons_erase hmem).countP_eq, List.countP_cons]
  rfl

theorem opened_erase (hmem : handler ∈ handlers) :
    (opened handlers).Perm (opened (handler :: handlers.erase handler)) :=
  ((List.perm_cons_erase hmem).filter _).map _

theorem pending_displace {gone : ℕ → Bool} {ino : ℕ} (hgone : gone ino = false) :
    pending (displace gone handlers) ino = pending handlers ino := by
  rw [pending, displace, List.countP_map, pending]
  refine List.countP_congr fun handler _ => ?_
  by_cases heq : handler.ino = ino
  · simp [heq, hgone]
  · simp only [Function.comp_apply, heq, decide_false, Bool.and_false]
    split <;> simp [heq]

theorem pending_displace_gone {gone : ℕ → Bool} {ino : ℕ} (hgone : gone ino = true) :
    pending (displace gone handlers) ino = 0 := by
  rw [pending, displace, List.countP_map, List.countP_eq_zero]
  intro handler _
  by_cases heq : handler.ino = ino
  · simp [heq, hgone]
  · simp only [Function.comp_apply]
    split <;> simp [heq]

theorem pending_displace_all (handlers : List Handler) (ino : ℕ) :
    pending (displace (fun _ => true) handlers) ino = 0 := by
  rw [pending_displace_gone rfl]

theorem opened_cons : opened (handler :: handlers) =
    if handler.inPlace && !handler.written then
      (handler.ino, handler.blockId) :: opened handlers
    else
      opened handlers := by
  rw [opened, List.filter_cons]
  split <;> rfl

/-- A handler that writes its block: then it waits to count it. -/
theorem opened_write :
    opened ({ handler with written := true } :: handlers) = opened handlers := by
  rw [opened_cons, if_neg (by simp)]

theorem pending_write (hmem : handler ∈ handlers) (hplace : handler.inPlace = true)
    (hopen : handler.written = false) (ino : ℕ) :
    pending ({ handler with written := true } :: handlers.erase handler) ino =
      pending handlers ino + if ino = handler.ino then 1 else 0 := by
  rw [pending_erase hmem, pending, List.countP_cons, hopen, hplace]
  simp [pending, eq_comm]

/-- A handler that has counted its block. -/
theorem pending_count (hmem : handler ∈ handlers) (hplace : handler.inPlace = true)
    (hwritten : handler.written = true) (ino : ℕ) :
    pending handlers ino =
      pending (handlers.erase handler) ino + if ino = handler.ino then 1 else 0 := by
  rw [pending_erase hmem, hplace, hwritten]
  simp [eq_comm]

theorem opened_displace_sublist (gone : ℕ → Bool) (handlers : List Handler) :
    (opened (displace gone handlers)).Sublist (opened handlers) := by
  induction handlers with
  | nil => exact List.Sublist.refl _
  | cons handler handlers ih =>
    have hcons : displace gone (handler :: handlers) =
      (if gone handler.ino then { handler with inPlace := false } else handler) ::
        displace gone handlers := rfl
    rw [hcons, opened_cons, opened_cons]
    by_cases hgone : gone handler.ino = true
    · rw [if_pos hgone, if_neg (by simp)]
      split
      next => exact ih.cons _
      next => exact ih
    · rw [if_neg hgone]
      split
      next => exact ih.cons_cons _
      next => exact ih

/-- When all handlers lose their tasks, none of them goes on. -/
theorem opened_displace_all (handlers : List Handler) :
    opened (displace (fun _ => true) handlers) = [] := by
  simp [opened, displace]

end Downloads

/-! ## The counter of a task -/

/-- The task and `ahead` handlers count no more blocks than are done. -/
structure TransportTask.Downloading (ino ahead : ℕ) (task : TransportTask) : Prop where
  named : task.ino = ino
  keyed : Keyed BlockInfo.id task.blocks
  total : task.blocks.values.length ≤ task.totalBlocks
  blocks : ∀ block ∈ task.blocks.values, block.ino = ino
  done : task.doneBlocks + ahead ≤ task.blocks.values.countP fun block => block.remaingTimes = 0

namespace TransportTask

variable {ino ahead blockId : ℕ} {task task' : TransportTask} {block : BlockInfo}

theorem Downloading.mono {ahead' : ℕ} (h : task.Downloading ino ahead) (hle : ahead' ≤ ahead) :
    task.Downloading ino ahead' :=
  ⟨h.named, h.keyed, h.total, h.blocks, (Nat.add_le_add_left hle _).trans h.done⟩

/-- Nothing depends on the order of the blocks. -/
theorem Downloading.congr (h : task.Downloading ino ahead) (hino : task'.ino = task.ino)
    (htotal : task'.totalBlocks = task.totalBlocks) (hdone : task'.doneBlocks = task.doneBlocks)
    (hsame : Same task'.blocks task.blocks) : task'.Downloading ino ahead where
  named := hino.trans h.named
  keyed := h.keyed.congr hsame
  total := hsame.length_values ▸ htotal ▸ h.total
  blocks block hblock := by
    obtain ⟨blockId, hlookup⟩ := mem_values.mp hblock
    exact h.blocks block (mem_values.mpr ⟨blockId, hsame blockId ▸ hlookup⟩)
  done := by
    rw [hdone, hsame.countP_values]
    exact h.done

/-- When as many blocks are done as there are, nothing is missing and nobody is under way. -/
theorem Downloading.complete (h : task.Downloading ino ahead)
    (hdone : task.totalBlocks ≤ task.doneBlocks) :
    ahead = 0 ∧ ∀ block ∈ task.blocks.values, block.remaingTimes = 0 := by
  have hle := List.countP_le_length (p := fun block : BlockInfo => decide (block.remaingTimes = 0))
    (l := task.blocks.values)
  have htotal := h.total
  have hcount := h.done
  refine ⟨by omega, fun block hblock => ?_⟩
  exact of_decide_eq_true (List.countP_eq_length.mp (le_antisymm hle (by omega)) block hblock)

/-- In a new task every block is missing. -/
theorem downloading_ofResponse {blocks : List Raft.BlockInfo} {localPath remotePath : String}
    (htask : TransportTask.ofResponse blocks localPath remotePath = some task)
    (hblocks : ∀ block ∈ blocks, block.ino = task.ino ∧ block.dataNodeId ≠ []) :
    task.Downloading task.ino 0 ∧ (∀ block ∈ task.blocks.values, block.remaingTimes ≠ 0) ∧
      task.doneBlocks < task.totalBlocks := by
  obtain ⟨first, hfirst, rfl⟩ := Option.map_eq_some_iff.mp htask
  have hnew : ∀ block ∈ (blocksOf (blocks.map BlockInfo.ofResponse)).values,
      ∃ described ∈ blocks, BlockInfo.ofResponse described = block := by
    intro block hblock
    obtain ⟨blockId, hlookup⟩ := mem_values.mp hblock
    rw [lookup_blocksOf] at hlookup
    exact List.mem_map.mp (List.mem_of_find?_eq_some hlookup)
  refine ⟨⟨rfl, keyed_blocksOf _, ?_, fun block hblock => ?_, Nat.zero_le _⟩,
    fun block hblock => ?_, ?_⟩
  · exact (length_blocksOf _).trans (List.length_map _).le
  · obtain ⟨described, hmem, rfl⟩ := hnew block hblock
    exact (hblocks described hmem).1
  · obtain ⟨described, hmem, rfl⟩ := hnew block hblock
    exact (List.length_pos_iff.mpr (hblocks described hmem).2).ne'
  · exact List.length_pos_iff.mpr (List.ne_nil_of_mem (List.mem_of_mem_head? hfirst))

/-- The task when the data of a block is written. -/
def withWritten (task : TransportTask) (blockId : ℕ) : TransportTask :=
  { task with blocks := task.blocks.insert blockId
                { VosfsClient.blockAt task blockId with remaingTimes := 0 } }

theorem withWritten_eq (hlookup : task.blocks.lookup blockId = some block) :
    task.withWritten blockId =
      { task with blocks := task.blocks.insert blockId { block with remaingTimes := 0 } } := by
  rw [withWritten, VosfsClient.blockAt_of_lookup hlookup]

theorem Downloading.withWritten (h : task.Downloading ino ahead)
    (hlookup : task.blocks.lookup blockId = some block) (hne : block.remaingTimes ≠ 0) :
    (task.withWritten blockId).Downloading ino (ahead + 1) := by
  have hkey := h.keyed hlookup
  have hcount := countP_values_insert hlookup { block with remaingTimes := 0 }
    fun block => block.remaingTimes = 0
  rw [withWritten_eq hlookup]
  refine ⟨h.named, h.keyed.insert hkey, ?_, fun other hother => ?_, ?_⟩
  · rw [length_values_insert hlookup]
    exact h.total
  · obtain ⟨otherId, hfound⟩ := mem_values.mp hother
    rw [lookup_insert_eq] at hfound
    split_ifs at hfound
    · cases hfound
      exact h.blocks block (mem_values.mpr ⟨blockId, hlookup⟩)
    · exact h.blocks other (mem_values.mpr ⟨otherId, hfound⟩)
  · have hdone := h.done
    simp only [List.countP_cons, List.countP_nil, hne, decide_false, decide_true,
      Bool.false_eq_true, if_true, if_false] at hcount
    dsimp only
    omega

theorem Downloading.counted (h : task.Downloading ino (ahead + 1)) :
    ({ task with doneBlocks := task.doneBlocks + 1 } : TransportTask).Downloading ino ahead := by
  have hdone := h.done
  exact ⟨h.named, h.keyed, h.total, h.blocks, by dsimp only; omega⟩

end TransportTask

namespace Downloads

variable {s s' : Downloads}

/-! ## Requested blocks -/

theorem requestedBlocks_append (tasks tasks' : List Task) :
    requestedBlocks (tasks ++ tasks') = requestedBlocks tasks ++ requestedBlocks tasks' :=
  List.filterMap_append

theorem requestedBlocks_uploadOrders (task : TransportTask) :
    requestedBlocks (VosfsClient.uploadOrders task) = [] := by
  rw [requestedBlocks, List.filterMap_eq_nil_iff]
  intro order horder
  unfold VosfsClient.uploadOrders at horder
  split at horder
  next => rw [List.mem_singleton.mp horder]
  next =>
    obtain ⟨block, -, hblock⟩ := List.mem_flatMap.mp horder
    split at hblock
    next => cases hblock
    next =>
      obtain ⟨node, -, rfl⟩ := List.mem_map.mp hblock
      rfl

/-- The blocks of a task. -/
def blockKeys (task : TransportTask) : List (ℕ × ℕ) :=
  task.blocks.values.map fun block => (block.ino, block.id)

theorem nodup_blockKeys {task : TransportTask} (hkeyed : Keyed BlockInfo.id task.blocks) :
    (blockKeys task).Nodup := by
  refine List.Nodup.of_map Prod.snd ?_
  have hids : (blockKeys task).map Prod.snd = task.blocks.values.map BlockInfo.id :=
    List.map_map
  rw [hids, hkeyed.map_values]
  exact task.blocks.keys_nodup

/-- Each block is requested once at most, and only if it lacks its data. -/
theorem requestedBlocks_downloadOrders (task : TransportTask) :
    (requestedBlocks (VosfsClient.downloadOrders task)).Sublist
      ((task.blocks.values.filter fun block => block.remaingTimes ≠ 0).map fun block =>
        (block.ino, block.id)) := by
  unfold VosfsClient.downloadOrders
  split
  next =>
    unfold VosfsClient.downloadBlockRequests
    induction task.blocks.values with
    | nil => exact List.Sublist.refl _
    | cons block blocks ih =>
      rw [List.flatMap_cons, requestedBlocks_append, List.filter_cons]
      by_cases hzero : block.remaingTimes = 0
      · rw [if_pos hzero, if_neg (by simpa using hzero)]
        exact ih
      · rw [if_neg hzero, if_pos (by simpa using hzero), List.map_cons]
        cases block.dataNodeIds.pairs.find? fun node => !node.2 with
        | none => exact ih.cons _
        | some node => exact ih.cons_cons _
  next => exact List.nil_sublist _

/-! ## The invariant -/

/-- The blocks that are going to be written. -/
def outstanding (requested : List (ℕ × ℕ)) (handlers : List Handler) : List (ℕ × ℕ) :=
  requested ++ opened handlers

/-- The block of a task lacks its data. -/
def Missing (task : TransportTask) (blockId : ℕ) : Prop :=
  ∃ block, task.blocks.lookup blockId = some block ∧ block.remaingTimes ≠ 0

/-- The invariant: the counts of the tasks in memory and of the saved ones agree with what is asked
for and written. -/
structure Sound (s : Downloads) : Prop where
  memory : ∀ ⦃ino task⦄, s.client.downloadTasks.lookup ino = some task →
    task.Downloading ino (pending s.handlers ino)
  written : ∀ ⦃ino task⦄, s.client.downloadTasks.lookup ino = some task →
    ∀ block ∈ task.blocks.values, block.remaingTimes = 0 →
      Written s.writes ino task.localPath block
  saved : ∀ ⦃path saved⦄, s.files path = some saved →
    ∃ tasks : UnorderedMap ℕ TransportTask,
      saved.downloadTasks = tasks.values.map TransportTask.toJson ∧
      ∀ ⦃ino task⦄, tasks.lookup ino = some task → task.Downloading ino 0
  outstanding : ∀ pair ∈ outstanding s.requested s.handlers,
    ∃ task, s.client.downloadTasks.lookup pair.1 = some task ∧ Missing task pair.2
  nodup : (Downloads.outstanding s.requested s.handlers).Nodup
  placed : ∀ ino, s.client.downloadTasks.lookup ino = none → pending s.handlers ino = 0

theorem Sound.initial : Sound {} where
  memory _ _ hlookup := absurd hlookup lookup_empty_ne
  written _ _ hlookup := absurd hlookup lookup_empty_ne
  saved _ _ hsaved := nomatch hsaved
  outstanding _ hpair := nomatch hpair
  nodup := List.nodup_nil
  placed _ _ := rfl

/-- One task changes, or a new one comes. -/
theorem Sound.update {client : VosfsClient} {ino : ℕ} {task : TransportTask} (h : s.Sound)
    (handlers : List Handler) (requested : List (ℕ × ℕ)) (writes : List Write)
    (hlookup : ∀ other, client.downloadTasks.lookup other =
      if other = ino then some task else s.client.downloadTasks.lookup other)
    (hnew : task.Downloading ino (pending handlers ino))
    (hwritten : ∀ block ∈ task.blocks.values, block.remaingTimes = 0 →
      Written writes ino task.localPath block)
    (hpending : ∀ other ≠ ino, pending handlers other = pending s.handlers other)
    (hwrites : ∀ write ∈ s.writes, write.ino ≠ ino → write ∈ writes)
    (houtstanding : ∀ pair ∈ Downloads.outstanding requested handlers,
      if pair.1 = ino then Missing task pair.2
      else pair ∈ Downloads.outstanding s.requested s.handlers)
    (hnodup : (Downloads.outstanding requested handlers).Nodup) :
    Sound { s with client := client, handlers := handlers, requested := requested,
                   writes := writes } := by
  have hcases : ∀ {other found}, client.downloadTasks.lookup other = some found →
      other = ino ∧ found = task ∨
        other ≠ ino ∧ s.client.downloadTasks.lookup other = some found := by
    intro other found hfound
    rw [hlookup] at hfound
    split_ifs at hfound with heq
    · exact Or.inl ⟨heq, (Option.some.inj hfound).symm⟩
    · exact Or.inr ⟨heq, hfound⟩
  refine ⟨fun other found hfound => ?_, fun other found hfound block hblock hzero => ?_, h.saved,
    fun pair hpair => ?_, hnodup, fun other hnone => ?_⟩
  · rcases hcases hfound with ⟨rfl, rfl⟩ | ⟨hne, hold⟩
    · exact hnew
    · dsimp only
      rw [hpending other hne]
      exact h.memory hold
  · rcases hcases hfound with ⟨rfl, rfl⟩ | ⟨hne, hold⟩
    · exact hwritten block hblock hzero
    · exact hwrites _ (h.written hold block hblock hzero) hne
  · have hpair' := houtstanding pair hpair
    dsimp only
    rw [hlookup]
    split_ifs at hpair' ⊢ with heq
    · exact ⟨task, rfl, hpair'⟩
    · exact h.outstanding pair hpair'
  · dsimp only at hnone ⊢
    rw [hlookup] at hnone
    split_ifs at hnone with heq
    rw [hpending other heq]
    exact h.placed other hnone

/-! ### Targets -/

theorem SameTarget.of_lookup {task task' : TransportTask} (hkeyed : Keyed BlockInfo.id task.blocks)
    (hpath : task'.localPath = task.localPath)
    (hblocks : ∀ {blockId block}, task.blocks.lookup blockId = some block →
      ∃ block', task'.blocks.lookup blockId = some block' ∧ block'.offset = block.offset) :
    SameTarget task task' := by
  refine ⟨hpath, fun block hblock => ?_⟩
  obtain ⟨blockId, hlookup⟩ := mem_values.mp hblock
  rw [hkeyed hlookup]
  exact hblocks hlookup

theorem SameTarget.of_same {task task' : TransportTask} (hkeyed : Keyed BlockInfo.id task.blocks)
    (hpath : task'.localPath = task.localPath) (hsame : Same task'.blocks task.blocks) :
    SameTarget task task' :=
  .of_lookup hkeyed hpath fun hlookup => ⟨_, (hsame _).trans hlookup, rfl⟩

/-- One task changes, and keeps its target. -/
theorem Sound.keepsMissing {ino : ℕ} {task : TransportTask} (h : s.Sound)
    (hlookup : ∀ other, s'.client.downloadTasks.lookup other =
      if other = ino then some task else s.client.downloadTasks.lookup other)
    (htarget : ∀ old, s.client.downloadTasks.lookup ino = some old → SameTarget old task) :
    s.KeepsMissing s' := by
  intro other found hfound
  refine Or.inl ?_
  rw [hlookup]
  split_ifs with heq
  · exact ⟨task, rfl, htarget found (heq ▸ hfound)⟩
  · exact ⟨found, hfound, .of_same (h.memory hfound).keyed rfl (.refl _)⟩

theorem Sound.keepsMissing_of_eq (h : s.Sound)
    (heq : s'.client.downloadTasks = s.client.downloadTasks) : s.KeepsMissing s' :=
  fun _ _ hfound => Or.inl
    ⟨_, heq ▸ hfound, .of_same (h.memory hfound).keyed rfl (.refl _)⟩

theorem makesNoTask_of_lookup {ino : ℕ} {task old : TransportTask}
    (hlookup : ∀ other, s'.client.downloadTasks.lookup other =
      if other = ino then some task else s.client.downloadTasks.lookup other)
    (hold : s.client.downloadTasks.lookup ino = some old) : s.MakesNoTask s' := by
  intro other hmem
  obtain ⟨found, hfound⟩ := mem_iff_lookup.mp hmem
  rw [hlookup] at hfound
  split_ifs at hfound with heq
  · exact mem_iff_lookup.mpr ⟨old, heq ▸ hold⟩
  · exact mem_iff_lookup.mpr ⟨found, hfound⟩

theorem Missing.congr {task task' : TransportTask} {blockId : ℕ} (h : Missing task blockId)
    (hsame : Same task'.blocks task.blocks) : Missing task' blockId := by
  obtain ⟨block, hlookup, hne⟩ := h
  exact ⟨block, (hsame blockId).trans hlookup, hne⟩

/-- Writing one block over the map leaves it as it was. -/
theorem same_insert_self {blocks : UnorderedMap ℕ BlockInfo} {blockId : ℕ} {block : BlockInfo}
    (hlookup : blocks.lookup blockId = some block) :
    Same (blocks.insert blockId block) blocks := by
  intro other
  rw [lookup_insert_eq]
  split
  next heq => rw [heq, hlookup]
  next => rfl

theorem nodup_of_subperm {blocks blocks' : List (ℕ × ℕ)} (hsub : blocks.Subperm blocks')
    (hnodup : blocks'.Nodup) : blocks.Nodup := by
  obtain ⟨middle, hperm, hsublist⟩ := hsub
  exact hperm.nodup_iff.mp (hnodup.sublist hsublist)

/-! ### An answer -/

/-- The block of an answer is opened, or nobody is going to write it any more. -/
theorem outstanding_answer {requested : List (ℕ × ℕ)} (handlers : List Handler) {ino blockId : ℕ}
    (hmem : (ino, blockId) ∈ requested) (ok : Prop) [Decidable ok] :
    (Downloads.outstanding (requested.erase (ino, blockId))
      (if ok then handlers ++ [⟨ino, blockId, false, true⟩] else handlers)).Subperm
        (Downloads.outstanding requested handlers) := by
  unfold Downloads.outstanding
  split
  next =>
    rw [opened_append_new, ← List.append_assoc]
    have hlast := List.perm_append_singleton (ino, blockId)
      (requested.erase (ino, blockId) ++ opened handlers)
    have hfirst := (List.perm_cons_erase hmem).append_right (opened handlers)
    exact (hlast.trans hfirst.symm).subperm
  next => exact (List.erase_sublist.append_right _).subperm

/-- The handler finds the task and the block. -/
theorem handleDownloadBlockResponse_lookup {client : VosfsClient}
    {response : DownloadBlockResponse} {task : TransportTask} {block : BlockInfo}
    (hlookup : client.downloadTasks.lookup response.ino = some task)
    (hblock : task.blocks.lookup response.blockId = some block) (other : ℕ) :
    (client.handleDownloadBlockResponse response).downloadTasks.lookup other =
      if other = response.ino then
        some { task with blocks := task.blocks.insert response.blockId block }
      else
        client.downloadTasks.lookup other := by
  unfold VosfsClient.handleDownloadBlockResponse
  simp only [VosfsClient.taskAt_of_lookup hlookup, VosfsClient.blockAt_of_lookup hblock]
  exact lookup_insert_eq ..

theorem Sound.downloadBlockResponse {response : DownloadBlockResponse} (h : s.Sound)
    (horderly : s.Orderly (.downloadBlockResponse true response))
    (hstep : s.step (.downloadBlockResponse true response) = some s') :
    s'.Sound ∧ s.KeepsMissing s' ∧ s.MakesNoTask s' := by
  have hrequested : (response.ino, response.blockId) ∈ s.requested := horderly rfl
  obtain ⟨task, htask, block, hblock, hne⟩ :=
    h.outstanding _ (List.mem_append_left _ hrequested)
  have hlookup := handleDownloadBlockResponse_lookup htask hblock
  have hsame : Same (task.blocks.insert response.blockId block) task.blocks :=
    same_insert_self hblock
  simp only [step, if_true] at hstep
  cases hstep
  refine ⟨?_, h.keepsMissing hlookup fun old hold => ?_, makesNoTask_of_lookup hlookup htask⟩
  · have hpending : ∀ other, pending (if response.statusCode = .ok then
        s.handlers ++ [⟨response.ino, response.blockId, false, true⟩] else s.handlers) other =
          pending s.handlers other := by
      intro other
      split
      next => exact pending_append_new ..
      next => rfl
    have hsub := outstanding_answer s.handlers hrequested (response.statusCode = .ok)
    refine h.update _ _ s.writes hlookup ?_ (fun found hfound hzero => ?_)
      (fun other _ => hpending other) (fun _ hwrite _ => hwrite) (fun pair hpair => ?_)
      (nodup_of_subperm hsub h.nodup)
    · rw [hpending]
      exact (h.memory htask).congr rfl rfl rfl hsame
    · obtain ⟨blockId, hfound'⟩ := mem_values.mp hfound
      rw [hsame] at hfound'
      exact h.written htask found (mem_values.mpr ⟨blockId, hfound'⟩) hzero
    · have hpair' := hsub.subset hpair
      split
      next heq =>
        obtain ⟨old, hold, hmissing⟩ := h.outstanding pair hpair'
        obtain rfl := Option.some.inj (hold.symm.trans (heq ▸ htask))
        exact hmissing.congr hsame
      next => exact hpair'
  · obtain rfl := Option.some.inj (hold.symm.trans htask)
    exact .of_same (h.memory htask).keyed rfl hsame

/-! ### Writing a block -/

/-- A handler that has not written its block, and the other blocks. -/
theorem outstanding_erase (requested : List (ℕ × ℕ)) {handlers : List Handler} {handler : Handler}
    (hmem : handler ∈ handlers) (hplace : handler.inPlace = true)
    (hopen : handler.written = false) :
    (Downloads.outstanding requested handlers).Perm
      ((handler.ino, handler.blockId) ::
        Downloads.outstanding requested (handlers.erase handler)) := by
  have hsplit := opened_erase hmem
  rw [opened_cons, hplace, hopen] at hsplit
  exact (hsplit.append_left requested).trans List.perm_middle

theorem Sound.write {handler : Handler} (h : s.Sound) (hstep : s.step (.write handler) = some s') :
    s'.Sound ∧ s.KeepsMissing s' := by
  simp only [step] at hstep
  split at hstep
  next hhandler =>
    obtain ⟨hmem, hplace, hopen⟩ := hhandler
    rw [Bool.not_eq_true'] at hopen
    -- the block the handler writes is outstanding once, so no other answer for it is left
    have hperm := outstanding_erase s.requested hmem hplace hopen
    obtain ⟨hfresh, hnodup⟩ := List.nodup_cons.mp (hperm.nodup_iff.mp h.nodup)
    obtain ⟨task, htask, block, hblock, hne⟩ :=
      h.outstanding _ (hperm.symm.subset List.mem_cons_self)
    have htaskAt := VosfsClient.taskAt_of_lookup htask
    have hlookup : ∀ other, (s.client.handleDownloadBlockResponseWritten handler.ino
        handler.blockId).downloadTasks.lookup other =
          if other = handler.ino then some (task.withWritten handler.blockId)
          else s.client.downloadTasks.lookup other := by
      intro other
      unfold VosfsClient.handleDownloadBlockResponseWritten
      simp only [htaskAt]
      exact lookup_insert_eq ..
    have hpending := pending_write hmem hplace hopen
    have hwrites : Downloads.written s.client handler.ino handler.blockId =
        ⟨task.localPath, block.offset, handler.ino, handler.blockId⟩ := by
      rw [Downloads.written, htaskAt, VosfsClient.blockAt_of_lookup hblock]
    have hkeyed := (h.memory htask).keyed
    have hid := hkeyed hblock
    cases hstep
    refine ⟨h.update _ s.requested _ hlookup ?_ (fun found hfound hzero => ?_)
      (fun other hother => ?_) (fun write hwrite _ => List.mem_append_left _ hwrite)
      (fun pair hpair => ?_) ?_, h.keepsMissing hlookup fun old hold => ?_⟩
    · -- the block is written, and its handler has yet to count it
      rw [hpending, if_pos rfl]
      exact (h.memory htask).withWritten hblock hne
    · rw [TransportTask.withWritten_eq hblock] at hfound ⊢
      obtain ⟨blockId, hfound'⟩ := mem_values.mp hfound
      rw [lookup_insert_eq] at hfound'
      split_ifs at hfound' with heq
      · cases hfound'
        refine List.mem_append_right _ (List.mem_singleton.mpr (Eq.trans ?_ hwrites.symm))
        exact congrArg (Write.mk task.localPath block.offset handler.ino) hid
      · exact List.mem_append_left _ (h.written htask found (mem_values.mpr ⟨_, hfound'⟩) hzero)
    · rw [hpending, if_neg hother, Nat.add_zero]
    · rw [Downloads.outstanding, opened_write] at hpair
      have hold := hperm.symm.subset (List.mem_cons_of_mem _ hpair)
      split
      next heq =>
        obtain ⟨old, hlookup', found, hfound, hlacks⟩ := h.outstanding pair hold
        obtain rfl := Option.some.inj (hlookup'.symm.trans (heq ▸ htask))
        refine ⟨found, ?_, hlacks⟩
        have hother : pair.2 ≠ handler.blockId := by
          intro hsame
          have heq' : pair = (handler.ino, handler.blockId) := Prod.ext heq hsame
          exact hfresh (heq' ▸ hpair)
        rw [TransportTask.withWritten_eq hblock, lookup_insert_eq, if_neg hother]
        exact hfound
      next => exact hold
    · rw [Downloads.outstanding, opened_write]
      exact hnodup
    · obtain rfl := Option.some.inj (hold.symm.trans htask)
      rw [TransportTask.withWritten_eq hblock]
      refine .of_lookup hkeyed rfl fun {blockId found} hfound => ?_
      dsimp only
      rw [lookup_insert_eq]
      split_ifs with heq
      · subst heq
        obtain rfl := Option.some.inj (hfound.symm.trans hblock)
        exact ⟨_, rfl, rfl⟩
      · exact ⟨found, hfound, rfl⟩
  next => cases hstep

theorem Sound.failToWrite {handler : Handler} (h : s.Sound)
    (hstep : s.step (.failToWrite handler) = some s') : s'.Sound ∧ s.KeepsMissing s' := by
  simp only [step] at hstep
  split at hstep
  next hhandler =>
    obtain ⟨hmem, hplace, hopen⟩ := hhandler
    rw [Bool.not_eq_true'] at hopen
    have hperm := outstanding_erase s.requested hmem hplace hopen
    have hpending : ∀ ino, pending (s.handlers.erase handler) ino = pending s.handlers ino := by
      intro ino
      rw [pending_erase hmem, hopen]
      simp
    cases hstep
    refine ⟨⟨fun ino task hlookup => ?_, h.written, h.saved, fun pair hpair => ?_, ?_,
      fun ino hnone => (hpending ino).trans (h.placed ino hnone)⟩, h.keepsMissing_of_eq rfl⟩
    · dsimp only
      rw [hpending]
      exact h.memory hlookup
    · exact h.outstanding pair (hperm.symm.subset (List.mem_cons_of_mem _ hpair))
    · exact (List.nodup_cons.mp (hperm.nodup_iff.mp h.nodup)).2
  next => cases hstep

/-! ### Counting a block -/

theorem handleDownloadBlockResponseLocked_eq {client : VosfsClient} {ino : ℕ} {task : TransportTask}
    (hlookup : client.downloadTasks.lookup ino = some task) :
    (client.handleDownloadBlockResponseLocked ino).downloadTasks =
      let counted := { task with doneBlocks := task.doneBlocks + 1 }
      if counted.totalBlocks ≤ counted.doneBlocks then
        (client.downloadTasks.insert ino counted).erase task.ino
      else
        client.downloadTasks.insert ino counted := by
  simp only [VosfsClient.handleDownloadBlockResponseLocked, VosfsClient.taskAt_of_lookup hlookup]

/-- The handlers that are left keep their tasks, as far as anybody waits to count. -/
theorem Sound.pending_displace {handlers : List Handler} {client : VosfsClient} {ino : ℕ}
    (h : s.Sound) (hother : pending handlers ino = pending s.handlers ino)
    (hkept : s.client.downloadTasks.lookup ino ≠ none → client.downloadTasks.lookup ino ≠ none) :
    pending (displace (fun ino => ino ∉ client.downloadTasks) handlers) ino =
      pending s.handlers ino := by
  by_cases hmem : ino ∈ client.downloadTasks
  · rw [Downloads.pending_displace (by simpa using hmem), hother]
  · rw [pending_displace_gone (by simpa using hmem)]
    refine (h.placed ino ?_).symm
    by_contra hsome
    exact hmem (AList.lookup_eq_none.not_left.mp (hkept hsome))

section Count

variable {handlers : List Handler} {client : VosfsClient} {ino : ℕ} {task : TransportTask}

theorem outstanding_displace (client : VosfsClient)
    (hopened : (opened handlers).Sublist (opened s.handlers)) :
    (Downloads.outstanding s.requested (displace (fun ino => ino ∉ client.downloadTasks)
      handlers)).Sublist (Downloads.outstanding s.requested s.handlers) :=
  ((opened_displace_sublist _ _).trans hopened).append_left _

/-- A task of which nothing is missing is dropped. -/
theorem Sound.drop (h : s.Sound) (htask : s.client.downloadTasks.lookup ino = some task)
    (hzero : ∀ block ∈ task.blocks.values, block.remaingTimes = 0)
    (hlookup : ∀ other, client.downloadTasks.lookup other =
      if other = ino then none else s.client.downloadTasks.lookup other)
    (hothers : ∀ other ≠ ino, pending handlers other = pending s.handlers other)
    (hopened : (opened handlers).Sublist (opened s.handlers)) :
    Sound { s with
      client := client
      handlers := displace (fun ino => ino ∉ client.downloadTasks) handlers } ∧
    s.KeepsMissing { s with
      client := client
      handlers := displace (fun ino => ino ∉ client.downloadTasks) handlers } := by
  have hblocks := outstanding_displace client hopened
  refine ⟨⟨fun other found hfound => ?_, fun other found hfound => ?_, h.saved,
    fun pair hpair => ?_, h.nodup.sublist hblocks, fun other hnone => ?_⟩,
    fun other found hfound => ?_⟩
  · dsimp only at hfound ⊢
    rw [hlookup] at hfound
    split_ifs at hfound with heq
    rw [h.pending_displace (hothers other heq) fun hold => by rwa [hlookup, if_neg heq]]
    exact h.memory hfound
  · dsimp only at hfound
    rw [hlookup] at hfound
    split_ifs at hfound
    exact h.written hfound
  · obtain ⟨old, hold, block, hblock, hne⟩ := h.outstanding pair (hblocks.subset hpair)
    by_cases heq : pair.1 = ino
    · obtain rfl := Option.some.inj (hold.symm.trans (heq ▸ htask))
      exact absurd (hzero block (mem_values.mpr ⟨_, hblock⟩)) hne
    · refine ⟨old, ?_, block, hblock, hne⟩
      dsimp only
      rw [hlookup, if_neg heq]
      exact hold
  · dsimp only at hnone ⊢
    rw [pending_displace_gone]
    exact decide_eq_true (AList.lookup_eq_none.mp hnone)
  · by_cases heq : other = ino
    · subst heq
      obtain rfl := Option.some.inj (hfound.symm.trans htask)
      exact Or.inr fun block hblock => h.written htask block hblock (hzero block hblock)
    · refine Or.inl ⟨found, ?_, .of_same (h.memory hfound).keyed rfl (.refl _)⟩
      dsimp only
      rw [hlookup, if_neg heq]
      exact hfound

/-- A block is counted. -/
theorem Sound.count (h : s.Sound) (htask : s.client.downloadTasks.lookup ino = some task)
    (hcounted : ({ task with doneBlocks := task.doneBlocks + 1 } : TransportTask).Downloading ino
      (pending handlers ino))
    (hlookup : ∀ other, client.downloadTasks.lookup other =
      if other = ino then some { task with doneBlocks := task.doneBlocks + 1 }
      else s.client.downloadTasks.lookup other)
    (hothers : ∀ other ≠ ino, pending handlers other = pending s.handlers other)
    (hopened : (opened handlers).Sublist (opened s.handlers)) :
    Sound { s with
      client := client
      handlers := displace (fun ino => ino ∉ client.downloadTasks) handlers } ∧
    s.KeepsMissing { s with
      client := client
      handlers := displace (fun ino => ino ∉ client.downloadTasks) handlers } := by
  have hblocks := outstanding_displace client hopened
  have hwrites := h.written htask
  refine ⟨h.update _ s.requested s.writes hlookup ?_ hwrites
    (fun other hne => h.pending_displace (hothers other hne)
      fun hold => by rwa [hlookup, if_neg hne])
    (fun _ hwrite _ => hwrite) (fun pair hpair => ?_) (h.nodup.sublist hblocks),
    h.keepsMissing hlookup fun old hold => ?_⟩
  · rw [Downloads.pending_displace (by simp [← AList.lookup_isSome, hlookup])]
    exact hcounted
  · have hold := hblocks.subset hpair
    split
    next heq =>
      obtain ⟨old, hfound, hmissing⟩ := h.outstanding pair hold
      obtain rfl := Option.some.inj (hfound.symm.trans (heq ▸ htask))
      exact hmissing
    next => exact hold
  · obtain rfl := Option.some.inj (hold.symm.trans htask)
    exact .of_same (h.memory htask).keyed rfl (.refl _)

end Count

theorem Sound.finish {handler : Handler} (h : s.Sound)
    (hstep : s.step (.finish handler) = some s') : s'.Sound ∧ s.KeepsMissing s' := by
  simp only [step] at hstep
  split at hstep
  next hhandler =>
    obtain ⟨hmem, hplace, hwritten⟩ := hhandler
    have hpending := pending_count hmem hplace hwritten
    have hothers : ∀ other ≠ handler.ino,
        pending (s.handlers.erase handler) other = pending s.handlers other := by
      intro other hne
      rw [hpending, if_neg hne, Nat.add_zero]
    have hopened : (opened (s.handlers.erase handler)).Sublist (opened s.handlers) :=
      (List.erase_sublist.filter _).map _
    obtain ⟨task, htask⟩ : ∃ task, s.client.downloadTasks.lookup handler.ino = some task := by
      by_contra hnone
      rw [← Option.isSome_iff_exists, Option.not_isSome_iff_eq_none] at hnone
      have hzero := h.placed _ hnone
      rw [hpending, if_pos rfl] at hzero
      omega
    have hdownloading := h.memory htask
    rw [hpending, if_pos rfl] at hdownloading
    have hlocked := handleDownloadBlockResponseLocked_eq htask
    cases hstep
    generalize s.client.handleDownloadBlockResponseLocked handler.ino = client at hlocked
    by_cases hdone : task.totalBlocks ≤ task.doneBlocks + 1
    · -- the task is dropped: nothing is missing, and nobody waits to count
      simp only [hdone, if_true, hdownloading.named] at hlocked
      refine h.drop htask (hdownloading.counted.complete hdone).2 (fun other => ?_) hothers hopened
      rw [hlocked]
      split
      next heq => rw [heq, AList.lookup_erase]
      next hne => rw [AList.lookup_erase_ne hne, AList.lookup_insert_ne hne]
    · simp only [hdone, if_false] at hlocked
      refine h.count htask hdownloading.counted (fun other => ?_) hothers hopened
      rw [hlocked]
      exact lookup_insert_eq ..
  next => cases hstep

/-! ### A new task -/

/-- The blocks that are requested for a task lack their data. -/
theorem missing_of_requested {ino ahead : ℕ} {task : TransportTask}
    (h : task.Downloading ino ahead) {pair : ℕ × ℕ}
    (hpair : pair ∈ requestedBlocks (VosfsClient.downloadOrders task)) :
    pair.1 = ino ∧ Missing task pair.2 := by
  obtain ⟨block, hblock, rfl⟩ :=
    List.mem_map.mp ((requestedBlocks_downloadOrders task).subset hpair)
  obtain ⟨hmem, hne⟩ := List.mem_filter.mp hblock
  exact ⟨h.blocks block hmem, block, h.keyed.lookup_of_mem hmem, by simpa using hne⟩

theorem nodup_requested {ino ahead : ℕ} {task : TransportTask} (h : task.Downloading ino ahead) :
    (requestedBlocks (VosfsClient.downloadOrders task)).Nodup :=
  (nodup_blockKeys h.keyed).sublist
    ((requestedBlocks_downloadOrders task).trans ((List.filter_sublist).map _))

theorem Sound.newTask {task : TransportTask} (h : s.Sound)
    (hfresh : task.ino ∉ s.client.downloadTasks)
    (hnew : task.Downloading task.ino 0)
    (hmissing : ∀ block ∈ task.blocks.values, block.remaingTimes ≠ 0)
    {client : VosfsClient} {requested : List (ℕ × ℕ)} {writes : List Write}
    (hclient : client.downloadTasks = s.client.downloadTasks.emplace task.ino task)
    (hrequested : requested = s.requested ++ requestedBlocks (VosfsClient.downloadOrders task))
    (hwrites : ∀ write ∈ s.writes, write.ino ≠ task.ino → write ∈ writes) :
    Sound { s with client := client, requested := requested, writes := writes } ∧
      s.KeepsMissing { s with client := client, requested := requested, writes := writes } := by
  have hnone := AList.lookup_eq_none.mpr hfresh
  have hlookup : ∀ other, client.downloadTasks.lookup other =
      if other = task.ino then some task else s.client.downloadTasks.lookup other := by
    intro other
    rw [hclient, lookup_emplace]
    exact if_congr (and_iff_left hnone) rfl rfl
  -- blocks already outstanding belong to tasks in memory, the new one is not among them
  have hold : ∀ pair ∈ Downloads.outstanding s.requested s.handlers, pair.1 ≠ task.ino := by
    intro pair hpair heq
    obtain ⟨found, hfound, -⟩ := h.outstanding pair hpair
    rw [heq, hnone] at hfound
    cases hfound
  have hperm : (Downloads.outstanding requested s.handlers).Perm
      (Downloads.outstanding s.requested s.handlers ++
        requestedBlocks (VosfsClient.downloadOrders task)) := by
    rw [hrequested, Downloads.outstanding, Downloads.outstanding, List.append_assoc,
      List.append_assoc]
    exact List.perm_append_comm.append_left _
  refine ⟨h.update s.handlers requested writes hlookup ?_ (fun block hblock hzero => ?_)
    (fun _ _ => rfl) hwrites (fun pair hpair => ?_) ?_, h.keepsMissing hlookup fun old hfound => ?_⟩
  · rw [h.placed _ hnone]
    exact hnew
  · exact absurd hzero (hmissing block hblock)
  · rcases List.mem_append.mp (hperm.subset hpair) with hbefore | hafter
    · rw [if_neg (hold pair hbefore)]
      exact hbefore
    · obtain ⟨hino, hlacks⟩ := missing_of_requested hnew hafter
      rw [if_pos hino]
      exact hlacks
  · refine hperm.nodup_iff.mpr (h.nodup.append (nodup_requested hnew) fun pair hbefore hafter => ?_)
    exact hold pair hbefore (missing_of_requested hnew hafter).1
  · rw [hnone] at hfound
    cases hfound

/-- Another client with the same tasks. -/
theorem Sound.of_client (h : s.Sound) {client : VosfsClient}
    (heq : client.downloadTasks = s.client.downloadTasks) : Sound { s with client := client } where
  memory _ _ hlookup := h.memory (heq ▸ hlookup)
  written _ _ hlookup := h.written (heq ▸ hlookup)
  saved := h.saved
  outstanding pair hpair := heq ▸ h.outstanding pair hpair
  nodup := h.nodup
  placed ino hnone := h.placed ino (heq ▸ hnone)

theorem Sound.prepareDownloadFileResponse {status : Bool} {response : PrepareDownloadFileResponse}
    (h : s.Sound) (horderly : s.Orderly (.prepareDownloadFileResponse status response))
    (hstep : s.step (.prepareDownloadFileResponse status response) = some s') :
    s'.Sound ∧ s.KeepsMissing s' := by
  obtain ⟨client, hclient, rfl⟩ := Option.map_eq_some_iff.mp hstep
  -- a response that brings no task
  have hnothing : client.tasks = s.client.tasks → client.downloadTasks = s.client.downloadTasks →
      { s with
        client := client
        requested := s.requested ++ requestedBlocks (client.tasks.drop s.client.tasks.length)
        writes := s.writes.filter fun write =>
          write.ino ∈ s.client.downloadTasks ∨ write.ino ∉ client.downloadTasks } =
        ({ s with client := client } : Downloads) := by
    intro htasks hdownloads
    rw [htasks, hdownloads, List.drop_length]
    simp [requestedBlocks, em]
  unfold VosfsClient.handlePrepareDownloadFileResponse at hclient
  split at hclient
  next =>
    cases hclient
    rw [hnothing rfl rfl]
    exact ⟨h, h.keepsMissing_of_eq rfl⟩
  next hstatus =>
    split at hclient
    next =>
      obtain ⟨leaderId, -, rfl⟩ := Option.map_eq_some_iff.mp hclient
      rw [hnothing rfl rfl]
      exact ⟨h.of_client rfl, h.keepsMissing_of_eq rfl⟩
    next =>
      split at hclient
      next hok =>
        obtain ⟨task, htask, rfl⟩ := Option.map_eq_some_iff.mp hclient
        obtain ⟨first, hfirst, htask'⟩ := Option.map_eq_some_iff.mp htask
        have hino : task.ino = first.ino := htask' ▸ rfl
        obtain ⟨hfresh, hblocks⟩ := horderly ⟨by simpa using hstatus, hok⟩ first hfirst
        rw [← hino] at hfresh hblocks
        obtain ⟨hnew, hmissing, hless⟩ := TransportTask.downloading_ofResponse htask hblocks
        have hdownloads : (s.client.doDownloadTask task).downloadTasks =
          s.client.downloadTasks := by
          simp only [VosfsClient.doDownloadTask, not_le.mpr hless, if_false]
          split <;> rfl
        refine h.newTask hfresh hnew hmissing ?_ ?_ fun write hwrite hne => ?_
        · dsimp only
          rw [hdownloads]
        · dsimp only
          rw [VosfsClient.tasks_doDownloadTask, List.drop_left]
        · refine List.mem_filter.mpr ⟨hwrite, decide_eq_true ?_⟩
          dsimp only
          rw [hdownloads, mem_emplace, not_or]
          exact (em _).imp_right fun hold => ⟨hne, hold⟩
      next =>
        cases hclient
        rw [hnothing rfl rfl]
        exact ⟨h, h.keepsMissing_of_eq rfl⟩

/-! ### Saving and loading -/

theorem Sound.savedTasks (h : s.Sound) :
    ∃ tasks : UnorderedMap ℕ TransportTask,
      (s.client.savedTasks s.files).downloadTasks = tasks.values.map TransportTask.toJson ∧
      ∀ ⦃ino task⦄, tasks.lookup ino = some task → task.Downloading ino 0 := by
  rcases s.client.savedTasks_cases s.files with hnone | hsome
  · rw [hnone]
    exact ⟨∅, rfl, fun ino task hlookup => absurd hlookup lookup_empty_ne⟩
  · exact h.saved hsome

/-- What is loaded is what was saved, up to the order of the blocks. -/
theorem Sound.reloads (h : s.Sound) :
    ∃ tasks : UnorderedMap ℕ TransportTask,
      (s.client.savedTasks s.files).downloadTasks = tasks.values.map TransportTask.toJson ∧
      (∀ ino, (s.client.loadTransportTasksJson s.files).1.downloadTasks.lookup ino =
        (tasks.lookup ino).map fun task => TransportTask.ofJson task.toJson) ∧
      ∀ ⦃ino task⦄, tasks.lookup ino = some task → task.Downloading ino 0 ∧
        Same (TransportTask.ofJson task.toJson).blocks task.blocks ∧
        (TransportTask.ofJson task.toJson).Downloading ino 0 := by
  obtain ⟨tasks, hsaved, hdownloading⟩ := h.savedTasks
  refine ⟨tasks, hsaved, fun ino => ?_, fun ino task hlookup => ?_⟩
  · simp only [VosfsClient.loadTransportTasksJson, hsaved]
    exact lookup_tasksOf (fun ino task hlookup => (hdownloading hlookup).named) ino
  · have hsame := same_blocks_ofJson (hdownloading hlookup).keyed
    exact ⟨hdownloading hlookup, hsame, (hdownloading hlookup).congr rfl rfl rfl hsame⟩

/-- The blocks that are requested for many tasks. -/
theorem nodup_requested_flatMap {tasks : List TransportTask}
    (hinos : (tasks.map TransportTask.ino).Nodup)
    (htasks : ∀ task ∈ tasks, task.Downloading task.ino 0) :
    (requestedBlocks (tasks.flatMap VosfsClient.downloadOrders)).Nodup := by
  rw [requestedBlocks, List.filterMap_flatMap, List.nodup_flatMap]
  refine ⟨fun task htask => nodup_requested (htasks task htask), ?_⟩
  refine (List.pairwise_map.mp hinos).imp_of_mem fun {task task'} htask htask' hne => ?_
  intro pair hpair hpair'
  exact hne ((missing_of_requested (htasks task htask) hpair).1.symm.trans
    (missing_of_requested (htasks task' htask') hpair').1)

/-- The blocks that are requested for saved tasks. -/
theorem requested_saved {tasks : UnorderedMap ℕ TransportTask}
    (htasks : ∀ ⦃ino task⦄, tasks.lookup ino = some task →
      (TransportTask.ofJson task.toJson).Downloading ino 0) :
    (requestedBlocks (((tasks.values.map TransportTask.toJson).map
      TransportTask.ofJson).flatMap VosfsClient.downloadOrders)).Nodup ∧
    ∀ pair ∈ requestedBlocks (((tasks.values.map TransportTask.toJson).map
        TransportTask.ofJson).flatMap VosfsClient.downloadOrders),
      ∃ task, tasks.lookup pair.1 = some task ∧
        Missing (TransportTask.ofJson task.toJson) pair.2 := by
  have hfound : ∀ task ∈ (tasks.values.map TransportTask.toJson).map TransportTask.ofJson,
      ∃ ino found, tasks.lookup ino = some found ∧ TransportTask.ofJson found.toJson = task := by
    intro task htask
    obtain ⟨json, hjson, rfl⟩ := List.mem_map.mp htask
    obtain ⟨found, hvalue, rfl⟩ := List.mem_map.mp hjson
    obtain ⟨ino, hlookup⟩ := mem_values.mp hvalue
    exact ⟨ino, found, hlookup, rfl⟩
  refine ⟨nodup_requested_flatMap ?_ fun task htask => ?_, fun pair hpair => ?_⟩
  · have hkeyed : Keyed TransportTask.ino tasks := fun ino task hlookup => (htasks hlookup).named
    have hinos : ((tasks.values.map TransportTask.toJson).map TransportTask.ofJson).map
        TransportTask.ino = tasks.values.map TransportTask.ino := by
      rw [List.map_map, List.map_map]
      rfl
    rw [hinos, hkeyed.map_values]
    exact tasks.keys_nodup
  · obtain ⟨ino, found, hlookup, rfl⟩ := hfound task htask
    have hdownloading := htasks hlookup
    rwa [hdownloading.named]
  · rw [requestedBlocks, List.filterMap_flatMap] at hpair
    obtain ⟨task, htask, hpair⟩ := List.mem_flatMap.mp hpair
    obtain ⟨ino, found, hlookup, rfl⟩ := hfound task htask
    obtain ⟨rfl, hmissing⟩ := missing_of_requested (htasks hlookup) hpair
    exact ⟨found, hlookup, hmissing⟩

/-- The blocks that are requested when the tasks are loaded. -/
theorem requestedBlocks_loadTasks (s : Downloads) :
    requestedBlocks ((s.client.loadTransportTasksJson s.files).1.tasks.drop s.client.tasks.length) =
      requestedBlocks (((s.client.savedTasks s.files).downloadTasks.map
        TransportTask.ofJson).flatMap VosfsClient.downloadOrders) := by
  rw [VosfsClient.tasks_loadTransportTasksJson, List.drop_left, requestedBlocks_append]
  have hnone : requestedBlocks (((s.client.savedTasks s.files).uploadTasks.map
      TransportTask.ofJson).flatMap VosfsClient.uploadOrders) = [] := by
    rw [requestedBlocks, List.filterMap_flatMap, List.flatMap_eq_nil_iff]
    exact fun task _ => requestedBlocks_uploadOrders task
  rw [hnone, List.nil_append]

theorem Sound.loadTasks (h : s.Sound) (horderly : s.Orderly .loadTasks)
    (hstep : s.step .loadTasks = some s') : s'.Sound ∧ s.KeepsMissing s' := by
  obtain ⟨tasks, hsaved, hlookups, htasks⟩ := h.reloads
  obtain ⟨hnodup, houtstanding⟩ := requested_saved fun ino task hlookup => (htasks hlookup).2.2
  simp only [step] at hstep
  split at hstep
  next =>
    cases hstep
    rw [requestedBlocks_loadTasks, hsaved]
    refine ⟨⟨fun ino task hlookup => ?_, fun ino task hlookup block hblock hzero => ?_,
      fun path saved hpath => ?_, fun pair hpair => ?_, ?_,
      fun ino _ => pending_displace_all _ ino⟩, fun ino task hlookup => ?_⟩
    · obtain ⟨found, hfound, rfl⟩ := Option.map_eq_some_iff.mp ((hlookups ino).symm.trans hlookup)
      dsimp only
      rw [pending_displace_all]
      exact (htasks hfound).2.2
    · obtain ⟨found, hfound, rfl⟩ := Option.map_eq_some_iff.mp ((hlookups ino).symm.trans hlookup)
      obtain ⟨hdownloading, hsame, -⟩ := htasks hfound
      obtain ⟨blockId, hblock'⟩ := mem_values.mp hblock
      rw [hsame] at hblock'
      obtain rfl := hdownloading.named
      refine horderly.2 found.toJson ?_ block (mem_values.mpr ⟨blockId, hblock'⟩) hzero
      exact hsaved ▸ List.mem_map_of_mem (mem_values.mpr ⟨_, hfound⟩)
    · rcases VosfsClient.saved_of_load hpath with hbefore | rfl
      · exact h.saved hbefore
      · exact ⟨tasks, hsaved, fun ino task hlookup => (htasks hlookup).1⟩
    · dsimp only [Downloads.outstanding] at hpair ⊢
      rw [opened_displace_all, List.append_nil] at hpair
      obtain ⟨found, hfound, hmissing⟩ := houtstanding pair hpair
      exact ⟨_, (hlookups pair.1).trans (congrArg _ hfound), hmissing⟩
    · dsimp only [Downloads.outstanding]
      rw [opened_displace_all, List.append_nil]
      exact hnodup
    · -- the file has the task with the same target, or all its blocks are written
      rcases horderly.1 (ino, task) (mem_pairs.mpr hlookup) with
        ⟨json, hjson, hino, htarget⟩ | hdone
      · rw [hsaved] at hjson
        obtain ⟨found, hvalue, rfl⟩ := List.mem_map.mp hjson
        obtain ⟨key, hfound⟩ := mem_values.mp hvalue
        obtain rfl : key = ino := (htasks hfound).1.named.symm.trans hino
        exact Or.inl ⟨_, (hlookups key).trans (congrArg _ hfound), htarget⟩
      · exact Or.inr hdone
  next => cases hstep

theorem Sound.saveTasks (h : s.Sound) (hstep : s.step .saveTasks = some s') :
    s'.Sound ∧ s.KeepsMissing s' := by
  cases hstep
  refine ⟨⟨h.memory, h.written, fun path saved hpath => ?_, h.outstanding, h.nodup, h.placed⟩,
    h.keepsMissing_of_eq rfl⟩
  rcases VosfsClient.saved_of_save hpath with hbefore | rfl
  · exact h.saved hbefore
  · exact ⟨s.client.downloadTasks, rfl, fun ino task hlookup =>
      (h.memory hlookup).mono (Nat.zero_le _)⟩

/-! ### The run -/

/-- **The step lemma.** -/
theorem Sound.step {action : DownloadAction} (h : s.Sound) (horderly : s.Orderly action)
    (hstep : s.step action = some s') :
    s'.Sound ∧ (action ≠ .restart → s.KeepsMissing s') ∧
      ∀ status response, action = .downloadBlockResponse status response → s.MakesNoTask s' := by
  cases action with
  | prepareDownloadFileResponse status response =>
    obtain ⟨hsound, hkeeps⟩ := h.prepareDownloadFileResponse horderly hstep
    exact ⟨hsound, fun _ => hkeeps, nofun⟩
  | downloadBlockResponse status response =>
    cases status with
    | false =>
      cases hstep
      exact ⟨h, fun _ => h.keepsMissing_of_eq rfl, fun _ _ _ _ hmem => hmem⟩
    | true =>
      obtain ⟨hsound, hkeeps, hmakes⟩ := h.downloadBlockResponse horderly hstep
      exact ⟨hsound, fun _ => hkeeps, fun _ _ _ => hmakes⟩
  | write handler =>
    obtain ⟨hsound, hkeeps⟩ := h.write hstep
    exact ⟨hsound, fun _ => hkeeps, nofun⟩
  | failToWrite handler =>
    obtain ⟨hsound, hkeeps⟩ := h.failToWrite hstep
    exact ⟨hsound, fun _ => hkeeps, nofun⟩
  | finish handler =>
    obtain ⟨hsound, hkeeps⟩ := h.finish hstep
    exact ⟨hsound, fun _ => hkeeps, nofun⟩
  | login session =>
    cases hstep
    exact ⟨h.of_client rfl, fun _ => h.keepsMissing_of_eq rfl, nofun⟩
  | loadTasks =>
    obtain ⟨hsound, hkeeps⟩ := h.loadTasks horderly hstep
    exact ⟨hsound, fun _ => hkeeps, nofun⟩
  | saveTasks =>
    obtain ⟨hsound, hkeeps⟩ := h.saveTasks hstep
    exact ⟨hsound, fun _ => hkeeps, nofun⟩
  | restart =>
    cases hstep
    exact ⟨⟨fun _ _ hlookup => absurd hlookup lookup_empty_ne,
      fun _ _ hlookup => absurd hlookup lookup_empty_ne, h.saved, nofun, List.nodup_nil,
      fun _ _ => rfl⟩, fun hne => absurd rfl hne, nofun⟩

/-- **Tasks are dropped when they are complete.** -/
theorem downloadsComplete {action : DownloadAction}
    (hrun : Run Downloads.step Downloads.Orderly {} s)
    (horderly : s.Orderly action) (hstep : s.step action = some s') :
    (action ≠ .restart → s.KeepsMissing s') ∧
      ∀ status response, action = .downloadBlockResponse status response → s.MakesNoTask s' :=
  have hsound := hrun.invariant Downloads.Sound .initial fun h horderly hstep =>
    (h.step horderly hstep).1
  (hsound.step horderly hstep).2

/-! ### A user who logs in twice -/

/-- A user who is logged in. -/
def user : UserSession :=
  { token := "token", uid := 1 }

/-- Two blocks on one data node. -/
def prepared : PrepareDownloadFileResponse :=
  { localPath := "./file"
    remotePath := "/file"
    blocks := [{ id := 0, ino := 5, size := 8, dataNodeId := [1] },
      { id := 1, ino := 5, offset := 8, size := 8, dataNodeId := [1] }] }

/-- A data node answers with a block. -/
def answer (blockId : ℕ) : DownloadAction :=
  .downloadBlockResponse true { blockId := blockId, ino := 5, dataNodeId := 1 }

/-- Both blocks are answered, and the first one is counted. -/
def downloadOnce : List DownloadAction :=
  [.login user, .loadTasks, .prepareDownloadFileResponse true prepared, answer 1, answer 0,
    .write ⟨5, 1, false, true⟩, .write ⟨5, 0, false, true⟩, .finish ⟨5, 1, true, true⟩]

theorem downloadsComplete_downloadOnce :
    ∃ s s' task, Run Downloads.step Downloads.Orderly {} s ∧
      s.step (.finish ⟨5, 0, true, true⟩) = some s' ∧
      s.client.downloadTasks.lookup 5 = some task ∧
      s'.client.downloadTasks.lookup 5 = none ∧ Complete s'.writes 5 task := by
  obtain ⟨s, s', hrun, hstep, hcheck⟩ := Run.exists_step_of_exec Downloads.step Downloads.Orderly {}
    downloadOnce (.finish ⟨5, 0, true, true⟩)
    (fun s s' => decide ((s.client.downloadTasks.lookup (5 : ℕ)).isSome = true ∧
      s'.client.downloadTasks.keys = [])) (by decide)
  obtain ⟨hsome, hkeys⟩ := of_decide_eq_true hcheck
  obtain ⟨task, htask⟩ := Option.isSome_iff_exists.mp hsome
  have hnone : s'.client.downloadTasks.lookup 5 = none := by
    rw [AList.lookup_eq_none, AList.mem_keys, hkeys]
    exact List.not_mem_nil
  have hkeeps := (@downloadsComplete s s' (.finish ⟨5, 0, true, true⟩) hrun rfl hstep).1 nofun
  refine ⟨s, s', task, hrun, hstep, htask, hnone, (hkeeps 5 task htask).resolve_left ?_⟩
  rintro ⟨task', htask', -⟩
  rw [hnone] at htask'
  cases htask'

/-- The task is saved and loaded again, and block 0 is answered twice. -/
def downloadTwice : List DownloadAction :=
  [.login user, .loadTasks, .prepareDownloadFileResponse true prepared, .saveTasks, .login user,
    .loadTasks, answer 0, .write ⟨5, 0, false, true⟩, .finish ⟨5, 0, true, true⟩, answer 0,
    .write ⟨5, 0, false, true⟩]

/-- The second answer drops the task without block 1, and the answer for block 1 makes a new
one. -/
theorem exists_dropped_incomplete :
    ∃ s s' s'', Run Downloads.step (fun _ _ => True) {} s ∧
      s.client.tasks.count (.sendDownloadBlockRequest 0 5 1) = 2 ∧
      s.step (.finish ⟨5, 0, true, true⟩) = some s' ∧ ¬ s.KeepsMissing s' ∧
      s'.step (answer 1) = some s'' ∧ ¬ s'.MakesNoTask s'' := by
  obtain ⟨s, s', hrun, hstep, hcheck⟩ := Run.exists_step_of_exec Downloads.step (fun _ _ => True) {}
    downloadTwice (.finish ⟨5, 0, true, true⟩)
    (fun s s' => decide (s.client.tasks.count (.sendDownloadBlockRequest 0 5 1) = 2 ∧
      s'.client.downloadTasks.keys = [] ∧
      (∃ task ∈ s.client.downloadTasks.lookup (5 : ℕ), ¬ Complete s'.writes 5 task) ∧
      ∃ s'' ∈ s'.step (answer 1), 5 ∈ s''.client.downloadTasks)) (by decide)
  obtain ⟨hcount, hkeys, ⟨task, htask, hmissing⟩, s'', hanswer, hmade⟩ := of_decide_eq_true hcheck
  have hgone : 5 ∉ s'.client.downloadTasks := by
    rw [AList.mem_keys, hkeys]
    exact List.not_mem_nil
  refine ⟨s, s', s'', hrun, hcount, hstep, fun hkeeps => ?_, hanswer,
    fun hnothing => hgone (hnothing 5 hmade)⟩
  rcases hkeeps 5 task htask with ⟨task', htask', -⟩ | hcomplete
  · exact hgone (mem_iff_lookup.mpr ⟨task', htask'⟩)
  · exact hmissing hcomplete

end Downloads

end Vosfs.Ui
