import Vosfs.Library.Run
import Vosfs.Ui.Client

/-!
# Uploads

For each block a task counts the answers that are missing, and for the file it counts the blocks
that are done.  Neither counter looks at who answers: an answer of the same data node for the
same block is counted again, and so is a block when one of its answers comes after the last one.
Both happen once a user has logged in again, since the requests for the tasks in the file are
sent again while the first requests are still under way.

As long as every answer comes from a data node that had not answered yet, as far as the task
knows, and no handler waits while or after a block gets its last answer (`Uploads.Orderly`), a
file is published only when all its blocks are stored, and `done_blocks` is the number of stored
blocks (`uploadsStored`).
-/

namespace Vosfs.Ui

open UnorderedMap
open Raft (PrepareUploadFileResponse UploadBlockResponse UploadFileResponse)

/-! ## The system -/

/-- A handler of a block's answer that waits for the mutex. -/
structure Waiting where
  ino : ℕ
  blockId : ℕ
  /-- The task it refers to is still where it was. -/
  inPlace : Bool := true
  deriving DecidableEq

/-- A client that uploads, with the answers it is at work on. -/
structure Uploads where
  client : VosfsClient := {}
  files : TaskFiles := fun _ => none
  waiting : List Waiting := []
  /-- History: the inode, the block and the data node of each answer `kOk`. -/
  answered : List (ℕ × ℕ × ℕ) := []

/-- A response, a handler that goes on, or what the user does. -/
inductive UploadAction
  | prepareUploadFileResponse (status : Bool) (response : PrepareUploadFileResponse)
  | uploadBlockResponse (status : Bool) (response : UploadBlockResponse) (waits : Bool)
  | resume (handler : Waiting)
  | uploadFileResponse (status : Bool) (response : UploadFileResponse)
  | login (session : UserSession)
  | loadTasks
  | saveTasks
  | restart

namespace Uploads

/-- The handlers that refer to a task that satisfies `gone` lose it. -/
def displace (gone : ℕ → Bool) (waiting : List Waiting) : List Waiting :=
  waiting.map fun handler =>
    if gone handler.ino then { handler with inPlace := false } else handler

/-- There is no step where a handler throws, or goes on with a task that is gone. -/
def step (s : Uploads) : UploadAction → Option Uploads
  | .prepareUploadFileResponse status response =>
    (s.client.handlePrepareUploadFileResponse status response).map fun client =>
      { s with client := client }
  | .uploadBlockResponse status response waits =>
    if status ∧ response.statusCode = .ok then
      let client := s.client.handleUploadBlockResponse response
      let answered := s.answered ++ [(response.ino, response.blockId, response.dataNodeId)]
      if waits then
        some { s with
          client := client
          waiting := s.waiting ++ [⟨response.ino, response.blockId, true⟩]
          answered := answered }
      else
        some { s with
          client := client.handleUploadBlockResponseLocked response.ino response.blockId
          answered := answered }
    else
      some s
  | .resume handler =>
    if handler ∈ s.waiting ∧ handler.inPlace then
      some { s with
        client := s.client.handleUploadBlockResponseLocked handler.ino handler.blockId
        waiting := s.waiting.erase handler }
    else
      none
  | .uploadFileResponse status response =>
    (s.client.handleUploadFileResponse status response).map fun client =>
      { s with
        client := client
        waiting := displace (fun ino => ino ∉ client.uploadTasks) s.waiting }
  | .login session => some { s with client := s.client.handleLoginUserByNameResponse session }
  | .loadTasks =>
    if .loadTransportTasksJson ∈ s.client.tasks then
      some { s with
        client := (s.client.loadTransportTasksJson s.files).1
        files := (s.client.loadTransportTasksJson s.files).2
        waiting := displace (fun _ => true) s.waiting }
    else
      none
  | .saveTasks => some { s with files := s.client.saveTransportTasksJson s.files }
  | .restart => some { s with client := {}, waiting := [] }

/-! ## Stored blocks, counted and published -/

/-- Every data node of the block has answered. -/
def Stored (answered : List (ℕ × ℕ × ℕ)) (ino blockId : ℕ) (block : BlockInfo) : Prop :=
  ∀ node ∈ block.dataNodeIds.keys, (ino, blockId, node) ∈ answered

instance {answered : List (ℕ × ℕ × ℕ)} {ino blockId : ℕ} {block : BlockInfo} :
    Decidable (Stored answered ino blockId block) :=
  inferInstanceAs (Decidable (∀ _ ∈ _, _))

/-- How many blocks are stored. -/
def storedBlocks (answered : List (ℕ × ℕ × ℕ)) (ino : ℕ) (task : TransportTask) : ℕ :=
  (task.blocks.keys.toFinset.filter fun blockId =>
    (task.blocks.lookup blockId).any fun block => Stored answered ino blockId block).card

/-- A task counts the blocks that are stored. -/
def CountsStored (s : Uploads) : Prop :=
  ∀ ino task, s.client.uploadTasks.lookup ino = some task →
    task.doneBlocks = storedBlocks s.answered ino task

/-- A step sets a request going. -/
def Issues (s s' : Uploads) (task : Task) : Prop :=
  ∃ new, s'.client.tasks = s.client.tasks ++ new ∧ task ∈ new

/-- A step that publishes a file finds all its blocks stored. -/
def PublishesStored (s s' : Uploads) : Prop :=
  ∀ ino, Issues s s' (.sendUploadFileRequest ino) →
    ∃ task, s'.client.uploadTasks.lookup ino = some task ∧
      ∀ blockId block, task.blocks.lookup blockId = some block →
        Stored s'.answered ino blockId block

/-! ## Orderly responses -/

/-- A block of a task in memory. -/
def block? (s : Uploads) (ino blockId : ℕ) : Option BlockInfo :=
  (s.client.uploadTasks.lookup ino).bind fun task => task.blocks.lookup blockId

/-- The data node belongs to the block and is not marked, and the block does not lack marks of
all the others. -/
def FirstAnswer (s : Uploads) (response : UploadBlockResponse) (block : BlockInfo) : Prop :=
  block.dataNodeIds.lookup response.dataNodeId = some false ∧
    (Stored s.answered response.ino response.blockId
        { block with dataNodeIds := block.dataNodeIds.erase response.dataNodeId } →
      block.remaingTimes = 1)

instance {s : Uploads} {response : UploadBlockResponse} {block : BlockInfo} :
    Decidable (s.FirstAnswer response block) :=
  inferInstanceAs (Decidable (_ ∧ _))

/-- Responses answer new requests, nothing waits for the mutex once a block has its last answer,
and what is loaded knows of all blocks that are stored. -/
def Orderly (s : Uploads) : UploadAction → Prop
  | .prepareUploadFileResponse status response =>
    status = true ∧ response.statusCode = .ok →
      ∀ first ∈ response.blocks.head?, ∀ block ∈ response.blocks, block.dataNodeId.Nodup ∧
        ∃ node ∈ block.dataNodeId, (first.ino, block.id, node) ∉ s.answered
  | .uploadBlockResponse status response waits =>
    status = true ∧ response.statusCode = .ok →
      ∃ block ∈ s.block? response.ino response.blockId, s.FirstAnswer response block ∧
        (waits = true → block.remaingTimes ≠ 1)
  | .resume handler =>
    handler.inPlace = true ∧
      ∃ block ∈ s.block? handler.ino handler.blockId, block.remaingTimes ≠ 0
  | .loadTasks =>
    ∀ task ∈ (s.client.savedTasks s.files).uploadTasks, ∀ block ∈ task.blocks,
      Stored s.answered task.ino block.id block → block.remaingTimes = 0
  | _ => True

instance {s : Uploads} : ∀ {action : UploadAction}, Decidable (s.Orderly action)
  | .prepareUploadFileResponse _ _ => inferInstanceAs (Decidable (_ → ∀ _ ∈ _, ∀ _ ∈ _, _ ∧ _))
  | .uploadBlockResponse _ _ _ => inferInstanceAs (Decidable (_ → _))
  | .resume _ => inferInstanceAs (Decidable (_ ∧ _))
  | .loadTasks => inferInstanceAs (Decidable (∀ _ ∈ _, ∀ _ ∈ _, _))
  | .uploadFileResponse _ _ | .login _ | .saveTasks | .restart => inferInstanceAs (Decidable True)

end Uploads

/-! ## Marks and counters of a task -/

/-- The counters agree with the marks, and marked data nodes have answered. -/
structure TransportTask.Consistent (answered : List (ℕ × ℕ × ℕ)) (ino : ℕ)
    (task : TransportTask) : Prop where
  named : task.ino = ino
  keyed : Keyed BlockInfo.id task.blocks
  total : task.blocks.values.length ≤ task.totalBlocks
  done : task.doneBlocks = task.blocks.values.countP fun block => block.remaingTimes = 0
  remaing : ∀ ⦃blockId block⦄, task.blocks.lookup blockId = some block →
    block.remaingTimes = block.dataNodeIds.values.countP fun done => !done
  marked : ∀ ⦃blockId block⦄, task.blocks.lookup blockId = some block →
    ∀ node, block.dataNodeIds.lookup node = some true → (ino, blockId, node) ∈ answered

/-- No stored block lacks a mark. -/
def TransportTask.UpToDate (answered : List (ℕ × ℕ × ℕ)) (ino : ℕ) (task : TransportTask) :
    Prop :=
  ∀ ⦃blockId block⦄, task.blocks.lookup blockId = some block →
    Uploads.Stored answered ino blockId block → block.remaingTimes = 0

namespace TransportTask

open Uploads (Stored storedBlocks)

variable {answered answered' : List (ℕ × ℕ × ℕ)} {ino blockId : ℕ} {task task' : TransportTask}
  {block : BlockInfo}

theorem Consistent.mono (h : task.Consistent answered ino) (hsub : answered ⊆ answered') :
    task.Consistent answered' ino where
  named := h.named
  keyed := h.keyed
  total := h.total
  done := h.done
  remaing := h.remaing
  marked _ _ hlookup node hnode := hsub (h.marked hlookup node hnode)

/-- A block without missing answers is stored. -/
theorem Consistent.stored (h : task.Consistent answered ino)
    (hlookup : task.blocks.lookup blockId = some block) (hzero : block.remaingTimes = 0) :
    Stored answered ino blockId block := by
  intro node hnode
  obtain ⟨done, hdone⟩ := mem_iff_lookup.mp (AList.mem_keys.mpr hnode)
  have hall := List.countP_eq_zero.mp ((h.remaing hlookup).symm.trans hzero) done
    (mem_values.mpr ⟨node, hdone⟩)
  have htrue : done = true := by simpa using hall
  exact h.marked hlookup node (htrue ▸ hdone)

theorem Consistent.done_eq (h : task.Consistent answered ino) (hdate : task.UpToDate answered ino) :
    task.doneBlocks = storedBlocks answered ino task := by
  rw [h.done, countP_values, storedBlocks]
  congr 1
  refine Finset.filter_congr fun blockId _ => ?_
  rw [Option.any_eq_true, Option.any_eq_true]
  refine exists_congr fun block => and_congr_right fun hlookup => ?_
  rw [decide_eq_true_iff, decide_eq_true_iff]
  exact ⟨h.stored hlookup, hdate hlookup⟩

/-- When as many blocks are done as there are, all of them are. -/
theorem Consistent.remaing_eq_zero (h : task.Consistent answered ino)
    (hdone : task.totalBlocks ≤ task.doneBlocks)
    (hlookup : task.blocks.lookup blockId = some block) : block.remaingTimes = 0 := by
  have hle := List.countP_le_length (p := fun block : BlockInfo => decide (block.remaingTimes = 0))
    (l := task.blocks.values)
  have htotal := h.total
  have hcount := h.done
  have hall := List.countP_eq_length.mp (le_antisymm hle (by omega)) block
    (mem_values.mpr ⟨blockId, hlookup⟩)
  exact of_decide_eq_true hall

/-- Nothing depends on the order of the blocks. -/
theorem Consistent.congr (h : task.Consistent answered ino) (hino : task'.ino = task.ino)
    (htotal : task'.totalBlocks = task.totalBlocks) (hdone : task'.doneBlocks = task.doneBlocks)
    (hsame : Same task'.blocks task.blocks) : task'.Consistent answered ino where
  named := hino.trans h.named
  keyed := h.keyed.congr hsame
  total := hsame.length_values ▸ htotal ▸ h.total
  done := by rw [hdone, h.done, hsame.countP_values]
  remaing blockId _ hlookup := h.remaing (hsame blockId ▸ hlookup)
  marked blockId _ hlookup := h.marked (hsame blockId ▸ hlookup)

/-! ### A new task -/

/-- No data node of a new block is marked. -/
theorem lookup_dataNodeIds_ofResponse (block : Raft.BlockInfo) (node : ℕ) :
    (BlockInfo.ofResponse block).dataNodeIds.lookup node =
      if node ∈ block.dataNodeId then some false else none := by
  simp only [BlockInfo.ofResponse]
  rw [lookup_foldl_emplace_const, AList.lookup_empty, Option.none_or]

theorem remaing_ofResponse {block : Raft.BlockInfo} (hnodup : block.dataNodeId.Nodup) :
    (BlockInfo.ofResponse block).remaingTimes =
      (BlockInfo.ofResponse block).dataNodeIds.values.countP fun done => !done := by
  have hset : ((BlockInfo.ofResponse block).dataNodeIds.keys.toFinset.filter fun node =>
      ((BlockInfo.ofResponse block).dataNodeIds.lookup node).any fun done => !done) =
        block.dataNodeId.toFinset := by
    ext node
    rw [Finset.mem_filter, List.mem_toFinset, List.mem_toFinset, ← AList.mem_keys, mem_iff_lookup,
      lookup_dataNodeIds_ofResponse]
    by_cases hmem : node ∈ block.dataNodeId <;> simp [hmem]
  rw [countP_values, hset, List.toFinset_card_of_nodup hnodup]
  rfl

/-- In a new task nothing is done, and every block lacks an answer. -/
theorem consistent_ofResponse {blocks : List Raft.BlockInfo} {localPath remotePath : String}
    (htask : TransportTask.ofResponse blocks localPath remotePath = some task)
    (hblocks : ∀ block ∈ blocks, block.dataNodeId.Nodup ∧
      ∃ node ∈ block.dataNodeId, (task.ino, block.id, node) ∉ answered) :
    task.Consistent answered task.ino ∧ task.UpToDate answered task.ino ∧
      task.doneBlocks < task.totalBlocks := by
  obtain ⟨first, hfirst, rfl⟩ := Option.map_eq_some_iff.mp htask
  have hnew : ∀ {blockId : ℕ} {block : BlockInfo},
      (blocksOf (blocks.map BlockInfo.ofResponse)).lookup blockId = some block →
        ∃ described ∈ blocks, BlockInfo.ofResponse described = block ∧ described.id = blockId := by
    intro blockId block hlookup
    rw [lookup_blocksOf] at hlookup
    obtain ⟨described, hmem, rfl⟩ := List.mem_map.mp (List.mem_of_find?_eq_some hlookup)
    have hid : (BlockInfo.ofResponse described).id = blockId := by
      simpa using List.find?_some hlookup
    exact ⟨described, hmem, rfl, hid⟩
  -- of every block the leader describes, some data node has not answered yet
  have hstored : ∀ {blockId : ℕ} {block : BlockInfo},
      (blocksOf (blocks.map BlockInfo.ofResponse)).lookup blockId = some block →
        ¬ Stored answered first.ino blockId block := by
    intro blockId block hlookup hall
    obtain ⟨described, hmem, rfl, rfl⟩ := hnew hlookup
    obtain ⟨-, node, hnode, hnone⟩ := hblocks described hmem
    refine hnone (hall node (AList.mem_keys.mp (mem_iff_lookup.mpr ⟨false, ?_⟩)))
    rw [lookup_dataNodeIds_ofResponse, if_pos hnode]
  have hlacks : ∀ {blockId : ℕ} {block : BlockInfo},
      (blocksOf (blocks.map BlockInfo.ofResponse)).lookup blockId = some block →
        block.remaingTimes ≠ 0 := by
    intro blockId block hlookup
    obtain ⟨described, hmem, rfl, rfl⟩ := hnew hlookup
    obtain ⟨-, node, hnode, -⟩ := hblocks described hmem
    exact List.length_pos_iff.mpr (List.ne_nil_of_mem hnode) |>.ne'
  refine ⟨⟨rfl, keyed_blocksOf _, ?_, ?_, fun blockId block hlookup => ?_,
    fun blockId block hlookup node hnode => ?_⟩,
    fun blockId block hlookup hall => absurd hall (hstored hlookup), ?_⟩
  · exact (length_blocksOf _).trans (List.length_map _).le
  · symm
    rw [List.countP_eq_zero]
    intro block hblock
    obtain ⟨blockId, hlookup⟩ := mem_values.mp hblock
    simpa using hlacks hlookup
  · obtain ⟨described, hmem, rfl, -⟩ := hnew hlookup
    exact remaing_ofResponse (hblocks described hmem).1
  · obtain ⟨described, -, rfl, -⟩ := hnew hlookup
    rw [lookup_dataNodeIds_ofResponse] at hnode
    split_ifs at hnode
    cases hnode
  · exact List.length_pos_iff.mpr (List.ne_nil_of_mem (List.mem_of_mem_head? hfirst))

/-! ### One more answer -/

open VosfsClient (answeredBy blockAt blockAt_of_lookup counted)

/-- The task after an answer that need not wait. -/
def withAnswer (task : TransportTask) (blockId node : ℕ) : TransportTask :=
  let block := answeredBy (blockAt task blockId) node
  counted { task with blocks := task.blocks.insert blockId block } blockId

variable {node : ℕ}

theorem withAnswer_eq (hlookup : task.blocks.lookup blockId = some block) :
    task.withAnswer blockId node =
      { task with
        doneBlocks := if (answeredBy block node).remaingTimes = 0 then task.doneBlocks + 1
          else task.doneBlocks
        blocks := task.blocks.insert blockId (answeredBy block node) } := by
  unfold withAnswer counted
  simp only [blockAt_of_lookup hlookup]
  rw [blockAt_of_lookup (AList.lookup_insert _)]
  split <;> rfl

/-- One mark more, one missing answer less. -/
theorem remaing_answeredBy (hnode : block.dataNodeIds.lookup node = some false)
    (hremaing : block.remaingTimes = block.dataNodeIds.values.countP fun done => !done) :
    block.remaingTimes = (answeredBy block node).remaingTimes + 1 ∧
      (answeredBy block node).remaingTimes =
        (answeredBy block node).dataNodeIds.values.countP fun done => !done := by
  have hcount := countP_values_insert hnode true fun done => !done
  have hmarks : (answeredBy block node).dataNodeIds = block.dataNodeIds.insert node true := rfl
  have hless : (answeredBy block node).remaingTimes =
      if 0 < block.remaingTimes then block.remaingTimes - 1 else block.remaingTimes := rfl
  have hunmarked : [false].countP (fun done => !done) = 1 := rfl
  have hmarked : [true].countP (fun done => !done) = 0 := rfl
  rw [hmarks, hless]
  split <;> omega

theorem Consistent.withAnswer (h : task.Consistent answered ino)
    (hlookup : task.blocks.lookup blockId = some block)
    (hnode : block.dataNodeIds.lookup node = some false) :
    (task.withAnswer blockId node).Consistent (answered ++ [(ino, blockId, node)]) ino := by
  obtain ⟨hless, hremaing⟩ := remaing_answeredBy hnode (h.remaing hlookup)
  have hkey := h.keyed hlookup
  rw [withAnswer_eq hlookup]
  refine ⟨h.named, h.keyed.insert hkey, ?_, ?_, ?_, ?_⟩
  · rw [length_values_insert hlookup]
    exact h.total
  · -- the block was not complete before
    have hcount := countP_values_insert hlookup (answeredBy block node)
      fun block => block.remaingTimes = 0
    have hbefore : ¬ block.remaingTimes = 0 := by omega
    simp only [List.countP_cons, List.countP_nil, hbefore, decide_false, Bool.false_eq_true,
      decide_eq_true_eq, if_false] at hcount
    dsimp only
    split_ifs at hcount ⊢ <;> rw [h.done] <;> omega
  · intro other found hfound
    rw [lookup_insert_eq] at hfound
    split_ifs at hfound
    · cases hfound
      exact hremaing
    · exact h.remaing hfound
  · intro other found hfound node' hnode'
    rw [lookup_insert_eq] at hfound
    split_ifs at hfound with heq
    · cases hfound
      subst heq
      simp only [answeredBy, lookup_insert_eq] at hnode'
      split_ifs at hnode' with hsame
      · exact List.mem_append_right _ (hsame ▸ List.mem_singleton_self _)
      · exact List.mem_append_left _ (h.marked hlookup node' hnode')
    · exact List.mem_append_left _ (h.marked hfound node' hnode')

/-- An answer for another block makes no difference to a block. -/
theorem stored_of_append {other otherBlock : ℕ} (hne : (ino, blockId) ≠ (other, otherBlock))
    (h : Stored (answered ++ [(other, otherBlock, node)]) ino blockId block) :
    Stored answered ino blockId block := by
  intro node' hnode'
  refine (List.mem_append.mp (h node' hnode')).resolve_right fun hmem => hne ?_
  have heq := List.mem_singleton.mp hmem
  rw [Prod.mk.injEq, Prod.mk.injEq] at heq
  rw [heq.1, heq.2.1]

theorem UpToDate.append {other otherBlock : ℕ} (h : task.UpToDate answered ino)
    (hne : ino ≠ other) : task.UpToDate (answered ++ [(other, otherBlock, node)]) ino :=
  fun _ _ hlookup hstored =>
    h hlookup (stored_of_append (fun heq => hne (congrArg Prod.fst heq)) hstored)

theorem UpToDate.withAnswer (hdate : task.UpToDate answered ino) (h : task.Consistent answered ino)
    (hlookup : task.blocks.lookup blockId = some block)
    (hnode : block.dataNodeIds.lookup node = some false)
    (hothers : Stored answered ino blockId
      { block with dataNodeIds := block.dataNodeIds.erase node } → block.remaingTimes = 1) :
    (task.withAnswer blockId node).UpToDate (answered ++ [(ino, blockId, node)]) ino := by
  obtain ⟨hless, -⟩ := remaing_answeredBy hnode (h.remaing hlookup)
  rw [withAnswer_eq hlookup]
  intro other found hfound hstored
  rw [lookup_insert_eq] at hfound
  split_ifs at hfound with heq
  · cases hfound
    subst heq
    have hone : block.remaingTimes = 1 := hothers fun node' hnode' => by
      obtain ⟨hne, hmem⟩ := AList.mem_erase.mp (AList.mem_keys.mpr hnode')
      have hinsert : node' ∈ block.dataNodeIds.insert node true :=
        (AList.mem_insert _).mpr (Or.inr hmem)
      refine (List.mem_append.mp (hstored node' (AList.mem_keys.mp hinsert))).resolve_right ?_
      simpa using hne
    omega
  · exact hdate hfound (stored_of_append (fun hsame => heq (congrArg Prod.snd hsame)) hstored)

end TransportTask

/-! ## The invariant -/

namespace Uploads

variable {s s' : Uploads}

/-- Tasks in memory agree with the answers, and saved tasks lag behind at most. -/
structure Sound (s : Uploads) : Prop where
  memory : ∀ ⦃ino task⦄, s.client.uploadTasks.lookup ino = some task →
    task.Consistent s.answered ino ∧ task.UpToDate s.answered ino
  saved : ∀ ⦃path saved⦄, s.files path = some saved →
    ∃ tasks : UnorderedMap ℕ TransportTask,
      saved.uploadTasks = tasks.values.map TransportTask.toJson ∧
      ∀ ⦃ino task⦄, tasks.lookup ino = some task → task.Consistent s.answered ino

theorem Sound.countsStored (h : s.Sound) : s.CountsStored :=
  fun _ _ hlookup => (h.memory hlookup).1.done_eq (h.memory hlookup).2

theorem Sound.initial : Sound {} where
  memory _ _ hlookup := absurd hlookup lookup_empty_ne
  saved _ _ hsaved := nomatch hsaved

/-! ### An answer -/

theorem exists_of_block? {ino blockId : ℕ} {block : BlockInfo}
    (hblock : block ∈ s.block? ino blockId) :
    ∃ task, s.client.uploadTasks.lookup ino = some task ∧
      task.blocks.lookup blockId = some block :=
  Option.bind_eq_some_iff.mp hblock

/-- One task changes. -/
theorem Sound.update {client : VosfsClient} {answered : List (ℕ × ℕ × ℕ)} {ino : ℕ}
    {task : TransportTask} (h : s.Sound) (waiting : List Waiting) (hsub : s.answered ⊆ answered)
    (hothers : ∀ other ≠ ino, ∀ task : TransportTask,
      task.UpToDate s.answered other → task.UpToDate answered other)
    (hlookup : ∀ other, client.uploadTasks.lookup other =
      if other = ino then some task else s.client.uploadTasks.lookup other)
    (hnew : task.Consistent answered ino ∧ task.UpToDate answered ino) :
    Sound { s with client := client, waiting := waiting, answered := answered } where
  memory other found hfound := by
    dsimp only at hfound ⊢
    rw [hlookup] at hfound
    split_ifs at hfound with heq
    · cases hfound
      exact heq ▸ hnew
    · exact ⟨(h.memory hfound).1.mono hsub, hothers other heq found (h.memory hfound).2⟩
  saved path saved hsaved := by
    obtain ⟨tasks, heq, htasks⟩ := h.saved hsaved
    exact ⟨tasks, heq, fun ino task hfound => (htasks hfound).mono hsub⟩

/-- What is done before the mutex is locked. -/
theorem handleUploadBlockResponse_spec {client : VosfsClient} {response : UploadBlockResponse}
    {task : TransportTask} {block : BlockInfo}
    (hlookup : client.uploadTasks.lookup response.ino = some task)
    (hblock : task.blocks.lookup response.blockId = some block) :
    ∃ noted : TransportTask,
      (∀ other, (client.handleUploadBlockResponse response).uploadTasks.lookup other =
        if other = response.ino then some noted else client.uploadTasks.lookup other) ∧
      (client.handleUploadBlockResponse response).tasks = client.tasks ∧
      VosfsClient.counted noted response.blockId =
        task.withAnswer response.blockId response.dataNodeId ∧
      ((VosfsClient.answeredBy block response.dataNodeId).remaingTimes ≠ 0 →
        noted = task.withAnswer response.blockId response.dataNodeId) := by
  refine ⟨{ task with
    blocks := task.blocks.insert response.blockId
      (VosfsClient.answeredBy (VosfsClient.blockAt task response.blockId) response.dataNodeId) },
    fun other => ?_, rfl, rfl, fun hne => ?_⟩
  · unfold VosfsClient.handleUploadBlockResponse
    simp only [VosfsClient.taskAt_of_lookup hlookup]
    exact lookup_insert_eq ..
  · rw [TransportTask.withAnswer_eq hblock, if_neg hne, VosfsClient.blockAt_of_lookup hblock]

/-- What is done with the mutex locked. -/
theorem handleUploadBlockResponseLocked_spec {client : VosfsClient} {ino : ℕ}
    {task : TransportTask} (blockId : ℕ) (hlookup : client.uploadTasks.lookup ino = some task) :
    (∀ other, (client.handleUploadBlockResponseLocked ino blockId).uploadTasks.lookup other =
      if other = ino then some (VosfsClient.counted task blockId)
      else client.uploadTasks.lookup other) ∧
    (client.handleUploadBlockResponseLocked ino blockId).tasks = client.tasks ++
      if (VosfsClient.counted task blockId).totalBlocks ≤
          (VosfsClient.counted task blockId).doneBlocks then
        [.sendUploadFileRequest (VosfsClient.counted task blockId).ino]
      else
        [] := by
  unfold VosfsClient.handleUploadBlockResponseLocked
  simp only [VosfsClient.taskAt_of_lookup hlookup]
  split
  next => exact ⟨fun other => lookup_insert_eq .., rfl⟩
  next => exact ⟨fun other => lookup_insert_eq .., (List.append_nil _).symm⟩

theorem issues_iff {new : List Task} {task : Task}
    (htasks : s'.client.tasks = s.client.tasks ++ new) : Issues s s' task ↔ task ∈ new := by
  constructor
  · rintro ⟨new', htasks', hmem⟩
    rwa [List.append_cancel_left (htasks.symm.trans htasks')]
  · exact fun hmem => ⟨new, htasks, hmem⟩

theorem publishesStored_of_tasks_eq (htasks : s'.client.tasks = s.client.tasks) :
    s.PublishesStored s' := by
  intro ino hissues
  rw [issues_iff (htasks.trans (List.append_nil _).symm)] at hissues
  cases hissues

/-- If at most one file is published, and it is a task of the new state, the task is stored. -/
theorem Sound.publishesStored {ino : ℕ} {task : TransportTask} (h : s'.Sound)
    (hlookup : s'.client.uploadTasks.lookup ino = some task)
    (htasks : s'.client.tasks = s.client.tasks ++
      if task.totalBlocks ≤ task.doneBlocks then [.sendUploadFileRequest task.ino] else []) :
    s.PublishesStored s' := by
  have hconsistent := (h.memory hlookup).1
  intro ino' hissues
  rw [issues_iff htasks] at hissues
  split_ifs at hissues with hdone
  · obtain rfl : ino' = ino := by simpa [hconsistent.named] using hissues
    exact ⟨task, hlookup, fun blockId block hblock =>
      hconsistent.stored hblock (hconsistent.remaing_eq_zero hdone hblock)⟩
  · cases hissues

/-- An answer, whether the handler waits before it counts the block or not. -/
theorem Sound.uploadBlockResponse {response : UploadBlockResponse} {waits : Bool} (h : s.Sound)
    (hok : response.statusCode = .ok)
    (horderly : s.Orderly (.uploadBlockResponse true response waits))
    (hstep : s.step (.uploadBlockResponse true response waits) = some s') :
    s'.Sound ∧ s.PublishesStored s' := by
  obtain ⟨block, hblock, ⟨hnode, hothers⟩, hwaits⟩ := horderly ⟨rfl, hok⟩
  obtain ⟨task, htask, hlookup⟩ := exists_of_block? hblock
  obtain ⟨hconsistent, hdate⟩ := h.memory htask
  obtain ⟨hless, -⟩ := TransportTask.remaing_answeredBy hnode (hconsistent.remaing hlookup)
  obtain ⟨noted, hlookups, htasks, hcounted, hnoted⟩ := handleUploadBlockResponse_spec htask hlookup
  have hnew := And.intro (hconsistent.withAnswer hlookup hnode)
    (hdate.withAnswer hconsistent hlookup hnode hothers)
  have hgrows : ∀ other ≠ response.ino, ∀ task : TransportTask, task.UpToDate s.answered other →
      task.UpToDate (s.answered ++ [(response.ino, response.blockId, response.dataNodeId)]) other :=
    fun other hne task hdate => hdate.append hne
  simp only [step, hok, and_self, if_true] at hstep
  split at hstep
  next hwait =>
    -- the block still lacks answers, so that there is nothing to count
    have hmany := hwaits hwait
    have hsame := hnoted (by omega)
    cases hstep
    exact ⟨h.update _ (List.subset_append_left _ _) hgrows (hsame ▸ hlookups) hnew,
      publishesStored_of_tasks_eq htasks⟩
  next =>
    have hfound : (s.client.handleUploadBlockResponse response).uploadTasks.lookup response.ino =
        some noted := by rw [hlookups, if_pos rfl]
    obtain ⟨hlocked, htasks'⟩ :=
      handleUploadBlockResponseLocked_spec response.blockId hfound
    rw [hcounted] at hlocked htasks'
    rw [htasks] at htasks'
    have hall : ∀ other,
        ((s.client.handleUploadBlockResponse response).handleUploadBlockResponseLocked
          response.ino response.blockId).uploadTasks.lookup other =
          if other = response.ino then some (task.withAnswer response.blockId response.dataNodeId)
          else s.client.uploadTasks.lookup other := by
      intro other
      rw [hlocked, hlookups]
      split <;> rfl
    have hsound := h.update s.waiting (List.subset_append_left _ _) hgrows hall hnew
    cases hstep
    exact ⟨hsound, hsound.publishesStored ((hlocked response.ino).trans (if_pos rfl)) htasks'⟩

/-- A handler that waited.  Its block lacks answers, so that there is nothing to count. -/
theorem Sound.resume {handler : Waiting} (h : s.Sound) (horderly : s.Orderly (.resume handler))
    (hstep : s.step (.resume handler) = some s') : s'.Sound ∧ s.PublishesStored s' := by
  obtain ⟨-, block, hblock, hne⟩ := horderly
  obtain ⟨task, htask, hlookup⟩ := exists_of_block? hblock
  have hcounted : VosfsClient.counted task handler.blockId = task := by
    rw [VosfsClient.counted, VosfsClient.blockAt_of_lookup hlookup, if_neg hne]
  obtain ⟨hlocked, htasks⟩ := handleUploadBlockResponseLocked_spec handler.blockId htask
  rw [hcounted] at hlocked htasks
  simp only [step] at hstep
  split at hstep
  next =>
    have hsound := h.update (s.waiting.erase handler) (List.Subset.refl _) (fun _ _ _ => id) hlocked
      (h.memory htask)
    cases hstep
    exact ⟨hsound, hsound.publishesStored ((hlocked handler.ino).trans (if_pos rfl)) htasks⟩
  next => cases hstep

/-! ### A new task -/

/-- A task is added, unless there is one with its inode, and its blocks are requested. -/
theorem Sound.newTask {task : TransportTask} (h : s.Sound)
    (hnew : task.Consistent s.answered task.ino ∧ task.UpToDate s.answered task.ino ∧
      task.doneBlocks < task.totalBlocks) :
    let client := s.client.doUploadTask task
    let s' := { s with client := { client with
      uploadTasks := client.uploadTasks.emplace task.ino task } }
    s'.Sound ∧ s.PublishesStored s' := by
  obtain ⟨hconsistent, hdate, hless⟩ := hnew
  simp only [VosfsClient.doUploadTask_eq]
  refine ⟨?_, fun ino hissues => ?_⟩
  · cases hlookup : s.client.uploadTasks.lookup task.ino with
    | none =>
      have hadded := And.intro hconsistent hdate
      refine h.update s.waiting (List.Subset.refl _) (fun _ _ _ => id) (fun other => ?_) hadded
      exact (lookup_emplace ..).trans (if_congr (and_iff_left hlookup) rfl rfl)
    | some found =>
      refine h.update s.waiting (List.Subset.refl _) (fun _ _ _ => id) (fun other => ?_)
        (h.memory hlookup)
      refine (lookup_emplace ..).trans ?_
      rw [if_neg fun hnone => Option.some_ne_none found (hlookup.symm.trans hnone.2)]
      split
      next heq => exact heq ▸ hlookup
      next => rfl
  · have hissued := (issues_iff rfl).mp hissues
    have hdone := (VosfsClient.sendUploadFileRequest_mem_uploadOrders hissued).1
    omega

theorem Sound.prepareUploadFileResponse {status : Bool} {response : PrepareUploadFileResponse}
    (h : s.Sound) (horderly : s.Orderly (.prepareUploadFileResponse status response))
    (hstep : s.step (.prepareUploadFileResponse status response) = some s') :
    s'.Sound ∧ s.PublishesStored s' := by
  obtain ⟨client, hclient, rfl⟩ := Option.map_eq_some_iff.mp hstep
  unfold VosfsClient.handlePrepareUploadFileResponse at hclient
  split at hclient
  next => cases hclient; exact ⟨h, publishesStored_of_tasks_eq rfl⟩
  next hstatus =>
    split at hclient
    next =>
      obtain ⟨leaderId, -, rfl⟩ := Option.map_eq_some_iff.mp hclient
      exact ⟨⟨h.memory, h.saved⟩, publishesStored_of_tasks_eq rfl⟩
    next =>
      split at hclient
      next hok =>
        obtain ⟨task, htask, rfl⟩ := Option.map_eq_some_iff.mp hclient
        obtain ⟨first, hfirst, htask'⟩ := Option.map_eq_some_iff.mp htask
        have hino : task.ino = first.ino := htask' ▸ rfl
        exact h.newTask (TransportTask.consistent_ofResponse htask
          (hino ▸ horderly ⟨by simpa using hstatus, hok⟩ first hfirst))
      next => cases hclient; exact ⟨h, publishesStored_of_tasks_eq rfl⟩

/-! ### Saving and loading -/

theorem Sound.savedTasks (h : s.Sound) :
    ∃ tasks : UnorderedMap ℕ TransportTask,
      (s.client.savedTasks s.files).uploadTasks = tasks.values.map TransportTask.toJson ∧
      ∀ ⦃ino task⦄, tasks.lookup ino = some task → task.Consistent s.answered ino := by
  rcases s.client.savedTasks_cases s.files with hnone | hsome
  · rw [hnone]
    exact ⟨∅, rfl, fun ino task hlookup => absurd hlookup lookup_empty_ne⟩
  · exact h.saved hsome

/-- What is loaded is as consistent as what was saved. -/
theorem Sound.loadTasks (h : s.Sound) (horderly : s.Orderly .loadTasks)
    (hstep : s.step .loadTasks = some s') : s'.Sound ∧ s.PublishesStored s' := by
  obtain ⟨tasks, hsaved, hconsistent⟩ := h.savedTasks
  have hkeyed : Keyed TransportTask.ino tasks := fun ino task hlookup => (hconsistent hlookup).named
  simp only [step] at hstep
  split at hstep
  next =>
    cases hstep
    have hlookups : ∀ ino, (s.client.loadTransportTasksJson s.files).1.uploadTasks.lookup ino =
        (tasks.lookup ino).map fun task => TransportTask.ofJson task.toJson := by
      intro ino
      simp only [VosfsClient.loadTransportTasksJson, hsaved]
      exact lookup_tasksOf hkeyed ino
    have hsame : ∀ {ino task}, tasks.lookup ino = some task →
        Same (TransportTask.ofJson task.toJson).blocks task.blocks :=
      fun hlookup => same_blocks_ofJson (hconsistent hlookup).keyed
    have hreload : ∀ {ino task}, tasks.lookup ino = some task →
        (TransportTask.ofJson task.toJson).Consistent s.answered ino :=
      fun hlookup => (hconsistent hlookup).congr rfl rfl rfl (hsame hlookup)
    refine ⟨⟨fun ino task hlookup => ?_, fun path saved hpath => ?_⟩, fun ino hissues => ?_⟩
    · obtain ⟨found, hfound, rfl⟩ := Option.map_eq_some_iff.mp ((hlookups ino).symm.trans hlookup)
      refine ⟨hreload hfound, fun blockId block hblock hstored => ?_⟩
      rw [hsame hfound] at hblock
      obtain rfl := (hconsistent hfound).named
      obtain rfl := (hconsistent hfound).keyed hblock
      refine horderly found.toJson ?_ block (mem_values.mpr ⟨_, hblock⟩) hstored
      rw [hsaved]
      exact List.mem_map_of_mem (mem_values.mpr ⟨_, hfound⟩)
    · rcases VosfsClient.saved_of_load hpath with hbefore | rfl
      · exact h.saved hbefore
      · exact ⟨tasks, hsaved, hconsistent⟩
    · -- reloading a finished upload publishes it, reloading a download never does
      have hissued := (issues_iff (VosfsClient.tasks_loadTransportTasksJson ..)).mp hissues
      rcases List.mem_append.mp hissued with hupload | hdownload
      · obtain ⟨task, htask, hmem⟩ := List.mem_flatMap.mp hupload
        obtain ⟨hdone, hino⟩ := VosfsClient.sendUploadFileRequest_mem_uploadOrders hmem
        obtain ⟨json, hjson, rfl⟩ := List.mem_map.mp htask
        rw [hsaved] at hjson
        obtain ⟨found, hvalue, rfl⟩ := List.mem_map.mp hjson
        obtain ⟨key, hfound⟩ := mem_values.mp hvalue
        obtain rfl : key = ino := (hkeyed hfound).symm.trans hino
        exact ⟨_, (hlookups key).trans (congrArg _ hfound), fun blockId block hblock =>
          (hreload hfound).stored hblock ((hreload hfound).remaing_eq_zero hdone hblock)⟩
      · obtain ⟨task, -, hmem⟩ := List.mem_flatMap.mp hdownload
        exact absurd hmem (VosfsClient.sendUploadFileRequest_notMem_downloadOrders ino task)
  next => cases hstep

/-- The tasks in memory become the saved tasks. -/
theorem Sound.saveTasks (h : s.Sound) (hstep : s.step .saveTasks = some s') : s'.Sound := by
  cases hstep
  refine ⟨h.memory, fun path saved hpath => ?_⟩
  rcases VosfsClient.saved_of_save hpath with hbefore | rfl
  · exact h.saved hbefore
  · exact ⟨s.client.uploadTasks, rfl, fun ino task hlookup => (h.memory hlookup).1⟩

/-! ### The end of an upload -/

theorem Sound.uploadFileResponse {status : Bool} {response : UploadFileResponse} (h : s.Sound)
    (hstep : s.step (.uploadFileResponse status response) = some s') :
    s'.Sound ∧ s'.client.tasks = s.client.tasks := by
  obtain ⟨client, hclient, rfl⟩ := Option.map_eq_some_iff.mp hstep
  unfold VosfsClient.handleUploadFileResponse at hclient
  split at hclient
  next => cases hclient; exact ⟨⟨h.memory, h.saved⟩, rfl⟩
  next =>
    split at hclient
    next =>
      obtain ⟨leaderId, -, rfl⟩ := Option.map_eq_some_iff.mp hclient
      exact ⟨⟨h.memory, h.saved⟩, rfl⟩
    next =>
      cases hclient
      refine ⟨⟨fun ino task hlookup => ?_, h.saved⟩, rfl⟩
      by_cases heq : ino = response.ino
      · dsimp only at hlookup
        rw [heq, AList.lookup_erase] at hlookup
        cases hlookup
      · exact h.memory ((AList.lookup_erase_ne heq).symm.trans hlookup)

/-! ### The run -/

/-- **The step lemma.** -/
theorem Sound.step {action : UploadAction} (h : s.Sound) (horderly : s.Orderly action)
    (hstep : s.step action = some s') : s'.Sound ∧ s.PublishesStored s' := by
  cases action with
  | prepareUploadFileResponse status response => exact h.prepareUploadFileResponse horderly hstep
  | uploadBlockResponse status response waits =>
    by_cases hok : status = true ∧ response.statusCode = .ok
    · obtain ⟨rfl, hcode⟩ := hok
      exact h.uploadBlockResponse hcode horderly hstep
    · rw [Uploads.step, if_neg hok] at hstep
      cases hstep
      exact ⟨h, publishesStored_of_tasks_eq rfl⟩
  | resume handler => exact h.resume horderly hstep
  | uploadFileResponse status response =>
    obtain ⟨hsound, htasks⟩ := h.uploadFileResponse hstep
    exact ⟨hsound, publishesStored_of_tasks_eq htasks⟩
  | login session =>
    cases hstep
    refine ⟨⟨h.memory, h.saved⟩, fun ino hissues => ?_⟩
    have hissued := (issues_iff rfl).mp hissues
    simp at hissued
  | loadTasks => exact h.loadTasks horderly hstep
  | saveTasks => exact ⟨h.saveTasks hstep, by cases hstep; exact publishesStored_of_tasks_eq rfl⟩
  | restart =>
    cases hstep
    refine ⟨⟨fun ino task hlookup => absurd hlookup lookup_empty_ne, h.saved⟩,
      fun ino hissues => ?_⟩
    obtain ⟨new, htasks, hmem⟩ := hissues
    obtain ⟨-, rfl⟩ := List.append_eq_nil_iff.mp htasks.symm
    cases hmem

/-- **Files are published when their blocks are stored.** -/
theorem uploadsStored (hrun : Run Uploads.step Uploads.Orderly {} s) :
    s.CountsStored ∧ ∀ {action s'}, s.Orderly action → s.step action = some s' →
      s.PublishesStored s' :=
  have hsound := hrun.invariant Uploads.Sound .initial fun h horderly hstep =>
    (h.step horderly hstep).1
  ⟨hsound.countsStored, fun horderly hstep => (hsound.step horderly hstep).2⟩

/-! ### A user who logs in twice -/

/-- A user who is logged in. -/
def user : UserSession :=
  { token := "token", uid := 1 }

/-- One block for two data nodes. -/
def prepared : PrepareUploadFileResponse :=
  { localPath := "/home/file"
    remotePath := "/file"
    blocks := [{ id := 0, ino := 5, size := 8, dataNodeId := [1, 2] }] }

/-- A data node has stored the first block of the file 5. -/
def stored (node : ℕ) : UploadBlockResponse :=
  { ino := 5, dataNodeId := node }

/-- Both data nodes answer, and the first handler waits. -/
def uploadOnce : List UploadAction :=
  [.login user, .loadTasks, .prepareUploadFileResponse true prepared,
    .uploadBlockResponse true (stored 1) true, .resume ⟨5, 0, true⟩]

theorem uploadsStored_uploadOnce :
    ∃ s s', Run Uploads.step Uploads.Orderly {} s ∧
      s.Orderly (.uploadBlockResponse true (stored 2) false) ∧
      s.step (.uploadBlockResponse true (stored 2) false) = some s' ∧
      .sendUploadFileRequest 5 ∈ s'.client.tasks ∧ s.CountsStored ∧ s.PublishesStored s' := by
  obtain ⟨s, s', hrun, hstep, hcheck⟩ := Run.exists_step_of_exec Uploads.step Uploads.Orderly {}
    uploadOnce (.uploadBlockResponse true (stored 2) false)
    (fun s s' => decide (s.Orderly (.uploadBlockResponse true (stored 2) false) ∧
      .sendUploadFileRequest 5 ∈ s'.client.tasks)) (by decide)
  obtain ⟨horderly, hpublished⟩ := of_decide_eq_true hcheck
  obtain ⟨hcounts, hpublishes⟩ := uploadsStored hrun
  exact ⟨s, s', hrun, horderly, hstep, hpublished, hcounts, hpublishes horderly hstep⟩

/-- The task is saved and loaded again, and data node 1 answers both requests. -/
def uploadTwice : List UploadAction :=
  [.login user, .loadTasks, .prepareUploadFileResponse true prepared, .saveTasks, .login user,
    .loadTasks, .uploadBlockResponse true (stored 1) false]

/-- The second answer publishes the file, although data node 2 has stored nothing. -/
theorem exists_published_unstored :
    ∃ s s', Run Uploads.step (fun _ _ => True) {} s ∧
      s.client.tasks.count (.sendUploadBlockRequest "/home/file" 0 5 0 8 1) = 2 ∧
      s.step (.uploadBlockResponse true (stored 1) false) = some s' ∧
      ¬ s.PublishesStored s' ∧ ¬ s'.CountsStored := by
  obtain ⟨s, s', hrun, hstep, hcheck⟩ := Run.exists_step_of_exec Uploads.step (fun _ _ => True) {}
    uploadTwice (.uploadBlockResponse true (stored 1) false)
    (fun s s' => decide (s.client.tasks.count (.sendUploadBlockRequest "/home/file" 0 5 0 8 1) = 2 ∧
      s'.client.tasks = s.client.tasks ++ [Task.sendUploadFileRequest 5] ∧
      ∃ task ∈ s'.client.uploadTasks.lookup (5 : ℕ),
        task.doneBlocks ≠ storedBlocks s'.answered 5 task ∧
        ∃ block ∈ task.blocks.lookup (0 : ℕ), ¬ Stored s'.answered 5 0 block)) (by decide)
  obtain ⟨hcount, htasks, task, htask, hdone, block, hblock, hstored⟩ := of_decide_eq_true hcheck
  refine ⟨s, s', hrun, hcount, hstep, fun hpublishes => ?_, fun hcounts =>
    hdone (hcounts 5 task htask)⟩
  obtain ⟨task', htask', hall⟩ := hpublishes 5 ((issues_iff htasks).mpr (List.mem_singleton_self _))
  obtain rfl : task' = task := Option.some.inj (htask'.symm.trans htask)
  exact hstored (hall 0 block hblock)

end Uploads

end Vosfs.Ui
