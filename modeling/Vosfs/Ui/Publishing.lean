import Vosfs.Ui.Uploads

/-!
# What a client publishes

When all blocks of a file are stored, the client asks the leader to enter the file, with the blocks
of its task (`sendUploadFileRequest`).

A task goes back to a response of a leader, whatever was answered, saved and loaded since
(`Describes`).  So do the requests for blocks that the client sets going; and when it sets the
publication of a file going, all data nodes in the response have answered for all its blocks
(`Informed`).  This holds throughout the runs of `uploadsStored`.
-/

namespace Vosfs.Ui

open UnorderedMap
open Raft (PrepareUploadFileResponse UploadBlockResponse UploadFileResponse UploadFileRequest)

/-! ## The request -/

/-- A block without the answers. -/
def BlockInfo.toRequest (block : BlockInfo) : Raft.BlockInfo where
  id := block.id
  ino := block.ino
  offset := block.offset
  size := block.size
  dataNodeId := block.dataNodeIds.keys

/-- `none`: there is no task with the inode. -/
def VosfsClient.sendUploadFileRequest (client : VosfsClient) (ino : ℕ) :
    Option UploadFileRequest :=
  (client.uploadTasks.lookup ino).map fun task =>
    { token := client.session.token
      ino := ino
      path := task.remotePath
      blocks := task.blocks.values.map BlockInfo.toRequest }

/-! ## Tasks and responses -/

/-- The block is the one that a leader described, whatever was answered for it. -/
structure Matches (described : Raft.BlockInfo) (block : BlockInfo) : Prop where
  id : block.id = described.id
  ino : block.ino = described.ino
  offset : block.offset = described.offset
  size : block.size = described.size
  nodes : ∀ node, node ∈ block.dataNodeIds ↔ node ∈ described.dataNodeId

/-- The response is the one that the task was made of. -/
structure Describes (response : PrepareUploadFileResponse) (task : TransportTask) : Prop where
  localPath : task.localPath = response.localPath
  remotePath : task.remotePath = response.remotePath
  blocks : ∀ ⦃blockId block⦄, task.blocks.lookup blockId = some block →
    ∃ described ∈ response.blocks, described.id = blockId ∧ Matches described block
  all : ∀ described ∈ response.blocks, described.id ∈ task.blocks

/-- No two blocks have one id. -/
def DistinctIds (blocks : List Raft.BlockInfo) : Prop :=
  ∀ block ∈ blocks, ∀ block' ∈ blocks, block.id = block'.id → block = block'

section Tasks

variable {response : PrepareUploadFileResponse} {task task' : TransportTask} {blockId node : ℕ}
  {block : BlockInfo} {described : Raft.BlockInfo}

theorem matches_ofResponse (described : Raft.BlockInfo) :
    Matches described (BlockInfo.ofResponse described) where
  id := rfl
  ino := rfl
  offset := rfl
  size := rfl
  nodes node := by
    rw [mem_iff_lookup, TransportTask.lookup_dataNodeIds_ofResponse]
    by_cases hmem : node ∈ described.dataNodeId <;> simp [hmem]

/-- An answer of a data node of the block. -/
theorem Matches.answeredBy (h : Matches described block) (hnode : node ∈ block.dataNodeIds) :
    Matches described (VosfsClient.answeredBy block node) where
  id := h.id
  ino := h.ino
  offset := h.offset
  size := h.size
  nodes other := by
    rw [← h.nodes, VosfsClient.answeredBy, AList.mem_insert]
    exact ⟨fun hother => hother.elim (fun heq => heq ▸ hnode) fun hmem => hmem, Or.inr⟩

theorem describes_ofResponse
    (htask : TransportTask.ofResponse response.blocks response.localPath response.remotePath =
      some task) : Describes response task := by
  obtain ⟨first, -, rfl⟩ := Option.map_eq_some_iff.mp htask
  refine ⟨rfl, rfl, fun blockId block hlookup => ?_, fun described hmem => ?_⟩
  · rw [lookup_blocksOf] at hlookup
    obtain ⟨described, hmem, rfl⟩ := List.mem_map.mp (List.mem_of_find?_eq_some hlookup)
    have hid : (BlockInfo.ofResponse described).id = blockId := by
      simpa using List.find?_some hlookup
    exact ⟨described, hmem, hid, matches_ofResponse described⟩
  · rw [mem_iff_lookup]
    simp only [lookup_blocksOf]
    refine Option.isSome_iff_exists.mp (List.find?_isSome.mpr
      ⟨_, List.mem_map_of_mem hmem, ?_⟩)
    exact decide_eq_true (matches_ofResponse described).id

theorem Describes.congr (h : Describes response task) (hlocal : task'.localPath = task.localPath)
    (hremote : task'.remotePath = task.remotePath) (hsame : Same task'.blocks task.blocks) :
    Describes response task' where
  localPath := hlocal.trans h.localPath
  remotePath := hremote.trans h.remotePath
  blocks blockId _ hlookup := h.blocks (hsame blockId ▸ hlookup)
  all described hmem := hsame.mem_iff.mpr (h.all described hmem)

theorem Describes.withAnswer (h : Describes response task)
    (hlookup : task.blocks.lookup blockId = some block) (hnode : node ∈ block.dataNodeIds) :
    Describes response (task.withAnswer blockId node) := by
  rw [TransportTask.withAnswer_eq hlookup]
  refine ⟨h.localPath, h.remotePath, fun other found hfound => ?_, fun described hmem => ?_⟩
  · rw [lookup_insert_eq] at hfound
    split_ifs at hfound with heq
    · cases hfound
      obtain ⟨described, hmem, hid, hmatches⟩ := h.blocks hlookup
      exact ⟨described, hmem, hid.trans heq.symm, hmatches.answeredBy hnode⟩
    · exact h.blocks hfound
  · exact (AList.mem_insert _).mpr (Or.inr (h.all described hmem))

/-- Counting blocks changes none. -/
theorem Describes.counted (h : Describes response task) (blockId : ℕ) :
    Describes response (VosfsClient.counted task blockId) := by
  unfold VosfsClient.counted
  split
  next => exact h.congr rfl rfl (Same.refl _)
  next => exact h

/-- A block of the response has its block in the task. -/
theorem Describes.exists_block (h : Describes response task) (hdistinct : DistinctIds response.blocks)
    (hmem : described ∈ response.blocks) :
    ∃ block, task.blocks.lookup described.id = some block ∧ Matches described block := by
  obtain ⟨block, hlookup⟩ := mem_iff_lookup.mp (h.all described hmem)
  obtain ⟨other, hother, hid, hmatches⟩ := h.blocks hlookup
  obtain rfl := hdistinct other hother described hmem hid
  exact ⟨block, hlookup, hmatches⟩

/-- The request sends a block of the response to one of its data nodes. -/
def Sends (response : PrepareUploadFileResponse) (localPath : String)
    (blockId ino offset size node : ℕ) : Prop :=
  localPath = response.localPath ∧ ∃ described ∈ response.blocks, described.id = blockId ∧
    described.ino = ino ∧ described.offset = offset ∧ described.size = size ∧
    node ∈ described.dataNodeId

theorem Describes.sends (h : Describes response task) {localPath : String}
    {blockId ino offset size node : ℕ}
    (hmem : .sendUploadBlockRequest localPath blockId ino offset size node ∈
      VosfsClient.uploadBlockRequests task) :
    Sends response localPath blockId ino offset size node := by
  obtain ⟨block, hblock, hrequest⟩ := List.mem_flatMap.mp hmem
  split at hrequest
  next => cases hrequest
  next =>
    obtain ⟨pair, hpair, heq⟩ := List.mem_map.mp hrequest
    cases heq
    obtain ⟨key, hlookup⟩ := mem_values.mp hblock
    obtain ⟨described, hdescribed, -, hmatches⟩ := h.blocks hlookup
    have hnode := mem_pairs.mp (List.mem_filter.mp hpair).1
    exact ⟨h.localPath, described, hdescribed, hmatches.id.symm, hmatches.ino.symm,
      hmatches.offset.symm, hmatches.size.symm,
      (hmatches.nodes _).mp (mem_iff_lookup.mpr ⟨_, hnode⟩)⟩

theorem Describes.sends_of_orders (h : Describes response task) {localPath : String}
    {blockId ino offset size node : ℕ}
    (hmem : .sendUploadBlockRequest localPath blockId ino offset size node ∈
      VosfsClient.uploadOrders task) :
    Sends response localPath blockId ino offset size node := by
  unfold VosfsClient.uploadOrders at hmem
  split at hmem
  next => simp at hmem
  next => exact h.sends hmem

/-- The blocks that are published are those of the response. -/
theorem Describes.published (h : Describes response task) {published : Raft.BlockInfo}
    (hmem : published ∈ task.blocks.values.map BlockInfo.toRequest) :
    ∃ described ∈ response.blocks, published.id = described.id ∧ published.ino = described.ino ∧
      published.offset = described.offset ∧ published.size = described.size ∧
      ∀ node, node ∈ published.dataNodeId ↔ node ∈ described.dataNodeId := by
  obtain ⟨block, hblock, rfl⟩ := List.mem_map.mp hmem
  obtain ⟨key, hlookup⟩ := mem_values.mp hblock
  obtain ⟨described, hdescribed, -, hmatches⟩ := h.blocks hlookup
  exact ⟨described, hdescribed, hmatches.id, hmatches.ino, hmatches.offset, hmatches.size,
    fun node => AList.mem_keys.symm.trans (hmatches.nodes node)⟩

end Tasks

/-! ## The client -/

namespace Uploads

/-- What leaders have described, by inode: `known` holds of the responses. -/
structure Informed (known : ℕ → PrepareUploadFileResponse → Prop) (s : Uploads) : Prop where
  memory : ∀ ⦃ino task⦄, s.client.uploadTasks.lookup ino = some task →
    ∃ response, known ino response ∧ Describes response task
  saved : ∀ ⦃path saved⦄, s.files path = some saved → ∀ task ∈ saved.uploadTasks,
    ∃ response, known task.ino response ∧ Describes response (TransportTask.ofJson task)
  requests : ∀ ⦃localPath blockId ino offset size node⦄,
    .sendUploadBlockRequest localPath blockId ino offset size node ∈ s.client.tasks →
      ∃ key response, known key response ∧ Sends response localPath blockId ino offset size node
  publications : ∀ ⦃ino⦄, .sendUploadFileRequest ino ∈ s.client.tasks →
    ∃ response, known ino response ∧ ∀ described ∈ response.blocks,
      ∀ node ∈ described.dataNodeId, (ino, described.id, node) ∈ s.answered

variable {known known' : ℕ → PrepareUploadFileResponse → Prop} {s s' : Uploads}

theorem Informed.mono (h : Informed known s)
    (himp : ∀ ino response, known ino response → known' ino response) : Informed known' s where
  memory ino task hlookup := by
    obtain ⟨response, hknown, hdescribes⟩ := h.memory hlookup
    exact ⟨response, himp _ _ hknown, hdescribes⟩
  saved path saved hsaved task hmem := by
    obtain ⟨response, hknown, hdescribes⟩ := h.saved hsaved task hmem
    exact ⟨response, himp _ _ hknown, hdescribes⟩
  requests localPath blockId ino offset size node hmem := by
    obtain ⟨key, response, hknown, hsends⟩ := h.requests hmem
    exact ⟨key, response, himp _ _ hknown, hsends⟩
  publications ino hmem := by
    obtain ⟨response, hknown, hall⟩ := h.publications hmem
    exact ⟨response, himp _ _ hknown, hall⟩

/-- What the client knows after a step, and the requests for blocks that the step set going. -/
structure Learns (known : ℕ → PrepareUploadFileResponse → Prop) (s s' : Uploads) : Prop where
  memory : ∀ ⦃ino task⦄, s'.client.uploadTasks.lookup ino = some task →
    ∃ response, known ino response ∧ Describes response task
  saved : ∀ ⦃path saved⦄, s'.files path = some saved → ∀ task ∈ saved.uploadTasks,
    ∃ response, known task.ino response ∧ Describes response (TransportTask.ofJson task)
  tasks : ∃ new, s'.client.tasks = s.client.tasks ++ new ∧
    ∀ ⦃localPath blockId ino offset size node⦄,
      .sendUploadBlockRequest localPath blockId ino offset size node ∈ new →
        ∃ key response, known key response ∧
          Sends response localPath blockId ino offset size node

/-- The requests for blocks are sound, and what is published is stored. -/
theorem Learns.informed (hlearns : Learns known s s') (h : Informed known s)
    (hdistinct : ∀ ino response, known ino response → DistinctIds response.blocks)
    (hpublishes : s.PublishesStored s') (hanswered : s.answered ⊆ s'.answered) :
    Informed known s' := by
  obtain ⟨new, htasks, hnew⟩ := hlearns.tasks
  refine ⟨hlearns.memory, hlearns.saved, ?_, ?_⟩
  · intro localPath blockId ino offset size node hmem
    rw [htasks] at hmem
    exact (List.mem_append.mp hmem).elim (fun hold => h.requests hold) fun hmem => hnew hmem
  · intro ino hmem
    rw [htasks] at hmem
    rcases List.mem_append.mp hmem with hold | hissued
    · obtain ⟨response, hknown, hall⟩ := h.publications hold
      exact ⟨response, hknown, fun described hmem node hnode =>
        hanswered (hall described hmem node hnode)⟩
    · obtain ⟨task, hlookup, hstored⟩ := hpublishes ino ⟨new, htasks, hissued⟩
      obtain ⟨response, hknown, hdescribes⟩ := hlearns.memory hlookup
      refine ⟨response, hknown, fun described hmem node hnode => ?_⟩
      obtain ⟨block, hblock, hmatches⟩ :=
        hdescribes.exists_block (hdistinct ino response hknown) hmem
      exact hstored described.id block hblock node
        (AList.mem_keys.mp ((hmatches.nodes node).mpr hnode))

/-- A step in which one task changes at most, and no request for a block is set going. -/
theorem Learns.of_update {client : VosfsClient} (h : Informed known s) {ino : ℕ}
    {task : TransportTask}
    (htask : ∃ response, known ino response ∧ Describes response task) {tasks : List Task}
    (hlookup : ∀ other, client.uploadTasks.lookup other =
      if other = ino then some task else s.client.uploadTasks.lookup other)
    (htasks : client.tasks = s.client.tasks ++ tasks)
    (hfiles : s'.files = s.files) (hclient : s'.client = client)
    (hrequests : ∀ task ∈ tasks, ∃ ino, task = .sendUploadFileRequest ino) :
    Learns known s s' where
  memory other found hfound := by
    rw [hclient, hlookup] at hfound
    split_ifs at hfound with heq
    · cases hfound
      exact heq ▸ htask
    · exact h.memory hfound
  saved path saved hsaved := h.saved (hfiles ▸ hsaved)
  tasks := by
    refine ⟨tasks, hclient ▸ htasks, fun localPath blockId ino offset size node hmem => ?_⟩
    obtain ⟨_, heq⟩ := hrequests _ hmem
    cases heq

/-! ### One lemma for each kind of step -/

theorem Informed.uploadBlockResponse (h : Informed known s) (hsound : s.Sound)
    {response : UploadBlockResponse} {waits : Bool} (hok : response.statusCode = .ok)
    (horderly : s.Orderly (.uploadBlockResponse true response waits))
    (hstep : s.step (.uploadBlockResponse true response waits) = some s') :
    Learns known s s' := by
  obtain ⟨block, hblock, ⟨hnode, -⟩, hwaits⟩ := horderly ⟨rfl, hok⟩
  obtain ⟨task, htask, hlookup⟩ := exists_of_block? hblock
  obtain ⟨described, hknown, hdescribes⟩ := h.memory htask
  obtain ⟨hless, -⟩ :=
    TransportTask.remaing_answeredBy hnode ((hsound.memory htask).1.remaing hlookup)
  have hanswer := hdescribes.withAnswer hlookup (mem_iff_lookup.mpr ⟨_, hnode⟩)
  obtain ⟨noted, hlookups, htasks, hcounted, hnoted⟩ := handleUploadBlockResponse_spec htask hlookup
  simp only [step, hok, and_self, if_true] at hstep
  split at hstep
  next hwait =>
    have hmany := hwaits hwait
    have hsame := hnoted (by omega)
    cases hstep
    exact .of_update h ⟨described, hknown, hsame ▸ hanswer⟩ hlookups
      (htasks.trans (List.append_nil _).symm) rfl rfl
      fun _ hmem => absurd hmem List.not_mem_nil
  next =>
    have hfound : (s.client.handleUploadBlockResponse response).uploadTasks.lookup response.ino =
        some noted := by rw [hlookups, if_pos rfl]
    obtain ⟨hlocked, htasks'⟩ := handleUploadBlockResponseLocked_spec response.blockId hfound
    rw [hcounted] at hlocked htasks'
    rw [htasks] at htasks'
    cases hstep
    refine .of_update h ⟨described, hknown, hanswer⟩ (fun other => ?_) htasks' rfl rfl
      fun task hmem => ?_
    · rw [hlocked, hlookups]
      split <;> rfl
    · split_ifs at hmem
      · exact ⟨_, List.mem_singleton.mp hmem⟩
      · cases hmem

theorem Informed.resume (h : Informed known s) {handler : Waiting}
    (horderly : s.Orderly (.resume handler)) (hstep : s.step (.resume handler) = some s') :
    Learns known s s' := by
  obtain ⟨-, block, hblock, -⟩ := horderly
  obtain ⟨task, htask, -⟩ := exists_of_block? hblock
  obtain ⟨response, hknown, hdescribes⟩ := h.memory htask
  obtain ⟨hlocked, htasks⟩ := handleUploadBlockResponseLocked_spec handler.blockId htask
  simp only [step] at hstep
  split at hstep
  next =>
    cases hstep
    refine .of_update h ⟨response, hknown, hdescribes.counted handler.blockId⟩ hlocked htasks rfl
      rfl fun task hmem => ?_
    split_ifs at hmem
    · exact ⟨_, List.mem_singleton.mp hmem⟩
    · cases hmem
  next => cases hstep

/-- A step that sets nothing going and takes no new task. -/
theorem Learns.of_subset (h : Informed known s) (htasks : s'.client.tasks = s.client.tasks)
    (hfiles : s'.files = s.files)
    (hlookup : ∀ ⦃ino task⦄, s'.client.uploadTasks.lookup ino = some task →
      s.client.uploadTasks.lookup ino = some task) : Learns known s s' where
  memory _ _ hfound := h.memory (hlookup hfound)
  saved _ _ hsaved := h.saved (hfiles ▸ hsaved)
  tasks := ⟨[], by rw [htasks, List.append_nil], nofun⟩

theorem Informed.prepareUploadFileResponse (h : Informed known s) {status : Bool}
    {response : PrepareUploadFileResponse}
    (hknown : status = true → response.statusCode = .ok → ∃ ino, known ino response ∧
      ∀ block ∈ response.blocks, block.ino = ino)
    (hstep : s.step (.prepareUploadFileResponse status response) = some s') :
    Learns known s s' := by
  obtain ⟨client, hclient, rfl⟩ := Option.map_eq_some_iff.mp hstep
  unfold VosfsClient.handlePrepareUploadFileResponse at hclient
  split at hclient
  next =>
    cases hclient
    exact .of_subset h rfl rfl fun _ _ hfound => hfound
  next hstatus =>
    split at hclient
    next =>
      obtain ⟨leaderId, -, rfl⟩ := Option.map_eq_some_iff.mp hclient
      exact .of_subset h rfl rfl fun _ _ hfound => hfound
    next =>
      split at hclient
      next hok =>
        obtain ⟨task, htask, rfl⟩ := Option.map_eq_some_iff.mp hclient
        obtain ⟨ino, hino, hblocks⟩ := hknown (by simpa using hstatus) hok
        have hdescribes := describes_ofResponse htask
        obtain ⟨first, hfirst, htask'⟩ := Option.map_eq_some_iff.mp htask
        have hnamed : task.ino = ino := by
          rw [← htask']
          exact hblocks first (List.mem_of_mem_head? hfirst)
        simp only [VosfsClient.doUploadTask_eq]
        refine ⟨fun other found hfound => ?_, h.saved, _, rfl, fun _ _ _ _ _ _ hmem => ?_⟩
        · replace hfound := (lookup_emplace ..).symm.trans hfound
          split_ifs at hfound with heq
          · cases hfound
            exact ⟨response, heq.1.trans hnamed ▸ hino, hdescribes⟩
          · exact h.memory hfound
        · exact ⟨ino, response, hino, hdescribes.sends_of_orders hmem⟩
      next =>
        cases hclient
        exact .of_subset h rfl rfl fun _ _ hfound => hfound

theorem Informed.uploadFileResponse (h : Informed known s) {status : Bool}
    {response : UploadFileResponse}
    (hstep : s.step (.uploadFileResponse status response) = some s') : Learns known s s' := by
  obtain ⟨client, hclient, rfl⟩ := Option.map_eq_some_iff.mp hstep
  unfold VosfsClient.handleUploadFileResponse at hclient
  split at hclient
  next =>
    cases hclient
    exact .of_subset h rfl rfl fun _ _ hfound => hfound
  next =>
    split at hclient
    next =>
      obtain ⟨leaderId, -, rfl⟩ := Option.map_eq_some_iff.mp hclient
      exact .of_subset h rfl rfl fun _ _ hfound => hfound
    next =>
      cases hclient
      refine .of_subset h rfl rfl fun ino task hfound => ?_
      by_cases heq : ino = response.ino
      · dsimp only at hfound
        rw [heq, AList.lookup_erase] at hfound
        cases hfound
      · exact (AList.lookup_erase_ne heq).symm.trans hfound

/-- What is saved of a task is enough to make it again. -/
theorem Informed.ofJson_toJson (h : Informed known s) (hsound : s.Sound) {ino : ℕ}
    {task : TransportTask} (hlookup : s.client.uploadTasks.lookup ino = some task) :
    ∃ response, known task.toJson.ino response ∧
      Describes response (TransportTask.ofJson task.toJson) := by
  obtain ⟨response, hknown, hdescribes⟩ := h.memory hlookup
  have hconsistent := (hsound.memory hlookup).1
  have hnamed : task.toJson.ino = ino := hconsistent.named
  exact ⟨response, hnamed ▸ hknown,
    hdescribes.congr rfl rfl (same_blocks_ofJson hconsistent.keyed)⟩

theorem Informed.saveTasks (h : Informed known s) (hsound : s.Sound)
    (hstep : s.step .saveTasks = some s') : Learns known s s' := by
  cases hstep
  refine ⟨h.memory, fun path saved hpath task hmem => ?_, [], (List.append_nil _).symm, nofun⟩
  rcases VosfsClient.saved_of_save hpath with hbefore | rfl
  · exact h.saved hbefore task hmem
  · obtain ⟨found, hfound, rfl⟩ := List.mem_map.mp hmem
    obtain ⟨ino, hlookup⟩ := mem_values.mp hfound
    exact h.ofJson_toJson hsound hlookup

/-- The tasks that are about to be loaded. -/
theorem Informed.savedTasks (h : Informed known s) :
    ∀ task ∈ (s.client.savedTasks s.files).uploadTasks, ∃ response, known task.ino response ∧
      Describes response (TransportTask.ofJson task) := by
  intro task hmem
  rcases s.client.savedTasks_cases s.files with hnone | hsome
  · rw [hnone] at hmem
    cases hmem
  · exact h.saved hsome task hmem

theorem sendUploadBlockRequest_notMem_downloadOrders {localPath : String}
    {blockId ino offset size node : ℕ} (task : TransportTask) :
    .sendUploadBlockRequest localPath blockId ino offset size node ∉
      VosfsClient.downloadOrders task := by
  intro hmem
  unfold VosfsClient.downloadOrders at hmem
  split at hmem
  next =>
    obtain ⟨block, -, hblock⟩ := List.mem_flatMap.mp hmem
    split at hblock
    next => cases hblock
    next => simp at hblock
  next => cases hmem

theorem Informed.loadTasks (h : Informed known s) (hstep : s.step .loadTasks = some s') :
    Learns known s s' := by
  simp only [step] at hstep
  split at hstep
  next =>
    cases hstep
    refine ⟨fun ino task hlookup => ?_, fun path saved hpath task hmem => ?_, _,
      VosfsClient.tasks_loadTransportTasksJson .., fun _ _ _ _ _ _ hmem => ?_⟩
    · change (tasksOf ((s.client.savedTasks s.files).uploadTasks.map
        TransportTask.ofJson)).lookup ino = some task at hlookup
      rw [tasksOf, lookup_foldl_emplace, AList.lookup_empty, Option.none_or] at hlookup
      obtain ⟨json, hjson, rfl⟩ := List.mem_map.mp (List.mem_of_find?_eq_some hlookup)
      have hnamed : (TransportTask.ofJson json).ino = ino := by simpa using List.find?_some hlookup
      obtain ⟨response, hknown, hdescribes⟩ := h.savedTasks json hjson
      exact ⟨response, hnamed ▸ hknown, hdescribes⟩
    · rcases VosfsClient.saved_of_load hpath with hbefore | rfl
      · exact h.saved hbefore task hmem
      · exact h.savedTasks task hmem
    · rcases List.mem_append.mp hmem with hupload | hdownload
      · obtain ⟨task, htask, hrequest⟩ := List.mem_flatMap.mp hupload
        obtain ⟨json, hjson, rfl⟩ := List.mem_map.mp htask
        obtain ⟨response, hknown, hdescribes⟩ := h.savedTasks json hjson
        exact ⟨json.ino, response, hknown, hdescribes.sends_of_orders hrequest⟩
      · obtain ⟨task, -, hrequest⟩ := List.mem_flatMap.mp hdownload
        exact absurd hrequest (sendUploadBlockRequest_notMem_downloadOrders task)
  next => cases hstep

/-- What answers there are after a step. -/
theorem answered_of_step {action : UploadAction} (hstep : s.step action = some s') :
    s'.answered = s.answered ∨ ∃ response waits, action = .uploadBlockResponse true response waits ∧
      response.statusCode = .ok ∧
      s'.answered = s.answered ++ [(response.ino, response.blockId, response.dataNodeId)] := by
  cases action with
  | prepareUploadFileResponse status response =>
    obtain ⟨client, -, rfl⟩ := Option.map_eq_some_iff.mp hstep
    exact Or.inl rfl
  | uploadBlockResponse status response waits =>
    simp only [step] at hstep
    split at hstep
    next hok =>
      refine Or.inr ⟨response, waits, by rw [hok.1], hok.2, ?_⟩
      split at hstep <;> cases hstep <;> rfl
    next => cases hstep; exact Or.inl rfl
  | resume handler =>
    simp only [step] at hstep
    split at hstep
    next => cases hstep; exact Or.inl rfl
    next => cases hstep
  | uploadFileResponse status response =>
    obtain ⟨client, -, rfl⟩ := Option.map_eq_some_iff.mp hstep
    exact Or.inl rfl
  | loadTasks =>
    simp only [step] at hstep
    split at hstep
    next => cases hstep; exact Or.inl rfl
    next => cases hstep
  | login session => cases hstep; exact Or.inl rfl
  | saveTasks => cases hstep; exact Or.inl rfl
  | restart => cases hstep; exact Or.inl rfl

/-- **The step lemma.**  `hknown`: what a client takes for a response is one. -/
theorem Informed.step {action : UploadAction} (h : Informed known s) (hsound : s.Sound)
    (horderly : s.Orderly action)
    (hdistinct : ∀ ino response, known ino response → DistinctIds response.blocks)
    (hknown : ∀ response, action = .prepareUploadFileResponse true response →
      response.statusCode = .ok → ∃ ino, known ino response ∧
        ∀ block ∈ response.blocks, block.ino = ino)
    (hstep : s.step action = some s') : Informed known s' := by
  have hanswered : s.answered ⊆ s'.answered := by
    rcases answered_of_step hstep with heq | ⟨response, waits, -, -, heq⟩ <;> rw [heq]
    · exact List.Subset.refl _
    · exact List.subset_append_left _ _
  obtain ⟨-, hpublishes⟩ := hsound.step horderly hstep
  suffices hlearns : Learns known s s' ∨ s'.client = {} ∧ s'.files = s.files by
    rcases hlearns with hlearns | ⟨hclient, hfiles⟩
    · exact hlearns.informed h hdistinct hpublishes hanswered
    · refine ⟨fun ino task hlookup => ?_, fun path saved hsaved => ?_, ?_, ?_⟩
      · rw [hclient] at hlookup
        exact absurd hlookup lookup_empty_ne
      · exact h.saved (hfiles ▸ hsaved)
      · rw [hclient]
        nofun
      · rw [hclient]
        nofun
  cases action with
  | prepareUploadFileResponse status response =>
    refine Or.inl (h.prepareUploadFileResponse (fun hstatus hok => ?_) hstep)
    exact hknown response (by rw [hstatus]) hok
  | uploadBlockResponse status response waits =>
    by_cases hok : status = true ∧ response.statusCode = .ok
    · obtain ⟨rfl, hcode⟩ := hok
      exact Or.inl (h.uploadBlockResponse hsound hcode horderly hstep)
    · rw [Uploads.step, if_neg hok] at hstep
      cases hstep
      exact Or.inl (.of_subset h rfl rfl fun _ _ hfound => hfound)
  | resume handler => exact Or.inl (h.resume horderly hstep)
  | uploadFileResponse status response => exact Or.inl (h.uploadFileResponse hstep)
  | loadTasks => exact Or.inl (h.loadTasks hstep)
  | saveTasks => exact Or.inl (h.saveTasks hsound hstep)
  | login session =>
    cases hstep
    refine Or.inl ⟨h.memory, h.saved, [.loadTransportTasksJson], rfl, fun _ _ _ _ _ _ hmem => ?_⟩
    simp at hmem
  | restart =>
    cases hstep
    exact Or.inr ⟨rfl, rfl⟩

end Uploads

end Vosfs.Ui
