import Vosfs.FileSystem.Clients
import Vosfs.FileSystem.Origins
import Vosfs.Service.Deployment
import Vosfs.Storage.BlockStore

/-!
# Files keep their contents

In the runs of the whole service whose steps are all sane, what is downloaded is what was uploaded
(`contentKept`): whichever member describes a file to a client, and at any later time, the blocks of
the file, fetched from any of their data nodes and written at their offsets, make up the local file
of the client that uploaded it.  All descriptions of one path are about one such file.

The invariant (`Kept`) follows the file from one part of the service to the next: what leaders have
promised (`transfers`), what is on its way to a client, what a client knows (`Informed`), what the
data nodes hold, and what is in the logs of the members.
-/

namespace Vosfs.Service

open Function
open Raft (Platform Cluster Env Reply LogEntry RaftNode StateMachine EntryCommand
  PrepareUploadFileRequest PrepareUploadFileResponse PrepareDownloadFileResponse
  UploadBlockResponse UploadFileRequest plainPlatform)
open Storage (DataNode BlockFiles UploadIo)
open Ui (Uploads UploadAction BlockUpload BlockDownload Splits DistinctIds Sends
  sendPrepareUploadFileRequest splitBlocks)

/-! ## Transfers -/

/-- The local file that is uploaded. -/
def Transfer.content (site : Site) (t : Transfer) : List UInt8 :=
  site.localFile t.client t.response.localPath

/-- The blocks are those of the local file, under the number of the transfer. -/
structure Transfer.Valid (site : Site) (t : Transfer) : Prop where
  content_ne : t.content site ≠ []
  splits : Splits 0 0 (t.content site).length t.response.blocks
  ino : ∀ block ∈ t.response.blocks, block.ino = t.ino

theorem distinctIds_of_splits {blockId offset fileSize : ℕ} {blocks : List Raft.BlockInfo}
    (h : Splits blockId offset fileSize blocks) : DistinctIds blocks :=
  fun _ hblock _ hblock' hid => h.eq_of (i := 0) hblock hblock' (Or.inl hid)

/-- The blocks are those of the transfer, in any order. -/
structure Transfer.Lists (t : Transfer) (blocks : List Raft.BlockInfo) : Prop where
  each : ∀ block ∈ blocks, ∃ described ∈ t.response.blocks, block.id = described.id ∧
    block.ino = described.ino ∧ block.offset = described.offset ∧ block.size = described.size ∧
    ∀ node, node ∈ block.dataNodeId ↔ node ∈ described.dataNodeId
  all : ∀ described ∈ t.response.blocks, ∃ block ∈ blocks, block.id = described.id

theorem Transfer.lists_of_describes {t : Transfer} {task : Ui.TransportTask}
    (h : Ui.Describes t.response task) :
    t.Lists (task.blocks.values.map Ui.BlockInfo.toRequest) where
  each _ hblock := h.published hblock
  all described hmem := by
    obtain ⟨block, hlookup⟩ := UnorderedMap.mem_iff_lookup.mp (h.all described hmem)
    obtain ⟨other, -, hid, hmatches⟩ := h.blocks hlookup
    exact ⟨block.toRequest,
      List.mem_map_of_mem (UnorderedMap.mem_values.mpr ⟨_, hlookup⟩), hmatches.id.trans hid⟩

/-! ## The invariant -/

namespace Deployment

/-- The data node holds the block as it is in the local file. -/
def Stored (site : Site) (d : Deployment) (t : Transfer) (block : Raft.BlockInfo) (node : ℕ) :
    Prop :=
  d.stores node ((site.dataNode node).getBlockPath t.ino block.id) =
    some (part (t.content site) block.offset block.size)

/-- What a client may take for the response of a leader. -/
def Known (d : Deployment) (client ino : ℕ) (response : PrepareUploadFileResponse) : Prop :=
  ∃ t ∈ d.transfers, t.client = client ∧ t.ino = ino ∧ t.response = response

/-- What a client may take for the answer of a data node. -/
def Answered (site : Site) (d : Deployment) (client : ℕ) (answer : ℕ × ℕ × ℕ) : Prop :=
  ∃ t ∈ d.transfers, t.client = client ∧ t.ino = answer.1 ∧
    ∃ block ∈ t.response.blocks, block.id = answer.2.1 ∧ d.Stored site t block answer.2.2

/-- A request to enter a file describes a transfer, and all its blocks are where they belong. -/
structure Published (site : Site) (d : Deployment) (t : Transfer) (request : UploadFileRequest) :
    Prop where
  path : request.path = t.response.remotePath
  lists : t.Lists request.blocks
  stored : ∀ block ∈ t.response.blocks, ∀ node ∈ block.dataNodeId, d.Stored site t block node

/-- The invariant: the transfers are those that were prepared, the clients know nothing else, and
every block that was answered `kOk` is stored. -/
structure Kept (site : Site) (d : Deployment) : Prop where
  valid : ∀ t ∈ d.transfers, t.Valid site
  numbered : ∀ t ∈ d.transfers, ∀ t' ∈ d.transfers, t.ino = t'.ino → t = t'
  prepared : ∀ p ∈ d.prepared, p.2.statusCode = .ok → ∃ ino, d.Known p.1 ino p.2
  sound : ∀ client, (d.clients client).Sound
  informed : ∀ client, (d.clients client).Informed (d.Known client)
  answered : ∀ client, ∀ answer ∈ (d.clients client).answered, d.Answered site client answer
  answers : ∀ a ∈ d.answers, a.2.statusCode = .ok →
    d.Answered site a.1 (a.2.ino, a.2.blockId, a.2.dataNodeId)
  entries : ∀ entry request, d.cluster.Holds entry → entry.command = some (.uploadFile request) →
    ∃ t ∈ d.transfers, d.Published site t request

variable {site : Site} {d d' : Deployment} {t : Transfer}

/-- What a client knows about is a transfer. -/
theorem Kept.of_known (h : d.Kept site) {client ino : ℕ} {response : PrepareUploadFileResponse}
    (hknown : d.Known client ino response) :
    DistinctIds response.blocks ∧ ∀ block ∈ response.blocks, block.ino = ino := by
  obtain ⟨t, ht, -, rfl, rfl⟩ := hknown
  exact ⟨distinctIds_of_splits (h.valid t ht).splits, (h.valid t ht).ino⟩

/-- The service goes on, and no block is lost. -/
structure Extends (site : Site) (d d' : Deployment) : Prop where
  transfers : d.transfers ⊆ d'.transfers
  stored : ∀ t ∈ d.transfers, ∀ block ∈ t.response.blocks, ∀ node,
    d.Stored site t block node → d'.Stored site t block node

theorem Extends.of_eq (htransfers : d.transfers ⊆ d'.transfers) (hstores : d'.stores = d.stores) :
    Extends site d d' where
  transfers := htransfers
  stored t _ block _ node hstored := by
    unfold Stored at hstored ⊢
    rw [hstores]
    exact hstored

theorem Extends.trans {d'' : Deployment} (hfirst : Extends site d d') (hsecond : Extends site d' d'') :
    Extends site d d'' where
  transfers := List.Subset.trans hfirst.transfers hsecond.transfers
  stored t ht block hblock node hstored :=
    hsecond.stored t (hfirst.transfers ht) block hblock node (hfirst.stored t ht block hblock node
      hstored)

theorem Extends.known (h : Extends site d d') {client ino : ℕ}
    {response : PrepareUploadFileResponse} (hknown : d.Known client ino response) :
    d'.Known client ino response := by
  obtain ⟨t, ht, hrest⟩ := hknown
  exact ⟨t, h.transfers ht, hrest⟩

theorem Extends.answered (h : Extends site d d') {client : ℕ} {answer : ℕ × ℕ × ℕ}
    (hanswered : d.Answered site client answer) : d'.Answered site client answer := by
  obtain ⟨t, ht, hclient, hino, block, hblock, hid, hstored⟩ := hanswered
  exact ⟨t, h.transfers ht, hclient, hino, block, hblock, hid, h.stored t ht block hblock _ hstored⟩

theorem Extends.published (h : Extends site d d') (ht : t ∈ d.transfers)
    {request : UploadFileRequest} (hpublished : d.Published site t request) :
    d'.Published site t request where
  path := hpublished.path
  lists := hpublished.lists
  stored block hblock node hnode :=
    h.stored t ht block hblock node (hpublished.stored block hblock node hnode)

/-! ## A place for a file -/

section Prepare

variable [Platform] {client id : ℕ} {env : Env} {cluster : Cluster}

omit [Platform] in
theorem preparedIn_concat {replies : List (ℕ × Reply)} {id : ℕ}
    {response : PrepareUploadFileResponse} :
    preparedIn ((replies ++ [(id, Reply.prepareUploadFile response)]).drop replies.length) =
      [response] := by
  rw [List.drop_left]
  rfl

/-- The member answers at once. -/
theorem exists_of_prepareUpload {request : PrepareUploadFileRequest}
    (hcluster : d.cluster.step (.handle id env (.prepareUploadFile request)) = some cluster) :
    ∃ node response, (d.cluster.node id).handlePrepareUploadFileRequest env request =
        .ok (node, response) ∧
      preparedIn (cluster.replies.drop d.cluster.replies.length) = [response] := by
  obtain ⟨-, network, node, output, -, hhandle, rfl⟩ := Cluster.step_handle hcluster
  obtain ⟨⟨node', response⟩, hprepare, heq⟩ := RaftNode.exists_of_map_eq_ok hhandle
  cases heq
  exact ⟨_, _, hprepare, preparedIn_concat⟩

/-- A place is made for all blocks, under the next number. -/
theorem of_prepare_ok {node node' : RaftNode} {request : PrepareUploadFileRequest}
    {response : PrepareUploadFileResponse}
    (hprepare : node.handlePrepareUploadFileRequest env request = .ok (node', response))
    (hok : response.statusCode = .ok) :
    response.localPath = request.localPath ∧ response.remotePath = request.remotePath ∧
      response.blocks = request.blocks.map
        (StateMachine.placeBlock node.stateMachine.dataNodes node.stateMachine.nextIno) := by
  unfold RaftNode.handlePrepareUploadFileRequest at hprepare
  split at hprepare
  next statusCode message hrefusal =>
    cases hprepare
    exact absurd hok (RaftNode.refusal_ne_ok hrefusal)
  next =>
    split at hprepare
    next => cases hprepare
    next stateMachine placed hplaced =>
      cases hprepare
      unfold StateMachine.prepareUploadFile at hplaced
      split_ifs at hplaced
      · cases hplaced
        cases hok
      · cases hplaced
        exact ⟨rfl, rfl, rfl⟩

/-- The transfer that a client's request leads to. -/
theorem valid_of_prepare {localPath currentDir : String} {request : PrepareUploadFileRequest}
    {node : RaftNode} {response : PrepareUploadFileResponse}
    (hrequest : d.prepareRequest site client localPath currentDir = some request)
    (hprepare : (d.cluster.node (d.clients client).client.leaderId).handlePrepareUploadFileRequest
      env request = .ok (node, response))
    (hok : response.statusCode = .ok) :
    Transfer.Valid site { client := client, ino := d.nextIno client, response := response } := by
  obtain ⟨hlocal, -, hblocks⟩ := of_prepare_ok hprepare hok
  unfold prepareRequest sendPrepareUploadFileRequest at hrequest
  split at hrequest
  next => cases hrequest
  next hsize =>
    obtain ⟨names, -, rfl⟩ := Option.map_eq_some_iff.mp hrequest
    have hcontent : Transfer.content site
        { client := client, ino := d.nextIno client, response := response } =
          site.localFile client localPath := congrArg (site.localFile client) hlocal
    refine ⟨?_, ?_, fun block hblock => ?_⟩
    · rw [hcontent]
      exact fun hnil => hsize (by rw [hnil]; rfl)
    · rw [hcontent]
      change Splits 0 0 _ response.blocks
      rw [hblocks]
      exact (Ui.splits_splitBlocks 0 0 _).map _ fun block => ⟨rfl, rfl, rfl⟩
    · change block ∈ response.blocks at hblock
      rw [hblocks] at hblock
      obtain ⟨original, -, rfl⟩ := List.mem_map.mp hblock
      rfl

end Prepare

/-! ## Blocks on their way -/

/-- The answer names the block and the data node. -/
theorem names_of_upload {node : DataNode} {io : UploadIo} {files : BlockFiles}
    {request : Raft.UploadBlockRequest} :
    (node.handleUploadBlockRequest io files request).2.ino = request.ino ∧
      (node.handleUploadBlockRequest io files request).2.blockId = request.blockId ∧
      (node.handleUploadBlockRequest io files request).2.dataNodeId = node.id := by
  unfold DataNode.handleUploadBlockRequest
  split
  next => exact ⟨rfl, rfl, rfl⟩
  next =>
    dsimp only
    split
    next => exact ⟨rfl, rfl, rfl⟩
    next => split <;> exact ⟨rfl, rfl, rfl⟩

/-- What an upload does whose transfer is not cut short: the block is stored and the answer says
so, or nothing happens. -/
theorem uploadBlock_cases {dataNodes : ℕ → DataNode} {localFile : List UInt8}
    {stores : ℕ → BlockFiles} {upload : BlockUpload}
    (hread : ∀ count ∈ upload.read, upload.block.size ≤ (count : ℕ))
    (hwrite : ∃ count ∈ upload.io.write, upload.block.size ≤ (count : ℕ)) :
    (∃ response, (Ui.uploadBlock dataNodes localFile stores upload).2 = some response ∧
      response.statusCode = .ok ∧ response.ino = upload.block.ino ∧
      response.blockId = upload.block.id ∧ response.dataNodeId = (dataNodes upload.node).id ∧
      (Ui.uploadBlock dataNodes localFile stores upload).1 =
        update stores upload.node (update (stores upload.node)
          ((dataNodes upload.node).getBlockPath upload.block.ino upload.block.id)
          (some (part localFile upload.block.offset upload.block.size)))) ∨
    (∀ response ∈ (Ui.uploadBlock dataNodes localFile stores upload).2,
      response.statusCode ≠ .ok) ∧
      (Ui.uploadBlock dataNodes localFile stores upload).1 = stores := by
  obtain ⟨written, hwritten, hfits⟩ := hwrite
  unfold Ui.uploadBlock
  cases hrequest : Ui.sendUploadBlockRequest upload.token localFile upload.block.id
      upload.block.ino upload.block.offset upload.block.size upload.read with
  | none => exact Or.inr ⟨nofun, rfl⟩
  | some request =>
    unfold Ui.sendUploadBlockRequest at hrequest
    split at hrequest
    next => cases hrequest
    next count hcount =>
      -- the whole block is read, and all of it is written
      have hall : (part localFile upload.block.offset upload.block.size).take (count : ℕ) =
          part localFile upload.block.offset upload.block.size :=
        List.take_of_length_le (by
          have := hread count hcount
          rw [part, List.length_take]
          omega)
      dsimp only at hrequest
      rw [hall] at hrequest
      obtain ⟨-, heq⟩ := Option.ite_none_left_eq_some.mp hrequest
      cases heq
      have hwrites : (Storage.BlockRequest.upload upload.io
          { token := upload.token, blockId := upload.block.id, ino := upload.block.ino,
            data := part localFile upload.block.offset upload.block.size }).Writes := by
        refine ⟨written, hwritten, ?_⟩
        rw [part, List.length_take]
        omega
      obtain ⟨hino, hblockId, hnode⟩ := names_of_upload
      rcases DataNode.upload_cases hwrites with ⟨hok, hfiles⟩ | ⟨hrefused, hfiles⟩
      · exact Or.inl ⟨_, rfl, hok, hino, hblockId, hnode,
          congrArg (update stores upload.node) hfiles⟩
      · refine Or.inr ⟨fun response hresponse => ?_, ?_⟩
        · cases hresponse
          exact hrefused
        · exact (congrArg (update stores upload.node) hfiles).trans (update_eq_self ..)

/-- The file of a block that is not the stored one is another file. -/
theorem Kept.stored_update (h : d.Kept site) (ht : t ∈ d.transfers) {block : Raft.BlockInfo}
    (hblock : block ∈ t.response.blocks) (node : ℕ) (htransfers : d.transfers ⊆ d'.transfers)
    (hstores : d'.stores = update d.stores node (update (d.stores node)
      ((site.dataNode node).getBlockPath t.ino block.id)
      (some (part (t.content site) block.offset block.size)))) : Extends site d d' where
  transfers := htransfers
  stored t' ht' block' hblock' node' hstored := by
    unfold Stored at hstored ⊢
    rw [hstores]
    by_cases hnode : node' = node
    · subst hnode
      rw [update_self]
      by_cases hsame : t'.ino = t.ino ∧ block'.id = block.id
      · obtain rfl := h.numbered t' ht' t ht hsame.1
        obtain rfl := distinctIds_of_splits (h.valid t' ht').splits block' hblock' block hblock
          hsame.2
        rw [update_self]
      · rw [update_of_ne]
        · exact hstored
        · exact fun heq => hsame (DataNode.getBlockPath_injective heq)
    · rw [update_of_ne hnode]
      exact hstored

/-! ## One lemma for each kind of step -/

section Steps

variable [Platform]

/-- An entry of a file that is new is that of a request to enter it. -/
theorem Kept.entries_of_step (h : d.Kept site) (hextends : Extends site d d')
    {members : Raft.Action} (hcluster : d.cluster.step members = some d'.cluster)
    (hupload : ∀ id env request, members = .handle id env (.uploadFile request) →
      ∃ t ∈ d'.transfers, d'.Published site t request) :
    ∀ entry request, d'.cluster.Holds entry → entry.command = some (.uploadFile request) →
      ∃ t ∈ d'.transfers, d'.Published site t request := by
  intro entry request hholds hcommand
  rcases Cluster.holds_of_step hcluster hholds with
    hold | ⟨id, env, input, command, rfl, -, haccepted, hnew⟩
  · obtain ⟨t, ht, hpublished⟩ := h.entries entry request hold hcommand
    exact ⟨t, hextends.transfers ht, hextends.published ht hpublished⟩
  · rw [hcommand] at hnew
    cases hnew
    cases input with
    | uploadFile request' =>
      obtain ⟨-, heq⟩ := Option.ite_none_right_eq_some.mp haccepted
      cases heq
      exact hupload id env _ rfl
    | makeDir request' =>
      obtain ⟨-, heq⟩ := Option.ite_none_right_eq_some.mp haccepted
      cases heq
    | _ => cases haccepted

/-- Only the members change. -/
theorem Kept.ofCluster (h : d.Kept site) {members : Raft.Action} {cluster : Cluster}
    (hcluster : d.cluster.step members = some cluster)
    (hupload : ∀ id env request, members = .handle id env (.uploadFile request) →
      ∃ t ∈ d.transfers, d.Published site t request) :
    Kept site { d with cluster := cluster } where
  valid := h.valid
  numbered := h.numbered
  prepared := h.prepared
  sound := h.sound
  informed := h.informed
  answered := h.answered
  answers := h.answers
  entries := by
    have hextends : Extends site d { d with cluster := cluster } :=
      .of_eq (List.Subset.refl _) rfl
    refine h.entries_of_step hextends hcluster fun id env request heq => ?_
    obtain ⟨t, ht, hpublished⟩ := hupload id env request heq
    exact ⟨t, ht, hextends.published ht hpublished⟩

theorem Kept.publish (h : d.Kept site) {client ino : ℕ} {env : Env}
    (hstep : d.step site (.publish client env ino) = some d') : d'.Kept site := by
  obtain ⟨cluster, hcluster, rfl⟩ := Option.map_eq_some_iff.mp hstep
  obtain ⟨members, hmembers, hcluster⟩ := Option.bind_eq_some_iff.mp hcluster
  obtain ⟨hset, hmembers⟩ := Option.ite_none_right_eq_some.mp hmembers
  obtain ⟨request, hrequest, rfl⟩ := Option.map_eq_some_iff.mp hmembers
  obtain ⟨task, hlookup, rfl⟩ := Option.map_eq_some_iff.mp hrequest
  refine h.ofCluster hcluster fun id env' request heq => ?_
  cases heq
  -- the task and the publication go back to one transfer
  obtain ⟨_, ⟨t, ht, hclient, hino, rfl⟩, hdescribes⟩ := (h.informed client).memory hlookup
  obtain ⟨_, ⟨t', ht', -, hino', rfl⟩, hall⟩ := (h.informed client).publications hset
  obtain rfl := h.numbered t ht t' ht' (hino.trans hino'.symm)
  refine ⟨t, ht, hdescribes.remotePath, Transfer.lists_of_describes hdescribes,
    fun block hblock node hnode => ?_⟩
  obtain ⟨t'', ht'', -, hino'', block', hblock', hid, hstored⟩ :=
    h.answered client _ (hall block hblock node hnode)
  obtain rfl := h.numbered t ht t'' ht'' (hino.trans hino''.symm)
  obtain rfl := distinctIds_of_splits (h.valid t ht).splits block' hblock' block hblock hid
  exact hstored

theorem Kept.prepareUpload (h : d.Kept site) {client : ℕ} {env : Env}
    {localPath currentDir : String}
    (hnumber : d.NewNumber (.prepareUpload client env localPath currentDir))
    (hstep : d.step site (.prepareUpload client env localPath currentDir) = some d') :
    d'.Kept site := by
  obtain ⟨cluster, hcluster, rfl⟩ := Option.map_eq_some_iff.mp hstep
  obtain ⟨members, hmembers, hcluster⟩ := Option.bind_eq_some_iff.mp hcluster
  obtain ⟨request, hrequest, rfl⟩ := Option.map_eq_some_iff.mp hmembers
  obtain ⟨node, response, hprepare, hresponses⟩ := exists_of_prepareUpload hcluster
  dsimp only
  rw [hresponses]
  set new : List Transfer := (List.filter (fun response => response.statusCode = .ok)
    [response]).map fun response =>
      { client := client, ino := d.nextIno client, response := response } with hnew
  have hmem : ∀ t ∈ new, t = { client := client, ino := d.nextIno client, response := response } ∧
      response.statusCode = .ok := by
    intro t ht
    obtain ⟨other, hother, rfl⟩ := List.mem_map.mp ht
    obtain ⟨hsame, hok⟩ := List.mem_filter.mp hother
    obtain rfl := List.mem_singleton.mp hsame
    exact ⟨rfl, of_decide_eq_true hok⟩
  have hextends : ∀ prepared : List (ℕ × PrepareUploadFileResponse), Extends site d
      { d with cluster := cluster, prepared := prepared, transfers := d.transfers ++ new } :=
    fun _ => .of_eq (List.subset_append_left _ _) rfl
  constructor
  case valid =>
    intro t ht
    rcases List.mem_append.mp ht with hold | ht
    · exact h.valid t hold
    · obtain ⟨rfl, hok⟩ := hmem t ht
      exact valid_of_prepare hrequest hprepare hok
  case numbered =>
    intro t ht t' ht' hino
    rcases List.mem_append.mp ht with hold | ht <;> rcases List.mem_append.mp ht' with hold' | ht'
    · exact h.numbered t hold t' hold' hino
    · obtain ⟨rfl, -⟩ := hmem t' ht'
      exact absurd hino (hnumber t hold)
    · obtain ⟨rfl, -⟩ := hmem t ht
      exact absurd hino.symm (hnumber t' hold')
    · rw [(hmem t ht).1, (hmem t' ht').1]
  case prepared =>
    intro p hp hok
    rcases List.mem_append.mp hp with hold | hp
    · obtain ⟨ino, hknown⟩ := h.prepared p hold hok
      exact ⟨ino, (hextends _).known hknown⟩
    · obtain rfl := List.mem_singleton.mp hp
      refine ⟨d.nextIno client, _, List.mem_append_right _ (List.mem_map.mpr ⟨response, ?_, rfl⟩),
        rfl, rfl, rfl⟩
      exact List.mem_filter.mpr ⟨List.mem_singleton_self _, decide_eq_true hok⟩
  case sound => exact h.sound
  case informed =>
    exact fun other => (h.informed other).mono fun _ _ hknown => (hextends _).known hknown
  case answered =>
    exact fun other answer hanswer => (hextends _).answered (h.answered other answer hanswer)
  case answers => exact fun a ha hok => (hextends _).answered (h.answers a ha hok)
  case entries =>
    refine h.entries_of_step (hextends _) hcluster fun id env' request' heq => ?_
    cases heq

omit [Platform] in
/-- Blocks are stored, and answers are sent that say so. -/
theorem Kept.ofStores (h : d.Kept site) {stores : ℕ → BlockFiles}
    {answers : List (ℕ × UploadBlockResponse)} {d' : Deployment}
    (heq : d' = { d with stores := stores, answers := d.answers ++ answers })
    (hextends : Extends site d d')
    (hanswers : ∀ a ∈ answers, a.2.statusCode = .ok →
      d'.Answered site a.1 (a.2.ino, a.2.blockId, a.2.dataNodeId)) : d'.Kept site := by
  subst heq
  refine ⟨h.valid, h.numbered, h.prepared, h.sound, h.informed, fun client answer hanswer => ?_,
    fun a ha hok => ?_, fun entry request hholds hcommand => ?_⟩
  · exact hextends.answered (h.answered client answer hanswer)
  · rcases List.mem_append.mp ha with hold | hnew
    · exact hextends.answered (h.answers a hold hok)
    · exact hanswers a hnew hok
  · obtain ⟨t, ht, hpublished⟩ := h.entries entry request hholds hcommand
    exact ⟨t, ht, hextends.published ht hpublished⟩

theorem Kept.uploadBlock (h : d.Kept site) {client blockId ino offset size node : ℕ}
    {localPath : String} {read : Option ℕ+} {io : UploadIo}
    (hwhole : Whole (.uploadBlock client localPath blockId ino offset size node read io))
    (hstep : d.step site (.uploadBlock client localPath blockId ino offset size node read io) =
      some d') : d'.Kept site := by
  obtain ⟨hset, heq⟩ := Option.ite_none_right_eq_some.mp hstep
  replace heq := (Option.some.inj heq).symm
  obtain ⟨_, _, ⟨t, ht, rfl, -, rfl⟩, rfl, block, hblock, rfl, rfl, rfl, rfl, -⟩ :=
    (h.informed client).requests hset
  have hino := (h.valid t ht).ino block hblock
  have htransfers : d.transfers ⊆ d'.transfers := by
    rw [heq]
    exact List.Subset.refl _
  rcases @uploadBlock_cases site.dataNode (t.content site) d.stores
      (d.blockUpload t.client block.id block.ino block.offset block.size node read io)
      hwhole.1 hwhole.2 with
    ⟨answer, hanswer, -, hanswerIno, hanswerId, hanswerNode, hstores⟩ | ⟨hrefused, hstores⟩
  · have hstored : d'.stores = _ := (congrArg stores heq).trans hstores
    change d'.stores = update d.stores node (update (d.stores node)
      ((site.dataNode node).getBlockPath block.ino block.id)
      (some (part (t.content site) block.offset block.size))) at hstored
    rw [hino] at hstored
    refine h.ofStores heq (h.stored_update ht hblock node htransfers hstored) fun a ha hok => ?_
    obtain ⟨response, hresponse, rfl⟩ := List.mem_map.mp ha
    obtain rfl := Option.some.inj (hanswer.symm.trans (Option.mem_toList.mp hresponse))
    refine ⟨t, htransfers ht, rfl, hino.symm.trans hanswerIno.symm, block, hblock,
      hanswerId.symm, ?_⟩
    unfold Stored
    rw [hstored, hanswerNode]
    simp [Site.dataNode, blockUpload]
  · have hextends : Extends site d d' := .of_eq htransfers ((congrArg stores heq).trans hstores)
    refine h.ofStores heq hextends fun a ha hok => ?_
    obtain ⟨response, hresponse, rfl⟩ := List.mem_map.mp ha
    exact absurd hok (hrefused response (Option.mem_toList.mp hresponse))

omit [Platform] in
/-- A client changes, and some responses are no longer on their way. -/
theorem Kept.ofClient (h : d.Kept site) {client : ℕ} {uploads : Uploads}
    {prepared : List (ℕ × PrepareUploadFileResponse)} {answers : List (ℕ × UploadBlockResponse)}
    (hprepared : prepared ⊆ d.prepared) (hanswers : answers ⊆ d.answers)
    (hsound : uploads.Sound) (hinformed : uploads.Informed (d.Known client))
    (hanswered : ∀ answer ∈ uploads.answered, d.Answered site client answer) :
    Kept site { d with
      prepared := prepared, answers := answers, clients := update d.clients client uploads } := by
  have hextends : Extends site d { d with
      prepared := prepared, answers := answers, clients := update d.clients client uploads } :=
    .of_eq (List.Subset.refl _) rfl
  constructor
  case valid => exact h.valid
  case numbered => exact h.numbered
  case prepared => exact fun p hp hok => h.prepared p (hprepared hp) hok
  case sound =>
    intro other
    dsimp only
    rcases eq_or_ne other client with rfl | hne
    · rwa [update_self]
    · rw [update_of_ne hne]
      exact h.sound other
  case informed =>
    intro other
    dsimp only
    rcases eq_or_ne other client with rfl | hne
    · rwa [update_self]
    · rw [update_of_ne hne]
      exact h.informed other
  case answered =>
    intro other answer hanswer
    dsimp only at hanswer
    refine hextends.answered ?_
    rcases eq_or_ne other client with rfl | hne
    · rw [update_self] at hanswer
      exact hanswered answer hanswer
    · rw [update_of_ne hne] at hanswer
      exact h.answered other answer hanswer
  case answers => exact fun a ha hok => hextends.answered (h.answers a (hanswers ha) hok)
  case entries =>
    intro entry request hholds hcommand
    obtain ⟨t, ht, hpublished⟩ := h.entries entry request hholds hcommand
    exact ⟨t, ht, hextends.published ht hpublished⟩

theorem Kept.receive (h : d.Kept site) {client : ℕ} {action : UploadAction}
    (horderly : (d.clients client).Orderly action)
    (hstep : d.step site (.receive client action) = some d') : d'.Kept site := by
  simp only [step] at hstep
  split at hstep
  next delivered uploads hdeliver huploads =>
    cases hstep
    obtain ⟨prepared, answers, rfl, hprepared, hanswers, hresponse, hanswer⟩ :=
      deliver_spec hdeliver
    have hknown : ∀ response, action = .prepareUploadFileResponse true response →
        response.statusCode = .ok → ∃ ino, d.Known client ino response ∧
          ∀ block ∈ response.blocks, block.ino = ino := by
      intro response heq hok
      obtain ⟨ino, hknown⟩ := h.prepared _ (hresponse response heq) hok
      exact ⟨ino, hknown, (h.of_known hknown).2⟩
    refine h.ofClient hprepared hanswers ((h.sound client).step horderly huploads).1
      ((h.informed client).step (h.sound client) horderly
        (fun ino response hknown => (h.of_known hknown).1) hknown huploads) fun a ha => ?_
    rcases Uploads.answered_of_step huploads with hsame | ⟨response, waits, heq, hok, hmore⟩
    · exact h.answered client a (hsame ▸ ha)
    · rw [hmore] at ha
      rcases List.mem_append.mp ha with hold | hnew
      · exact h.answered client a hold
      · rw [List.mem_singleton.mp hnew]
        exact h.answers _ (hanswer response waits heq) hok
  next => cases hstep

/-- **The step lemma.** -/
theorem Kept.step (h : d.Kept site) {action : Action} (hsane : Sane site d action)
    (hstep : d.step site action = some d') : d'.Kept site := by
  cases action with
  | cluster action =>
    obtain ⟨cluster, hcluster, rfl⟩ := Option.map_eq_some_iff.mp hstep
    obtain ⟨members, hmembers, hcluster⟩ := Option.bind_eq_some_iff.mp hcluster
    obtain ⟨hother, heq⟩ := Option.ite_none_left_eq_some.mp hmembers
    cases heq
    refine h.ofCluster hcluster fun id env request heq => ?_
    subst heq
    exact absurd rfl hother
  | prepareUpload client env localPath currentDir => exact h.prepareUpload hsane.number hstep
  | uploadBlock client localPath blockId ino offset size node read io =>
    exact h.uploadBlock hsane.whole hstep
  | publish client env ino => exact h.publish hstep
  | receive client action => exact h.receive hsane.orderly hstep
  | follow client leaderId =>
    cases hstep
    have hsound := h.sound client
    have hinformed := h.informed client
    exact h.ofClient (List.Subset.refl _) (List.Subset.refl _) ⟨hsound.memory, hsound.saved⟩
      ⟨hinformed.memory, hinformed.saved, hinformed.requests, hinformed.publications⟩
      (h.answered client)

theorem Kept.initial (hinit : d.Initial) : d.Kept site := by
  constructor
  case valid => simp [hinit.transfers]
  case numbered => simp [hinit.transfers]
  case prepared => simp [hinit.prepared]
  case answers => simp [hinit.answers]
  case sound =>
    intro client
    obtain ⟨leaderId, heq⟩ := hinit.clients client
    rw [heq]
    exact ⟨Uploads.Sound.initial.memory, Uploads.Sound.initial.saved⟩
  case informed =>
    intro client
    obtain ⟨leaderId, heq⟩ := hinit.clients client
    rw [heq]
    exact ⟨fun _ _ hlookup => absurd hlookup Ui.lookup_empty_ne, nofun, nofun, nofun⟩
  case answered =>
    intro client answer hanswer
    obtain ⟨leaderId, heq⟩ := hinit.clients client
    rw [heq] at hanswer
    cases hanswer
  case entries =>
    exact fun entry request hholds _ => absurd hholds (Cluster.not_holds_of_initial hinit.cluster)

theorem Kept.run (h : d.Kept site) (hrun : Run (Deployment.step site) (Sane site) d d') :
    d'.Kept site :=
  hrun.invariant (Kept site) h fun hkept hsane hstep => hkept.step hsane hstep

/-! ## What is described and fetched -/

omit [Platform] in
/-- The blocks of a file that a member describes are those of a transfer. -/
theorem Kept.exists_published (h : d.Kept site) {history : Consensus.History ℕ LogEntry}
    {r : Replicas ℕ (Option EntryCommand)} (hfollows : Raft.Follows d.cluster history r) {m : ℕ}
    {response : PrepareDownloadFileResponse}
    (hreply : (m, Reply.prepareDownloadFile response) ∈ d.cluster.replies)
    (hok : response.statusCode = .ok) (hne : response.blocks ≠ []) :
    ∃ t ∈ d.transfers, ∃ request, request.path = response.remotePath ∧
      request.blocks = response.blocks ∧ d.Published site t request := by
  obtain ⟨k, -, hanswers⟩ := hfollows.refines.replies _ hreply
  obtain ⟨kind, hfind, hblocks⟩ := hanswers hok
  cases kind with
  | directory => exact absurd hblocks hne
  | file blocks =>
    have hroot : response.remotePath ≠ "/" := by
      intro heq
      rw [heq, Namespace.root] at hfind
      cases hfind
    obtain ⟨i, command, added, hget, hadded, hpath, hkind⟩ :=
      StateMachine.exists_added hroot hfind
    rw [List.getElem?_take] at hget
    obtain ⟨-, hget⟩ := Option.ite_none_right_eq_some.mp hget
    obtain ⟨T, j, entry, hchosen, hle, hentry, rfl⟩ := hfollows.backed i command hget
    obtain ⟨holder, hholder, hmem⟩ := hfollows.sim.exists_holder hchosen hle hentry
    -- only the upload of a file adds a file
    obtain ⟨request, hcommand⟩ : ∃ request, entry.command = some (.uploadFile request) := by
      rcases hcommand : entry.command with - | (- | request | request)
      · rw [hcommand] at hadded
        cases hadded
      · rw [hcommand] at hadded
        cases hadded
      · rw [hcommand] at hadded
        cases hadded
        cases hkind
      · exact ⟨request, rfl⟩
    rw [hcommand] at hadded
    obtain ⟨names, -, rfl⟩ := Option.map_eq_some_iff.mp hadded
    obtain ⟨t, ht, hpublished⟩ := h.entries entry request (.log hholder hmem) hcommand
    cases hkind
    exact ⟨t, ht, request, hpath, hblocks.symm, hpublished⟩

omit [Platform] in
/-- The blocks are fetched, each from one of its data nodes, and all requests succeed. -/
structure Fetches (site : Site) (d : Deployment) (blocks : List Raft.BlockInfo)
    (downloads : List BlockDownload) : Prop where
  each : ∀ download ∈ downloads, download.block ∈ blocks ∧
    download.node ∈ download.block.dataNodeId ∧
    (Ui.downloadResponse site.dataNode d.stores download).statusCode = .ok
  all : ∀ block ∈ blocks, ∃ download ∈ downloads, download.block = block

omit [Platform] in
/-- The blocks of a file that was entered make up the local file. -/
theorem reassemble_of_published (hvalid : t.Valid site) {request : UploadFileRequest}
    (hpublished : d.Published site t request) {downloads : List BlockDownload}
    (hfetches : Fetches site d request.blocks downloads) :
    Ui.reassemble site.dataNode d.stores downloads = t.content site := by
  have hdescribed : ∀ download ∈ downloads, ∃ described ∈ t.response.blocks,
      download.block.id = described.id ∧ download.block.offset = described.offset ∧
      download.block.size = described.size ∧
      (Ui.downloadResponse site.dataNode d.stores download).data =
        part (t.content site) download.block.offset download.block.size := by
    intro download hdownload
    obtain ⟨hblock, hnode, hok⟩ := hfetches.each download hdownload
    obtain ⟨described, hmem, hid, hino, hoffset, hsize, hnodes⟩ :=
      hpublished.lists.each download.block hblock
    have hstored := hpublished.stored described hmem download.node ((hnodes _).mp hnode)
    have hfile : d.stores download.node ((site.dataNode download.node).getBlockPath
        download.block.ino download.block.id) =
          some (part (t.content site) download.block.offset download.block.size) := by
      rw [hino, hvalid.ino described hmem, hid, hoffset, hsize]
      exact hstored
    exact ⟨described, hmem, hid, hoffset, hsize,
      Option.some.inj ((DataNode.data_of_download_ok hok).symm.trans hfile)⟩
  have hbounds : ∀ download ∈ downloads, 0 < download.block.size ∧
      download.block.offset + download.block.size ≤ (t.content site).length := by
    intro download hdownload
    obtain ⟨described, hmem, -, hoffset, hsize, -⟩ := hdescribed download hdownload
    obtain ⟨-, -, hpos, hend⟩ := hvalid.splits.bounds described hmem
    omega
  have hcovers : ∀ i < (t.content site).length, ∃ download ∈ downloads,
      download.block.offset ≤ i ∧ i < download.block.offset + download.block.size := by
    intro i hi
    obtain ⟨described, hmem, hin⟩ := hvalid.splits.covers i (Nat.zero_le _) (by omega)
    obtain ⟨block, hblock, hid⟩ := hpublished.lists.all described hmem
    obtain ⟨download, hdownload, rfl⟩ := hfetches.all block hblock
    obtain ⟨other, hother, hid', hoffset, hsize, -⟩ := hdescribed download hdownload
    obtain rfl := distinctIds_of_splits hvalid.splits other hother described hmem
      (hid'.symm.trans hid)
    exact ⟨download, hdownload, by omega⟩
  have hwritten : Ui.reassemble site.dataNode d.stores downloads =
      writeParts (t.content site) []
        (downloads.map fun download => (download.block.offset, download.block.size)) := by
    rw [Ui.reassemble, writeParts, List.foldl_map]
    refine List.foldl_ext _ _ _ fun file download hdownload => ?_
    obtain ⟨_, -, -, -, -, hdata⟩ := hdescribed download hdownload
    rw [hdata]
  rw [hwritten, writeParts_nil_eq_iff (List.forall_mem_map.mpr fun download hdownload =>
    (hbounds download hdownload).2) (List.forall_mem_map.mpr fun download hdownload =>
    (hbounds download hdownload).1) hvalid.content_ne]
  have hlength := List.length_pos_iff.mpr hvalid.content_ne
  constructor
  · obtain ⟨download, hdownload, hin⟩ := hcovers ((t.content site).length - 1) (by omega)
    refine ⟨_, List.mem_map_of_mem hdownload, ?_⟩
    have hend := (hbounds download hdownload).2
    dsimp only
    omega
  · intro i
    by_cases hi : i < (t.content site).length
    · obtain ⟨download, hdownload, hin⟩ := hcovers i hi
      exact Or.inl ⟨_, List.mem_map_of_mem hdownload, hin⟩
    · exact Or.inr (List.getD_eq_default _ _ (Nat.not_lt.mp hi))

/-! ## Later states -/

theorem transfers_of_step {action : Action} (hstep : d.step site action = some d') :
    d.transfers ⊆ d'.transfers := by
  cases action with
  | cluster members =>
    obtain ⟨cluster, -, rfl⟩ := Option.map_eq_some_iff.mp hstep
    exact List.Subset.refl _
  | prepareUpload client env localPath currentDir =>
    obtain ⟨cluster, -, rfl⟩ := Option.map_eq_some_iff.mp hstep
    exact List.subset_append_left _ _
  | publish client env ino =>
    obtain ⟨cluster, -, rfl⟩ := Option.map_eq_some_iff.mp hstep
    exact List.Subset.refl _
  | uploadBlock client localPath blockId ino offset size node read io =>
    obtain ⟨-, heq⟩ := Option.ite_none_right_eq_some.mp hstep
    cases heq
    exact List.Subset.refl _
  | receive client action =>
    simp only [Deployment.step] at hstep
    split at hstep
    next delivered uploads hdeliver _ =>
      obtain ⟨_, _, rfl, -⟩ := deliver_spec hdeliver
      cases hstep
      exact List.Subset.refl _
    next => cases hstep
  | follow client leaderId =>
    cases hstep
    exact List.Subset.refl _

theorem transfers_of_run (hrun : Run (Deployment.step site) (Sane site) d d') :
    d.transfers ⊆ d'.transfers := by
  induction hrun with
  | refl => exact List.Subset.refl _
  | next _ _ hstep ih => exact List.Subset.trans ih (transfers_of_step hstep)

/-- **What is downloaded is what was uploaded**, in runs of sane steps.  A path that was described
once names the local file of one transfer, and whoever fetches its blocks later gets the content of
this file. -/
theorem contentKept (hinit : d.Initial) (hrun : Run (Deployment.step site) (Sane site) d d') {m : ℕ}
    {response : PrepareDownloadFileResponse}
    (hreply : (m, Reply.prepareDownloadFile response) ∈ d'.cluster.replies)
    (hok : response.statusCode = .ok) (hne : response.blocks ≠ []) :
    ∃ t ∈ d'.transfers, t.response.remotePath = response.remotePath ∧
      ∀ d'', Run (Deployment.step site) (Sane site) d' d'' →
        ∀ m' response', (m', Reply.prepareDownloadFile response') ∈ d''.cluster.replies →
          response'.statusCode = .ok → response'.remotePath = response.remotePath →
            ∀ downloads, Fetches site d'' response'.blocks downloads →
              Ui.reassemble site.dataNode d''.stores downloads = t.content site := by
  have hkept := (Kept.initial hinit).run hrun
  obtain ⟨history, r, -, -, hfollows⟩ :=
    (Raft.Follows.initial hinit.cluster).run (cluster_of_run hrun)
  obtain ⟨t, ht, request, hpath, hblocks, hpublished⟩ :=
    hkept.exists_published hfollows hreply hok hne
  refine ⟨t, ht, hpublished.path.symm.trans hpath, ?_⟩
  intro d'' hlater m' response' hreply' hok' hsame downloads hfetches
  have hkept' := hkept.run hlater
  obtain ⟨history', r', -, -, hfollows'⟩ :=
    (Raft.Follows.initial hinit.cluster).run (cluster_of_run (hrun.trans hlater))
  -- both descriptions are about the same blocks
  have hagree : response.blocks = response'.blocks :=
    Raft.answersAgree hinit.cluster (cluster_of_run (hrun.trans hlater)) _
      (Cluster.replies_of_run (cluster_of_run hlater) hreply) _ hreply' hok hok' hsame.symm
  obtain ⟨t', ht', request', -, hblocks', hpublished'⟩ :=
    hkept'.exists_published hfollows' hreply' hok' (hagree ▸ hne)
  have ht'' := transfers_of_run hlater ht
  obtain ⟨block, hblock⟩ := List.exists_mem_of_ne_nil _ hne
  obtain ⟨described, hmem, -, hino, -⟩ := hpublished.lists.each block (hblocks ▸ hblock)
  obtain ⟨described', hmem', -, hino', -⟩ :=
    hpublished'.lists.each block (hblocks' ▸ hagree ▸ hblock)
  obtain rfl : t' = t := hkept'.numbered t' ht' t ht'' (by
    rw [← (hkept'.valid t' ht').ino described' hmem', ← hino', hino,
      (hkept'.valid t ht'').ino described hmem])
  exact reassemble_of_published (hkept'.valid t' ht') hpublished' (hblocks' ▸ hfetches)

end Steps

end Deployment

/-! ## A file of one block -/

/-- All local files are of two bytes. -/
def smallSite : Site where
  blockDir _ := "/blocks"
  localFile _ _ := [1, 2]

/-- Two members and two data nodes. -/
def started : Deployment where
  cluster := Cluster.fresh [1, 2] Raft.nodup_twoMembers [1, 2]
  stores _ _ := none
  clients _ := {}

theorem initial_started : @Deployment.Initial plainPlatform started :=
  @Deployment.Initial.mk plainPlatform started (@Cluster.initial_fresh plainPlatform ..)
    (fun _ => ⟨0, rfl⟩) rfl rfl rfl

/-- The response to the first preparation. -/
def placed : PrepareUploadFileResponse where
  localPath := "./file"
  remotePath := "/file"
  blocks := [{ id := 0, ino := 1, offset := 0, size := 2, dataNodeId := [1, 2] }]

/-- The client sends the block to a data node, and hears from it.  Both move all bytes at once. -/
def sendTo (count : ℕ+) (node : ℕ) : List Action :=
  [.uploadBlock 1 "./file" 0 1 0 2 node (some count) { write := some count },
    .receive 1 (.uploadBlockResponse true
      { message := "分片上传成功", ino := 1, dataNodeId := node } false)]

/-- As the client publishes it, with the data node that answered last in front. -/
def blockOfFile : Raft.BlockInfo :=
  { id := 0, ino := 1, offset := 0, size := 2, dataNodeId := [2, 1] }

/-- The file is entered, and another client asks for it. -/
def enterFile : List Raft.Action :=
  [.handle 1 Raft.late .heartbeat,
    .handle 2 Raft.late (.deliver 1 (Raft.batch
      [⟨1, 1, some (.uploadFile { ino := 1, path := "/file", blocks := [blockOfFile] })⟩])),
    .handle 1 Raft.late (.deliver 2 (Raft.stored 1)),
    .handle 1 Raft.late (.prepareDownloadFile { remotePath := "/file" })]

/-- A client uploads a file of two bytes, and its entry is committed. -/
def uploadFile (count : ℕ+) : List Action :=
  Raft.electOfTwo.map .cluster ++
    [.follow 1 1, .prepareUpload 1 Raft.late "./file" "/",
      .receive 1 (.prepareUploadFileResponse true placed)] ++
    sendTo count 1 ++ sendTo count 2 ++ [.publish 1 Raft.late 1] ++ enterFile.map .cluster

/-- The block is read from the second data node. -/
def fetchBlock : BlockDownload :=
  { block := blockOfFile, node := 2 }

theorem contentKept_uploadFile :
    ∃ d, Run (@Deployment.step plainPlatform smallSite)
        (@Deployment.Sane plainPlatform smallSite) started d ∧
      Ui.reassemble smallSite.dataNode d.stores [fetchBlock] = [1, 2] := by
  obtain ⟨d, hrun, hcheck⟩ := Run.exists_of_exec (@Deployment.step plainPlatform smallSite)
    (@Deployment.Sane plainPlatform smallSite) started (uploadFile 2)
    (fun d => decide ((1, Reply.prepareDownloadFile
        { remotePath := "/file", blocks := [blockOfFile] }) ∈ d.cluster.replies ∧
      (Ui.downloadResponse smallSite.dataNode d.stores fetchBlock).statusCode = .ok))
    (by decide +kernel)
  obtain ⟨hreply, hok⟩ := of_decide_eq_true hcheck
  obtain ⟨t, -, -, hcontent⟩ := @Deployment.contentKept _ _ _ plainPlatform initial_started hrun
    _ _ hreply rfl (List.cons_ne_nil _ _)
  refine ⟨d, hrun, hcontent d .refl _ _ hreply rfl rfl [fetchBlock] ⟨?_, ?_⟩⟩
  · simp only [List.mem_singleton, forall_eq]
    exact ⟨rfl, List.mem_cons_self, hok⟩
  · simp only [List.mem_singleton, forall_eq]
    exact ⟨_, rfl, rfl⟩

end Vosfs.Service
