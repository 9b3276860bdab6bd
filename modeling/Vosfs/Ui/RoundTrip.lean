import Mathlib.Data.UInt
import Vosfs.Library.Bytes
import Vosfs.Raft.StateMachine
import Vosfs.Storage.DataNode

/-!
# Up and down again

A file is split into blocks, each block is read with one call of `File::read`, stored with one
call of `File::write`, and written back at its offset.  Both calls may transfer less than they
were asked for, and nobody compares: the tail of the block is lost, and the upload is answered
`kOk` nevertheless.

A hole in a file reads as zeros.  So the file comes back exactly if the bytes that were lost, on
the data nodes that the blocks are downloaded from, are zeros before the last block, and none in
the last block (`fileRoundTrip`).
-/

namespace Vosfs.Ui

open Function
open Raft (Platform StateMachine plainPlatform PrepareUploadFileRequest PrepareUploadFileResponse
  UploadBlockRequest UploadBlockResponse DownloadBlockRequest)
open Storage (DataNode BlockFiles UploadIo DownloadIo)

/-! ## The client -/

/-- The size of a full block. -/
def vosfsBlockSize : ℕ :=
  1 * 1024 * 1024

/-- The loop that splits what is left of a file into blocks. -/
def splitBlocks (blockId offset fileSize : ℕ) : List Raft.BlockInfo :=
  if fileSize = 0 then
    []
  else if vosfsBlockSize ≤ fileSize then
    { id := blockId, offset := offset, size := vosfsBlockSize } ::
      splitBlocks (blockId + 1) (offset + vosfsBlockSize) (fileSize - vosfsBlockSize)
  else
    { id := blockId, offset := offset, size := fileSize } ::
      splitBlocks (blockId + 1) (offset + fileSize) 0
termination_by fileSize
decreasing_by
  · unfold vosfsBlockSize at *
    omega
  · omega

/-- `none`: the file is empty, or its path has no `/`. -/
def sendPrepareUploadFileRequest (token localPath currentDir : String) (fileSize : ℕ) :
    Option PrepareUploadFileRequest :=
  if fileSize = 0 then
    none
  else
    (StateMachine.splitPath localPath).map fun (_, fileName) =>
      { token := token
        localPath := localPath
        remotePath :=
          if currentDir = "/" then currentDir ++ fileName else currentDir ++ "/" ++ fileName
        blocks := splitBlocks 0 0 fileSize }

/-- `read` is the number of bytes that are read at most, unless the local file cannot be read.
`none`: no request is sent. -/
def sendUploadBlockRequest (token : String) (localFile : List UInt8)
    (blockId ino offset size : ℕ) (read : Option ℕ+) : Option UploadBlockRequest :=
  match read with
  | none => none
  | some count =>
    let blockData := (part localFile offset size).take count
    if blockData = [] then
      none
    else
      some { token := token, blockId := blockId, ino := ino, data := blockData }

/-! ## Uploads and downloads of blocks -/

/-- A block that is sent to a data node. -/
structure BlockUpload where
  block : Raft.BlockInfo
  node : ℕ
  token : String := ""
  read : Option ℕ+
  io : UploadIo

/-- A block that is fetched from a data node. -/
structure BlockDownload where
  block : Raft.BlockInfo
  node : ℕ
  token : String := ""
  io : DownloadIo := {}

variable (dataNodes : ℕ → DataNode) (localFile : List UInt8)

/-- The files of the data nodes, and the answer, if a request is sent. -/
def uploadBlock (stores : ℕ → BlockFiles) (upload : BlockUpload) :
    (ℕ → BlockFiles) × Option UploadBlockResponse :=
  match sendUploadBlockRequest upload.token localFile upload.block.id upload.block.ino
      upload.block.offset upload.block.size upload.read with
  | none => (stores, none)
  | some request =>
    let (files, response) :=
      (dataNodes upload.node).handleUploadBlockRequest upload.io (stores upload.node) request
    (update stores upload.node files, some response)

/-- All uploads, one after another, are answered `kOk`. -/
def Uploaded : (ℕ → BlockFiles) → List BlockUpload → (ℕ → BlockFiles) → Prop
  | stores, [], stores' => stores' = stores
  | stores, upload :: uploads, stores' =>
    (∃ response ∈ (uploadBlock dataNodes localFile stores upload).2, response.statusCode = .ok) ∧
      Uploaded (uploadBlock dataNodes localFile stores upload).1 uploads stores'

/-- What the data node answers. -/
def downloadResponse (stores : ℕ → BlockFiles) (download : BlockDownload) :
    Raft.DownloadBlockResponse :=
  (dataNodes download.node).handleDownloadBlockRequest download.io (stores download.node)
    { token := download.token, blockId := download.block.id, ino := download.block.ino }

/-- The new local file: the data of each answer is written at the offset of its block. -/
def reassemble (stores : ℕ → BlockFiles) (downloads : List BlockDownload) : List UInt8 :=
  downloads.foldl (fun file download =>
    writeAt file download.block.offset (downloadResponse dataNodes stores download).data) []

/-! ## The blocks of a file -/

/-- What the loop yields from a block on. -/
structure Splits (blockId offset fileSize : ℕ) (blocks : List Raft.BlockInfo) : Prop where
  bounds : ∀ block ∈ blocks, blockId ≤ block.id ∧ offset ≤ block.offset ∧ 0 < block.size ∧
    block.offset + block.size ≤ offset + fileSize
  ordered : blocks.Pairwise fun block block' =>
    block.id < block'.id ∧ block.offset + block.size ≤ block'.offset
  covers : ∀ i, offset ≤ i → i < offset + fileSize →
    ∃ block ∈ blocks, block.offset ≤ i ∧ i < block.offset + block.size

theorem Splits.cons {blockId offset size fileSize : ℕ} {blocks : List Raft.BlockInfo}
    (h : Splits (blockId + 1) (offset + size) (fileSize - size) blocks) (hpos : 0 < size)
    (hle : size ≤ fileSize) :
    Splits blockId offset fileSize
      ({ id := blockId, offset := offset, size := size } :: blocks) := by
  refine ⟨fun block hblock => ?_, List.pairwise_cons.mpr ⟨fun block hblock => ?_, h.ordered⟩,
    fun i hlow hhigh => ?_⟩
  · rcases List.mem_cons.mp hblock with rfl | hmem
    · exact ⟨le_rfl, le_rfl, hpos, by dsimp only; omega⟩
    · obtain ⟨hid, hoffset, hsize, hend⟩ := h.bounds block hmem
      exact ⟨by omega, by omega, hsize, by omega⟩
  · obtain ⟨hid, hoffset, -, -⟩ := h.bounds block hblock
    exact ⟨by dsimp only; omega, hoffset⟩
  · by_cases hfirst : i < offset + size
    · exact ⟨_, List.mem_cons_self, hlow, hfirst⟩
    · obtain ⟨block, hmem, hin⟩ := h.covers i (by omega) (by omega)
      exact ⟨block, List.mem_cons_of_mem _ hmem, hin⟩

theorem splits_splitBlocks (blockId offset fileSize : ℕ) :
    Splits blockId offset fileSize (splitBlocks blockId offset fileSize) := by
  induction blockId, offset, fileSize using splitBlocks.induct with
  | case1 blockId offset =>
    rw [splitBlocks, if_pos rfl]
    exact ⟨nofun, List.Pairwise.nil, fun i hlow hhigh => by omega⟩
  | case2 blockId offset fileSize hne hle ih =>
    rw [splitBlocks, if_neg hne, if_pos hle]
    exact ih.cons (by unfold vosfsBlockSize; omega) hle
  | case3 blockId offset fileSize hne hlt ih =>
    rw [splitBlocks, if_neg hne, if_neg hlt]
    refine Splits.cons ?_ (by omega) le_rfl
    rw [Nat.sub_self]
    exact ih

section Blocks

variable {blockId offset fileSize i : ℕ} {blocks : List Raft.BlockInfo}
  {block block' : Raft.BlockInfo}

/-- Blocks with one id are the same block, and so are blocks with a common byte. -/
theorem Splits.eq_of (h : Splits blockId offset fileSize blocks) (hblock : block ∈ blocks)
    (hblock' : block' ∈ blocks)
    (hmeet : block.id = block'.id ∨ (block.offset ≤ i ∧ i < block.offset + block.size) ∧
      block'.offset ≤ i ∧ i < block'.offset + block'.size) : block = block' := by
  by_contra hne
  have hapart := List.Pairwise.forall_of_forall_of_flip
    (R := fun block block' : Raft.BlockInfo => block ≠ block' →
      block.id < block'.id ∧ block.offset + block.size ≤ block'.offset ∨
        block'.id < block.id ∧ block'.offset + block'.size ≤ block.offset)
    (fun _ _ hne => absurd rfl hne) (h.ordered.imp fun hbefore _ => Or.inl hbefore)
    (h.ordered.imp fun hbefore _ => Or.inr hbefore) hblock hblock' hne
  omega

/-- Where the replicas lie makes no difference. -/
theorem Splits.map (h : Splits blockId offset fileSize blocks)
    (place : Raft.BlockInfo → Raft.BlockInfo)
    (hplace : ∀ block, (place block).id = block.id ∧ (place block).offset = block.offset ∧
      (place block).size = block.size) : Splits blockId offset fileSize (blocks.map place) := by
  refine ⟨fun block hblock => ?_, List.pairwise_map.mpr
    (h.ordered.imp fun {block block'} hbefore => ?_),
    fun i hlow hhigh => ?_⟩
  · obtain ⟨original, hmem, rfl⟩ := List.mem_map.mp hblock
    obtain ⟨hid, hoffset, hsize⟩ := hplace original
    rw [hid, hoffset, hsize]
    exact h.bounds original hmem
  · rw [(hplace block).1, (hplace block').1, (hplace block).2.1, (hplace block').2.1,
      (hplace block).2.2]
    exact hbefore
  · obtain ⟨block, hmem, hin⟩ := h.covers i hlow hhigh
    refine ⟨place block, List.mem_map_of_mem hmem, ?_⟩
    rw [(hplace block).2.1, (hplace block).2.2]
    exact hin

theorem Splits.nodup (h : Splits blockId offset fileSize blocks) : blocks.Nodup :=
  h.ordered.imp fun {block block'} hbefore heq =>
    Nat.ne_of_lt hbefore.1 (congrArg Raft.BlockInfo.id (heq : block = block'))

end Blocks

/-! ## What is stored -/

/-- How many bytes of a block an upload leaves on the data node. -/
def BlockUpload.stored (upload : BlockUpload) : ℕ :=
  match upload.read, upload.io.write with
  | some read, some write => min upload.block.size (min read write)
  | _, _ => 0

variable {dataNodes localFile} {stores stores' : ℕ → BlockFiles} {upload : BlockUpload}
  {uploads : List BlockUpload}

/-- An upload that is answered `kOk`. -/
theorem uploadBlock_of_ok
    (hok : ∃ response ∈ (uploadBlock dataNodes localFile stores upload).2,
      response.statusCode = .ok) :
    (uploadBlock dataNodes localFile stores upload).1 =
        update stores upload.node (update (stores upload.node)
          ((dataNodes upload.node).getBlockPath upload.block.ino upload.block.id)
          (some (part localFile upload.block.offset upload.stored))) ∧
      (0 < upload.block.size → 0 < upload.stored) := by
  obtain ⟨response, hresponse, hstatus⟩ := hok
  unfold uploadBlock at hresponse ⊢
  split at hresponse
  next => cases hresponse
  next request hrequest =>
    unfold sendUploadBlockRequest at hrequest
    split at hrequest
    next => cases hrequest
    next read hread =>
      dsimp only at hrequest
      split at hrequest
      next => cases hrequest
      next =>
        cases hrequest
        cases hresponse
        obtain ⟨write, hwrite, hfiles⟩ := DataNode.exists_of_upload_ok hstatus
        have hstored : upload.stored = min upload.block.size (min read write) := by
          rw [BlockUpload.stored, hread, hwrite]
        have hpart : ((part localFile upload.block.offset upload.block.size).take read).take write =
            part localFile upload.block.offset upload.stored := by
          rw [hstored, part, part, List.take_take, List.take_take]
          congr 1
          omega
        refine ⟨?_, fun hsize => ?_⟩
        · dsimp only
          rw [hfiles, hpart]
        · have hread := read.pos
          have hwrite := write.pos
          omega

/-- The last upload of a block to a data node. -/
def lastUpload (uploads : List BlockUpload) (blockId node : ℕ) : Option BlockUpload :=
  uploads.reverse.find? fun upload => upload.block.id = blockId ∧ upload.node = node

theorem lastUpload_cons (upload : BlockUpload) (uploads : List BlockUpload) (blockId node : ℕ) :
    lastUpload (upload :: uploads) blockId node = (lastUpload uploads blockId node).or
      (if upload.block.id = blockId ∧ upload.node = node then some upload else none) := by
  unfold lastUpload
  rw [List.reverse_cons, List.find?_append, List.find?_singleton]
  simp only [decide_eq_true_eq]

theorem lastUpload_some {blockId node : ℕ} (hlast : lastUpload uploads blockId node = some upload) :
    upload ∈ uploads ∧ upload.block.id = blockId ∧ upload.node = node :=
  ⟨List.mem_reverse.mp (List.mem_of_find?_eq_some hlast), by simpa using List.find?_some hlast⟩

/-- Each block's file holds what its last upload left. -/
theorem file_of_uploaded {ino : ℕ} (hino : ∀ upload ∈ uploads, upload.block.ino = ino)
    (h : Uploaded dataNodes localFile stores uploads stores') (blockId node : ℕ) :
    stores' node ((dataNodes node).getBlockPath ino blockId) =
      match lastUpload uploads blockId node with
      | some upload => some (part localFile upload.block.offset upload.stored)
      | none => stores node ((dataNodes node).getBlockPath ino blockId) := by
  induction uploads generalizing stores with
  | nil =>
    obtain rfl : stores' = stores := h
    rfl
  | cons upload uploads ih =>
    obtain ⟨hok, hrest⟩ := h
    rw [ih (fun other hother => hino other (List.mem_cons_of_mem _ hother)) hrest, lastUpload_cons,
      (uploadBlock_of_ok hok).1, hino upload List.mem_cons_self]
    cases lastUpload uploads blockId node with
    | some last => rfl
    | none =>
      rw [Option.none_or]
      by_cases hnode : node = upload.node
      · subst hnode
        by_cases hid : upload.block.id = blockId
        · subst hid
          simp
        · have hpath : (dataNodes upload.node).getBlockPath ino blockId ≠
              (dataNodes upload.node).getBlockPath ino upload.block.id := fun hsame =>
            hid (DataNode.getBlockPath_injective hsame).2.symm
          simp [hid, hpath]
      · simp [Ne.symm hnode, hnode]

/-- Every upload was answered `kOk`, so that it left something. -/
theorem stored_pos_of_uploaded (h : Uploaded dataNodes localFile stores uploads stores')
    (hsizes : ∀ upload ∈ uploads, 0 < upload.block.size) :
    ∀ upload ∈ uploads, 0 < upload.stored := by
  induction uploads generalizing stores with
  | nil => exact fun _ hmem => absurd hmem List.not_mem_nil
  | cons first uploads ih =>
    obtain ⟨hok, hrest⟩ := h
    intro upload hmem
    rcases List.mem_cons.mp hmem with rfl | hlater
    · exact (uploadBlock_of_ok hok).2 (hsizes upload List.mem_cons_self)
    · exact ih hrest (fun other hother => hsizes other (List.mem_cons_of_mem _ hother)) upload
        hlater

/-! ## The round trip -/

/-- What `prepare_upload_file` makes of the blocks of a file. -/
def Prepared [Platform] (localFile : List UInt8) (blocks : List Raft.BlockInfo) : Prop :=
  ∃ token localPath currentDir request sm sm' response,
    sendPrepareUploadFileRequest token localPath currentDir localFile.length = some request ∧
    StateMachine.prepareUploadFile sm request = some (sm', response) ∧
    response.statusCode = .ok ∧ response.blocks = blocks

theorem exists_ino_of_prepare [Platform] {sm sm' : StateMachine}
    {request : PrepareUploadFileRequest}
    {response : PrepareUploadFileResponse}
    (hprepare : sm.prepareUploadFile request = some (sm', response))
    (hstatus : response.statusCode = .ok) :
    ∃ ino, response.blocks = request.blocks.map (StateMachine.placeBlock sm.dataNodes ino) := by
  unfold StateMachine.prepareUploadFile at hprepare
  split_ifs at hprepare
  · cases hprepare
    cases hstatus
  · cases hprepare
    exact ⟨_, rfl⟩

/-- The blocks are the blocks of the file, with one inode. -/
theorem Prepared.spec [Platform] {blocks : List Raft.BlockInfo} (h : Prepared localFile blocks) :
    localFile ≠ [] ∧ Splits 0 0 localFile.length blocks ∧
      ∃ ino, ∀ block ∈ blocks, block.ino = ino := by
  obtain ⟨token, localPath, currentDir, request, sm, sm', response, hrequest, hprepare, hstatus,
    rfl⟩ := h
  unfold sendPrepareUploadFileRequest at hrequest
  split at hrequest
  next => cases hrequest
  next hsize =>
    obtain ⟨names, -, rfl⟩ := Option.map_eq_some_iff.mp hrequest
    obtain ⟨ino, hmap⟩ := exists_ino_of_prepare hprepare hstatus
    refine ⟨fun hnil => hsize (hnil ▸ rfl), ?_, ino, fun block hblock => ?_⟩
    · rw [hmap]
      exact (splits_splitBlocks 0 0 _).map _ fun block => ⟨rfl, rfl, rfl⟩
    · rw [hmap] at hblock
      obtain ⟨original, -, rfl⟩ := List.mem_map.mp hblock
      rfl

/-- The last upload of the block to the data node lost zeros at most, and nothing at the end of
the file. -/
def Intact (localFile : List UInt8) (uploads : List BlockUpload) (download : BlockDownload) :
    Prop :=
  ∀ upload ∈ lastUpload uploads download.block.id download.node,
    (∀ i, upload.block.offset + upload.stored ≤ i →
      i < upload.block.offset + upload.block.size → localFile.getD i 0 = 0) ∧
    (upload.block.offset + upload.block.size = localFile.length →
      upload.stored = upload.block.size)

/-- The block, and how much of it was stored. -/
def storedPiece (uploads : List BlockUpload) (download : BlockDownload) : Piece where
  offset := download.block.offset
  size := download.block.size
  kept := ((lastUpload uploads download.block.id download.node).map BlockUpload.stored).getD 0

section RoundTrip

variable [Platform] {blocks : List Raft.BlockInfo} {downloads : List BlockDownload}

/-- What a download brings. -/
theorem exists_lastUpload (hprepared : Prepared localFile blocks)
    (hassigned : ∀ upload ∈ uploads, upload.block ∈ blocks)
    (hall : ∀ block ∈ blocks, ∀ node ∈ block.dataNodeId,
      ∃ upload ∈ uploads, upload.block = block ∧ upload.node = node)
    (huploaded : Uploaded dataNodes localFile stores uploads stores') {download : BlockDownload}
    (hblock : download.block ∈ blocks) (hnode : download.node ∈ download.block.dataNodeId)
    (hok : (downloadResponse dataNodes stores' download).statusCode = .ok) :
    ∃ upload, lastUpload uploads download.block.id download.node = some upload ∧
      upload.block = download.block ∧ 0 < upload.stored ∧ upload.stored ≤ upload.block.size ∧
      (downloadResponse dataNodes stores' download).data =
        part localFile download.block.offset upload.stored := by
  obtain ⟨-, hsplits, ino, hino⟩ := hprepared.spec
  obtain ⟨upload, hlast⟩ : ∃ upload,
      lastUpload uploads download.block.id download.node = some upload := by
    obtain ⟨upload, hmem, hsame, hnode'⟩ := hall _ hblock _ hnode
    refine Option.isSome_iff_exists.mp (List.find?_isSome.mpr
      ⟨upload, List.mem_reverse.mpr hmem, ?_⟩)
    exact decide_eq_true ⟨congrArg Raft.BlockInfo.id hsame, hnode'⟩
  obtain ⟨hmem, hid, -⟩ := lastUpload_some hlast
  have hsame : upload.block = download.block :=
    hsplits.eq_of (i := 0) (hassigned upload hmem) hblock (Or.inl hid)
  refine ⟨upload, hlast, hsame, ?_, ?_, ?_⟩
  · exact stored_pos_of_uploaded huploaded
      (fun upload hmem => (hsplits.bounds _ (hassigned upload hmem)).2.2.1) upload hmem
  · unfold BlockUpload.stored
    split
    · exact min_le_left _ _
    · exact Nat.zero_le _
  · have hfile := file_of_uploaded (fun upload hmem =>
      (hino _ (hassigned upload hmem)).trans (hino _ hblock).symm) huploaded
        download.block.id download.node
    have hdata := DataNode.data_of_download_ok hok
    rw [hlast] at hfile
    rw [hfile] at hdata
    exact hsame ▸ (Option.some.inj hdata).symm

omit [Platform] in
/-- The blocks are written once each, so that a byte belongs to one download. -/
theorem tiles_storedPiece (hsplits : Splits 0 0 localFile.length blocks)
    (hblocks : (downloads.map BlockDownload.block).Perm blocks)
    (hkept : ∀ download ∈ downloads, 0 < (storedPiece uploads download).kept ∧
      (storedPiece uploads download).kept ≤ download.block.size) :
    Tiles localFile.length (downloads.map (storedPiece uploads)) := by
  have hmem : ∀ download ∈ downloads, download.block ∈ blocks := fun download hdownload =>
    hblocks.subset (List.mem_map_of_mem hdownload)
  refine ⟨fun piece hpiece => ?_, fun piece hpiece piece' hpiece' i hin hin' => ?_, fun i hi => ?_⟩
  · obtain ⟨download, hdownload, rfl⟩ := List.mem_map.mp hpiece
    have hend := (hsplits.bounds _ (hmem download hdownload)).2.2.2
    rw [Nat.zero_add] at hend
    exact ⟨hend, hkept download hdownload⟩
  · obtain ⟨download, hdownload, rfl⟩ := List.mem_map.mp hpiece
    obtain ⟨download', hdownload', rfl⟩ := List.mem_map.mp hpiece'
    have hsame := hsplits.eq_of (hmem download hdownload) (hmem download' hdownload')
      (Or.inr ⟨hin, hin'⟩)
    rw [List.inj_on_of_nodup_map (hblocks.nodup_iff.mpr hsplits.nodup) hdownload hdownload' hsame]
  · obtain ⟨block, hblock, hin⟩ := hsplits.covers i (Nat.zero_le _) (by omega)
    obtain ⟨download, hdownload, rfl⟩ := List.mem_map.mp (hblocks.symm.subset hblock)
    exact ⟨_, List.mem_map_of_mem hdownload, hin⟩

/-- **A file comes back if nothing but zeros was lost, and nothing at its end.** -/
theorem fileRoundTrip (hprepared : Prepared localFile blocks)
    (hassigned : ∀ upload ∈ uploads, upload.block ∈ blocks)
    (hall : ∀ block ∈ blocks, ∀ node ∈ block.dataNodeId,
      ∃ upload ∈ uploads, upload.block = block ∧ upload.node = node)
    (huploaded : Uploaded dataNodes localFile stores uploads stores')
    (hblocks : (downloads.map BlockDownload.block).Perm blocks)
    (hnodes : ∀ download ∈ downloads, download.node ∈ download.block.dataNodeId)
    (hok : ∀ download ∈ downloads, (downloadResponse dataNodes stores' download).statusCode = .ok) :
    reassemble dataNodes stores' downloads = localFile ↔
      ∀ download ∈ downloads, Intact localFile uploads download := by
  obtain ⟨hne, hsplits, -⟩ := hprepared.spec
  have hlast := fun download hdownload => exists_lastUpload hprepared hassigned hall huploaded
    (hblocks.subset (List.mem_map_of_mem hdownload)) (hnodes download hdownload)
    (hok download hdownload)
  have hkept : ∀ {download upload},
      lastUpload uploads download.block.id download.node = some upload →
        (storedPiece uploads download).kept = upload.stored := by
    intro download upload hupload
    rw [storedPiece, hupload]
    rfl
  have htiles : Tiles localFile.length (downloads.map (storedPiece uploads)) := by
    refine tiles_storedPiece hsplits hblocks fun download hdownload => ?_
    obtain ⟨upload, hupload, hsame, hpos, hle, -⟩ := hlast download hdownload
    rw [hkept hupload]
    exact ⟨hpos, hsame ▸ hle⟩
  have hwritten : reassemble dataNodes stores' downloads = writeParts localFile []
      ((downloads.map (storedPiece uploads)).map fun piece => (piece.offset, piece.kept)) := by
    rw [reassemble, writeParts, List.foldl_map, List.foldl_map]
    refine List.foldl_ext _ _ _ fun file download hdownload => ?_
    obtain ⟨upload, hupload, -, -, -, hdata⟩ := hlast download hdownload
    rw [hdata, hkept hupload]
    rfl
  rw [hwritten, writeParts_pieces_eq_iff htiles hne, List.forall_mem_map]
  refine forall₂_congr fun download hdownload => ?_
  obtain ⟨upload, hupload, hsame, -⟩ := hlast download hdownload
  unfold Intact Piece.LosesNothing
  rw [hkept hupload, hupload]
  simp [hsame, storedPiece]

end RoundTrip

/-! ### A file of two bytes -/

/-- A file of two bytes. -/
def twoBytes : List UInt8 :=
  [1, 2]

/-- Its block, on two data nodes. -/
def blockOfTwo : Raft.BlockInfo :=
  { id := 0, ino := 1, size := 2, dataNodeId := [1, 2] }

/-- A data node. -/
def nodeAt (id : ℕ) : DataNode :=
  { id := id, blockDir := "/blocks" }

/-- Both data nodes write at most `write` bytes. -/
def uploadTwice (write : ℕ+) : List BlockUpload :=
  [{ block := blockOfTwo, node := 1, read := some 2, io := { write := some write } },
    { block := blockOfTwo, node := 2, read := some 2, io := { write := some write } }]

/-- What the data nodes hold after both uploads, where a write takes `write` bytes at once. -/
def filesAfter (write : ℕ+) : ℕ → BlockFiles :=
  (uploadTwice write).foldl (fun stores upload => (uploadBlock nodeAt twoBytes stores upload).1)
    fun _ _ => none

/-- The block is fetched from the second data node. -/
def fetchOnce : List BlockDownload :=
  [{ block := blockOfTwo, node := 2 }]

theorem prepared_twoBytes : @Prepared plainPlatform twoBytes [blockOfTwo] := by
  refine ⟨"token", "./file", "/",
    { token := "token", localPath := "./file", remotePath := "/file", blocks := [{ size := 2 }] },
    { dataNodes := [1, 2], nextIno := 1 }, _, _, ?_, rfl, rfl, rfl⟩
  have hblocks : splitBlocks 0 0 twoBytes.length = [{ size := 2 }] := by
    simp [splitBlocks, vosfsBlockSize, twoBytes]
  have hsplit : StateMachine.splitPath "./file" = some (".", "file") := by decide +kernel
  rw [sendPrepareUploadFileRequest, if_neg (by decide), hsplit, hblocks]
  rfl

theorem uploaded_twoBytes (write : ℕ+) :
    Uploaded nodeAt twoBytes (fun _ _ => none) (uploadTwice write) (filesAfter write) :=
  ⟨⟨_, rfl, rfl⟩, ⟨_, rfl, rfl⟩, rfl⟩

theorem fileRoundTrip_twoBytes :
    (∀ download ∈ fetchOnce, (downloadResponse nodeAt (filesAfter 2) download).statusCode = .ok) ∧
      (reassemble nodeAt (filesAfter 2) fetchOnce = twoBytes ↔
        ∀ download ∈ fetchOnce, Intact twoBytes (uploadTwice 2) download) := by
  have hok : ∀ download ∈ fetchOnce,
      (downloadResponse nodeAt (filesAfter 2) download).statusCode = .ok := by
    decide +kernel
  refine ⟨hok, @fileRoundTrip _ _ _ _ _ plainPlatform _ _ prepared_twoBytes ?_ ?_
    (uploaded_twoBytes 2) (List.Perm.refl _) ?_ hok⟩
  · decide
  · decide
  · decide

/-- Each data node writes one byte of the two, and answers `kOk`. -/
theorem exists_changed_file :
    @Prepared plainPlatform twoBytes [blockOfTwo] ∧
      Uploaded nodeAt twoBytes (fun _ _ => none) (uploadTwice 1) (filesAfter 1) ∧
      (∀ download ∈ fetchOnce, download.node ∈ download.block.dataNodeId ∧
        (downloadResponse nodeAt (filesAfter 1) download).statusCode = .ok) ∧
      fetchOnce.map BlockDownload.block = [blockOfTwo] ∧
      reassemble nodeAt (filesAfter 1) fetchOnce = [1] ∧ [1] ≠ twoBytes :=
  ⟨prepared_twoBytes, uploaded_twoBytes 1, by decide +kernel, rfl, by decide +kernel, by decide⟩

end Vosfs.Ui
