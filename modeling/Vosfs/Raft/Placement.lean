import Mathlib.Data.List.Forall2
import Mathlib.Data.List.GetD
import Mathlib.Data.List.Nodup
import Mathlib.Data.Nat.ModEq
import Vosfs.Raft.Node

/-!
# Placing blocks

A block goes to the data node that the hash of its key picks, and to the next one in the
list of data nodes, which is read as a ring.  The nodes come from a configuration of which
nothing is checked, so the ring may be empty, have one member, or the same one twice in a
row; and the block keeps the nodes the client has put into it.

`blocksPlaced`: all blocks get two configured nodes each if and only if each of them comes
without nodes and is sent to two neighbours that differ (`Separates`).
-/

namespace Vosfs.Raft

/-! ## The configuration -/

/-- A node of the configuration. -/
structure NodeInfo where
  id : ℕ
  name : String
  host : String
  port : ℕ

/-- What is read of a configuration file; `none` is a field that is missing or of another
type, which throws. -/
structure ConfigJson where
  memberId : Option ℕ
  raftNodes : List (Option NodeInfo)
  dataNodes : List (Option NodeInfo)

/-- Members with one id are one; data nodes are taken as they stand. -/
def Config.fromJson (json : ConfigJson) : Option Config := do
  let memberId ← json.memberId
  let raftNodes : UnorderedMap ℕ NodeInfo ←
    json.raftNodes.foldlM (fun nodes node => node.map fun node => nodes.emplace node.id node) ∅
  let dataNodes ← json.dataNodes.foldlM (fun nodes node => node.map fun node => nodes ++ [node]) []
  some
    { memberId := memberId
      raftNodes := raftNodes.keys
      nodup := raftNodes.keys_nodup
      dataNodes := dataNodes.map NodeInfo.id }

theorem foldlM_map_some {α β : Type*} (f : β → α → β) (values : List α) (start : β) :
    (values.map some).foldlM (fun found value => value.map (f found)) start =
      some (values.foldl f start) := by
  induction values generalizing start with
  | nil => rfl
  | cons value values ih => exact ih (f start value)

theorem foldl_append_singleton {α : Type*} (values start : List α) :
    values.foldl (fun found value => found ++ [value]) start = start ++ values := by
  induction values generalizing start with
  | nil => simp
  | cons value values ih => simp [ih]

/-- Every list of data nodes that can be read is accepted. -/
theorem Config.exists_fromJson (memberId : ℕ) (raftNodes dataNodes : List NodeInfo) :
    ∃ config, Config.fromJson ⟨some memberId, raftNodes.map some, dataNodes.map some⟩ =
      some config ∧ config.dataNodes = dataNodes.map NodeInfo.id := by
  unfold Config.fromJson
  dsimp only
  rw [foldlM_map_some fun (nodes : UnorderedMap ℕ NodeInfo) node => nodes.emplace node.id node,
    foldlM_map_some fun (nodes : List NodeInfo) node => nodes ++ [node], foldl_append_singleton]
  exact ⟨_, rfl, rfl⟩

namespace StateMachine

/-! ## The ring -/

theorem length_replicas (dataNodes : List ℕ) (nodeIndex : ℕ) :
    (replicas dataNodes nodeIndex).length = replicaNodeSize := by
  simp [replicas]

theorem mem_of_mem_replicas {dataNodes : List ℕ} (hne : dataNodes ≠ []) {nodeIndex id : ℕ}
    (hmem : id ∈ replicas dataNodes nodeIndex) : id ∈ dataNodes := by
  obtain ⟨i, -, rfl⟩ := List.mem_map.mp hmem
  have hlt : (nodeIndex + i) % dataNodes.length < dataNodes.length :=
    Nat.mod_lt _ (List.length_pos_iff.mpr hne)
  rw [List.getD_eq_getElem _ _ hlt]
  exact List.getElem_mem hlt

/-- As many steps in a ring as it has members lead to different members. -/
theorem nodup_replicas {dataNodes : List ℕ} (hnodup : dataNodes.Nodup)
    (hlength : replicaNodeSize ≤ dataNodes.length) (nodeIndex : ℕ) :
    (replicas dataNodes nodeIndex).Nodup := by
  refine List.Nodup.map_on (fun i hi j hj heq => ?_) List.nodup_range
  rw [List.mem_range] at hi hj
  have hpos : 0 < dataNodes.length := by omega
  have hlt : ∀ i, (nodeIndex + i) % dataNodes.length < dataNodes.length :=
    fun i => Nat.mod_lt _ hpos
  rw [List.getD_eq_getElem _ _ (hlt i), List.getD_eq_getElem _ _ (hlt j),
    hnodup.getElem_inj_iff] at heq
  have hmod : i ≡ j [MOD dataNodes.length] := Nat.ModEq.add_left_cancel' nodeIndex heq
  exact hmod.eq_of_lt_of_lt (by omega) (by omega)

section Placing

variable [Platform] {sm : StateMachine} {block : BlockInfo}

/-- The place in the ring that the hash picks for a block of the next file. -/
def nodeIndex (sm : StateMachine) (block : BlockInfo) : ℕ :=
  Platform.hash (u64 (sm.nextIno * 2 ^ 32) ||| block.id) % sm.dataNodes.length

theorem replicas_nodeIndex (sm : StateMachine) (block : BlockInfo) :
    replicas sm.dataNodes (sm.nodeIndex block) =
      [sm.dataNodes.getD (sm.nodeIndex block) 0,
        sm.dataNodes.getD ((sm.nodeIndex block + 1) % sm.dataNodes.length) 0] := by
  have hfirst : (sm.nodeIndex block + 0) % sm.dataNodes.length = sm.nodeIndex block :=
    Nat.mod_mod _ _
  unfold replicas replicaNodeSize
  rw [List.range_succ, List.range_one, List.map_append, List.map_singleton, List.map_singleton,
    hfirst]
  rfl

/-- The block has no nodes yet, and the one picked for it and the next one differ. -/
structure Separates (sm : StateMachine) (block : BlockInfo) : Prop where
  unplaced : block.dataNodeId = []
  apart : sm.dataNodes.getD (sm.nodeIndex block) 0 ≠
    sm.dataNodes.getD ((sm.nodeIndex block + 1) % sm.dataNodes.length) 0

theorem Separates.dataNodes_ne_nil (h : Separates sm block) : sm.dataNodes ≠ [] := by
  intro hnil
  have hapart := h.apart
  rw [hnil] at hapart
  exact hapart rfl

/-- Two nodes or more, none of them twice, are enough. -/
theorem separates_of_nodup (hnodup : sm.dataNodes.Nodup)
    (hlength : replicaNodeSize ≤ sm.dataNodes.length) (hunplaced : block.dataNodeId = []) :
    Separates sm block := by
  have hreplicas := nodup_replicas hnodup hlength (sm.nodeIndex block)
  rw [replicas_nodeIndex, List.nodup_cons, List.mem_singleton] at hreplicas
  exact ⟨hunplaced, hreplicas.1⟩

/-! ## The answer -/

/-- The block is placed on as many nodes as it has replicas. -/
structure Placement (nodes : List ℕ) (ino : ℕ) (block placed : BlockInfo) : Prop where
  id : placed.id = block.id
  offset : placed.offset = block.offset
  size : placed.size = block.size
  ino : placed.ino = ino
  count : placed.dataNodeId.length = replicaNodeSize
  nodup : placed.dataNodeId.Nodup
  configured : ∀ id ∈ placed.dataNodeId, id ∈ nodes

/-- The request is answered, with each of its blocks placed. -/
def PlacesBlocks (nodes : List ℕ) (sm : StateMachine) (request : PrepareUploadFileRequest) :
    Prop :=
  ∃ sm' response ino, sm.prepareUploadFile request = some (sm', response) ∧
    response.statusCode = .ok ∧
    List.Forall₂ (Placement nodes ino) request.blocks response.blocks

theorem placement_iff (hne : sm.dataNodes ≠ []) {ino : ℕ} :
    Placement sm.dataNodes ino block (placeBlock sm.dataNodes sm.nextIno block) ↔
      ino = sm.nextIno ∧ Separates sm block := by
  have hids : (placeBlock sm.dataNodes sm.nextIno block).dataNodeId =
      block.dataNodeId ++ replicas sm.dataNodes (sm.nodeIndex block) := rfl
  constructor
  · intro h
    have hcount := h.count
    rw [hids, List.length_append, length_replicas] at hcount
    have hunplaced : block.dataNodeId = [] := List.length_eq_zero_iff.mp (by omega)
    have hnodup := h.nodup
    rw [hids, hunplaced, List.nil_append, replicas_nodeIndex, List.nodup_cons,
      List.mem_singleton] at hnodup
    exact ⟨h.ino.symm, hunplaced, hnodup.1⟩
  · rintro ⟨rfl, h⟩
    rw [h.unplaced, List.nil_append] at hids
    refine ⟨rfl, rfl, rfl, rfl, ?_, ?_, ?_⟩
    · rw [hids, length_replicas]
    · rw [hids, replicas_nodeIndex]
      simpa using h.apart
    · rw [hids]
      exact fun id => mem_of_mem_replicas hne

theorem prepareUploadFile_new {request : PrepareUploadFileRequest}
    (hnew : request.remotePath ∉ sm.dirEntries) :
    sm.prepareUploadFile request =
      if sm.dataNodes.isEmpty && !request.blocks.isEmpty then none
      else some ({ sm with nextIno := u64 (sm.nextIno + 1) },
        { localPath := request.localPath, remotePath := request.remotePath, statusCode := .ok,
          blocks := request.blocks.map (placeBlock sm.dataNodes sm.nextIno) }) := by
  unfold prepareUploadFile
  rw [if_neg hnew]

/-- **Blocks are placed on neighbours that differ.** -/
theorem blocksPlaced {config : Config} {request : PrepareUploadFileRequest}
    (hbuilt : sm.dataNodes = config.dataNodes)
    (hnew : request.remotePath ∉ sm.dirEntries) :
    PlacesBlocks config.dataNodes sm request ↔
      ∀ block ∈ request.blocks, Separates sm block := by
  rw [← hbuilt]
  unfold PlacesBlocks
  rw [prepareUploadFile_new hnew]
  constructor
  · rintro ⟨sm', response, ino, hprepare, -, hblocks⟩ block hmem
    split_ifs at hprepare with hzero
    cases hprepare
    have hne : sm.dataNodes ≠ [] := by
      intro hnil
      rw [hnil] at hzero
      cases hrequest : request.blocks with
      | nil => rw [hrequest] at hmem; cases hmem
      | cons head tail => rw [hrequest] at hzero; exact hzero rfl
    rw [List.forall₂_map_right_iff, List.forall₂_same] at hblocks
    exact ((placement_iff hne).mp (hblocks block hmem)).2
  · intro h
    rw [if_neg]
    · refine ⟨_, _, sm.nextIno, rfl, rfl, ?_⟩
      rw [List.forall₂_map_right_iff, List.forall₂_same]
      exact fun block hmem =>
        (placement_iff (h block hmem).dataNodes_ne_nil).mpr ⟨rfl, h block hmem⟩
    · intro hzero
      rw [Bool.and_eq_true, List.isEmpty_iff, Bool.not_eq_true',
        List.isEmpty_eq_false_iff_exists_mem] at hzero
      obtain ⟨hnil, block, hmem⟩ := hzero
      exact (h block hmem).dataNodes_ne_nil hnil

end Placing

/-! ## Two data nodes, and one -/

/-- A data node. -/
def dataNode (id : ℕ) : NodeInfo :=
  { id := id, name := "data", host := "127.0.0.1", port := 9000 }

/-- An upload of one block. -/
def uploadBlock : PrepareUploadFileRequest :=
  { localPath := "f", remotePath := "/f", blocks := [{ size := 10 }] }

/-- A configuration of a single member with these data nodes. -/
def singleMember (dataNodes : List NodeInfo) : ConfigJson :=
  ⟨some 1, [], dataNodes.map some⟩

theorem blocksPlaced_twoNodes :
    ∃ config, Config.fromJson (singleMember [dataNode 7, dataNode 8]) = some config ∧
      @PlacesBlocks plainPlatform config.dataNodes (create config.dataNodes) uploadBlock := by
  obtain ⟨config, hjson, hnodes⟩ := Config.exists_fromJson 1 [] [dataNode 7, dataNode 8]
  refine ⟨config, hjson, (@blocksPlaced plainPlatform _ config _ rfl ?_).mpr fun block hmem => ?_⟩
  · rw [hnodes]
    decide
  · rw [hnodes, List.mem_singleton.mp hmem]
    exact @separates_of_nodup plainPlatform _ _ (by decide) (by decide) rfl

/-- With one data node, a block lists it twice; without any, the node divides by zero. -/
theorem exists_block_twice_on_one_node :
    (∃ config, Config.fromJson (singleMember [dataNode 7]) = some config ∧
      uploadBlock.remotePath ∉ (create config.dataNodes).dirEntries ∧
      ¬ @PlacesBlocks plainPlatform config.dataNodes (create config.dataNodes) uploadBlock) ∧
    ∃ config, Config.fromJson (singleMember []) = some config ∧
      @prepareUploadFile plainPlatform (create config.dataNodes) uploadBlock = none := by
  constructor
  · obtain ⟨config, hjson, hnodes⟩ := Config.exists_fromJson 1 [] [dataNode 7]
    refine ⟨config, hjson, ?_⟩
    rw [hnodes]
    refine ⟨by decide, ?_⟩
    rintro ⟨sm', response, ino, hprepare, -, hblocks⟩
    rw [@prepareUploadFile_new plainPlatform _ _ (by decide), if_neg (by decide)] at hprepare
    cases hprepare
    rw [List.forall₂_map_right_iff, List.forall₂_same] at hblocks
    have hnodup := (hblocks _ (List.mem_singleton.mpr rfl)).nodup
    revert hnodup
    decide
  · obtain ⟨config, hjson, hnodes⟩ := Config.exists_fromJson 1 [] []
    refine ⟨config, hjson, ?_⟩
    rw [hnodes]
    decide

end StateMachine

end Vosfs.Raft
