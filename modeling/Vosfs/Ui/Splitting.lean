import Mathlib.Order.CompletePartialOrder
import Mathlib.Order.Interval.Set.Disjoint
import Vosfs.Ui.RoundTrip

/-!
# Blocks partition the file

The loop that splits a file keeps `offset` plus what is left of the file equal to its size.
Written out, block `k` starts at `k` times the block size (`splitBlocks_eq_map`), and the
blocks are a partition of the file (`blocksPartition`).  No variable of the loop exceeds the
file size, so the loop in 64-bit arithmetic (`splitBlocks64`) is the same.
-/

namespace Vosfs.Ui

open Raft (u64)

/-- The loop in the arithmetic of its variables. -/
def splitBlocks64 (blockId offset fileSize : ℕ) : List Raft.BlockInfo :=
  if fileSize = 0 then
    []
  else if vosfsBlockSize ≤ fileSize then
    { id := blockId, offset := offset, size := vosfsBlockSize } ::
      splitBlocks64 (u64 (blockId + 1)) (u64 (offset + vosfsBlockSize)) (fileSize - vosfsBlockSize)
  else
    { id := blockId, offset := offset, size := fileSize } ::
      splitBlocks64 (u64 (blockId + 1)) (u64 (offset + fileSize)) 0
termination_by fileSize
decreasing_by
  · unfold vosfsBlockSize at *
    omega
  · omega

/-- `offset` plus what is left stays the same, and the number of blocks is at most that. -/
theorem splitBlocks64_eq {blockId offset fileSize : ℕ} (hid : blockId + fileSize < 2 ^ 64)
    (hoffset : offset + fileSize < 2 ^ 64) :
    splitBlocks64 blockId offset fileSize = splitBlocks blockId offset fileSize := by
  induction blockId, offset, fileSize using splitBlocks.induct with
  | case1 blockId offset => rw [splitBlocks64, splitBlocks, if_pos rfl, if_pos rfl]
  | case2 blockId offset fileSize hne hle ih =>
    have hsize : 1 ≤ vosfsBlockSize := by decide
    have hid' : u64 (blockId + 1) = blockId + 1 := Nat.mod_eq_of_lt (by omega)
    have hoffset' : u64 (offset + vosfsBlockSize) = offset + vosfsBlockSize :=
      Nat.mod_eq_of_lt (by omega)
    rw [splitBlocks64, splitBlocks, if_neg hne, if_pos hle, if_neg hne, if_pos hle, hid', hoffset',
      ih (by omega) (by omega)]
  | case3 blockId offset fileSize hne hlt ih =>
    have hid' : u64 (blockId + 1) = blockId + 1 := Nat.mod_eq_of_lt (by omega)
    have hoffset' : u64 (offset + fileSize) = offset + fileSize := Nat.mod_eq_of_lt hoffset
    rw [splitBlocks64, splitBlocks, if_neg hne, if_neg hlt, if_neg hne, if_neg hlt, hid', hoffset',
      ih (by omega) (by omega)]

/-! ## Written out -/

/-- The number of blocks: the file size over the block size, rounded up. -/
def blockCount (fileSize : ℕ) : ℕ :=
  (fileSize + vosfsBlockSize - 1) / vosfsBlockSize

/-- The block at a position of the file. -/
def nthBlock (blockId offset fileSize k : ℕ) : Raft.BlockInfo :=
  { id := blockId + k
    offset := offset + k * vosfsBlockSize
    size := min vosfsBlockSize (fileSize - k * vosfsBlockSize) }

theorem blockCount_of_le {fileSize : ℕ} (hle : vosfsBlockSize ≤ fileSize) :
    blockCount fileSize = blockCount (fileSize - vosfsBlockSize) + 1 := by
  unfold blockCount vosfsBlockSize at *
  omega

theorem blockCount_of_lt {fileSize : ℕ} (hne : fileSize ≠ 0) (hlt : ¬ vosfsBlockSize ≤ fileSize) :
    blockCount fileSize = 1 := by
  unfold blockCount vosfsBlockSize at *
  omega

/-- Exactly the blocks before the count start in the file. -/
theorem lt_blockCount_iff {fileSize k : ℕ} :
    k < blockCount fileSize ↔ k * vosfsBlockSize < fileSize := by
  unfold blockCount vosfsBlockSize
  omega

theorem splitBlocks_eq_map (blockId offset fileSize : ℕ) :
    splitBlocks blockId offset fileSize =
      (List.range (blockCount fileSize)).map (nthBlock blockId offset fileSize) := by
  induction blockId, offset, fileSize using splitBlocks.induct with
  | case1 blockId offset =>
    rw [splitBlocks, if_pos rfl]
    rfl
  | case2 blockId offset fileSize hne hle ih =>
    have hfirst : nthBlock blockId offset fileSize 0 =
        { id := blockId, offset := offset, size := vosfsBlockSize } := by
      simp [nthBlock, hle]
    -- the blocks of the rest have numbers one lower
    have hshift : ∀ k, nthBlock (blockId + 1) (offset + vosfsBlockSize) (fileSize - vosfsBlockSize)
        k = nthBlock blockId offset fileSize (k + 1) := by
      intro k
      simp only [nthBlock, Raft.BlockInfo.mk.injEq, Nat.succ_mul]
      refine ⟨by omega, trivial, by omega, ?_, trivial⟩
      rw [Nat.sub_sub, Nat.add_comm]
    calc splitBlocks blockId offset fileSize
        = { id := blockId, offset := offset, size := vosfsBlockSize } ::
            splitBlocks (blockId + 1) (offset + vosfsBlockSize) (fileSize - vosfsBlockSize) := by
          rw [splitBlocks, if_neg hne, if_pos hle]
      _ = nthBlock blockId offset fileSize 0 ::
            (List.range (blockCount (fileSize - vosfsBlockSize))).map
              (nthBlock blockId offset fileSize ∘ Nat.succ) := by
          rw [hfirst, ih]
          exact congrArg _ (List.map_congr_left fun k _ => hshift k)
      _ = (List.range (blockCount fileSize)).map (nthBlock blockId offset fileSize) := by
          rw [blockCount_of_le hle, List.range_succ_eq_map, List.map_cons, List.map_map]
  | case3 blockId offset fileSize hne hlt _ =>
    have hsize : min vosfsBlockSize fileSize = fileSize := min_eq_right (not_le.mp hlt).le
    rw [splitBlocks, if_neg hne, if_neg hlt, splitBlocks, if_pos rfl, blockCount_of_lt hne hlt]
    simp [nthBlock, hsize]

/-! ## The partition -/

/-- The bytes of the file that are in a block. -/
def interval (block : Raft.BlockInfo) : Set ℕ :=
  Set.Ico block.offset (block.offset + block.size)

/-- The blocks are a file of this size, cut into pieces in order. -/
structure Partitions (fileSize : ℕ) (blocks : List Raft.BlockInfo) : Prop where
  ids : blocks.map Raft.BlockInfo.id = List.range (blockCount fileSize)
  sizes : ∀ block ∈ blocks, 1 ≤ block.size ∧ block.size ≤ vosfsBlockSize
  full : ∀ block ∈ blocks.dropLast, block.size = vosfsBlockSize
  first : ∀ block ∈ blocks.head?, block.offset = 0
  consecutive : ∀ k (hk : k + 1 < blocks.length),
    blocks[k].offset + blocks[k].size = blocks[k + 1].offset
  last : ∀ block ∈ blocks.getLast?, block.offset + block.size = fileSize
  disjoint : blocks.Pairwise fun block block' => Disjoint (interval block) (interval block')
  covers : ∀ i, (∃ block ∈ blocks, i ∈ interval block) ↔ i < fileSize

variable {fileSize : ℕ}

theorem blockCount_pos (hpos : 0 < fileSize) : 0 < blockCount fileSize :=
  lt_blockCount_iff.mpr (by rwa [Nat.zero_mul])

/-- A block before the last one is full. -/
theorem size_nthBlock {blockId offset k : ℕ} (hnext : k + 1 < blockCount fileSize) :
    (nthBlock blockId offset fileSize k).size = vosfsBlockSize := by
  have hstarts := lt_blockCount_iff.mp hnext
  rw [Nat.succ_mul] at hstarts
  exact min_eq_left (by omega)

/-- The last block ends with the file. -/
theorem end_nthBlock (hpos : 0 < fileSize) :
    (nthBlock 0 0 fileSize (blockCount fileSize - 1)).offset +
      (nthBlock 0 0 fileSize (blockCount fileSize - 1)).size = fileSize := by
  have hcount := blockCount_pos hpos
  have hstarts := lt_blockCount_iff.mp (Nat.sub_lt hcount one_pos)
  have hends := not_lt.mp (lt_blockCount_iff.not.mp (lt_irrefl (blockCount fileSize)))
  have hlast : blockCount fileSize * vosfsBlockSize =
      (blockCount fileSize - 1) * vosfsBlockSize + vosfsBlockSize := by
    rw [← Nat.succ_mul, Nat.succ_eq_add_one, Nat.sub_add_cancel hcount]
  simp only [nthBlock]
  omega

theorem getElem_splitBlocks {k : ℕ} (hk : k < (splitBlocks 0 0 fileSize).length) :
    (splitBlocks 0 0 fileSize)[k] = nthBlock 0 0 fileSize k := by
  simp only [splitBlocks_eq_map, List.getElem_map, List.getElem_range]

theorem dropLast_splitBlocks (hpos : 0 < fileSize) :
    (splitBlocks 0 0 fileSize).dropLast =
        (List.range (blockCount fileSize - 1)).map (nthBlock 0 0 fileSize) ∧
      (splitBlocks 0 0 fileSize).getLast? =
        some (nthBlock 0 0 fileSize (blockCount fileSize - 1)) := by
  have hcount : blockCount fileSize = blockCount fileSize - 1 + 1 :=
    (Nat.sub_add_cancel (blockCount_pos hpos)).symm
  rw [splitBlocks_eq_map, hcount, List.range_succ, List.map_append, Nat.add_sub_cancel]
  exact ⟨List.dropLast_concat, List.getLast?_concat⟩

theorem partitions_splitBlocks (hpos : 0 < fileSize) :
    Partitions fileSize (splitBlocks 0 0 fileSize) := by
  have hsplits := splits_splitBlocks 0 0 fileSize
  obtain ⟨hdropLast, hlast⟩ := dropLast_splitBlocks hpos
  have hlength : (splitBlocks 0 0 fileSize).length = blockCount fileSize := by
    rw [splitBlocks_eq_map, List.length_map, List.length_range]
  constructor
  case ids =>
    rw [splitBlocks_eq_map, List.map_map]
    exact (List.map_congr_left fun k _ => Nat.zero_add k).trans (List.map_id _)
  case sizes =>
    intro block hblock
    refine ⟨(hsplits.bounds block hblock).2.2.1, ?_⟩
    rw [splitBlocks_eq_map] at hblock
    obtain ⟨k, -, rfl⟩ := List.mem_map.mp hblock
    exact min_le_left _ _
  case full =>
    intro block hblock
    rw [hdropLast] at hblock
    obtain ⟨k, hk, rfl⟩ := List.mem_map.mp hblock
    exact size_nthBlock (Nat.add_lt_of_lt_sub (List.mem_range.mp hk))
  case first =>
    intro block hblock
    rw [splitBlocks_eq_map, List.head?_map] at hblock
    obtain ⟨k, hk, rfl⟩ := Option.map_eq_some_iff.mp hblock
    rw [List.head?_range] at hk
    split at hk <;> cases hk
    simp [nthBlock]
  case consecutive =>
    intro k hk
    rw [getElem_splitBlocks, getElem_splitBlocks, size_nthBlock (hlength ▸ hk)]
    simp only [nthBlock, Nat.succ_mul, Nat.zero_add]
  case last =>
    intro block hblock
    rw [hlast] at hblock
    cases hblock
    exact end_nthBlock hpos
  case disjoint =>
    refine hsplits.ordered.imp fun hbefore => ?_
    exact Set.Ico_disjoint_Ico.mpr ((min_le_left _ _).trans (hbefore.2.trans (le_max_right _ _)))
  case covers =>
    intro i
    constructor
    · rintro ⟨block, hblock, -, hlt⟩
      have hend := (hsplits.bounds block hblock).2.2.2
      omega
    · intro hlt
      obtain ⟨block, hblock, hin⟩ := hsplits.covers i (Nat.zero_le i) (by omega)
      exact ⟨block, hblock, hin⟩

/-- **Block splitting partitions the file**, and nothing overflows: the loop in 64-bit
arithmetic yields these blocks, and they end in the file. -/
theorem blocksPartition (hpos : 0 < fileSize) (hfits : fileSize < 2 ^ 64) :
    Partitions fileSize (splitBlocks64 0 0 fileSize) ∧
      splitBlocks64 0 0 fileSize = splitBlocks 0 0 fileSize ∧
      ∀ block ∈ splitBlocks64 0 0 fileSize, block.offset + block.size < 2 ^ 64 := by
  have heq : splitBlocks64 0 0 fileSize = splitBlocks 0 0 fileSize :=
    splitBlocks64_eq (by omega) (by omega)
  rw [heq]
  refine ⟨partitions_splitBlocks hpos, rfl, fun block hblock => ?_⟩
  have hend := ((splits_splitBlocks 0 0 fileSize).bounds block hblock).2.2.2
  omega

/-- Two full blocks and one byte. -/
theorem blocksPartition_twoAndOne :
    Partitions (2 * vosfsBlockSize + 1) (splitBlocks64 0 0 (2 * vosfsBlockSize + 1)) :=
  (blocksPartition (by decide) (by decide)).1

end Vosfs.Ui
