import Vosfs.Raft.CommitBound
import Vosfs.Raft.Merging

/-!
# Saving a snapshot compacts no log

After a snapshot is saved at an index, the log should begin there, with its later entries where
they were (`RaftNode.Compacted`).  `apply_entry` moves the snapshot into `save_snapshot` and
reads the bounds of the log from what is left of it, an empty message.  So the base of the log
is reset to 0 and all entries stay: none is dropped, and if the base was not 0, each is found
that much earlier (`getEntry_of_saved`).
-/

namespace Vosfs.Raft

namespace RaftNode

variable {env : Env} {node node' : RaftNode}

/-- The log begins at the index, with the term the entry had, and goes on as before. -/
structure Compacted (node : RaftNode) (index : ℕ) (node' : RaftNode) : Prop where
  base : node'.logs.lastIncludedIndex = index
  baseTerm : node.logs.getTerm index = some node'.logs.lastIncludedTerm
  last : node'.logs.lastLogIndex = node.logs.lastLogIndex
  terms : ∀ i, index < i → i ≤ node.logs.lastLogIndex →
    node'.logs.getTerm i = node.logs.getTerm i
  entries : ∀ i, index < i → i ≤ node.logs.lastLogIndex →
    node'.logs.getEntry i = node.logs.getEntry i

/-- The round saves a snapshot. -/
def SavesNext (env : Env) (node : RaftNode) : Prop :=
  (node.lastApplied + 1) % snapshotInterval = 0 ∧ (env.fileOutcome (node.lastApplied + 1)).Saves

instance : Decidable (SavesNext env node) := inferInstanceAs (Decidable (_ ∧ _))

variable [Platform]

/-- What is left of the log's bounds. -/
theorem logs_of_saved (hsaves : SavesNext env node) (happly : node.applyNext env = .ok node') :
    node'.logs = { node.logs with lastIncludedIndex := 0, lastIncludedTerm := 0 } := by
  rw [(applyNext_logs happly).2.2.2, if_pos (compacts_succ.mpr hsaves)]
  rfl

/-- An entry is found earlier by the old base. -/
theorem getEntry_of_saved (hsaves : SavesNext env node) (happly : node.applyNext env = .ok node')
    {index : ℕ} (hpos : 0 < index) :
    node'.logs.getEntry index = node.logs.getEntry (index + node.logs.lastIncludedIndex) := by
  rw [logs_of_saved hsaves happly]
  unfold RaftLog.getEntry
  have hplace : index + node.logs.lastIncludedIndex - node.logs.lastIncludedIndex - 1 =
      index - 0 - 1 := by omega
  simp only [hpos, if_true, hplace]
  rw [if_pos (by omega)]

end RaftNode

/-- **A saved snapshot compacts no log.** -/
theorem logNotCompacted [Platform] {env : Env} {node node' : RaftNode}
    (hsaves : RaftNode.SavesNext env node) (happly : node.applyNext env = .ok node') :
    ¬ node.Compacted (node.lastApplied + 1) node' := by
  intro hcompacted
  have hbase := hcompacted.base
  rw [RaftNode.logs_of_saved hsaves happly] at hbase
  exact Nat.succ_ne_zero _ hbase.symm

/-! ## Two snapshots -/

/-- More entries than a log keeps without a snapshot. -/
def elevenEntries : List LogEntry :=
  (List.range 11).map fun k => { term := 1, index := k + 1 }

/-- A follower with all of them, of which the first nine are committed. -/
def nineCommitted : Env × Input :=
  entriesOf 1 elevenEntries 9

/-- The entries after a snapshot at index 10, of which the first nine are applied. -/
def nineAfterSnapshot : RaftNode :=
  { follower with
    logs := { lastIncludedIndex := 10, lastIncludedTerm := 1, entries := elevenEntries }
    lastApplied := 19 }

theorem logNotCompacted_nineCommitted :
    ∃ node node', Run (@RaftNode.next plainPlatform) (fun _ _ => True) follower node ∧
      @RaftNode.applyNext plainPlatform {} node = .ok node' ∧ node'.lastApplied = 10 ∧
      ¬ node.Compacted 10 node' := by
  obtain ⟨node, hrun, hcheck⟩ := Run.exists_of_exec (@RaftNode.next plainPlatform)
    (fun _ _ => True) follower [nineCommitted]
    (fun node => decide (node.lastApplied = 9) &&
      (@RaftNode.applyNext plainPlatform {} node).toOption.any
        fun node' : RaftNode => decide (node'.lastApplied = 10)) (by decide)
  rw [Bool.and_eq_true] at hcheck
  have hnine := of_decide_eq_true hcheck.1
  obtain ⟨node', happly, hten⟩ := exists_ok_of_any _ _ hcheck.2
  refine ⟨node, node', hrun, happly, of_decide_eq_true hten, ?_⟩
  have hsaves : RaftNode.SavesNext {} node := by
    unfold RaftNode.SavesNext
    rw [hnine]
    decide
  have hnot := @logNotCompacted plainPlatform _ _ _ hsaves happly
  rwa [hnine] at hnot

/-- The log loses its last ten indices. -/
theorem exists_lost_indices :
    ∃ node', @RaftNode.applyNext plainPlatform {} nineAfterSnapshot = .ok node' ∧
      RaftNode.SavesNext {} nineAfterSnapshot ∧
      nineAfterSnapshot.logs.lastIncludedIndex < 20 ∧ 20 ≤ nineAfterSnapshot.logs.lastLogIndex ∧
      node'.lastApplied = 20 ∧ node'.logs.lastIncludedIndex = 0 ∧ node'.logs.lastLogIndex = 11 ∧
      ¬ nineAfterSnapshot.Compacted 20 node' := by
  obtain ⟨node', happly, hcheck⟩ := exists_ok_of_any
    (@RaftNode.applyNext plainPlatform {} nineAfterSnapshot)
    (fun node' => decide (node'.lastApplied = 20 ∧ node'.logs.lastIncludedIndex = 0 ∧
      node'.logs.lastLogIndex = 11)) (by decide)
  obtain ⟨happlied, hbase, hlast⟩ := of_decide_eq_true hcheck
  refine ⟨node', happly, by decide, by decide, by decide, happlied, hbase, hlast,
    fun hcompacted => ?_⟩
  exact absurd (hbase.symm.trans hcompacted.base) (by decide)

end Vosfs.Raft
