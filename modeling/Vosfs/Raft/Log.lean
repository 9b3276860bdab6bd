import Mathlib.Data.List.Basic
import Vosfs.Consensus.History
import Vosfs.Raft.Message

/-!
# The log in memory

`RaftLog` holds the entries past the last snapshot.  Its accessors `assert` that an
index is stored; the assertion is compiled in, so a failed one ends the process
and is the result `none` here.
-/

namespace Vosfs.Raft

open Consensus (HasTerm lastTerm)

instance : HasTerm LogEntry := ⟨LogEntry.term⟩

/-- The entries behind the last one that the snapshot includes. -/
structure RaftLog where
  lastIncludedIndex : ℕ := 0
  lastIncludedTerm : ℕ := 0
  entries : List LogEntry := []
  deriving DecidableEq, Repr

namespace RaftLog

/-- Only the bounds are taken over, the entries stay as they are. -/
def loadSnapshot (log : RaftLog) (snapshot : Snapshot) : RaftLog :=
  { log with
    lastIncludedIndex := snapshot.lastIncludedIndex
    lastIncludedTerm := snapshot.lastIncludedTerm }

/-- The index of the last entry. -/
def lastLogIndex (log : RaftLog) : ℕ :=
  log.lastIncludedIndex + log.entries.length

/-- The term of the last entry, or that of the snapshot if there is none. -/
def lastLogTerm (log : RaftLog) : ℕ :=
  match log.entries.getLast? with
  | none => if log.lastLogIndex = 0 then 0 else log.lastIncludedTerm
  | some entry => entry.term

/-- The term at an index, with that of the snapshot; `none` where the code asserts. -/
def getTerm (log : RaftLog) (index : ℕ) : Option ℕ :=
  if index = log.lastIncludedIndex then
    some log.lastIncludedTerm
  else if log.lastIncludedIndex < index then
    log.entries[index - log.lastIncludedIndex - 1]?.map LogEntry.term
  else
    none

/-- The entry at an index; `none` where the code asserts. -/
def getEntry (log : RaftLog) (index : ℕ) : Option LogEntry :=
  if log.lastIncludedIndex < index then
    log.entries[index - log.lastIncludedIndex - 1]?
  else
    none

/-- At most `size` entries from an index on; `none` where the code asserts. -/
def getEntries (log : RaftLog) (index size : ℕ) : Option (List LogEntry) :=
  if log.lastIncludedIndex < index ∧ index ≤ log.lastLogIndex then
    some ((log.entries.drop (index - log.lastIncludedIndex - 1)).take size)
  else
    none

/-- The log with one more entry. -/
def appendEntry (log : RaftLog) (entry : LogEntry) : RaftLog :=
  { log with entries := log.entries ++ [entry] }

/-- The log with more entries. -/
def appendEntries (log : RaftLog) (entries : List LogEntry) : RaftLog :=
  { log with entries := log.entries ++ entries }

/-- Despite its name, drops the entries from `index` on. -/
def truncateEntriesBefore (log : RaftLog) (index : ℕ) : Option RaftLog :=
  if log.lastIncludedIndex < index ∧ index ≤ log.lastLogIndex then
    some { log with entries := log.entries.take (index - log.lastIncludedIndex - 1) }
  else
    none

variable {log : RaftLog} {index size : ℕ}

/-- Only what the log covers has a term. -/
theorem le_lastLogIndex_of_getTerm {term : ℕ} (hterm : log.getTerm index = some term) :
    index ≤ log.lastLogIndex := by
  unfold getTerm at hterm
  unfold lastLogIndex
  split at hterm
  next heq => omega
  next =>
    split at hterm
    next =>
      obtain ⟨entry, hentry, -⟩ := Option.map_eq_some_iff.mp hterm
      have := (List.getElem?_eq_some_iff.mp hentry).1
      omega
    next => cases hterm

/-! ## Logs from the start

Without snapshots a log starts at index 1. -/

/-- Nothing was replaced by a snapshot. -/
structure FromStart (log : RaftLog) : Prop where
  index : log.lastIncludedIndex = 0
  term : log.lastIncludedTerm = 0

namespace FromStart

variable (hstart : log.FromStart)
include hstart

theorem lastLogIndex : log.lastLogIndex = log.entries.length := by
  rw [RaftLog.lastLogIndex, hstart.index, Nat.zero_add]

theorem lastLogTerm : log.lastLogTerm = lastTerm log.entries := by
  unfold RaftLog.lastLogTerm lastTerm
  cases log.entries.getLast? with
  | none => simp [hstart.term]
  | some entry => rfl

theorem getEntry : log.getEntry (index + 1) = log.entries[index]? := by
  simp [RaftLog.getEntry, hstart.index]

theorem getTerm : log.getTerm (index + 1) = log.entries[index]?.map LogEntry.term := by
  simp [RaftLog.getTerm, hstart.index]

theorem getTerm_zero : log.getTerm 0 = some 0 := by
  simp [RaftLog.getTerm, hstart.index, hstart.term]

/-- The term at an index is the last term of the log up to there. -/
theorem getTerm_eq_lastTerm (hindex : index ≤ log.entries.length) :
    log.getTerm index = some (lastTerm (log.entries.take index)) := by
  cases index with
  | zero => rw [hstart.getTerm_zero, List.take_zero]; rfl
  | succ index =>
    have hlast : (log.entries.take (index + 1)).getLast? = some log.entries[index] := by
      rw [List.getLast?_take]
      simp [List.getElem?_eq_getElem (Nat.lt_of_succ_le hindex)]
    rw [hstart.getTerm, Consensus.lastTerm_of_getLast? hlast,
      List.getElem?_eq_getElem (Nat.lt_of_succ_le hindex)]
    rfl

theorem getEntries (hindex : index + 1 ≤ log.entries.length) :
    log.getEntries (index + 1) size = some ((log.entries.drop index).take size) := by
  rw [RaftLog.getEntries, hstart.lastLogIndex, hstart.index]
  simp [hindex]

end FromStart

end RaftLog

end Vosfs.Raft
