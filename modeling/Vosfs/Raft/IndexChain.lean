import Vosfs.Library.Run
import Vosfs.Raft.LogDurability
import Vosfs.Raft.SnapshotFiles

/-!
# The chain of indexes

`last_included_index ≤ last_applied_ ≤ commit_index_ ≤ last_log_index`, and neither of the
two in the middle goes back (`RaftNode.Chain`).  A start breaks the chain if it loads a
snapshot, as it begins with `last_applied_` and `commit_index_` 0.  Three kinds of steps can
break it later:

* entries of a leader that conflict with committed ones,
* applying entries in a log with a base, if a snapshot is saved on the way: the base is then
  reset to 0, and the entries move down,
* an installed snapshot that ends past what was applied, or too early for the committed
  entries to be in the log.

`indexChain` says that these are all: a step keeps the chain exactly if it is none of them
(`RaftNode.KeepsChain`).
-/

namespace Vosfs.Raft

/-- The file operations for a snapshot succeed. -/
def FileOutcome.Saves (outcome : FileOutcome) : Prop :=
  outcome ≠ .openFailed ∧ outcome ≠ .writeFailed ∧ outcome ≠ .renameFailed

instance {outcome : FileOutcome} : Decidable outcome.Saves :=
  inferInstanceAs (Decidable (_ ∧ _ ∧ _))

/-- The index of the first entry that conflicts with the log. -/
def RaftLog.firstConflict (log : RaftLog) : List LogEntry → Option ℕ
  | [] => none
  | entry :: rest =>
    if log.lastLogIndex < entry.index then none
    else if log.getTerm entry.index = some entry.term then log.firstConflict rest
    else some entry.index

/-- The last index after the entries are stored. -/
def RaftLog.storedIndex (log : RaftLog) (entries : List LogEntry) : ℕ :=
  ((log.firstConflict entries).map (· - 1)).getD log.lastLogIndex + entries.length

namespace RaftNode

variable {env : Env} {node node' : RaftNode}

/-- The indexes of a node are in order: snapshot, applied, committed, last. -/
structure Chain (node : RaftNode) : Prop where
  base : node.logs.lastIncludedIndex ≤ node.lastApplied
  applied : node.lastApplied ≤ node.commitIndex
  commit : node.commitIndex ≤ node.logs.lastLogIndex

instance : Decidable node.Chain :=
  decidable_of_iff (node.logs.lastIncludedIndex ≤ node.lastApplied ∧
      node.lastApplied ≤ node.commitIndex ∧ node.commitIndex ≤ node.logs.lastLogIndex)
    ⟨fun h => ⟨h.1, h.2.1, h.2.2⟩, fun h => ⟨h.base, h.applied, h.commit⟩⟩

/-- Neither index goes back. -/
structure Advances (node node' : RaftNode) : Prop where
  commit : node.commitIndex ≤ node'.commitIndex
  applied : node.lastApplied ≤ node'.lastApplied

/-- A snapshot is saved on the way to an index. -/
def Compacts (env : Env) (node : RaftNode) (index : ℕ) : Prop :=
  ∃ k ≤ index, node.lastApplied < k ∧ k % snapshotInterval = 0 ∧ (env.fileOutcome k).Saves

instance {index : ℕ} : Decidable (Compacts env node index) :=
  decidable_of_iff (∃ k < index + 1, node.lastApplied < k ∧ k % snapshotInterval = 0 ∧
    (env.fileOutcome k).Saves) (by simp only [Compacts, Nat.lt_succ_iff])

/-- On the way there, or further on. -/
theorem compacts_split {next : RaftNode} {index : ℕ} (hfrom : node.lastApplied ≤ next.lastApplied)
    (hto : next.lastApplied ≤ index) :
    Compacts env node index ↔ Compacts env node next.lastApplied ∨ Compacts env next index := by
  constructor
  · rintro ⟨k, hle, hlt, hk⟩
    rcases le_or_gt k next.lastApplied with hfirst | hsecond
    · exact Or.inl ⟨k, hfirst, hlt, hk⟩
    · exact Or.inr ⟨k, hle, hsecond, hk⟩
  · rintro (⟨k, hle, hlt, hk⟩ | ⟨k, hle, hlt, hk⟩)
    · exact ⟨k, hle.trans hto, hlt, hk⟩
    · exact ⟨k, hle, hfrom.trans_lt hlt, hk⟩

/-- At the very next index. -/
theorem compacts_succ : Compacts env node (node.lastApplied + 1) ↔
    (node.lastApplied + 1) % snapshotInterval = 0 ∧
      (env.fileOutcome (node.lastApplied + 1)).Saves := by
  constructor
  · rintro ⟨k, hle, hlt, hk⟩
    obtain rfl : k = node.lastApplied + 1 := by omega
    exact hk
  · intro hsaves
    exact ⟨_, le_rfl, Nat.lt_succ_self _, hsaves⟩

/-- In the first of some rounds, or in the others. -/
theorem compacts_rounds {next : RaftNode} {rounds : ℕ}
    (happlied : next.lastApplied = node.lastApplied + 1) :
    Compacts env node (node.lastApplied + (rounds + 1)) ↔
      Compacts env node (node.lastApplied + 1) ∨ Compacts env next (next.lastApplied + rounds) := by
  have hto : node.lastApplied + (rounds + 1) = next.lastApplied + rounds := by omega
  rw [hto, ← happlied]
  exact compacts_split (by omega) (by omega)

/-- A log that ends at `lastIndex` still does, or it is long enough, when the base is reset. -/
def ReachesAfter (env : Env) (node : RaftNode) (lastIndex index : ℕ) : Prop :=
  Compacts env node index → node.logs.lastIncludedIndex + index ≤ lastIndex

/-! ## Applying entries -/

section Apply

variable [Platform]

/-- The operations on the files decide whether a snapshot is saved. -/
theorem saveSnapshot_cases {snapshotter : Snapshotter} {outcome : FileOutcome}
    {disk disk' : Disk Payload} {snapshot : Snapshot} {result : Except Error Snapshotter}
    (hsave : snapshotter.saveSnapshot outcome disk snapshot = some (result, disk')) :
    snapshotter.locked = false ∧ match result with
      | .error _ => ¬ outcome.Saves
      | .ok snapshotter' => outcome.Saves ∧ snapshotter'.locked = false := by
  unfold Snapshotter.saveSnapshot at hsave
  split at hsave
  next => cases hsave
  next hunlocked =>
    rw [Bool.not_eq_true] at hunlocked
    refine ⟨hunlocked, ?_⟩
    cases outcome <;> cases hsave <;> simp [FileOutcome.Saves, hunlocked]

/-- One round: the next entry is there, and a snapshot may reset the base. -/
theorem applyNext_indexes (happly : node.applyNext env = .ok node') :
    node'.lastApplied = node.lastApplied + 1 ∧ node'.commitIndex = node.commitIndex ∧
      node'.logs.entries = node.logs.entries ∧ node.lastApplied + 1 ≤ node.logs.lastLogIndex ∧
      node'.logs.lastIncludedIndex = if Compacts env node (node.lastApplied + 1) then 0
        else node.logs.lastIncludedIndex := by
  obtain ⟨entry, hentry, hround⟩ := round_of_applyNext happly
  have hreached : node.lastApplied + 1 ≤ node.logs.lastLogIndex := by
    simp only [RaftLog.getEntry] at hentry
    split at hentry
    next hpast =>
      have hlt := (List.getElem?_eq_some_iff.mp hentry).1
      unfold RaftLog.lastLogIndex
      omega
    next => cases hentry
  simp only [compacts_succ]
  cases hround with
  | plain hbetween =>
    exact ⟨rfl, rfl, rfl, hreached, (if_neg fun hsaves => hbetween hsaves.1).symm⟩
  | failed _ hsave =>
    have hfails := (saveSnapshot_cases hsave).2
    exact ⟨rfl, rfl, rfl, hreached, (if_neg fun hsaves => hfails hsaves.2).symm⟩
  | saved hinterval hsave =>
    have hsaves := (saveSnapshot_cases hsave).2.1
    exact ⟨rfl, rfl, rfl, hreached, (if_pos ⟨hinterval, hsaves⟩).symm⟩

/-- Many rounds. -/
theorem applyRounds_indexes {rounds : ℕ} (happly : applyRounds env rounds node = .ok node') :
    node'.lastApplied = node.lastApplied + rounds ∧ node'.commitIndex = node.commitIndex ∧
      node'.logs.entries = node.logs.entries ∧
      (0 < rounds → node.lastApplied + rounds ≤ node.logs.lastLogIndex) ∧
      node'.logs.lastIncludedIndex = if Compacts env node (node.lastApplied + rounds) then 0
        else node.logs.lastIncludedIndex := by
  induction rounds generalizing node with
  | zero =>
    cases happly
    have hnone : ¬ Compacts env node' (node'.lastApplied + 0) := by
      rintro ⟨k, hle, hlt, -⟩
      omega
    exact ⟨rfl, rfl, rfl, fun hpos => absurd hpos (lt_irrefl 0), (if_neg hnone).symm⟩
  | succ rounds ih =>
    obtain ⟨next, hnext, happly⟩ := exists_of_applyRounds happly
    obtain ⟨happlied, hcommit, hentries, hreached, hbase⟩ := applyNext_indexes hnext
    obtain ⟨happlied', hcommit', hentries', hreached', hbase'⟩ := ih happly
    refine ⟨by omega, hcommit'.trans hcommit, hentries'.trans hentries, fun _ => ?_, ?_⟩
    · -- the base can only have become smaller
      have hbase_le : next.logs.lastIncludedIndex ≤ node.logs.lastIncludedIndex := by
        rw [hbase]
        split <;> omega
      cases rounds with
      | zero => exact hreached
      | succ rounds =>
        have := hreached' (Nat.succ_pos _)
        unfold RaftLog.lastLogIndex at this ⊢
        rw [hentries] at this
        omega
    · have hsplit := @compacts_rounds env node next rounds happlied
      rw [hbase', hbase]
      by_cases hfirst : Compacts env node (node.lastApplied + 1) <;>
        simp [hsplit, hfirst]

theorem applyEntry_indexes {commitIndex : ℕ} (happlied : node.lastApplied ≤ commitIndex)
    (happly : ({ node with commitIndex := commitIndex } : RaftNode).applyEntry env = .ok node') :
    node'.lastApplied = commitIndex ∧ node'.commitIndex = commitIndex ∧
      node'.logs.entries = node.logs.entries ∧
      (node.lastApplied < commitIndex → commitIndex ≤ node.logs.lastLogIndex) ∧
      node'.logs.lastIncludedIndex = if Compacts env node commitIndex then 0
        else node.logs.lastIncludedIndex := by
  obtain ⟨happlied', hcommit', hentries', hreached', hbase'⟩ := applyRounds_indexes happly
  change node'.lastApplied = node.lastApplied + (commitIndex - node.lastApplied) at happlied'
  change 0 < commitIndex - node.lastApplied →
    node.lastApplied + (commitIndex - node.lastApplied) ≤ node.logs.lastLogIndex at hreached'
  have hall : node.lastApplied + (commitIndex - node.lastApplied) = commitIndex := by omega
  rw [hall] at happlied' hreached'
  refine ⟨happlied', hcommit', hentries', fun hlt => hreached' (by omega), ?_⟩
  have hcompacts : Compacts env { node with commitIndex := commitIndex } (node.lastApplied +
      (commitIndex - node.lastApplied)) ↔ Compacts env node commitIndex := by
    rw [hall]
    exact Iff.rfl
  simp only [← hcompacts]
  exact hbase'

/-- After entries are applied, the chain depends on the reach of the log only. -/
theorem chain_applyEntry_iff {commitIndex : ℕ}
    (hbase : node.logs.lastIncludedIndex ≤ node.lastApplied)
    (happlied : node.lastApplied ≤ commitIndex) (hcommit : commitIndex ≤ node.logs.lastLogIndex)
    (happly : ({ node with commitIndex := commitIndex } : RaftNode).applyEntry env = .ok node') :
    node'.Chain ↔ ReachesAfter env node node.logs.lastLogIndex commitIndex := by
  obtain ⟨happlied', hcommit', hentries', -, hbase'⟩ := applyEntry_indexes happlied happly
  unfold ReachesAfter
  unfold RaftLog.lastLogIndex at hcommit ⊢
  by_cases hcompacts : Compacts env node commitIndex
  · rw [if_pos hcompacts] at hbase'
    constructor
    · intro hchain _
      have := hchain.commit
      unfold RaftLog.lastLogIndex at this
      rw [hcommit', hbase', hentries'] at this
      omega
    · intro hreaches
      have := hreaches hcompacts
      refine ⟨by omega, by omega, ?_⟩
      unfold RaftLog.lastLogIndex
      rw [hcommit', hbase', hentries']
      omega
  · rw [if_neg hcompacts] at hbase'
    refine iff_of_true ⟨by omega, by omega, ?_⟩ fun h => absurd h hcompacts
    unfold RaftLog.lastLogIndex
    rw [hcommit', hbase', hentries']
    omega

/-- The commit index follows the leader's. -/
theorem chain_followCommit_iff {leaderCommit : ℕ}
    (hbase : node.logs.lastIncludedIndex ≤ node.lastApplied)
    (happlied : node.lastApplied ≤ node.commitIndex)
    (hfollow : node.followCommit env leaderCommit = .ok node') :
    (node'.Chain ∧ node.Advances node') ↔ node.commitIndex ≤ node.logs.lastLogIndex ∧
      (node.commitIndex < leaderCommit → ReachesAfter env node node.logs.lastLogIndex
        (min node.logs.lastLogIndex leaderCommit)) := by
  unfold followCommit at hfollow
  split at hfollow
  next hlt =>
    by_cases hcommit : node.commitIndex ≤ node.logs.lastLogIndex
    · have hnext : node.lastApplied ≤ min node.logs.lastLogIndex leaderCommit := by omega
      rw [chain_applyEntry_iff hbase hnext (min_le_left _ _) hfollow]
      obtain ⟨happlied', hcommit', -⟩ := applyEntry_indexes hnext hfollow
      have hadvances : node.Advances node' := ⟨by omega, by omega⟩
      simp [hcommit, hlt, hadvances]
    · -- the commit index goes back to the end of the log
      have hcommit' : node'.commitIndex = min node.logs.lastLogIndex leaderCommit :=
        (applyRounds_indexes hfollow).2.1
      refine iff_of_false (fun h => ?_) fun h => hcommit h.1
      have := h.2.commit
      omega
  next hge =>
    cases hfollow
    constructor
    · exact fun h => ⟨h.1.commit, fun hlt => absurd hlt hge⟩
    · exact fun h => ⟨⟨hbase, happlied, h.1⟩, ⟨le_rfl, le_rfl⟩⟩

/-- The commit index follows the quorum. -/
theorem chain_advanceCommit_iff (hchain : node.Chain)
    (hadvance : node.advanceCommit env = .ok node') :
    (node'.Chain ∧ node.Advances node') ↔ (node.commitIndex < quorumIndex node.matchIndex →
      ReachesAfter env node node.logs.lastLogIndex (quorumIndex node.matchIndex)) := by
  unfold advanceCommit at hadvance
  split at hadvance
  next hlt =>
    have happlied := hchain.applied.trans hlt.le
    obtain ⟨happlied', hcommit', -, hreached, -⟩ := applyEntry_indexes happlied hadvance
    have hcommit := hreached (hchain.applied.trans_lt hlt)
    rw [chain_applyEntry_iff hchain.base happlied hcommit hadvance]
    have hadvances : node.Advances node' := ⟨by omega, by omega⟩
    simp [hlt, hadvances]
  next hge =>
    cases hadvance
    exact iff_of_true ⟨hchain, ⟨le_rfl, le_rfl⟩⟩ fun hlt => absurd hlt hge

end Apply

/-! ## Storing entries -/

theorem dropConflicts_lastLogIndex {entries : List LogEntry}
    (hdrop : dropConflicts entries node = .ok node') :
    node'.logs.lastLogIndex =
      ((node.logs.firstConflict entries).map (· - 1)).getD node.logs.lastLogIndex := by
  induction entries with
  | nil => cases hdrop; rfl
  | cons entry rest ih =>
    unfold dropConflicts at hdrop
    unfold RaftLog.firstConflict
    split at hdrop
    next hpast => cases hdrop; rw [if_pos hpast]; rfl
    next hwithin =>
      rw [if_neg hwithin]
      split at hdrop
      next => cases hdrop
      next term hterm =>
        rw [hterm]
        split at hdrop
        next hconflict =>
          rw [if_neg fun h => hconflict (Option.some.inj h)]
          -- the log ends in front of the conflict
          simp only [RaftLog.truncateEntriesBefore] at hdrop
          split at hdrop
          next => cases hdrop
          next logs hlogs =>
            cases hdrop
            split at hlogs
            next hrange =>
              cases hlogs
              change node.logs.lastIncludedIndex + (node.logs.entries.take
                (entry.index - node.logs.lastIncludedIndex - 1)).length = entry.index - 1
              unfold RaftLog.lastLogIndex at hrange
              rw [List.length_take]
              omega
            next => cases hlogs
        next hsame =>
          rw [if_pos (congrArg some (not_not.mp hsame))]
          exact ih hdrop

theorem storeEntries_lastLogIndex {entries : List LogEntry}
    (hstore : node.storeEntries entries = .ok node') :
    node'.logs.lastLogIndex = node.logs.storedIndex entries := by
  unfold storeEntries at hstore
  unfold RaftLog.storedIndex
  cases entries with
  | nil => cases hstore; rfl
  | cons entry rest =>
    simp only [List.isEmpty_cons, Bool.false_eq_true, if_false] at hstore
    split at hstore
    next => cases hstore
    next dropped hdrop =>
      cases hstore
      rw [← dropConflicts_lastLogIndex hdrop]
      simp [RaftLog.lastLogIndex, RaftLog.appendEntries, Nat.add_assoc]

/-! ## One step -/

instance {lastIndex index : ℕ} : Decidable (ReachesAfter env node lastIndex index) :=
  inferInstanceAs (Decidable (_ → _))

/-- The entries leave the committed ones in the log, and the base is not reset too early. -/
def KeepsEntries (env : Env) (node : RaftNode) (request : AppendEntriesRequest) : Prop :=
  node.commitIndex ≤ node.logs.storedIndex request.entries ∧
    (node.commitIndex < request.leaderCommit →
      ReachesAfter env node (node.logs.storedIndex request.entries)
        (min (node.logs.storedIndex request.entries) request.leaderCommit))

instance {request : AppendEntriesRequest} : Decidable (KeepsEntries env node request) :=
  inferInstanceAs (Decidable (_ ∧ (_ → _)))

/-- The quorum index once the confirmed index is recorded. -/
def confirmedIndex (node : RaftNode) (response : AppendEntriesResponse) : ℕ :=
  quorumIndex (node.matchIndex.insert response.id response.lastLogIndex)

/-- The snapshot ends between what was applied and what it takes to keep the committed entries. -/
def Spans (node : RaftNode) (snapshot : Snapshot) : Prop :=
  snapshot.lastIncludedIndex ≤ node.lastApplied ∧
    node.commitIndex ≤ snapshot.lastIncludedIndex + node.logs.entries.length

instance {snapshot : Snapshot} : Decidable (Spans node snapshot) :=
  inferInstanceAs (Decidable (_ ∧ _))

/-- The condition on a step. -/
def KeepsChain [Platform] (env : Env) (node : RaftNode) : Input → Prop
  | .deliver _ (.appendEntriesRequest request) =>
    node.Accepts request → node.KeepsEntries env request
  | .deliver _ (.appendEntriesResponse response) =>
    node.Confirms response → node.commitIndex < node.confirmedIndex response →
      node.ReachesAfter env node.logs.lastLogIndex (node.confirmedIndex response)
  | .deliver _ (.installSnapshotRequest request) =>
    ∀ snapshot ∈ node.installed request, node.Spans snapshot
  | _ => True

instance [Platform] : ∀ {input : Input}, Decidable (KeepsChain env node input)
  | .deliver _ (.appendEntriesRequest _) => inferInstanceAs (Decidable (_ → _))
  | .deliver _ (.appendEntriesResponse _) => inferInstanceAs (Decidable (_ → _ → _))
  | .deliver _ (.installSnapshotRequest _) => inferInstanceAs (Decidable (∀ _ ∈ _, _))
  | .deliver _ (.requestVoteRequest _) | .deliver _ (.requestVoteResponse _)
  | .deliver _ (.installSnapshotResponse _) | .electionTimeout | .heartbeat | .listDir _
  | .makeDir _ | .prepareUploadFile _ | .uploadFile _ | .prepareDownloadFile _ =>
    inferInstanceAs (Decidable True)

section Step

variable [Platform]

omit [Platform] in
theorem advances_congr {next : RaftNode} (hcommit : next.commitIndex = node.commitIndex)
    (happlied : next.lastApplied = node.lastApplied) :
    next.Advances node' ↔ node.Advances node' := by
  constructor
  · exact fun h => ⟨hcommit ▸ h.commit, happlied ▸ h.applied⟩
  · exact fun h => ⟨hcommit ▸ h.commit, happlied ▸ h.applied⟩

omit [Platform] in
theorem compacts_congr {next : RaftNode} {index : ℕ}
    (happlied : next.lastApplied = node.lastApplied) :
    Compacts env next index ↔ Compacts env node index := by
  unfold Compacts
  rw [happlied]

omit [Platform] in
theorem reachesAfter_congr {next : RaftNode} {lastIndex index : ℕ}
    (hbase : next.logs.lastIncludedIndex = node.logs.lastIncludedIndex)
    (happlied : next.lastApplied = node.lastApplied) :
    next.ReachesAfter env lastIndex index ↔ node.ReachesAfter env lastIndex index := by
  unfold ReachesAfter
  rw [hbase, compacts_congr happlied]

omit [Platform] in
/-- Storing entries moves no index but the last one of the log. -/
theorem indexes_of_stored {request : AppendEntriesRequest} {stored : RaftNode}
    (hstore : (node.followed env request).storeEntries request.entries = .ok stored) :
    stored.logs.lastIncludedIndex = node.logs.lastIncludedIndex ∧
      stored.commitIndex = node.commitIndex ∧ stored.lastApplied = node.lastApplied := by
  have hfollowed : KeepsData node (node.followed env request) := followed_keepsData
  obtain ⟨_, _, rfl⟩ := storeEntries_shape hstore
  exact ⟨by rw [← hfollowed.logs], hfollowed.commitIndex, hfollowed.lastApplied⟩

omit [Platform] in
/-- Neither index moves, and the log at most grows. -/
theorem Chain.of_kept (hchain : node.Chain) (hcommit : node'.commitIndex = node.commitIndex)
    (happlied : node'.lastApplied = node.lastApplied)
    (hbase : node'.logs.lastIncludedIndex = node.logs.lastIncludedIndex)
    (hlast : node.logs.lastLogIndex ≤ node'.logs.lastLogIndex) :
    node'.Chain ∧ node.Advances node' := by
  obtain ⟨hbase_le, happlied_le, hcommit_le⟩ := hchain
  exact ⟨⟨by omega, by omega, by omega⟩, ⟨by omega, by omega⟩⟩

omit [Platform] in
theorem Chain.of_keepsData (hchain : node.Chain) (hkeeps : KeepsData node node') :
    node'.Chain ∧ node.Advances node' :=
  hchain.of_kept hkeeps.commitIndex hkeeps.lastApplied (by rw [hkeeps.logs]) (by rw [hkeeps.logs])

omit [Platform] in
theorem Chain.of_appended {command : EntryCommand} {response : PendingResponse}
    (hchain : node.Chain) :
    (node.appendCommand command response).Chain ∧
      node.Advances (node.appendCommand command response) := by
  refine hchain.of_kept rfl rfl rfl ?_
  simp [appendCommand, RaftLog.lastLogIndex, RaftLog.appendEntry]

theorem chain_afterEntries_iff {request : AppendEntriesRequest} (hchain : node.Chain)
    (hafter : node.afterEntries env request = .ok node') :
    (node'.Chain ∧ node.Advances node') ↔
      (node.Accepts request → node.KeepsEntries env request) := by
  have hfollowed : KeepsData node (node.followed env request) := followed_keepsData
  cases outcome_of_afterEntries hafter with
  | late hlate =>
    exact iff_of_true (hchain.of_keepsData KeepsData.refl) fun h => absurd h.1 (not_le.mpr hlate)
  | rejected _ hreject =>
    exact iff_of_true (hchain.of_keepsData hfollowed) fun h => absurd h.2 hreject
  | stored haccepts hstore hfollow =>
    have hlast := storeEntries_lastLogIndex hstore
    rw [hfollowed.logs] at hlast
    obtain ⟨hbase, hcommit, happlied⟩ := indexes_of_stored hstore
    have hiff := chain_followCommit_iff (by rw [hbase, happlied]; exact hchain.base)
      (by rw [hcommit, happlied]; exact hchain.applied) hfollow
    rw [advances_congr hcommit happlied, reachesAfter_congr hbase happlied, hlast,
      hcommit] at hiff
    rw [hiff]
    exact ⟨fun h _ => h, fun h => h haccepts⟩

theorem chain_handleAppendEntriesResponse_iff {response : AppendEntriesResponse}
    (hchain : node.Chain) (hafter : node.handleAppendEntriesResponse env response = .ok node') :
    (node'.Chain ∧ node.Advances node') ↔
      (node.Confirms response → node.commitIndex < node.confirmedIndex response →
        node.ReachesAfter env node.logs.lastLogIndex (node.confirmedIndex response)) := by
  cases outcome_of_handleAppendEntriesResponse hafter with
  | ignored hnot =>
    exact iff_of_true (hchain.of_keepsData KeepsData.refl) fun h => absurd h hnot
  | deposed hlt =>
    exact iff_of_true (hchain.of_kept rfl rfl rfl le_rfl) fun h => absurd h.2.1 hlt.ne'
  | rejected _ _ hfailed =>
    exact iff_of_true (hchain.of_kept rfl rfl rfl le_rfl) fun h => by simp [h.2.2] at hfailed
  | confirmed hconfirms hadvance =>
    have hrecorded : (node.recordMatch response.id response.lastLogIndex).Chain :=
      ⟨hchain.base, hchain.applied, hchain.commit⟩
    have hiff := chain_advanceCommit_iff hrecorded hadvance
    have hadvances : (node.recordMatch response.id response.lastLogIndex).Advances node' ↔
        node.Advances node' := advances_congr rfl rfl
    rw [hadvances] at hiff
    exact hiff.trans ⟨fun h _ => h, fun h => h hconfirms⟩

omit [Platform] in
/-- The bounds of the log are those of the snapshot, and its entries stay. -/
theorem chain_iff_spans {snapshot : Snapshot} (hchain : node.Chain)
    (hlogs : node'.logs = node.logs.loadSnapshot snapshot)
    (hcommit : node'.commitIndex = node.commitIndex)
    (happlied : node'.lastApplied = node.lastApplied) :
    (node'.Chain ∧ node.Advances node') ↔ node.Spans snapshot := by
  have hbase : node'.logs.lastIncludedIndex = snapshot.lastIncludedIndex := by rw [hlogs]; rfl
  have hlast : node'.logs.lastLogIndex =
      snapshot.lastIncludedIndex + node.logs.entries.length := by rw [hlogs]; rfl
  have happlied_le := hchain.applied
  constructor
  · rintro ⟨⟨hbase_le, -, hcommit_le⟩, -⟩
    exact ⟨by omega, by omega⟩
  · rintro ⟨hbase_le, hcommit_le⟩
    exact ⟨⟨by omega, by omega, by omega⟩, ⟨by omega, by omega⟩⟩

theorem chain_handleInstallSnapshotRequest_iff {request : InstallSnapshotRequest}
    (hchain : node.Chain) :
    ((node.handleInstallSnapshotRequest env request).1.Chain ∧
        node.Advances (node.handleInstallSnapshotRequest env request).1) ↔
      ∀ snapshot ∈ node.installed request, node.Spans snapshot := by
  have hheard : KeepsData node ((node.catchUp env request.term).heardFrom env request.leaderId) :=
    catchUp_keepsData.trans heardFrom_keepsData
  generalize hafter : (node.handleInstallSnapshotRequest env request).1 = node'
  cases outcome_of_handleInstallSnapshotRequest hafter with
  | late _ hnone =>
    rw [hnone]
    exact iff_of_true (hchain.of_keepsData KeepsData.refl) nofun
  | received _ hnone =>
    rw [hnone]
    exact iff_of_true (hchain.of_kept hheard.commitIndex hheard.lastApplied
      (congrArg _ hheard.logs) (congrArg RaftLog.lastLogIndex hheard.logs).ge) nofun
  | installed _ hinstalled =>
    rw [hinstalled]
    refine Iff.trans (chain_iff_spans hchain rfl ?_ ?_) ?_
    · exact hheard.commitIndex
    · exact hheard.lastApplied
    · simp only [Option.mem_some_iff, forall_eq']

/-- **The step lemma.** -/
theorem chain_after_iff {input : Input} (hchain : node.Chain)
    (hafter : node.after env input = .ok node') :
    (node'.Chain ∧ node.Advances node') ↔ node.KeepsChain env input := by
  cases input with
  | electionTimeout =>
    cases hafter
    exact iff_of_true (hchain.of_keepsData electionLoop_keepsData) trivial
  | heartbeat =>
    exact iff_of_true (hchain.of_keepsData (moves_of_heartbeat hafter).keepsData) trivial
  | deliver src message =>
    cases message with
    | requestVoteRequest request =>
      cases hafter
      exact iff_of_true (hchain.of_keepsData handleRequestVoteRequest_keepsData) trivial
    | requestVoteResponse response =>
      cases hafter
      exact iff_of_true (hchain.of_keepsData handleRequestVoteResponse_keepsData) trivial
    | appendEntriesRequest request => exact chain_afterEntries_iff hchain hafter
    | appendEntriesResponse response => exact chain_handleAppendEntriesResponse_iff hchain hafter
    | installSnapshotRequest request =>
      cases hafter
      exact chain_handleInstallSnapshotRequest_iff hchain
    | installSnapshotResponse response =>
      exact iff_of_true
        (hchain.of_keepsData (handleInstallSnapshotResponse_keepsData hafter)) trivial
  | listDir request => cases hafter; exact iff_of_true (hchain.of_keepsData KeepsData.refl) trivial
  | makeDir request =>
    cases outcome_of_makeDir hafter with
    | refused => exact iff_of_true (hchain.of_keepsData KeepsData.refl) trivial
    | appended => exact iff_of_true hchain.of_appended trivial
  | prepareUploadFile request =>
    obtain ⟨_, rfl⟩ := exists_of_prepareUploadFile hafter
    exact iff_of_true (hchain.of_kept rfl rfl rfl le_rfl) trivial
  | uploadFile request =>
    cases outcome_of_uploadFile hafter with
    | refused => exact iff_of_true (hchain.of_keepsData KeepsData.refl) trivial
    | appended => exact iff_of_true hchain.of_appended trivial
  | prepareDownloadFile request =>
    cases hafter
    exact iff_of_true (hchain.of_keepsData KeepsData.refl) trivial

/-! ## Runs -/

/-- The node after a step that returns. -/
def next (node : RaftNode) (event : Env × Input) : Option RaftNode :=
  match node.handle event.1 event.2 with
  | .error _ => none
  | .ok (node, _) => some node

theorem after_of_next {event : Env × Input} (hnext : node.next event = some node') :
    node.after event.1 event.2 = .ok node' := by
  unfold next at hnext
  split at hnext
  next => cases hnext
  next next output hhandle =>
    cases hnext
    exact after_of_handle hhandle

/-- A run of one node, each step of which keeps the chain. -/
def ChainRun : RaftNode → RaftNode → Prop :=
  Run next fun node event => node.KeepsChain event.1 event.2

/-- **The run lemma.** -/
theorem ChainRun.chain (hrun : ChainRun node node') (hchain : node.Chain) :
    node'.Chain ∧ node.Advances node' := by
  refine Run.invariant (fun next => next.Chain ∧ node.Advances next)
    ⟨hchain, ⟨le_rfl, le_rfl⟩⟩ (fun hinv hkeeps hnext => ?_) hrun
  obtain ⟨hchain, hadvances⟩ := hinv
  obtain ⟨hchain', hadvances'⟩ := (chain_after_iff hchain (after_of_next hnext)).mpr hkeeps
  exact ⟨hchain', hadvances.commit.trans hadvances'.commit,
    hadvances.applied.trans hadvances'.applied⟩

/-- A start knows of nothing applied or committed, whatever it loads. -/
theorem chain_create_iff {config : Config} {disk : Disk Payload}
    (hcreate : create env config disk = .ok node) : node.Chain ↔ foundIndex disk = 0 := by
  obtain ⟨snapshot, snapshotter, entries, hardState, disk', hfind, -, -, rfl⟩ :=
    create_spec hcreate
  rw [← findSnapshot_index hfind]
  constructor
  · exact fun hchain => Nat.le_zero.mp hchain.base
  · exact fun hzero => ⟨hzero.le, le_rfl, Nat.zero_le _⟩

end Step

end RaftNode

/-- **The chain of indexes** holds after a start if it loads no snapshot, and a step keeps it,
without an index going back, if and only if it meets the condition. -/
theorem indexChain [Platform] {config : Config} {disk : Disk Payload} {env : Env}
    {node : RaftNode} (hcreate : RaftNode.create env config disk = .ok node) :
    (node.Chain ↔ RaftNode.foundIndex disk = 0) ∧
      (RaftNode.foundIndex disk = 0 →
        ∀ node', RaftNode.ChainRun node node' → node'.Chain ∧
          (∀ later, RaftNode.ChainRun node' later → node'.Advances later) ∧
          ∀ event node'', node'.next event = some node'' →
            ((node''.Chain ∧ node'.Advances node'') ↔ node'.KeepsChain event.1 event.2)) := by
  have hstart := RaftNode.chain_create_iff hcreate
  refine ⟨hstart, fun hzero node' hrun => ?_⟩
  have hchain := (hrun.chain (hstart.mpr hzero)).1
  exact ⟨hchain, fun later hlater => (hlater.chain hchain).2, fun event node'' hnext =>
    RaftNode.chain_after_iff hchain (RaftNode.after_of_next hnext)⟩

/-! ## Nodes that keep the chain, and that do not -/

/-- A member that has heard of nobody. -/
def follower : RaftNode :=
  Cluster.freshNode memberOfThree

/-- Member 2 sends entries as the leader of a term. -/
def entriesOf (term : ℕ) (entries : List LogEntry) (leaderCommit : ℕ) : Env × Input :=
  ({}, .deliver 2 (.appendEntriesRequest
    { term := term, leaderId := 2, entries := entries, leaderCommit := leaderCommit }))

/-- Two entries, both committed. -/
def twoCommitted : Env × Input :=
  entriesOf 1 [{ term := 1, index := 1 }, { term := 1, index := 2 }] 2

theorem indexChain_twoCommitted :
    ∃ node', @RaftNode.ChainRun plainPlatform follower node' ∧ node'.commitIndex = 2 ∧
      node'.Chain := by
  obtain ⟨node', hrun, hcommit⟩ := Run.exists_of_exec (@RaftNode.next plainPlatform)
    (fun node event => @RaftNode.KeepsChain plainPlatform event.1 node event.2) follower
    [twoCommitted] (fun node' => decide (node'.commitIndex = 2)) (by decide)
  have hcreate := @Cluster.create_freshNode plainPlatform memberOfThree
  exact ⟨node', hrun, of_decide_eq_true hcommit,
    ((@indexChain plainPlatform _ _ _ _ hcreate).2 (by decide) node' hrun).1⟩

/-- One snapshot was saved, and the process died while it saved the next one. -/
def savedTwice : Disk Payload :=
  @Snapshotter.diskInSave oneSnapshotPlatform RaftNode.newSnapshotter savedOnce oneSnapshot 2

/-- The request with all of `oneSnapshot`. -/
def installOne : Env × Input :=
  ({}, .deliver 2 (.installSnapshotRequest
    { term := 1, leaderId := 2, data := [8, 10, 16, 1], done := true }))

/-- A start from a snapshot, an installed snapshot, and a leader's entry in place of
committed ones. -/
theorem exists_broken_chain :
    (∃ node, @RaftNode.create oneSnapshotPlatform {} memberOfThree savedTwice = .ok node ∧
        ¬ node.Chain) ∧
      (∃ node', @RaftNode.next oneSnapshotPlatform follower installOne = some node' ∧
        ¬ node'.Chain) ∧
      ∃ node node', Run (@RaftNode.next plainPlatform) (fun _ _ => True) follower node ∧
        @RaftNode.next plainPlatform node (entriesOf 2 [{ term := 2, index := 1 }] 0) = some node' ∧
        node.Chain ∧ ¬ node'.Chain := by
  refine ⟨?_, ?_, ?_⟩
  · have hcreate : (@RaftNode.create oneSnapshotPlatform {} memberOfThree savedTwice).toOption.any
        (fun node => decide (¬ node.Chain)) = true := by decide
    cases hnode : @RaftNode.create oneSnapshotPlatform {} memberOfThree savedTwice with
    | error err => rw [hnode] at hcreate; cases hcreate
    | ok node => rw [hnode] at hcreate; exact ⟨node, rfl, of_decide_eq_true hcreate⟩
  · have hnext : (@RaftNode.next oneSnapshotPlatform follower installOne).any
        (fun node' => decide (¬ node'.Chain)) = true := by decide
    obtain ⟨node', hnode', hchain⟩ := Option.any_eq_true .. |>.mp hnext
    exact ⟨node', hnode', of_decide_eq_true hchain⟩
  · obtain ⟨node, node', hrun, hnext, hchain⟩ :=
      Run.exists_step_of_exec (@RaftNode.next plainPlatform) (fun _ _ => True) follower
        [twoCommitted] (entriesOf 2 [{ term := 2, index := 1 }] 0)
        (fun node node' => decide (node.Chain ∧ ¬ node'.Chain)) (by decide)
    exact ⟨node, node', hrun, hnext, of_decide_eq_true hchain⟩

end Vosfs.Raft
