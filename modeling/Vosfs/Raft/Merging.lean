import Vosfs.Raft.IndexChain
import Vosfs.Raft.LogSafety

/-!
# Merging entries into a log

What a request of the leader must make of a log whose part up to `prev_log_index` it agrees
with: that part, the entries of the request, and the rest of the log unless an entry conflicts
with it (`RaftLog.merge`), in memory and on disk, and nothing more if it comes twice
(`RaftNode.Merges`).

The handler looks for a conflict, and then appends all entries at the end of the log, those the
log holds already too.  So a batch with entries that is handled twice is appended twice
(`dropConflicts_of_agrees`), and only requests that are rejected or carry no entries are merged
(`requestMerged`); the latter apply what the leader has committed, which must leave the base of
the log where it is (`RaftNode.AppliesInPlace`).
-/

namespace Vosfs.Raft

open Persister (Holds)

namespace RaftLog

/-- The log holds an entry of another term in the place of one of the entries. -/
def Conflicts (log : RaftLog) (entries : List LogEntry) : Prop :=
  ∃ entry ∈ entries, ∃ term ∈ log.getTerm entry.index, term ≠ entry.term

instance {log : RaftLog} {entries : List LogEntry} : Decidable (log.Conflicts entries) :=
  inferInstanceAs (Decidable (∃ _ ∈ entries, ∃ _ ∈ _, _ ≠ _))

/-- The log up to the previous index, the entries, and what the log holds beyond them. -/
def merge (log : RaftLog) (request : AppendEntriesRequest) : RaftLog :=
  let count := request.prevLogIndex - log.lastIncludedIndex
  { log with
    entries := log.entries.take count ++ request.entries ++
      if log.Conflicts request.entries then []
      else log.entries.drop (count + request.entries.length) }

theorem merge_of_no_entries {log : RaftLog} {request : AppendEntriesRequest}
    (hentries : request.entries = []) : log.merge request = log := by
  have hnone : ¬ log.Conflicts [] := by
    rintro ⟨entry, hmem, -⟩
    cases hmem
  simp [merge, hentries, hnone]

end RaftLog

namespace RaftNode

variable {env env' : Env} {node node' : RaftNode} {request : AppendEntriesRequest}

/-! ## Applying in place -/

/-- Entries can be applied up to an index, and leave the log as it is: none of them is below the
base, no snapshot waits for the lock, and if one is saved, the base it resets is the start. -/
structure AppliesInPlace (env : Env) (node : RaftNode) (index : ℕ) : Prop where
  base : node.logs.lastIncludedIndex ≤ node.lastApplied
  unlocked : ∀ k ≤ index, node.lastApplied < k → k % snapshotInterval = 0 →
    node.snapshotter.locked = false
  start : Compacts env node index → node.logs.FromStart

/-- What the condition reads. -/
theorem AppliesInPlace.congr {index : ℕ} (h : AppliesInPlace env node index)
    (hlogs : node'.logs = node.logs) (happlied : node'.lastApplied = node.lastApplied)
    (hlocked : node'.snapshotter.locked = node.snapshotter.locked) :
    AppliesInPlace env node' index := by
  refine ⟨by rw [hlogs, happlied]; exact h.base, ?_, fun hcompacts => ?_⟩
  · rw [happlied, hlocked]
    exact h.unlocked
  · rw [hlogs]
    refine h.start ?_
    unfold Compacts at hcompacts ⊢
    rwa [happlied] at hcompacts

section Apply

variable [Platform]

theorem exists_snapshotAt {index term : ℕ} (hterm : node.logs.getTerm index = some term)
    (hunlocked : node.snapshotter.locked = false) :
    ∃ node', node.snapshotAt env index = .ok node' := by
  unfold snapshotAt
  rw [hterm]
  simp only [Snapshotter.saveSnapshot, hunlocked]
  cases env.fileOutcome index <;> exact ⟨_, rfl⟩

/-- What one round needs, and what it makes of the log. -/
theorem applyNext_logs (happly : node.applyNext env = .ok node') :
    node.logs.lastIncludedIndex ≤ node.lastApplied ∧
      ((node.lastApplied + 1) % snapshotInterval = 0 → node.snapshotter.locked = false) ∧
      node'.snapshotter.locked = node.snapshotter.locked ∧
      node'.logs = if Compacts env node (node.lastApplied + 1) then node.logs.loadSnapshot {}
        else node.logs := by
  obtain ⟨entry, hentry, hround⟩ := round_of_applyNext happly
  have hbase : node.logs.lastIncludedIndex ≤ node.lastApplied := by
    by_contra hlt
    rw [RaftLog.getEntry, if_neg (by omega)] at hentry
    cases hentry
  simp only [compacts_succ]
  cases hround with
  | plain hbetween =>
    exact ⟨hbase, fun hinterval => absurd hinterval hbetween, rfl,
      (if_neg fun hsaves => hbetween hsaves.1).symm⟩
  | failed _ hsave =>
    obtain ⟨hunlocked, hfails⟩ := saveSnapshot_cases hsave
    exact ⟨hbase, fun _ => hunlocked, rfl, (if_neg fun hsaves => hfails hsaves.2).symm⟩
  | saved hinterval hsave =>
    obtain ⟨hunlocked, hsaves, hunlocked'⟩ := saveSnapshot_cases hsave
    exact ⟨hbase, fun _ => hunlocked, hunlocked'.trans hunlocked.symm,
      (if_pos ⟨hinterval, hsaves⟩).symm⟩

theorem exists_applyNext (hbase : node.logs.lastIncludedIndex ≤ node.lastApplied)
    (hreached : node.lastApplied < node.logs.lastLogIndex)
    (hunlocked : (node.lastApplied + 1) % snapshotInterval = 0 →
      node.snapshotter.locked = false) : ∃ node', node.applyNext env = .ok node' := by
  have hlength : node.lastApplied + 1 - node.logs.lastIncludedIndex - 1 <
      node.logs.entries.length := by
    unfold RaftLog.lastLogIndex at hreached
    omega
  have hentry : node.logs.getEntry (node.lastApplied + 1) =
      some node.logs.entries[node.lastApplied + 1 - node.logs.lastIncludedIndex - 1] := by
    rw [RaftLog.getEntry, if_pos (by omega), List.getElem?_eq_getElem hlength]
  unfold applyNext
  simp only [hentry]
  split
  next hinterval =>
    have hterm : node.logs.getTerm (node.lastApplied + 1) =
        some node.logs.entries[node.lastApplied + 1 - node.logs.lastIncludedIndex - 1].term := by
      rw [RaftLog.getTerm, if_neg (by omega), if_pos (by omega), List.getElem?_eq_getElem hlength]
      rfl
    exact exists_snapshotAt hterm (hunlocked hinterval)
  next => exact ⟨_, rfl⟩

/-- What all rounds need, and what they make of the log. -/
theorem applyRounds_logs {rounds : ℕ} (happly : applyRounds env rounds node = .ok node') :
    (0 < rounds → node.logs.lastIncludedIndex ≤ node.lastApplied) ∧
      (∀ k ≤ node.lastApplied + rounds, node.lastApplied < k → k % snapshotInterval = 0 →
        node.snapshotter.locked = false) ∧
      node'.logs = if Compacts env node (node.lastApplied + rounds) then node.logs.loadSnapshot {}
        else node.logs := by
  induction rounds generalizing node with
  | zero =>
    cases happly
    have hnone : ¬ Compacts env node' (node'.lastApplied + 0) := by
      rintro ⟨k, hle, hlt, -⟩
      omega
    exact ⟨fun hpos => absurd hpos (lt_irrefl 0), fun k hle hlt => by omega, (if_neg hnone).symm⟩
  | succ rounds ih =>
    obtain ⟨next, hnext, happly⟩ := exists_of_applyRounds happly
    obtain ⟨hbase, hfirst, hlocked, hlogs⟩ := applyNext_logs hnext
    have happlied := (applyNext_indexes hnext).1
    obtain ⟨-, hrest, hlogs'⟩ := ih happly
    refine ⟨fun _ => hbase, fun k hle hlt hk => ?_, ?_⟩
    · rcases Nat.lt_or_ge (node.lastApplied + 1) k with hlater | hnow
      · exact hlocked.symm.trans (hrest k (by omega) (by omega) hk)
      · obtain rfl : k = node.lastApplied + 1 := by omega
        exact hfirst hk
    · have hsplit := @compacts_rounds env node next rounds happlied
      rw [hlogs', hlogs]
      by_cases hcompacts : Compacts env node (node.lastApplied + 1) <;>
        simp [hsplit, hcompacts, RaftLog.loadSnapshot]

theorem exists_applyRounds {rounds : ℕ}
    (hreached : node.lastApplied + rounds ≤ node.logs.lastLogIndex)
    (happlies : AppliesInPlace env node (node.lastApplied + rounds)) :
    ∃ node', applyRounds env rounds node = .ok node' := by
  induction rounds generalizing node with
  | zero => exact ⟨node, rfl⟩
  | succ rounds ih =>
    obtain ⟨next, hnext⟩ := exists_applyNext happlies.base (by omega)
      (happlies.unlocked (node.lastApplied + 1) (by omega) (Nat.lt_succ_self _))
    obtain ⟨-, -, hlocked, hlogs⟩ := applyNext_logs hnext
    have happlied := (applyNext_indexes hnext).1
    -- a snapshot in the first round leaves the log as it is
    have hsame : next.logs = node.logs := by
      rw [hlogs]
      split
      next hcompacts =>
        have hfirst : Compacts env node (node.lastApplied + (rounds + 1)) :=
          (compacts_rounds happlied).mpr (Or.inl hcompacts)
        exact loadSnapshot_of_fromStart (happlies.start hfirst)
      next => rfl
    have hrest : AppliesInPlace env next (next.lastApplied + rounds) := by
      refine ⟨?_, fun k hle hlt hk => ?_, fun hcompacts => ?_⟩
      · rw [hsame, happlied]
        exact happlies.base.trans (Nat.le_succ _)
      · rw [hlocked]
        exact happlies.unlocked k (by omega) (by omega) hk
      · rw [hsame]
        exact happlies.start ((compacts_rounds happlied).mpr (Or.inr hcompacts))
    obtain ⟨node', happly⟩ := ih (by rw [hsame]; omega) hrest
    refine ⟨node', ?_⟩
    rw [applyRounds, hnext]
    exact happly

/-- **When entries are applied in place.** -/
theorem applyRounds_inPlace_iff {rounds : ℕ} (hpos : 0 < rounds)
    (hreached : node.lastApplied + rounds ≤ node.logs.lastLogIndex) :
    (∃ node', applyRounds env rounds node = .ok node' ∧ node'.logs = node.logs) ↔
      AppliesInPlace env node (node.lastApplied + rounds) := by
  constructor
  · rintro ⟨node', happly, hsame⟩
    obtain ⟨hbase, hunlocked, hlogs⟩ := applyRounds_logs happly
    refine ⟨hbase hpos, hunlocked, fun hcompacts => ?_⟩
    rw [hsame, if_pos hcompacts] at hlogs
    exact ⟨congrArg RaftLog.lastIncludedIndex hlogs, congrArg RaftLog.lastIncludedTerm hlogs⟩
  · intro happlies
    obtain ⟨node', happly⟩ := exists_applyRounds hreached happlies
    refine ⟨node', happly, (applyRounds_logs happly).2.2.trans ?_⟩
    split
    next hcompacts => exact loadSnapshot_of_fromStart (happlies.start hcompacts)
    next => rfl

/-- What the leader has committed can be applied in place. -/
def FollowsInPlace (env : Env) (node : RaftNode) (leaderCommit : ℕ) : Prop :=
  node.commitIndex < leaderCommit →
    node.lastApplied < min node.logs.lastLogIndex leaderCommit →
      AppliesInPlace env node (min node.logs.lastLogIndex leaderCommit)

theorem followCommit_inPlace_iff {leaderCommit : ℕ} :
    (∃ node', node.followCommit env leaderCommit = .ok node' ∧ node'.logs = node.logs) ↔
      node.FollowsInPlace env leaderCommit := by
  unfold followCommit FollowsInPlace
  split
  next hlt =>
    rw [forall_prop_of_true hlt]
    unfold applyEntry
    rcases Nat.lt_or_ge node.lastApplied (min node.logs.lastLogIndex leaderCommit) with hmore | hdone
    · rw [forall_prop_of_true hmore]
      have hto : node.lastApplied + (min node.logs.lastLogIndex leaderCommit - node.lastApplied) =
          min node.logs.lastLogIndex leaderCommit := by omega
      have hiff := @applyRounds_inPlace_iff env
        { node with commitIndex := min node.logs.lastLogIndex leaderCommit } _
        (min node.logs.lastLogIndex leaderCommit - node.lastApplied) (by omega)
        (hto.trans_le (min_le_left _ _))
      refine hiff.trans ?_
      change AppliesInPlace env _ (node.lastApplied + _) ↔ _
      rw [hto]
      exact ⟨fun h => h.congr rfl rfl rfl, fun h => h.congr rfl rfl rfl⟩
    · have hzero : min node.logs.lastLogIndex leaderCommit - node.lastApplied = 0 := by omega
      refine iff_of_true ?_ fun hlt => absurd hlt (not_lt.mpr hdone)
      rw [hzero]
      exact ⟨_, rfl, rfl⟩
  next hge => exact iff_of_true ⟨node, rfl, rfl⟩ fun hlt => absurd hlt hge

/-- Nothing is left to apply. -/
theorem followsInPlace_of_followCommit {leaderCommit : ℕ} (hlogs : node'.logs = node.logs)
    (hfollow : node.followCommit env leaderCommit = .ok node') :
    node'.FollowsInPlace env' leaderCommit := by
  intro hlt hmore
  unfold followCommit at hfollow
  split at hfollow
  next =>
    have happlied : node'.lastApplied = node.lastApplied +
        (min node.logs.lastLogIndex leaderCommit - node.lastApplied) :=
      (applyRounds_indexes hfollow).1
    rw [hlogs] at hmore
    omega
  next hge => cases hfollow; exact absurd hlt hge

end Apply

/-! ## Requests without entries -/

/-- A log in memory and on disk. -/
def HasLog (node : RaftNode) (log : RaftLog) : Prop :=
  node.logs = log ∧ Holds node.disk log.lastIncludedIndex log.entries

section Handling

variable [Platform]

theorem exists_handle_iff {P : RaftNode → Prop} :
    (∃ node' response, node.handleAppendEntriesRequest env request = .ok (node', response) ∧
      P node') ↔ ∃ node', node.afterEntries env request = .ok node' ∧ P node' := by
  rw [← map_handleAppendEntriesRequest]
  constructor
  · rintro ⟨node', response, hhandle, hP⟩
    exact ⟨node', by rw [hhandle]; rfl, hP⟩
  · rintro ⟨node', hafter, hP⟩
    obtain ⟨⟨after, response⟩, hhandle, rfl⟩ := exists_of_map_eq_ok hafter
    exact ⟨after, response, hhandle, hP⟩

theorem afterEntries_of_no_entries (haccepts : node.Accepts request)
    (hentries : request.entries = []) :
    node.afterEntries env request = (node.followed env request).followCommit env
      request.leaderCommit := by
  unfold afterEntries
  rw [if_neg (not_lt.mpr haccepts.1), if_neg (not_not.mpr (logOk_followed.mpr haccepts.2)),
    hentries]
  rfl

omit [Platform] in
theorem HasLog.side {log : RaftLog} (h : node.HasLog log) (hlogs : node'.logs = node.logs)
    (hwrote : Disk.Wrote (SideWrite False node) node.disk node'.disk) : node'.HasLog log :=
  ⟨hlogs.trans h.1, holds_of_side h.2 hwrote⟩

omit [Platform] in
theorem HasLog.followed {log : RaftLog} (h : node.HasLog log) :
    (node.followed env request).HasLog log :=
  h.side followed_keepsData.logs wrote_catchUp

theorem HasLog.followCommit {log : RaftLog} (h : node.HasLog log) {leaderCommit : ℕ}
    (hlogs : node'.logs = node.logs) (hfollow : node.followCommit env leaderCommit = .ok node') :
    node'.HasLog log := by
  have hwrote := @wrote_followCommit env node False _ leaderCommit
  rw [hfollow] at hwrote
  exact h.side hlogs hwrote

/-- A request that was handled in its term is handled in it again. -/
theorem accepts_of_afterEntries (hterm : node.currentTerm ≤ request.term)
    (hafter : node.afterEntries env request = .ok node') (hok : LogOk node' request) :
    node'.Accepts request := by
  have hraft := afterEntries_keepsRaft hterm hafter
  refine ⟨le_of_eq ?_, hok⟩
  unfold currentTerm
  rw [hraft.hardState]
  exact currentTerm_catchUp hterm

omit [Platform] in
theorem followsInPlace_followed {leaderCommit : ℕ} :
    (node.followed env' request).FollowsInPlace env leaderCommit ↔
      node.FollowsInPlace env leaderCommit := by
  have hkeeps := @followed_keepsData env' node request
  have hlocked : (node.followed env' request).snapshotter.locked = node.snapshotter.locked :=
    congrArg Snapshotter.locked snapshotter_catchUp
  unfold FollowsInPlace
  rw [hkeeps.logs, hkeeps.commitIndex, hkeeps.lastApplied]
  refine imp_congr_right fun _ => imp_congr_right fun _ => ?_
  exact ⟨fun h => h.congr hkeeps.logs.symm hkeeps.lastApplied.symm hlocked.symm,
    fun h => h.congr hkeeps.logs hkeeps.lastApplied hlocked⟩

/-- A request that only commits keeps the log if what it commits is applied in place. -/
theorem afterEntries_inPlace_iff (haccepts : node.Accepts request)
    (hentries : request.entries = []) :
    (∃ node', node.afterEntries env request = .ok node' ∧ node'.logs = node.logs) ↔
      node.FollowsInPlace env request.leaderCommit := by
  rw [afterEntries_of_no_entries haccepts hentries, ← @followsInPlace_followed env env,
    ← followCommit_inPlace_iff, followed_keepsData.logs]

/-- It then does so twice. -/
theorem merged_of_followsInPlace (hlog : node.HasLog node.logs) (haccepts : node.Accepts request)
    (hentries : request.entries = []) (hfollows : node.FollowsInPlace env request.leaderCommit) :
    ∃ node', node.afterEntries env request = .ok node' ∧ node'.HasLog node.logs ∧
      ∃ node'', node'.afterEntries env' request = .ok node'' ∧ node''.HasLog node.logs := by
  obtain ⟨node', hafter, hlogs⟩ := (afterEntries_inPlace_iff haccepts hentries).mpr hfollows
  have hfollow := hafter
  rw [afterEntries_of_no_entries haccepts hentries] at hfollow
  have hsame := hlogs.trans (@followed_keepsData env node request).logs.symm
  have hlog' : node'.HasLog node.logs := hlog.followed.followCommit hsame hfollow
  have haccepts' : node'.Accepts request := by
    refine accepts_of_afterEntries haccepts.1 hafter ?_
    have hok := haccepts.2
    unfold LogOk at hok ⊢
    rwa [hlogs]
  have hrest : node'.FollowsInPlace env' request.leaderCommit :=
    followsInPlace_of_followCommit hsame hfollow
  obtain ⟨node'', hafter', hlogs'⟩ := (afterEntries_inPlace_iff haccepts' hentries).mpr hrest
  have hfollow' := hafter'
  rw [afterEntries_of_no_entries haccepts' hentries] at hfollow'
  refine ⟨node', hafter, hlog', node'', hafter', ?_⟩
  exact hlog'.followed.followCommit (hlogs'.trans followed_keepsData.logs.symm) hfollow'

end Handling

/-! ## Requests with entries -/

/-- The entries go on from the previous index. -/
def Numbered (request : AppendEntriesRequest) : Prop :=
  ∀ k entry, request.entries[k]? = some entry → entry.index = request.prevLogIndex + k + 1

/-- A log that holds the entries has no conflict with them. -/
theorem dropConflicts_of_agrees {entries : List LogEntry}
    (hagrees : ∀ entry ∈ entries, node.logs.getTerm entry.index = some entry.term) :
    dropConflicts entries node = .ok node := by
  induction entries with
  | nil => rfl
  | cons entry rest ih =>
    obtain ⟨hentry, hrest⟩ := List.forall_mem_cons.mp hagrees
    unfold dropConflicts
    rw [hentry]
    simp only [ne_eq, not_true_eq_false, if_false]
    split
    next => rfl
    next => exact ih hrest

/-- Everything is appended once more. -/
theorem length_of_agrees [Platform] (haccepts : node.Accepts request)
    (hagrees : ∀ entry ∈ request.entries, node.logs.getTerm entry.index = some entry.term)
    (hafter : node.afterEntries env request = .ok node') :
    node'.logs.entries.length = node.logs.entries.length + request.entries.length := by
  cases outcome_of_afterEntries hafter with
  | late hlate => exact absurd haccepts.1 (not_le.mpr hlate)
  | rejected _ hreject => exact absurd haccepts.2 hreject
  | stored _ hstore hfollow =>
    have hfollowed := @followed_keepsData env node request
    have hdrop : dropConflicts request.entries (node.followed env request) =
        .ok (node.followed env request) := by
      refine dropConflicts_of_agrees ?_
      rw [hfollowed.logs]
      exact hagrees
    rw [(movesCommit_of_followCommit hfollow).applies.entries]
    unfold storeEntries at hstore
    split at hstore
    next hempty =>
      cases hstore
      rw [hfollowed.logs, List.isEmpty_iff.mp hempty]
      rfl
    next =>
      rw [hdrop] at hstore
      cases hstore
      simp [RaftLog.appendEntries, hfollowed.logs]

/-! ### The merged log -/

theorem lastLogIndex_merge (hok : LogOk node request) :
    request.prevLogIndex + request.entries.length ≤ (node.logs.merge request).lastLogIndex := by
  obtain ⟨hreached, hpast, -⟩ := hok
  unfold RaftLog.lastLogIndex at hreached
  simp only [RaftLog.lastLogIndex, RaftLog.merge, List.length_append, List.length_take]
  omega

theorem getTerm_merge_prev (hok : LogOk node request) :
    (node.logs.merge request).getTerm request.prevLogIndex = some request.prevLogTerm := by
  obtain ⟨hreached, hpast, hterm⟩ := hok
  unfold RaftLog.lastLogIndex at hreached
  unfold RaftLog.getTerm RaftLog.merge at *
  simp only
  generalize (if node.logs.Conflicts request.entries then [] else _) = rest
  split_ifs at hterm ⊢ with hbase hlater
  · exact hterm
  · rw [List.append_assoc, List.getElem?_append_left (by rw [List.length_take]; omega),
      List.getElem?_take_of_lt (by omega)]
    exact hterm

theorem getTerm_merge_entry (hok : LogOk node request) (hnumbered : Numbered request)
    {entry : LogEntry} (hentry : entry ∈ request.entries) :
    (node.logs.merge request).getTerm entry.index = some entry.term := by
  obtain ⟨hreached, hpast, -⟩ := hok
  obtain ⟨k, hk, rfl⟩ := List.getElem_of_mem hentry
  have hindex := hnumbered k _ (List.getElem?_eq_getElem hk)
  have hcount : (node.logs.entries.take
      (request.prevLogIndex - node.logs.lastIncludedIndex)).length =
        request.prevLogIndex - node.logs.lastIncludedIndex := by
    unfold RaftLog.lastLogIndex at hreached
    exact List.length_take_of_le (by omega)
  have hposition : request.prevLogIndex + k + 1 - node.logs.lastIncludedIndex - 1 =
      request.prevLogIndex - node.logs.lastIncludedIndex + k := by omega
  unfold RaftLog.getTerm RaftLog.merge
  simp only
  rw [hindex, if_neg (by omega), if_pos (by omega), hposition, List.append_assoc,
    List.getElem?_append_right (by omega), hcount, Nat.add_sub_cancel_left,
    List.getElem?_append_left hk, List.getElem?_eq_getElem hk]
  rfl

theorem logOk_merge (hok : LogOk node request) (hlogs : node'.logs = node.logs.merge request) :
    LogOk node' request := by
  unfold LogOk
  rw [hlogs]
  exact ⟨(Nat.le_add_right _ _).trans (lastLogIndex_merge hok), hok.2.1, getTerm_merge_prev hok⟩

/-- A batch with entries is not merged twice. -/
theorem not_merged_twice [Platform] (hterm : node.currentTerm ≤ request.term)
    (hok : LogOk node request) (hnumbered : Numbered request) (hentries : request.entries ≠ [])
    {node'' : RaftNode} (hafter : node.afterEntries env request = .ok node')
    (hlogs : node'.logs = node.logs.merge request)
    (hafter' : node'.afterEntries env' request = .ok node'') : node''.logs ≠ node'.logs := by
  intro hsame
  have haccepts := accepts_of_afterEntries hterm hafter (logOk_merge hok hlogs)
  have hgrows := length_of_agrees haccepts (fun entry hentry => by
    rw [hlogs]
    exact getTerm_merge_entry hok hnumbered hentry) hafter'
  rw [hsame] at hgrows
  exact hentries (List.eq_nil_of_length_eq_zero (by omega))

/-! ## What handling a request must do -/

/-- The log is merged once and for all, or it stays as it is and the leader hears so. -/
structure Merges [Platform] (env env' : Env) (node : RaftNode) (request : AppendEntriesRequest) :
    Prop where
  accepted : LogOk node request → ∃ node' response,
    node.handleAppendEntriesRequest env request = .ok (node', response) ∧
      node'.HasLog (node.logs.merge request) ∧ ∃ node'' response',
        node'.handleAppendEntriesRequest env' request = .ok (node'', response') ∧
          node''.HasLog (node.logs.merge request)
  rejected : ¬ LogOk node request → ∃ node' response,
    node.handleAppendEntriesRequest env request = .ok (node', response) ∧
      node'.HasLog node.logs ∧ response.success = false

theorem rejected_of_not_logOk [Platform] (hlog : node.HasLog node.logs)
    (hterm : node.currentTerm ≤ request.term) (hreject : ¬ LogOk node request) :
    ∃ node' response, node.handleAppendEntriesRequest env request = .ok (node', response) ∧
      node'.HasLog node.logs ∧ response.success = false := by
  let followed := node.followed env request
  let response : AppendEntriesResponse :=
    { id := followed.memberId
      term := followed.currentTerm
      success := false
      lastLogIndex := followed.logs.lastLogIndex
      conflictIndex := some request.prevLogIndex }
  refine ⟨followed, response, ?_, hlog.followed, rfl⟩
  unfold handleAppendEntriesRequest
  rw [if_neg (not_lt.mpr hterm)]
  exact if_pos fun hok => hreject (logOk_followed.mp hok)

end RaftNode

/-- **When a request is merged.** -/
theorem requestMerged [Platform] {env env' : Env} {node : RaftNode}
    {request : AppendEntriesRequest} (hlog : node.HasLog node.logs)
    (hterm : node.currentTerm ≤ request.term) (hnumbered : RaftNode.Numbered request) :
    node.Merges env env' request ↔ ¬ RaftNode.LogOk node request ∨
      request.entries = [] ∧ node.FollowsInPlace env request.leaderCommit := by
  have hrejected := @RaftNode.rejected_of_not_logOk env node request _ hlog hterm
  by_cases hok : RaftNode.LogOk node request
  · rw [or_iff_right (not_not.mpr hok)]
    constructor
    · intro hmerges
      have haccepted := hmerges.accepted hok
      obtain ⟨node', hafter, hmerged, hagain⟩ := RaftNode.exists_handle_iff.mp haccepted
      obtain ⟨node'', hafter', hmerged'⟩ := RaftNode.exists_handle_iff.mp hagain
      have hentries : request.entries = [] := by
        by_contra hne
        exact RaftNode.not_merged_twice hterm hok hnumbered hne hafter hmerged.1 hafter'
          (hmerged'.1.trans hmerged.1.symm)
      rw [RaftLog.merge_of_no_entries hentries] at hmerged
      exact ⟨hentries, (RaftNode.afterEntries_inPlace_iff ⟨hterm, hok⟩ hentries).mp
        ⟨node', hafter, hmerged.1⟩⟩
    · rintro ⟨hentries, hfollows⟩
      refine ⟨fun _ => RaftNode.exists_handle_iff.mpr ?_, hrejected⟩
      rw [RaftLog.merge_of_no_entries hentries]
      obtain ⟨node', hafter, hmerged, hagain⟩ :=
        @RaftNode.merged_of_followsInPlace env env' node request _ hlog
          ⟨hterm, hok⟩ hentries hfollows
      exact ⟨node', hafter, hmerged, RaftNode.exists_handle_iff.mpr hagain⟩
  · exact iff_of_true ⟨fun h => absurd h hok, hrejected⟩ (Or.inl hok)

/-- The request for the first entry of a log. -/
def firstEntry : AppendEntriesRequest :=
  { term := 1, leaderId := 2, entries := [{ term := 1, index := 1 }] }

theorem hasLog_follower : follower.HasLog follower.logs := ⟨rfl, fun _ => rfl⟩

/-- The follower once it has the entry. -/
def holdsFirst : RaftNode :=
  let node := follower.followed {} firstEntry
  { node with
    disk := Persister.saveEntries node.disk firstEntry.entries
    logs := node.logs.appendEntries firstEntry.entries }

theorem hasLog_holdsFirst : holdsFirst.HasLog holdsFirst.logs := by
  have hfollowed : (follower.followed {} firstEntry).HasLog follower.logs := hasLog_follower.followed
  refine ⟨rfl, hfollowed.2.saveEntries fun k entry hentry => ?_⟩
  obtain ⟨hk, rfl⟩ := List.getElem?_eq_some_iff.mp hentry
  obtain rfl : k = 0 := Nat.lt_one_iff.mp hk
  rfl

/-- A heartbeat that commits the first entry. -/
def commitFirst : AppendEntriesRequest :=
  { term := 1, leaderId := 2, prevLogIndex := 1, prevLogTerm := 1, leaderCommit := 1 }

/-- A heartbeat is merged, and what it commits is applied. -/
theorem requestMerged_heartbeat :
    (@RaftNode.handleAppendEntriesRequest plainPlatform {} follower firstEntry).map Prod.fst =
        .ok holdsFirst ∧
      (@RaftNode.handleAppendEntriesRequest plainPlatform {} holdsFirst commitFirst).toOption.map
        (fun after => (after.1.commitIndex, after.1.lastApplied)) = some (1, 1) ∧
      @RaftNode.Merges plainPlatform {} {} holdsFirst commitFirst := by
  have hinPlace : holdsFirst.FollowsInPlace {} commitFirst.leaderCommit := fun _ _ =>
    ⟨Nat.le_refl 0, fun _ _ _ _ => rfl, fun _ => ⟨rfl, rfl⟩⟩
  exact ⟨rfl, by decide, (@requestMerged plainPlatform {} {} holdsFirst commitFirst
    hasLog_holdsFirst (by decide) fun _ _ hentry => by cases hentry).mpr
      (Or.inr ⟨rfl, hinPlace⟩)⟩

/-- A batch that comes twice is appended twice. -/
theorem exists_appended_twice :
    follower.role = .follower ∧ follower.logs.Indexed ∧ follower.HasLog follower.logs ∧
      follower.currentTerm ≤ firstEntry.term ∧ RaftNode.Numbered firstEntry ∧
      ¬ @RaftNode.Merges plainPlatform {} {} follower firstEntry := by
  have hnumbered : RaftNode.Numbered firstEntry := by
    intro k entry hentry
    obtain ⟨hk, rfl⟩ := List.getElem?_eq_some_iff.mp hentry
    obtain rfl : k = 0 := Nat.lt_one_iff.mp hk
    rfl
  have hindexed : follower.logs.Indexed := fun _ _ hentry => nomatch hentry
  refine ⟨rfl, hindexed, hasLog_follower, by decide, hnumbered, fun hmerges => ?_⟩
  obtain ⟨node', response, hhandle, -, node'', response', hhandle', hlog'⟩ :=
    @RaftNode.Merges.accepted plainPlatform _ _ _ _ hmerges (by decide)
  have hlength : ((@RaftNode.handleAppendEntriesRequest plainPlatform {} follower firstEntry).bind
      fun after => @RaftNode.handleAppendEntriesRequest plainPlatform {} after.1 firstEntry).toOption.map
        (fun after => after.1.logs.entries.length) = some 2 := by decide
  rw [hhandle] at hlength
  change ((@RaftNode.handleAppendEntriesRequest plainPlatform {} node' firstEntry).toOption.map
    fun after => after.1.logs.entries.length) = some 2 at hlength
  rw [hhandle'] at hlength
  have hmerged : node''.logs.entries.length = 1 := by
    rw [hlog'.1]
    decide
  have htwice : node''.logs.entries.length = 2 := Option.some.inj hlength
  omega

end Vosfs.Raft
