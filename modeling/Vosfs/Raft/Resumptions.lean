import Vosfs.Raft.Determinism
import Vosfs.Raft.CommitSafety
import Vosfs.Raft.IndexChain

/-!
# Suspended clients

A client whose command a leader appended to its log is suspended in a slot under the index
of the entry, and the first one keeps the slot.  Whenever the leader applies an entry, it
resumes the client found under the entry's index.

Each client gets the result of its own command, and gets it once, as long as (`KeepsClients`)

* every entry stands in the log at its own index: entries are not stored twice, and the base
  of the log does not move below them,
* no entry is replaced while its client waits.

The slots are not cleared when leadership is lost, so that otherwise a client may be resumed
with the result of another one (`exists_wrong_result`).
-/

namespace Vosfs.Raft

open Function

/-! ## Slots -/

namespace StateMachine

variable {sm sm' : StateMachine} {role : Role} {entries : List LogEntry}

/-- A client is, or was, suspended under the index. -/
def waits (sm : StateMachine) (index : ℕ) : Bool :=
  (sm.pendingRequests.lookup index).any PendingRequest.handle

/-- Applying the entry, in some state, resumes a client with the response. -/
def Resumes (entry : LogEntry) (resumed : ℕ × PendingResponse) : Prop :=
  resumed.1 = entry.index ∧ ∃ (sm : StateMachine) (currentMs : ℕ),
    (sm.applyEntry currentMs entry).resumed = sm.resumed ++ [resumed]

/-- The entries whose application resumes a client. -/
def resuming (sm : StateMachine) (role : Role) (entries : List LogEntry) : List LogEntry :=
  if role = .leader then entries.filter fun entry => sm.waits entry.index else []

theorem resuming_sublist : (sm.resuming role entries).Sublist entries := by
  unfold resuming
  split
  next => exact List.filter_sublist
  next => exact List.nil_sublist _

/-- What applying entries does to the slots. -/
structure Serves (role : Role) (sm : StateMachine) (entries : List LogEntry) (sm' : StateMachine) :
    Prop where
  waits : ∀ index, sm'.waits index = sm.waits index
  slots : ∀ index ∈ sm'.pendingRequests,
    index ∈ sm.pendingRequests ∨ ∃ entry ∈ entries, entry.index = index
  resumed : ∃ responses, sm'.resumed = sm.resumed ++ responses ∧
    List.Forall₂ Resumes (sm.resuming role entries) responses

theorem waits_congr (hsame : sm'.pendingRequests = sm.pendingRequests) (index : ℕ) :
    sm'.waits index = sm.waits index := by
  unfold waits
  rw [hsame]

/-- No entry is applied. -/
theorem Serves.of_eq (hpending : sm'.pendingRequests = sm.pendingRequests)
    (hresumed : sm'.resumed = sm.resumed) : Serves role sm [] sm' where
  waits := waits_congr hpending
  slots index hindex := Or.inl (hpending ▸ hindex)
  resumed := ⟨[], by rw [hresumed, List.append_nil], by simp [resuming]⟩

theorem Serves.trans {sm'' : StateMachine} {more : List LogEntry}
    (hfirst : Serves role sm entries sm') (hsecond : Serves role sm' more sm'') :
    Serves role sm (entries ++ more) sm'' := by
  refine ⟨fun index => (hsecond.waits index).trans (hfirst.waits index), fun index hindex => ?_, ?_⟩
  · rcases hsecond.slots index hindex with hold | ⟨entry, hentry, heq⟩
    · refine (hfirst.slots index hold).imp_right ?_
      rintro ⟨entry, hentry, heq⟩
      exact ⟨entry, List.mem_append_left _ hentry, heq⟩
    · exact Or.inr ⟨entry, List.mem_append_right _ hentry, heq⟩
  · obtain ⟨first, hfirst', hresumed⟩ := hfirst.resumed
    obtain ⟨second, hsecond', hresumed'⟩ := hsecond.resumed
    refine ⟨first ++ second, by rw [hsecond', hfirst', List.append_assoc], ?_⟩
    have hsplit : sm.resuming role (entries ++ more) =
        sm.resuming role entries ++ sm'.resuming role more := by
      simp only [resuming, hfirst.waits, List.filter_append]
      split <;> rfl
    rw [hsplit]
    exact List.rel_append hresumed hresumed'

/-! ## One entry -/

/-- The tree is changed, and then the client is resumed. -/
theorem applyEntry_respond (currentMs : ℕ) (entry : LogEntry) :
    ∃ (tree : StateMachine) (response : PendingResponse),
      sm.applyEntry currentMs entry =
        tree.respond entry.index ((sm.pendingRequests.lookup entry.index).getD {}) response ∧
      tree.pendingRequests = sm.pendingRequests ∧ tree.resumed = sm.resumed := by
  unfold applyEntry
  cases entry.command with
  | none => exact ⟨sm, _, rfl, rfl, rfl⟩
  | some command =>
    cases command with
    | mkdir request =>
      simp only [mkdirRespond]
      cases sm.checkMkdir request with
      | error message => exact ⟨sm, _, rfl, rfl, rfl⟩
      | ok found => exact ⟨sm.addDirectory request found.1 found.2.1 found.2.2, _, rfl, rfl, rfl⟩
    | uploadFile request =>
      simp only [uploadFileRespond]
      cases sm.checkUploadFile request with
      | error message => exact ⟨sm, _, rfl, rfl, rfl⟩
      | ok found =>
        exact ⟨sm.addFile request currentMs found.1 found.2.1 found.2.2, _, rfl, rfl, rfl⟩
    | notSet => exact ⟨sm, _, rfl, rfl, rfl⟩

theorem serves_applyEntry (currentMs : ℕ) (entry : LogEntry) :
    Serves .leader sm [entry] (sm.applyEntry currentMs entry) := by
  obtain ⟨tree, response, heq, hpending, hresumed⟩ := sm.applyEntry_respond currentMs entry
  have hwaits : ((sm.pendingRequests.lookup entry.index).getD {}).handle =
    sm.waits entry.index := by
    unfold waits
    cases sm.pendingRequests.lookup entry.index <;> rfl
  refine ⟨fun index => ?_, fun index hindex => ?_, ?_⟩
  · rw [heq]
    unfold waits respond
    simp only [hpending, UnorderedMap.lookup_insert_eq]
    split
    next hindex =>
      rw [hindex]
      exact hwaits
    next => rfl
  · rw [heq] at hindex
    unfold respond at hindex
    simp only [hpending, AList.mem_insert] at hindex
    rcases hindex with hnew | hold
    · exact Or.inr ⟨entry, List.mem_singleton_self entry, hnew.symm⟩
    · exact Or.inl hold
  · cases hcase : sm.waits entry.index with
    | false =>
      refine ⟨[], ?_, by simp [resuming, hcase]⟩
      rw [heq]
      simp [respond, hwaits, hcase, hresumed]
    | true =>
      have hone : (sm.applyEntry currentMs entry).resumed =
          sm.resumed ++ [(entry.index, response)] := by
        rw [heq]
        simp [respond, hwaits, hcase, hresumed]
      refine ⟨[(entry.index, response)], hone, ?_⟩
      have hfilter : sm.resuming .leader [entry] = [entry] := by simp [resuming, hcase]
      rw [hfilter]
      exact .cons ⟨rfl, sm, currentMs, hone⟩ .nil

theorem serves_applyEntryNoResponse (hrole : role ≠ .leader) (currentMs : ℕ) (entry : LogEntry) :
    Serves role sm [entry] (sm.applyEntryNoResponse currentMs entry) := by
  have hsame : (sm.applyEntryNoResponse currentMs entry).pendingRequests = sm.pendingRequests ∧
      (sm.applyEntryNoResponse currentMs entry).resumed = sm.resumed := by
    unfold applyEntryNoResponse
    cases entry.command with
    | none => exact ⟨rfl, rfl⟩
    | some command =>
      cases command with
      | mkdir request =>
        dsimp only
        rw [← mkdirRespond_fst sm request {}]
        unfold mkdirRespond
        split <;> exact ⟨rfl, rfl⟩
      | uploadFile request =>
        dsimp only
        rw [← uploadFileRespond_fst sm currentMs request {}]
        unfold uploadFileRespond
        dsimp only
        split <;> exact ⟨rfl, rfl⟩
      | notSet => exact ⟨rfl, rfl⟩
  refine ⟨waits_congr hsame.1, fun index hindex => Or.inl (hsame.1 ▸ hindex), [], ?_, ?_⟩
  · rw [hsame.2, List.append_nil]
  · rw [resuming, if_neg hrole]
    exact .nil

theorem loadSnapshot_keepsSlots {snapshot : Snapshot} :
    (sm.loadSnapshot snapshot).pendingRequests = sm.pendingRequests ∧
      (sm.loadSnapshot snapshot).resumed = sm.resumed := by
  unfold loadSnapshot
  simp only
  split <;> exact ⟨rfl, rfl⟩

end StateMachine

/-! ## Applying entries -/

theorem RaftLog.indexed_iff {log : RaftLog} :
    log.Indexed ↔ ∀ index entry, log.getEntry index = some entry → entry.index = index := by
  constructor
  · intro hindexed index entry hentry
    unfold RaftLog.getEntry at hentry
    split at hentry
    next hpast =>
      have := hindexed _ entry hentry
      omega
    next => cases hentry
  · intro hget k entry hentry
    refine hget _ entry ?_
    rw [RaftLog.getEntry, if_pos (by omega)]
    rwa [show log.lastIncludedIndex + k + 1 - log.lastIncludedIndex - 1 = k by omega]

theorem RaftLog.getEntry_congr {log log' : RaftLog}
    (hbase : log'.lastIncludedIndex = log.lastIncludedIndex) (hentries : log'.entries = log.entries)
    (index : ℕ) : log'.getEntry index = log.getEntry index := by
  unfold RaftLog.getEntry
  rw [hbase, hentries]

theorem RaftLog.getEntry_appendEntry {log : RaftLog} {entry : LogEntry} (index : ℕ) :
    (log.appendEntry entry).getEntry index =
      if index = log.lastLogIndex + 1 then some entry else log.getEntry index := by
  unfold RaftLog.getEntry RaftLog.appendEntry RaftLog.lastLogIndex
  by_cases hpast : log.lastIncludedIndex < index
  · simp only [if_pos hpast, List.getElem?_append]
    by_cases hnew : index = log.lastIncludedIndex + log.entries.length + 1
    · rw [if_neg (by omega), if_pos hnew, hnew]
      simp [show log.lastIncludedIndex + log.entries.length + 1 - log.lastIncludedIndex - 1 -
        log.entries.length = 0 by omega]
    · rw [if_neg hnew]
      split
      next => rfl
      next =>
        rw [List.getElem?_eq_none (by simp; omega), List.getElem?_eq_none (by omega)]
  · simp only [if_neg hpast]
    rw [if_neg (by omega)]

theorem RaftLog.le_of_getEntry {log : RaftLog} {index : ℕ} {entry : LogEntry}
    (hentry : log.getEntry index = some entry) : index ≤ log.lastLogIndex := by
  unfold RaftLog.getEntry at hentry
  split at hentry
  next =>
    have := (List.getElem?_eq_some_iff.mp hentry).1
    unfold RaftLog.lastLogIndex
    omega
  next => cases hentry

namespace RaftNode

open StateMachine (Serves)

variable {env : Env} {node node' : RaftNode}

/-- A snapshot on the way to an index does not move the base. -/
def KeepsBase (env : Env) (node : RaftNode) (index : ℕ) : Prop :=
  Compacts env node index → node.logs.lastIncludedIndex = 0

instance {index : ℕ} : Decidable (KeepsBase env node index) :=
  inferInstanceAs (Decidable (Compacts _ _ _ → _))

/-- The entries of the log that follow on what was applied are applied, one after another. -/
structure Takes (node node' : RaftNode) (new : List (ℕ × LogEntry)) : Prop where
  applied : node'.applied = node.applied ++ new
  lastApplied : node.lastApplied ≤ node'.lastApplied
  entries : ∀ p ∈ new, node.lastApplied < p.1 ∧ p.1 ≤ node'.lastApplied ∧
    node.logs.getEntry p.1 = some p.2
  sorted : new.Pairwise fun first second => first.1 < second.1
  log : ∀ index, node'.logs.getEntry index = node.logs.getEntry index
  role : node'.role = node.role
  serves : Serves node.role node.stateMachine (new.map Prod.snd) node'.stateMachine

theorem Takes.refl : Takes node node [] :=
  ⟨(List.append_nil _).symm, le_rfl, nofun, .nil, fun _ => rfl, rfl, .of_eq rfl rfl⟩

theorem Takes.trans {node'' : RaftNode} {new more : List (ℕ × LogEntry)}
    (hfirst : Takes node node' new) (hsecond : Takes node' node'' more) :
    Takes node node'' (new ++ more) where
  applied := by rw [hsecond.applied, hfirst.applied, List.append_assoc]
  lastApplied := hfirst.lastApplied.trans hsecond.lastApplied
  entries p hp := by
    rcases List.mem_append.mp hp with hnew | hmore
    · obtain ⟨hlt, hle, hentry⟩ := hfirst.entries p hnew
      exact ⟨hlt, hle.trans hsecond.lastApplied, hentry⟩
    · obtain ⟨hlt, hle, hentry⟩ := hsecond.entries p hmore
      exact ⟨hfirst.lastApplied.trans_lt hlt, hle, (hfirst.log p.1).symm.trans hentry⟩
  sorted := by
    refine List.pairwise_append.mpr ⟨hfirst.sorted, hsecond.sorted,
      fun first hnew second hmore => ?_⟩
    exact (hfirst.entries first hnew).2.1.trans_lt (hsecond.entries second hmore).1
  log index := (hsecond.log index).trans (hfirst.log index)
  role := hsecond.role.trans hfirst.role
  serves := by
    have hmore := hsecond.serves
    rw [hfirst.role] at hmore
    rw [List.map_append]
    exact hfirst.serves.trans hmore

variable [Platform]

theorem takes_applyNext (hbase : node.KeepsBase env (node.lastApplied + 1))
    (happly : node.applyNext env = .ok node') :
    ∃ entry, Takes node node' [(node.lastApplied + 1, entry)] := by
  obtain ⟨hlast, -, hentries, -, hindex⟩ := applyNext_indexes happly
  have hraft := applyNext_keepsRaft happly
  have hsame : node'.logs.lastIncludedIndex = node.logs.lastIncludedIndex := by
    rw [hindex]
    split
    next hcompacts => exact (hbase hcompacts).symm
    next => rfl
  obtain ⟨entry, hentry, hround⟩ := round_of_applyNext happly
  have happlied : node'.stateMachine = (node.applyOne env entry).stateMachine ∧
      node'.applied = node.applied ++ [(node.lastApplied + 1, entry)] := by
    cases hround <;> exact ⟨rfl, rfl⟩
  refine ⟨entry, happlied.2, by omega, fun p hp => ?_, List.pairwise_singleton _ _,
    RaftLog.getEntry_congr hsame hentries, hraft.role, ?_⟩
  · rw [List.mem_singleton.mp hp]
    exact ⟨Nat.lt_succ_self _, hlast.ge, hentry⟩
  · rw [happlied.1]
    unfold applyOne applyToStateMachine
    simp only [List.map_singleton]
    by_cases hrole : node.role = .leader
    · rw [if_pos hrole, hrole]
      exact StateMachine.serves_applyEntry _ entry
    · rw [if_neg hrole]
      exact StateMachine.serves_applyEntryNoResponse hrole _ entry

theorem takes_applyRounds {rounds : ℕ} (hbase : node.KeepsBase env (node.lastApplied + rounds))
    (happly : applyRounds env rounds node = .ok node') : ∃ new, Takes node node' new := by
  induction rounds generalizing node with
  | zero => cases happly; exact ⟨[], .refl⟩
  | succ rounds ih =>
    obtain ⟨next, hnext, happly⟩ := exists_of_applyRounds happly
    obtain ⟨hlast, -, -, -, hindex⟩ := applyNext_indexes hnext
    have hfirst : node.KeepsBase env (node.lastApplied + 1) := fun hcompacts =>
      hbase ((compacts_rounds hlast).mpr (Or.inl hcompacts))
    have hrest : next.KeepsBase env (next.lastApplied + rounds) := by
      intro hcompacts
      have hzero := hbase ((compacts_rounds hlast).mpr (Or.inr hcompacts))
      rw [hindex, hzero, ite_self]
    obtain ⟨entry, htakes⟩ := takes_applyNext hfirst hnext
    obtain ⟨new, hmore⟩ := ih hrest happly
    exact ⟨_, htakes.trans hmore⟩

theorem takes_applyEntry {commitIndex : ℕ} (hbase : node.KeepsBase env commitIndex)
    (happly : ({ node with commitIndex := commitIndex } : RaftNode).applyEntry env = .ok node') :
    ∃ new, Takes node node' new := by
  have hrounds : ({ node with commitIndex := commitIndex } : RaftNode).KeepsBase env
      (node.lastApplied + (commitIndex - node.lastApplied)) := by
    rintro ⟨k, hle, hlt, hk⟩
    change node.lastApplied < k at hlt
    exact hbase ⟨k, by omega, hlt, hk⟩
  obtain ⟨new, htakes⟩ := takes_applyRounds hrounds happly
  exact ⟨new, htakes.applied, htakes.lastApplied, htakes.entries, htakes.sorted, htakes.log,
    htakes.role, htakes.serves⟩

theorem takes_followCommit {leaderCommit : ℕ}
    (hbase : node.commitIndex < leaderCommit →
      node.KeepsBase env (min node.logs.lastLogIndex leaderCommit))
    (hfollow : node.followCommit env leaderCommit = .ok node') : ∃ new, Takes node node' new := by
  unfold followCommit at hfollow
  split at hfollow
  next hlt => exact takes_applyEntry (hbase hlt) hfollow
  next => cases hfollow; exact ⟨[], .refl⟩

theorem takes_advanceCommit
    (hbase : node.commitIndex < quorumIndex node.matchIndex →
      node.KeepsBase env (quorumIndex node.matchIndex))
    (hadvance : node.advanceCommit env = .ok node') : ∃ new, Takes node node' new := by
  unfold advanceCommit at hadvance
  split at hadvance
  next hlt => exact takes_applyEntry (hbase hlt) hadvance
  next => cases hadvance; exact ⟨[], .refl⟩

/-! ## Changes of the log -/

/-- The slots stay, and so do the entries whose clients wait. -/
structure KeepsWaiting (node next : RaftNode) : Prop where
  applied : next.applied = node.applied
  lastApplied : next.lastApplied = node.lastApplied
  pendingRequests : next.stateMachine.pendingRequests = node.stateMachine.pendingRequests
  resumed : next.stateMachine.resumed = node.stateMachine.resumed
  indexed : node.logs.Indexed → next.logs.Indexed
  entries : ∀ index entry, node.stateMachine.waits index = true → node.lastApplied < index →
    node.logs.getEntry index = some entry → next.logs.getEntry index = some entry

omit [Platform] in
theorem KeepsWaiting.of_keepsData (hdata : KeepsData node node') : KeepsWaiting node node' where
  applied := hdata.applied
  lastApplied := hdata.lastApplied
  pendingRequests := by rw [hdata.stateMachine]
  resumed := by rw [hdata.stateMachine]
  indexed := hdata.logs ▸ id
  entries _ _ _ _ := hdata.logs ▸ id

omit [Platform] in
theorem KeepsWaiting.trans {node'' : RaftNode} (hfirst : KeepsWaiting node node')
    (hsecond : KeepsWaiting node' node'') : KeepsWaiting node node'' where
  applied := hsecond.applied.trans hfirst.applied
  lastApplied := hsecond.lastApplied.trans hfirst.lastApplied
  pendingRequests := hsecond.pendingRequests.trans hfirst.pendingRequests
  resumed := hsecond.resumed.trans hfirst.resumed
  indexed := hsecond.indexed ∘ hfirst.indexed
  entries index entry hwaits hlt hentry := by
    refine hsecond.entries index entry ?_ (hfirst.lastApplied ▸ hlt)
      (hfirst.entries index entry hwaits hlt hentry)
    rw [StateMachine.waits_congr hfirst.pendingRequests, hwaits]

omit [Platform] in
/-- Entries in order replace the log from their first index on. -/
theorem getEntry_storeEntries {first : LogEntry} {rest : List LogEntry} {stored : RaftNode}
    (horder : node.InOrder (first :: rest)) (hstore : node.storeEntries (first :: rest) = .ok stored)
    (index : ℕ) :
    stored.logs.getEntry index = if index < first.index then node.logs.getEntry index
      else (first :: rest)[index - first.index]? := by
  obtain ⟨-, hpast, hindex, hnew⟩ := horder first rfl
  have hlength := length_front hindex
  unfold storeEntries at hstore
  rw [dropConflicts_of_new hpast hnew] at hstore
  cases hstore
  simp only [logs_truncated hindex, RaftLog.appendEntries, RaftLog.getEntry]
  by_cases hstored : node.logs.lastIncludedIndex < index
  · rw [if_pos hstored, if_pos hstored, List.getElem?_append, hlength]
    by_cases hbefore : index < first.index
    · rw [if_pos (by omega), if_pos hbefore, front, List.getElem?_take_of_lt (by omega)]
    · rw [if_neg (by omega), if_neg hbefore]
      congr 1
      omega
  · rw [if_neg hstored, if_neg hstored, if_pos (by omega)]

/-! ## One step -/

/-- No entry from the first index on has a client that waits. -/
def SparesWaiting (node : RaftNode) (entries : List LogEntry) : Prop :=
  ∀ first ∈ entries.head?, ∀ index ∈ node.stateMachine.pendingRequests.keys,
    node.stateMachine.waits index = true → node.lastApplied < index → index < first.index

omit [Platform] in
instance {entries : List LogEntry} : Decidable (SparesWaiting node entries) :=
  inferInstanceAs (Decidable (∀ _ ∈ entries.head?, ∀ _ ∈ node.stateMachine.pendingRequests.keys,
    _ → _ → _))

/-- The condition on a step. -/
def KeepsClients (env : Env) (node : RaftNode) : Input → Prop
  | .deliver _ (.appendEntriesRequest request) => node.Accepts request →
    node.InOrder request.entries ∧ node.SparesWaiting request.entries ∧
      (node.commitIndex < request.leaderCommit → node.KeepsBase env
        (min (node.logs.storedIndex request.entries) request.leaderCommit))
  | .deliver _ (.appendEntriesResponse response) => node.Confirms response →
    node.commitIndex < node.confirmedIndex response →
      node.KeepsBase env (node.confirmedIndex response)
  | .deliver _ (.installSnapshotRequest request) => ∀ snapshot ∈ node.installed request,
    node.logs.entries = [] ∨ snapshot.lastIncludedIndex = node.logs.lastIncludedIndex
  | _ => True

instance : ∀ {input : Input}, Decidable (KeepsClients env node input)
  | .deliver _ (.appendEntriesRequest _) => inferInstanceAs (Decidable (_ → _ ∧ _ ∧ (_ → _)))
  | .deliver _ (.appendEntriesResponse _) => inferInstanceAs (Decidable (_ → _ → _))
  | .deliver _ (.installSnapshotRequest _) => inferInstanceAs (Decidable (∀ _ ∈ _, _ ∨ _))
  | .deliver _ (.requestVoteRequest _) | .deliver _ (.requestVoteResponse _)
  | .deliver _ (.installSnapshotResponse _) | .electionTimeout | .heartbeat | .listDir _
  | .makeDir _ | .prepareUploadFile _ | .uploadFile _ | .prepareDownloadFile _ =>
    inferInstanceAs (Decidable True)

omit [Platform] in
theorem storeEntries_keepsWaiting {entries : List LogEntry} (horder : node.InOrder entries)
    (hspares : node.SparesWaiting entries) (hstore : node.storeEntries entries = .ok node') :
    KeepsWaiting node node' := by
  cases entries with
  | nil => cases hstore; exact .of_keepsData .refl
  | cons first rest =>
    have hget := getEntry_storeEntries horder hstore
    obtain ⟨hnumbers, -⟩ := horder first rfl
    obtain ⟨_, _, rfl⟩ := storeEntries_shape hstore
    refine ⟨rfl, rfl, rfl, rfl, fun hindexed => ?_, fun index entry hwaits hlt hentry => ?_⟩
    · rw [RaftLog.indexed_iff] at hindexed ⊢
      intro index entry hentry
      rw [hget] at hentry
      split at hentry
      next => exact hindexed index entry hentry
      next hafter =>
        have hnumber := hnumbers _ (List.getElem?_eq_some_iff.mp hentry).1
        rw [hentry] at hnumber
        have heq : entry.index = first.index + (index - first.index) := Option.some.inj hnumber
        omega
    · -- the client waits before the first index
      obtain ⟨request, hlookup, -⟩ := Option.any_eq_true .. |>.mp hwaits
      have hkey : index ∈ node.stateMachine.pendingRequests :=
        UnorderedMap.mem_iff_lookup.mpr ⟨request, hlookup⟩
      rw [hget, if_pos (hspares first rfl index hkey hwaits hlt)]
      exact hentry

/-- A part that changes the log, and a part that applies entries. -/
def Replicates (node node' : RaftNode) : Prop :=
  ∃ next new, KeepsWaiting node next ∧ Takes next node' new

omit [Platform] in
theorem Replicates.of_keeps (hkeeps : KeepsWaiting node node') : Replicates node node' :=
  ⟨node', [], hkeeps, .refl⟩

omit [Platform] in
theorem Replicates.of_keepsData (hdata : KeepsData node node') : Replicates node node' :=
  .of_keeps (.of_keepsData hdata)

theorem replicates_afterEntries {request : AppendEntriesRequest}
    (hkeeps : node.Accepts request →
      node.InOrder request.entries ∧ node.SparesWaiting request.entries ∧
        (node.commitIndex < request.leaderCommit → node.KeepsBase env
          (min (node.logs.storedIndex request.entries) request.leaderCommit)))
    (hafter : node.afterEntries env request = .ok node') : Replicates node node' := by
  have hfollowed : KeepsData node (node.followed env request) := followed_keepsData
  cases outcome_of_afterEntries hafter with
  | late => exact .of_keepsData .refl
  | rejected => exact .of_keepsData hfollowed
  | @stored stored _ haccepts hstore hfollow =>
    obtain ⟨horder, hspares, hbase⟩ := hkeeps haccepts
    have horder' : (node.followed env request).InOrder request.entries := by
      unfold InOrder at horder ⊢
      rwa [hfollowed.logs]
    have hspares' : (node.followed env request).SparesWaiting request.entries := by
      unfold SparesWaiting at hspares ⊢
      rwa [hfollowed.stateMachine, hfollowed.lastApplied]
    have hstored := storeEntries_keepsWaiting horder' hspares' hstore
    have hlast := storeEntries_lastLogIndex hstore
    rw [hfollowed.logs] at hlast
    have hbase' : stored.commitIndex < request.leaderCommit → stored.KeepsBase env
        (min stored.logs.lastLogIndex request.leaderCommit) := by
      obtain ⟨hsame, hcommit, happlied⟩ := indexes_of_stored hstore
      unfold KeepsBase at hbase ⊢
      rwa [hlast, hcommit, hsame, compacts_congr happlied]
    obtain ⟨new, htakes⟩ := takes_followCommit hbase' hfollow
    exact ⟨stored, new, (KeepsWaiting.of_keepsData hfollowed).trans hstored, htakes⟩

theorem replicates_handleAppendEntriesResponse {response : AppendEntriesResponse}
    (hkeeps : node.Confirms response → node.commitIndex < node.confirmedIndex response →
      node.KeepsBase env (node.confirmedIndex response))
    (hafter : node.handleAppendEntriesResponse env response = .ok node') :
    Replicates node node' := by
  cases outcome_of_handleAppendEntriesResponse hafter with
  | ignored => exact .of_keepsData .refl
  | deposed => exact .of_keepsData ⟨rfl, rfl, rfl, rfl, rfl, rfl, rfl⟩
  | rejected => exact .of_keepsData ⟨rfl, rfl, rfl, rfl, rfl, rfl, rfl⟩
  | confirmed hconfirms hadvance =>
    obtain ⟨new, htakes⟩ := takes_advanceCommit (hkeeps hconfirms) hadvance
    have hrecorded : KeepsData node (node.recordMatch response.id response.lastLogIndex) :=
      ⟨rfl, rfl, rfl, rfl, rfl, rfl, rfl⟩
    exact ⟨_, new, .of_keepsData hrecorded, htakes⟩

/-- The base moves only where no entry is left. -/
theorem replicates_handleInstallSnapshotRequest {request : InstallSnapshotRequest}
    (hkeeps : ∀ snapshot ∈ node.installed request,
      node.logs.entries = [] ∨ snapshot.lastIncludedIndex = node.logs.lastIncludedIndex) :
    Replicates node (node.handleInstallSnapshotRequest env request).1 := by
  have hheard : KeepsData node ((node.catchUp env request.term).heardFrom env request.leaderId) :=
    catchUp_keepsData.trans heardFrom_keepsData
  generalize hafter : (node.handleInstallSnapshotRequest env request).1 = node'
  cases outcome_of_handleInstallSnapshotRequest hafter with
  | late => exact .of_keepsData .refl
  | received =>
    exact .of_keeps ⟨hheard.applied, hheard.lastApplied, by rw [← hheard.stateMachine],
      by rw [← hheard.stateMachine], hheard.logs ▸ id, fun _ _ _ _ => hheard.logs ▸ id⟩
  | @installed snapshot _ hinstalled =>
    have hget : ∀ index,
        (node.logs.loadSnapshot snapshot).getEntry index = node.logs.getEntry index := by
      intro index
      rcases hkeeps snapshot hinstalled with hempty | hsame
      · simp [RaftLog.getEntry, RaftLog.loadSnapshot, hempty]
      · have hbase : (node.logs.loadSnapshot snapshot).lastIncludedIndex =
          node.logs.lastIncludedIndex := hsame
        exact RaftLog.getEntry_congr hbase rfl index
    have hslots := @StateMachine.loadSnapshot_keepsSlots node.stateMachine snapshot
    refine .of_keeps ⟨hheard.applied, hheard.lastApplied, hslots.1, hslots.2, fun hindexed => ?_,
      fun index entry _ _ hentry => (hget index).trans hentry⟩
    rw [RaftLog.indexed_iff] at hindexed ⊢
    intro index entry hentry
    exact hindexed index entry ((hget index).symm.trans hentry)

theorem prepareUploadFile_keepsSlots {request : PrepareUploadFileRequest} {sm sm' : StateMachine}
    {response : PrepareUploadFileResponse}
    (hprepare : sm.prepareUploadFile request = some (sm', response)) :
    sm'.pendingRequests = sm.pendingRequests ∧ sm'.resumed = sm.resumed := by
  unfold StateMachine.prepareUploadFile at hprepare
  split at hprepare
  next => cases hprepare; exact ⟨rfl, rfl⟩
  next =>
    split at hprepare
    next => cases hprepare
    next => cases hprepare; exact ⟨rfl, rfl⟩

/-- A step that suspends no client. -/
theorem replicates_of_after {input : Input} (hnone : node.accepted env input = none)
    (hkeeps : node.KeepsClients env input) (hafter : node.after env input = .ok node') :
    Replicates node node' := by
  cases input with
  | electionTimeout => cases hafter; exact .of_keepsData electionLoop_keepsData
  | heartbeat => exact .of_keepsData (moves_of_heartbeat hafter).keepsData
  | deliver src message =>
    cases message with
    | requestVoteRequest request =>
      cases hafter
      exact .of_keepsData handleRequestVoteRequest_keepsData
    | requestVoteResponse response =>
      cases hafter
      exact .of_keepsData handleRequestVoteResponse_keepsData
    | appendEntriesRequest request => exact replicates_afterEntries hkeeps hafter
    | appendEntriesResponse response => exact replicates_handleAppendEntriesResponse hkeeps hafter
    | installSnapshotRequest request =>
      cases hafter
      exact replicates_handleInstallSnapshotRequest hkeeps
    | installSnapshotResponse response =>
      exact .of_keepsData (handleInstallSnapshotResponse_keepsData hafter)
  | listDir request => cases hafter; exact .of_keepsData .refl
  | makeDir request =>
    cases outcome_of_makeDir hafter with
    | refused => exact .of_keepsData .refl
    | appended haccepted => cases hnone.symm.trans haccepted
  | prepareUploadFile request =>
    simp only [after, handlePrepareUploadFileRequest] at hafter
    split at hafter
    next => cases hafter; exact .of_keepsData .refl
    next =>
      split at hafter
      next => cases hafter
      next stateMachine response hprepare =>
        cases hafter
        obtain ⟨hpending, hresumed⟩ := prepareUploadFile_keepsSlots hprepare
        exact .of_keeps ⟨rfl, rfl, hpending, hresumed, id, fun _ _ _ _ => id⟩
  | uploadFile request =>
    cases outcome_of_uploadFile hafter with
    | refused => exact .of_keepsData .refl
    | appended haccepted => cases hnone.symm.trans haccepted
  | prepareDownloadFile request => cases hafter; exact .of_keepsData .refl

/-- A step that does. -/
theorem append_of_after {input : Input} {command : EntryCommand}
    (haccepted : node.accepted env input = some command)
    (hafter : node.after env input = .ok node') :
    ∃ response, node' = node.appendCommand command response := by
  cases input with
  | makeDir request =>
    cases outcome_of_makeDir hafter with
    | refused hnone => cases hnone.symm.trans haccepted
    | appended hsome response =>
      obtain rfl := Option.some.inj (hsome.symm.trans haccepted)
      exact ⟨response, rfl⟩
  | uploadFile request =>
    cases outcome_of_uploadFile hafter with
    | refused hnone => cases hnone.symm.trans haccepted
    | appended hsome response =>
      obtain rfl := Option.some.inj (hsome.symm.trans haccepted)
      exact ⟨response, rfl⟩
  | _ => cases haccepted

end RaftNode

/-! ## Clients and their handlers -/

/-- A suspended call of a client's handler. -/
structure Handler where
  /-- The index its entry was appended at. -/
  index : ℕ
  command : EntryCommand
  deriving DecidableEq, Repr

/-- A node with its handlers. -/
structure Serving where
  node : RaftNode
  /-- History: all handlers that were suspended, oldest first. -/
  handlers : List Handler := []
  /-- History: the number of the handler that keeps the slot of an index. -/
  owner : ℕ → Option ℕ := fun _ => none
  /-- History: the handlers that were resumed, with the entries that were applied. -/
  resumptions : List (Option ℕ × LogEntry) := []

namespace Serving

open StateMachine (Resumes)

variable [Platform] {x x' : Serving}

/-- The handler that is suspended in a step. -/
def submitted (x : Serving) (event : Env × Input) : Option Handler :=
  (x.node.accepted event.1 event.2).map fun command =>
    { index := x.node.logs.lastLogIndex + 1, command := command }

/-- A handler keeps a slot that was free. -/
def ownerAfter (x : Serving) (event : Env × Input) : ℕ → Option ℕ :=
  match x.submitted event with
  | none => x.owner
  | some handler =>
    if handler.index ∈ x.node.stateMachine.pendingRequests then x.owner
    else update x.owner handler.index (some x.handlers.length)

omit [Platform] in
/-- The entries that a step applies, with their positions. -/
def newlyApplied (x : Serving) (node : RaftNode) : List (ℕ × LogEntry) :=
  node.applied.drop x.node.applied.length

/-- The node goes on, and the handlers of the clients with it. -/
def step (x : Serving) (event : Env × Input) : Option Serving :=
  match x.node.next event with
  | none => none
  | some node => some
    { node := node
      handlers := x.handlers ++ (x.submitted event).toList
      owner := x.ownerAfter event
      resumptions := x.resumptions ++ (x.node.stateMachine.resuming node.role
        ((x.newlyApplied node).map Prod.snd)).map fun entry => (x.owner entry.index, entry) }

/-- Handlers that wait own their slots and their entries, and no one was resumed twice. -/
structure Served (x : Serving) : Prop where
  indexed : x.node.logs.Indexed
  waiting : ∀ (number : ℕ) (handler : Handler), x.handlers[number]? = some handler →
    x.node.lastApplied < handler.index →
    x.owner handler.index = some number ∧ x.node.stateMachine.waits handler.index = true ∧
      ∃ entry, x.node.logs.getEntry handler.index = some entry ∧
        entry.command = some handler.command
  slots : ∀ index ∈ x.node.stateMachine.pendingRequests, x.node.lastApplied < index →
    ∃ (number : ℕ) (handler : Handler), x.handlers[number]? = some handler ∧ handler.index = index
  found : ∀ r ∈ x.resumptions, ∃ (number : ℕ) (handler : Handler), r.1 = some number ∧
    x.handlers[number]? = some handler ∧ handler.index = r.2.index ∧
    r.2.command = some handler.command
  past : ∀ r ∈ x.resumptions, r.2.index ≤ x.node.lastApplied
  once : (x.resumptions.map Prod.fst).Nodup
  resumed : List.Forall₂ (fun r resumed => Resumes r.2 resumed) x.resumptions
    x.node.stateMachine.resumed

omit [Platform] in
/-- Whoever waits past what was applied owns the slot and the entry there. -/
theorem Served.finds (hserved : x.Served) {index : ℕ} (hlt : x.node.lastApplied < index)
    (hwaits : x.node.stateMachine.waits index = true) :
    ∃ (number : ℕ) (handler : Handler) (entry : LogEntry), x.handlers[number]? = some handler ∧
      handler.index = index ∧ x.owner index = some number ∧
      x.node.logs.getEntry index = some entry ∧ entry.command = some handler.command := by
  obtain ⟨request, hlookup, -⟩ := Option.any_eq_true .. |>.mp hwaits
  obtain ⟨number, handler, hhandler, rfl⟩ :=
    hserved.slots index (UnorderedMap.mem_iff_lookup.mpr ⟨request, hlookup⟩) hlt
  obtain ⟨howner, -, entry, hentry, hcommand⟩ := hserved.waiting number handler hhandler hlt
  exact ⟨number, handler, entry, hhandler, rfl, howner, hentry, hcommand⟩

omit [Platform] in
/-- A client is suspended.  If its index is past what was applied, the slot is free. -/
theorem Served.append {event : Env × Input} {command : EntryCommand} {response : PendingResponse}
    (hserved : x.Served) (haccepted : x.node.accepted event.1 event.2 = some command)
    (hx' : x' = { node := x.node.appendCommand command response
                  handlers := x.handlers ++
                    [{ index := x.node.logs.lastLogIndex + 1, command := command }]
                  owner := x.ownerAfter event
                  resumptions := x.resumptions }) : x'.Served := by
  subst hx'
  have howner : ∀ index, index ≠ x.node.logs.lastLogIndex + 1 →
      x.ownerAfter event index = x.owner index := by
    intro index hne
    simp only [ownerAfter, submitted, haccepted, Option.map_some]
    split
    next => rfl
    next => exact update_of_ne hne _ _
  have hget : ∀ index, (x.node.appendCommand command response).logs.getEntry index =
      if index = x.node.logs.lastLogIndex + 1 then some
        { term := x.node.currentTerm, index := x.node.logs.lastLogIndex + 1, command := some command }
      else x.node.logs.getEntry index := RaftLog.getEntry_appendEntry
  have hlookup : ∀ index,
      (x.node.appendCommand command response).stateMachine.pendingRequests.lookup index =
        if index = x.node.logs.lastLogIndex + 1 ∧ x.node.stateMachine.pendingRequests.lookup
          (x.node.logs.lastLogIndex + 1) = none
        then some { handle := true, response := response }
        else x.node.stateMachine.pendingRequests.lookup index :=
    fun index => UnorderedMap.lookup_emplace _ _ _ _
  have hold : ∀ {number : ℕ} {handler : Handler}, x.handlers[number]? = some handler →
      (x.handlers ++ [⟨x.node.logs.lastLogIndex + 1, command⟩])[number]? = some handler := by
    intro number handler hhandler
    rw [List.getElem?_append_left (List.getElem?_eq_some_iff.mp hhandler).1, hhandler]
  refine ⟨?_, fun number handler hhandler hlt => ?_, fun index hindex hlt => ?_, fun r hr => ?_,
    hserved.past, hserved.once, hserved.resumed⟩
  · have hindexed := hserved.indexed
    rw [RaftLog.indexed_iff] at hindexed ⊢
    intro index entry hentry
    rw [hget] at hentry
    split at hentry
    next hnew => cases hentry; exact hnew.symm
    next => exact hindexed index entry hentry
  · rw [List.getElem?_append] at hhandler
    split at hhandler
    next =>
      obtain ⟨howns, hwaits, entry, hentry, hcommand⟩ :=
        hserved.waiting number handler hhandler hlt
      have hle := RaftLog.le_of_getEntry hentry
      have hne : handler.index ≠ x.node.logs.lastLogIndex + 1 := by omega
      refine ⟨(howner _ hne).trans howns, ?_, entry, ?_, hcommand⟩
      · rw [StateMachine.waits, hlookup, if_neg fun h => hne h.1]
        exact hwaits
      · rw [hget, if_neg hne]
        exact hentry
    next hge =>
      obtain ⟨rfl, hnumber⟩ : ⟨x.node.logs.lastLogIndex + 1, command⟩ = handler ∧
          number = x.handlers.length := by
        obtain ⟨hlt', hget'⟩ := List.getElem?_eq_some_iff.mp hhandler
        rw [List.length_singleton] at hlt'
        exact ⟨by simpa using hget', by omega⟩
      -- a client in the slot would have its entry past the end of the log
      have hfree : x.node.logs.lastLogIndex + 1 ∉ x.node.stateMachine.pendingRequests := by
        intro hmem
        obtain ⟨other, waiting, hwaiting, heq⟩ := hserved.slots _ hmem hlt
        obtain ⟨-, -, entry, hentry, -⟩ := hserved.waiting other waiting hwaiting (heq ▸ hlt)
        have hle := RaftLog.le_of_getEntry hentry
        omega
      refine ⟨?_, ?_, _, (hget _).trans (if_pos rfl), rfl⟩
      · simp only [ownerAfter, submitted, haccepted, Option.map_some]
        rw [if_neg hfree, update_self, hnumber]
      · rw [StateMachine.waits, hlookup, if_pos ⟨rfl, AList.lookup_eq_none.mpr hfree⟩]
        rfl
  · by_cases hnew : index = x.node.logs.lastLogIndex + 1
    · exact ⟨x.handlers.length, ⟨x.node.logs.lastLogIndex + 1, command⟩, by simp, hnew.symm⟩
    · obtain ⟨request, hrequest⟩ := UnorderedMap.mem_iff_lookup.mp hindex
      rw [hlookup, if_neg fun h => hnew h.1] at hrequest
      obtain ⟨number, handler, hhandler, heq⟩ :=
        hserved.slots index (UnorderedMap.mem_iff_lookup.mpr ⟨request, hrequest⟩) hlt
      exact ⟨number, handler, hold hhandler, heq⟩
  · obtain ⟨number, handler, hnumber, hhandler, hrest⟩ := hserved.found r hr
    exact ⟨number, handler, hnumber, hold hhandler, hrest⟩

omit [Platform] in
/-- The entries that are applied stand past what was applied before, at their own indexes. -/
theorem Served.entry_of_new (hserved : x.Served) {next node : RaftNode}
    {new : List (ℕ × LogEntry)} (hkeeps : x.node.KeepsWaiting next)
    (htakes : next.Takes node new) {p : ℕ × LogEntry} (hp : p ∈ new) :
    p.2.index = p.1 ∧ x.node.lastApplied < p.2.index ∧ p.2.index ≤ node.lastApplied ∧
      next.logs.getEntry p.2.index = some p.2 := by
  obtain ⟨hlt, hle, hentry⟩ := htakes.entries p hp
  have hindex := RaftLog.indexed_iff.mp (hkeeps.indexed hserved.indexed) p.1 p.2 hentry
  rw [hindex]
  exact ⟨rfl, hkeeps.lastApplied ▸ hlt, hle, hentry⟩

omit [Platform] in
/-- An entry that is applied where a client waits is this client's. -/
theorem Served.owns_of_new (hserved : x.Served) {next node : RaftNode}
    {new : List (ℕ × LogEntry)} (hkeeps : x.node.KeepsWaiting next)
    (htakes : next.Takes node new) {p : ℕ × LogEntry} (hp : p ∈ new)
    (hwaits : x.node.stateMachine.waits p.2.index = true) :
    ∃ (number : ℕ) (handler : Handler), x.owner p.2.index = some number ∧
      x.handlers[number]? = some handler ∧ handler.index = p.2.index ∧
      p.2.command = some handler.command := by
  obtain ⟨-, hlt, -, hentry⟩ := hserved.entry_of_new hkeeps htakes hp
  obtain ⟨number, handler, entry, hhandler, hindex, howner, hfound, hcommand⟩ :=
    hserved.finds hlt hwaits
  obtain rfl : entry = p.2 :=
    Option.some.inj ((hkeeps.entries _ _ hwaits hlt hfound).symm.trans hentry)
  exact ⟨number, handler, howner, hhandler, hindex, hcommand⟩

omit [Platform] in
/-- A client has one index. -/
theorem index_eq_of_owner {owner owner' : Option ℕ} {number number' : ℕ}
    {handler handler' : Handler} (howner : owner = some number)
    (hhandler : x.handlers[number]? = some handler) (howner' : owner' = some number')
    (hhandler' : x.handlers[number']? = some handler') (hsame : owner = owner') :
    handler.index = handler'.index := by
  obtain rfl : number = number' := Option.some.inj (howner.symm.trans (hsame.trans howner'))
  obtain rfl : handler = handler' := Option.some.inj (hhandler.symm.trans hhandler')
  rfl

section Replicate

variable {next node : RaftNode} {new : List (ℕ × LogEntry)}

omit [Platform] in
/-- The entries whose clients are resumed are new, and are their clients' entries. -/
theorem Served.resuming_spec (hserved : x.Served) (hkeeps : x.node.KeepsWaiting next)
    (htakes : next.Takes node new) {entry : LogEntry}
    (hentry : entry ∈ x.node.stateMachine.resuming node.role (new.map Prod.snd)) :
    x.node.lastApplied < entry.index ∧ entry.index ≤ node.lastApplied ∧
      ∃ (number : ℕ) (handler : Handler), x.owner entry.index = some number ∧
        x.handlers[number]? = some handler ∧ handler.index = entry.index ∧
        entry.command = some handler.command := by
  unfold StateMachine.resuming at hentry
  split at hentry
  next =>
    obtain ⟨hmem, hwaits⟩ := List.mem_filter.mp hentry
    obtain ⟨p, hp, rfl⟩ := List.mem_map.mp hmem
    obtain ⟨-, hlt, hle, -⟩ := hserved.entry_of_new hkeeps htakes hp
    exact ⟨hlt, hle, hserved.owns_of_new hkeeps htakes hp hwaits⟩
  next => cases hentry

omit [Platform] in
/-- Nobody is resumed twice: two resumed clients differ because the indexes of their entries do. -/
theorem Served.nodup_resumed (hserved : x.Served) (hkeeps : x.node.KeepsWaiting next)
    (htakes : next.Takes node new) :
    ((x.resumptions ++ (x.node.stateMachine.resuming node.role (new.map Prod.snd)).map
      fun entry => (x.owner entry.index, entry)).map Prod.fst).Nodup := by
  rw [List.map_append, List.map_map]
  refine List.nodup_append.mpr ⟨hserved.once, ?_, fun old hold fresh hfresh heq => ?_⟩
  · have hsorted : (new.map Prod.snd).Pairwise fun first second =>
        first.index < second.index := by
      refine List.pairwise_map.mpr (htakes.sorted.imp_of_mem fun {first second} hp hq hlt => ?_)
      rw [(hserved.entry_of_new hkeeps htakes hp).1, (hserved.entry_of_new hkeeps htakes hq).1]
      exact hlt
    refine List.pairwise_map.mpr ((hsorted.sublist StateMachine.resuming_sublist).imp_of_mem
      fun {first second} hfirst hsecond hlt heq => ?_)
    obtain ⟨-, -, _, _, howner, hhandler, hindex, -⟩ :=
      hserved.resuming_spec hkeeps htakes hfirst
    obtain ⟨-, -, _, _, howner', hhandler', hindex', -⟩ :=
      hserved.resuming_spec hkeeps htakes hsecond
    have hsame := index_eq_of_owner howner hhandler howner' hhandler' heq
    omega
  · obtain ⟨r, hr, rfl⟩ := List.mem_map.mp hold
    obtain ⟨entry, hentry, rfl⟩ := List.mem_map.mp hfresh
    obtain ⟨_, _, hnumber, hhandler, hindex, -⟩ := hserved.found r hr
    obtain ⟨hlt, -, _, _, howner', hhandler', hindex', -⟩ :=
      hserved.resuming_spec hkeeps htakes hentry
    have hsame := index_eq_of_owner hnumber hhandler howner' hhandler' heq
    have hle := hserved.past r hr
    omega

omit [Platform] in
/-- Entries are applied, and their clients are resumed. -/
theorem Served.replicate (hserved : x.Served) (hkeeps : x.node.KeepsWaiting next)
    (htakes : next.Takes node new) :
    ({ x with
        node := node
        resumptions := x.resumptions ++ (x.node.stateMachine.resuming node.role
          (new.map Prod.snd)).map fun entry => (x.owner entry.index, entry) } : Serving).Served := by
  have hlast : x.node.lastApplied ≤ node.lastApplied := hkeeps.lastApplied ▸ htakes.lastApplied
  refine ⟨?_, fun number handler hhandler hlt => ?_, fun index hindex hlt => ?_, fun r hr => ?_,
    fun r hr => ?_, hserved.nodup_resumed hkeeps htakes, ?_⟩
  · rw [RaftLog.indexed_iff]
    intro index entry hentry
    rw [htakes.log] at hentry
    exact RaftLog.indexed_iff.mp (hkeeps.indexed hserved.indexed) index entry hentry
  · have hlt' := hlast.trans_lt hlt
    obtain ⟨howner, hwaits, entry, hentry, hcommand⟩ :=
      hserved.waiting number handler hhandler hlt'
    refine ⟨howner, ?_, entry, ?_, hcommand⟩
    · rw [htakes.serves.waits, StateMachine.waits_congr hkeeps.pendingRequests, hwaits]
    · rw [htakes.log]
      exact hkeeps.entries _ _ hwaits hlt' hentry
  · rcases htakes.serves.slots index hindex with hold | ⟨entry, hentry, rfl⟩
    · exact hserved.slots index (hkeeps.pendingRequests ▸ hold) (hlast.trans_lt hlt)
    · obtain ⟨p, hp, rfl⟩ := List.mem_map.mp hentry
      have hle := (hserved.entry_of_new hkeeps htakes hp).2.2.1
      exact absurd hlt (not_lt.mpr hle)
  · rcases List.mem_append.mp hr with hold | hnew
    · exact hserved.found r hold
    · obtain ⟨entry, hentry, rfl⟩ := List.mem_map.mp hnew
      exact (hserved.resuming_spec hkeeps htakes hentry).2.2
  · rcases List.mem_append.mp hr with hold | hnew
    · exact (hserved.past r hold).trans hlast
    · obtain ⟨entry, hentry, rfl⟩ := List.mem_map.mp hnew
      exact (hserved.resuming_spec hkeeps htakes hentry).2.1
  · obtain ⟨responses, hresponses, hresumes⟩ := htakes.serves.resumed
    have hsame : next.stateMachine.resuming next.role (new.map Prod.snd) =
        x.node.stateMachine.resuming node.role (new.map Prod.snd) := by
      unfold StateMachine.resuming
      simp only [htakes.role, StateMachine.waits_congr hkeeps.pendingRequests]
    rw [hsame] at hresumes
    rw [hresponses, hkeeps.resumed]
    exact List.rel_append hserved.resumed (List.forall₂_map_left_iff.mpr hresumes)

end Replicate

theorem exists_of_step {event : Env × Input} (hstep : x.step event = some x') :
    ∃ node, x.node.next event = some node ∧
      x' = { node := node
             handlers := x.handlers ++ (x.submitted event).toList
             owner := x.ownerAfter event
             resumptions := x.resumptions ++ (x.node.stateMachine.resuming node.role
               ((x.newlyApplied node).map Prod.snd)).map
                 fun entry => (x.owner entry.index, entry) } := by
  unfold step at hstep
  split at hstep
  next => cases hstep
  next node hnext => exact ⟨node, hnext, (Option.some.inj hstep).symm⟩

omit [Platform] in
theorem newlyApplied_of_append {node : RaftNode} {new : List (ℕ × LogEntry)}
    (happlied : node.applied = x.node.applied ++ new) : x.newlyApplied node = new := by
  rw [newlyApplied, happlied, List.drop_left]

omit [Platform] in
/-- Appending a command applies nothing. -/
theorem newlyApplied_appendCommand {command : EntryCommand} {response : PendingResponse} :
    x.newlyApplied (x.node.appendCommand command response) = [] :=
  newlyApplied_of_append (List.append_nil _).symm

/-- **The step lemma.** -/
theorem Served.step {event : Env × Input} (hserved : x.Served)
    (hkeeps : x.node.KeepsClients event.1 event.2) (hstep : x.step event = some x') :
    x'.Served := by
  obtain ⟨node, hnext, rfl⟩ := exists_of_step hstep
  have hafter := RaftNode.after_of_next hnext
  cases haccepted : x.node.accepted event.1 event.2 with
  | some command =>
    obtain ⟨response, rfl⟩ := RaftNode.append_of_after haccepted hafter
    refine @Served.append x _ event command response hserved haccepted ?_
    rw [newlyApplied_appendCommand]
    simp [submitted, haccepted, StateMachine.resuming]
  | none =>
    obtain ⟨next, new, hwaiting, htakes⟩ := RaftNode.replicates_of_after haccepted hkeeps hafter
    have hnew : x.newlyApplied node = new :=
      newlyApplied_of_append (htakes.applied.trans (by rw [hwaiting.applied]))
    have hreplicated := hserved.replicate hwaiting htakes
    simpa [submitted, ownerAfter, haccepted, hnew] using hreplicated

/-- What is found where an entry is applied. -/
theorem Served.handlers_of_new {event : Env × Input} (hserved : x.Served)
    (hkeeps : x.node.KeepsClients event.1 event.2) (hstep : x.step event = some x')
    {p : ℕ × LogEntry} (hp : p ∈ x.newlyApplied x'.node) (hrole : x'.node.role = .leader)
    {number : ℕ} {handler : Handler} (hhandler : x.handlers[number]? = some handler)
    (hindex : handler.index = p.2.index) :
    p.2.command = some handler.command ∧ (some number, p.2) ∈ x'.resumptions := by
  obtain ⟨node, hnext, rfl⟩ := exists_of_step hstep
  have hafter := RaftNode.after_of_next hnext
  cases haccepted : x.node.accepted event.1 event.2 with
  | some command =>
    obtain ⟨response, rfl⟩ := RaftNode.append_of_after haccepted hafter
    change p ∈ x.newlyApplied (x.node.appendCommand command response) at hp
    rw [newlyApplied_appendCommand] at hp
    cases hp
  | none =>
    obtain ⟨next, new, hwaiting, htakes⟩ := RaftNode.replicates_of_after haccepted hkeeps hafter
    have hnew : x.newlyApplied node = new :=
      newlyApplied_of_append (htakes.applied.trans (by rw [hwaiting.applied]))
    change p ∈ x.newlyApplied node at hp
    rw [hnew] at hp
    obtain ⟨-, hlt, -, hentry⟩ := hserved.entry_of_new hwaiting htakes hp
    obtain ⟨howner, hwaits, entry, hfound, hcommand⟩ :=
      hserved.waiting number handler hhandler (hindex ▸ hlt)
    rw [hindex] at howner hwaits hfound
    obtain rfl : entry = p.2 :=
      Option.some.inj ((hwaiting.entries _ _ hwaits hlt hfound).symm.trans hentry)
    refine ⟨hcommand, List.mem_append_right _ (List.mem_map.mpr ⟨p.2, ?_, by rw [howner]⟩)⟩
    change node.role = .leader at hrole
    rw [StateMachine.resuming, if_pos hrole, hnew]
    exact List.mem_filter.mpr ⟨List.mem_map_of_mem hp, hwaits⟩

omit [Platform] in
/-- Every entry on the disk is stored under its own index. -/
def EntriesInPlace (disk : Disk Payload) : Prop :=
  ∀ index entry, disk.get (Persister.getEntryKey index) = some (.entry entry) →
    entry.index = index

theorem Served.create {env : Env} {config : Config} {disk : Disk Payload} {node : RaftNode}
    (hplace : EntriesInPlace disk) (hcreate : RaftNode.create env config disk = .ok node) :
    ({ node := node } : Serving).Served := by
  obtain ⟨snapshot, snapshotter, entries, hardState, disk', -, hload, -, rfl⟩ :=
    RaftNode.create_spec hcreate
  have hstored := (Persister.loadEntries_eq_ok_iff.mp hload).1
  -- a start has no slots, also if it loads a snapshot
  obtain ⟨hpending, hresumed⟩ :
      (RaftNode.assemble config snapshot snapshotter entries hardState
        disk').stateMachine.pendingRequests = ∅ ∧
      (RaftNode.assemble config snapshot snapshotter entries hardState
        disk').stateMachine.resumed = [] := by
    cases snapshot with
    | none => exact ⟨rfl, rfl⟩
    | some snapshot =>
      exact @StateMachine.loadSnapshot_keepsSlots (StateMachine.create config.dataNodes) snapshot
  refine ⟨fun k entry hentry => ?_, nofun, fun index hindex => ?_, nofun, nofun, .nil, ?_⟩
  · change entries[k]? = some entry at hentry
    have hget := hstored k (List.getElem?_eq_some_iff.mp hentry).1
    rw [hentry] at hget
    have hindex := hplace _ entry hget
    change entry.index = (snapshot.getD {}).lastIncludedIndex + k + 1
    omega
  · rw [hpending] at hindex
    cases hindex
  · rw [hresumed]
    exact .nil

end Serving

/-- **Each client gets its own result, once**, as long as each step meets the condition:
whoever is resumed is resumed with the result of its own command, no one is resumed twice,
and the clients that are found where a leader applies an entry are those suspended there. -/
theorem ownResultOnce [Platform] {env : Env} {config : Config} {disk : Disk Payload}
    {node : RaftNode} (hplace : Serving.EntriesInPlace disk)
    (hcreate : RaftNode.create env config disk = .ok node) {x : Serving}
    (hrun : Run Serving.step (fun x event => x.node.KeepsClients event.1 event.2)
      { node := node } x) :
    (∀ r ∈ x.resumptions, ∃ (number : ℕ) (handler : Handler), r.1 = some number ∧
      x.handlers[number]? = some handler ∧ r.2.command = some handler.command) ∧
    List.Forall₂ (fun r resumed => StateMachine.Resumes r.2 resumed) x.resumptions
      x.node.stateMachine.resumed ∧
    (x.resumptions.map Prod.fst).Nodup ∧
    ∀ event x', x.node.KeepsClients event.1 event.2 → x.step event = some x' →
      ∀ p ∈ x.newlyApplied x'.node, x'.node.role = .leader →
        ∀ (number : ℕ) (handler : Handler), x.handlers[number]? = some handler →
          handler.index = p.2.index →
          p.2.command = some handler.command ∧ (some number, p.2) ∈ x'.resumptions := by
  have hserved : x.Served := hrun.invariant Serving.Served (.create hplace hcreate)
    fun hserved hkeeps hstep => hserved.step hkeeps hstep
  refine ⟨fun r hr => ?_, hserved.resumed, hserved.once, ?_⟩
  · obtain ⟨number, handler, hnumber, hhandler, -, hcommand⟩ := hserved.found r hr
    exact ⟨number, handler, hnumber, hhandler, hcommand⟩
  · intro event x' hkeeps hstep p hp hrole number handler hhandler hindex
    exact hserved.handlers_of_new hkeeps hstep hp hrole hhandler hindex

/-! ## A client that is resumed, and one that gets the result of another -/

/-- A node without clients. -/
def startServing : Serving :=
  { node := follower }

theorem entriesInPlace_empty : Serving.EntriesInPlace ({} : Disk Payload) :=
  fun index entry hget => by simp [Disk.get] at hget

/-- A member confirms the first entry. -/
def confirmed (id term : ℕ) : Message :=
  .appendEntriesResponse { id := id, term := term, success := true, lastLogIndex := 1 }

/-- Member 1 is elected, and a client creates a directory. -/
def suspendOne : List (Env × Input) :=
  [(late, .electionTimeout), (late, .deliver 3 (vote 3 1)),
    (late, .makeDir (directory "a"))]

/-- Both other members confirm the entry. -/
def confirmBoth (env : Env) (term : ℕ) : List (Env × Input) :=
  [(env, .deliver 2 (confirmed 2 term)), (env, .deliver 3 (confirmed 3 term))]

theorem ownResultOnce_suspendOne :
    ∃ x, Run (@Serving.step plainPlatform)
        (fun x event => @RaftNode.KeepsClients plainPlatform event.1 x.node event.2)
        startServing x ∧
      x.node.stateMachine.resumed = [(1, .mkdir
        { statusCode := .ok, message := "创建目录成功：/a", parentPath := "/" })] ∧
      ∀ r ∈ x.resumptions, ∃ (number : ℕ) (handler : Handler), r.1 = some number ∧
        x.handlers[number]? = some handler ∧ r.2.command = some handler.command := by
  obtain ⟨x, hrun, hresumed⟩ := Run.exists_of_exec (@Serving.step plainPlatform)
    (fun x event => @RaftNode.KeepsClients plainPlatform event.1 x.node event.2)
    startServing (suspendOne ++ confirmBoth late 1)
    (fun x => decide (x.node.stateMachine.resumed = [(1, .mkdir
      { statusCode := .ok, message := "创建目录成功：/a", parentPath := "/" })])) (by decide)
  exact ⟨x, hrun, of_decide_eq_true hresumed, (@ownResultOnce plainPlatform _ _ _ _
    entriesInPlace_empty (@Cluster.create_freshNode plainPlatform memberOfThree) _ hrun).1⟩

/-- The entry of another leader at the same index. -/
def replacement : LogEntry :=
  { term := 2, index := 1, command := some (.mkdir (directory "b")) }

/-- Member 2 replaces the entry as the leader of term 2, and member 1 leads again. -/
def replaceAndLead : List (Env × Input) :=
  [(late, .deliver 2 (.appendEntriesRequest
      { term := 2, leaderId := 2, entries := [replacement] })),
    (later, .electionTimeout), (later, .deliver 3 (vote 3 3))]

theorem exists_wrong_result :
    Serving.EntriesInPlace ({} : Disk Payload) ∧
      @RaftNode.create plainPlatform {} memberOfThree {} = .ok startServing.node ∧
      ∃ x, Run (@Serving.step plainPlatform) (fun _ _ => True) startServing x ∧
        x.node.stateMachine.resumed = [(1, .mkdir
          { statusCode := .ok, message := "创建目录成功：/b", parentPath := "/" })] ∧
        ∃ r ∈ x.resumptions, ∃ handler, r.1 = some 0 ∧ x.handlers[0]? = some handler ∧
          handler.command = .mkdir (directory "a") ∧ r.2.command ≠ some handler.command := by
  obtain ⟨x, hrun, hcheck⟩ := Run.exists_of_exec (@Serving.step plainPlatform)
    (fun _ _ => True) startServing (suspendOne ++ replaceAndLead ++ confirmBoth later 3)
    (fun x => decide (x.node.stateMachine.resumed = [(1, .mkdir
        { statusCode := .ok, message := "创建目录成功：/b", parentPath := "/" })] ∧
      x.handlers = [⟨1, .mkdir (directory "a")⟩] ∧
      x.resumptions = [(some 0, replacement)])) (by decide)
  obtain ⟨hresumed, hhandlers, hresumptions⟩ := of_decide_eq_true hcheck
  refine ⟨entriesInPlace_empty, @Cluster.create_freshNode plainPlatform memberOfThree, x, hrun,
    hresumed, _, hresumptions ▸ List.mem_singleton_self _, _, rfl, by rw [hhandlers]; rfl, rfl,
    by decide⟩

end Vosfs.Raft
