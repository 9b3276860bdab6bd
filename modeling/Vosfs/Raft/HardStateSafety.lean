import Vosfs.Raft.Life
import Vosfs.Raft.Steps

/-!
# The stored hard state

All handlers save the hard state before they finish, except that a vote given to
another member is not saved.  As long as no vote is newly recorded, the stored hard
state is the one in memory whenever a step is done, and over all lives of the node at
most one candidate gets its vote in a term (`hardStateDurable`).

A vote that was given once is forgotten by a restart (`exists_two_votes`).
-/

namespace Vosfs.Raft

open Persister (hardStateKey)

variable {env : Env} {node node' : RaftNode}

namespace RaftNode

/-- The stored hard state is the one in memory. -/
def HardStored (node : RaftNode) : Prop :=
  node.disk.get hardStateKey = some (.hardState node.hardState)

/-- No candidate gets a vote that was not recorded before. -/
def RecordsNoVote (env : Env) (node : RaftNode) : Input → Prop
  | .deliver _ (.requestVoteRequest request) =>
    node.currentTerm ≤ request.term → CanVote (node.catchUp env request.term) request →
      (node.catchUp env request.term).hardState.votedFor = some request.candidateId
  | _ => True

instance : ∀ {input : Input}, Decidable (RecordsNoVote env node input)
  | .deliver _ (.requestVoteRequest _) => inferInstanceAs (Decidable (_ → CanVote _ _ → _ = _))
  | .deliver _ (.requestVoteResponse _) | .deliver _ (.appendEntriesRequest _)
  | .deliver _ (.appendEntriesResponse _) | .deliver _ (.installSnapshotRequest _)
  | .deliver _ (.installSnapshotResponse _) | .electionTimeout | .heartbeat | .listDir _
  | .makeDir _ | .prepareUploadFile _ | .uploadFile _ | .prepareDownloadFile _ =>
    inferInstanceAs (Decidable True)

/-- The election that starts, if one does, does not wrap the term. -/
def TermFitsFor (env : Env) (node : RaftNode) (input : Input) : Prop :=
  input = .electionTimeout → node.TermFits env

instance {input : Input} : Decidable (TermFitsFor env node input) :=
  inferInstanceAs (Decidable (_ = _ → TermFits _ _))

/-! ## What the writes leave under the key -/

theorem get_saveHardState (disk : Disk Payload) (hardState : HardState) :
    (Persister.saveHardState disk hardState).get hardStateKey = some (.hardState hardState) := by
  simp [Persister.saveHardState, Disk.applyOps]

theorem hardStored_saveHardState : node.saveHardState.HardStored :=
  get_saveHardState _ _

theorem get_of_wrote_file {disk disk' : Disk Payload} (hwrote : Disk.Wrote FileWrite disk disk') :
    disk'.get = disk.get := by
  refine hwrote.invariant (fun disk' => disk'.get = disk.get) rfl fun hget hfile => ?_
  rw [Disk.get_write, hfile, hget]

theorem get_write_entry (disk : Disk Payload) {entries : List LogEntry} {w : DiskWrite Payload}
    (hentry : EntryWrite entries w) :
    (disk.write w).get hardStateKey = disk.get hardStateKey := by
  obtain ⟨ops, rfl, hops⟩ := hentry
  rw [Disk.get_write_batch]
  refine Disk.applyOps_of_not_mem _ fun hmem => ?_
  obtain ⟨op, hop, hkey⟩ := List.mem_map.mp hmem
  obtain ⟨index, hindex, -⟩ := hops op hop
  exact Persister.getEntryKey_ne_hardStateKey index (hindex.symm.trans hkey)

theorem get_of_wrote_entry {disk disk' : Disk Payload} {entries : List LogEntry}
    (hwrote : Disk.Wrote (EntryWrite entries) disk disk') :
    disk'.get hardStateKey = disk.get hardStateKey := by
  refine hwrote.invariant (fun disk' => disk'.get hardStateKey = disk.get hardStateKey) rfl
    fun hget hentry => ?_
  rw [get_write_entry _ hentry, hget]

/-- A hard state is on the disk, and it is no older than a given one. -/
def StoresLater (hardState : HardState) (disk : Disk Payload) : Prop :=
  ∃ stored, disk.get hardStateKey = some (.hardState stored) ∧ Later hardState stored

/-- At any moment of a step, the stored hard state is no older than before the step. -/
theorem storesLater_of_wrote {disk : Disk Payload} {entries : List LogEntry}
    (hstored : node.HardStored)
    (hwrote : Disk.Wrote (fun w => SideWrite True node w ∨ EntryWrite entries w) node.disk disk) :
    StoresLater node.hardState disk := by
  refine hwrote.invariant (StoresLater node.hardState) ⟨_, hstored, Later.refl⟩ fun hinv hw => ?_
  obtain ⟨hardState, hget, hlater⟩ := hinv
  rcases hw with hside | hentry
  · cases hside with
    | hardState hlater' => exact ⟨_, get_saveHardState _ _, hlater' trivial⟩
    | file hfile _ => exact ⟨hardState, by rw [Disk.get_write, hfile, hget], hlater⟩
  · exact ⟨hardState, (get_write_entry _ hentry).trans hget, hlater⟩

/-! ## Handlers -/

theorem catchUp_hardStored {term : ℕ} (hstored : node.HardStored) :
    (node.catchUp env term).HardStored := by
  unfold catchUp
  split
  next => exact hardStored_saveHardState
  next => exact hstored

theorem tryToLead_hardStored (hstored : node.HardStored) : node.tryToLead.HardStored := by
  unfold tryToLead
  split
  next => exact hardStored_saveHardState
  next => exact hstored

theorem electionLoop_hardStored (hstored : node.HardStored) :
    (node.electionLoop env).1.HardStored := by
  unfold electionLoop
  split
  next => exact hstored
  next =>
    have hvoted : node.startElection.voteForSelf.HardStored := hardStored_saveHardState
    exact tryToLead_hardStored hvoted

theorem handleRequestVoteResponse_hardStored {response : RequestVoteResponse}
    (hstored : node.HardStored) : (node.handleRequestVoteResponse env response).HardStored := by
  unfold handleRequestVoteResponse
  split
  next => exact hstored
  next =>
    split
    next => exact hardStored_saveHardState
    next =>
      split
      next => exact hstored
      next =>
        split
        next =>
          have hcounted : ({ node with votes := node.votes + 1 } : RaftNode).HardStored := hstored
          exact tryToLead_hardStored hcounted
        next => exact hstored

/-- The one step that leaves the hard state unsaved: a vote that is newly recorded. -/
theorem handleRequestVoteRequest_hardStored {src : ℕ} {request : RequestVoteRequest}
    (hstored : node.HardStored) :
    (node.handleRequestVoteRequest env request).1.HardStored ↔
      node.RecordsNoVote env (.deliver src (.requestVoteRequest request)) := by
  have hcatch : (node.catchUp env request.term).HardStored := catchUp_hardStored hstored
  unfold handleRequestVoteRequest RecordsNoVote
  split
  next hlt => exact iff_of_true hstored fun hle => absurd hlt (not_lt.mpr hle)
  next hge =>
    simp only
    split
    next hcan =>
      -- the vote is in memory, and on the disk is what was there before
      have hiff : ((node.catchUp env request.term).grantVote env request.candidateId).HardStored ↔
          (node.catchUp env request.term).hardState.votedFor = some request.candidateId := by
        unfold HardStored at hcatch ⊢
        simp only [grantVote, hcatch, Option.some.injEq, Payload.hardState.injEq]
        exact ⟨fun heq => congrArg HardState.votedFor heq, fun heq => by rw [← heq]⟩
      exact hiff.trans ⟨fun h _ _ => h, fun h => h (not_lt.mp hge) hcan⟩
    next hcan => exact iff_of_true hcatch fun _ hcan' => absurd hcan' hcan

theorem Applies.hardStored (happlies : Applies node node') (hstored : node.HardStored) :
    node'.HardStored := by
  unfold HardStored at *
  rw [get_of_wrote_file happlies.wrote, hstored, happlies.hardState]

theorem MovesSnapshotter.hardStored (hmoves : MovesSnapshotter node node')
    (hstored : node.HardStored) : node'.HardStored := by
  obtain ⟨_, rfl⟩ := hmoves
  exact hstored

variable [Platform]

theorem afterEntries_hardStored {request : AppendEntriesRequest} (hstored : node.HardStored)
    (hafter : node.afterEntries env request = .ok node') : node'.HardStored := by
  have hfollowed : (node.followed env request).HardStored := catchUp_hardStored hstored
  cases outcome_of_afterEntries hafter with
  | late => exact hstored
  | rejected => exact hfollowed
  | @stored stored _ _ hstore hfollow =>
    refine (movesCommit_of_followCommit hfollow).applies.hardStored ?_
    have hwrote := @wrote_storeEntries (node.followed env request) request.entries
    rw [hstore] at hwrote
    have hget : stored.disk.get hardStateKey = _ := get_of_wrote_entry hwrote
    obtain ⟨_, _, rfl⟩ := storeEntries_shape hstore
    exact hget.trans hfollowed

theorem handleAppendEntriesResponse_hardStored {response : AppendEntriesResponse}
    (hstored : node.HardStored)
    (hhandle : node.handleAppendEntriesResponse env response = .ok node') : node'.HardStored := by
  cases outcome_of_handleAppendEntriesResponse hhandle with
  | ignored => exact hstored
  | deposed => exact hardStored_saveHardState
  | rejected => exact hstored
  | confirmed _ hadvance =>
    have hrecorded : (node.recordMatch response.id response.lastLogIndex).HardStored := hstored
    exact (movesCommit_of_advanceCommit hadvance).applies.hardStored hrecorded

theorem handleInstallSnapshotRequest_hardStored {request : InstallSnapshotRequest}
    (hstored : node.HardStored) :
    (node.handleInstallSnapshotRequest env request).1.HardStored := by
  have hcatch : (node.catchUp env request.term).HardStored := catchUp_hardStored hstored
  generalize hafter : (node.handleInstallSnapshotRequest env request).1 = node'
  cases outcome_of_handleInstallSnapshotRequest hafter with
  | late => exact hstored
  | received => exact hcatch
  | installed => exact hcatch

/-- **After a step, the hard state is stored, unless a vote was newly recorded.** -/
theorem after_hardStored {input : Input} (hstored : node.HardStored)
    (hafter : node.after env input = .ok node') :
    node'.HardStored ↔ node.RecordsNoVote env input := by
  cases input with
  | electionTimeout =>
    cases hafter
    exact iff_of_true (electionLoop_hardStored hstored) trivial
  | heartbeat => exact iff_of_true ((moves_of_heartbeat hafter).hardStored hstored) trivial
  | deliver src message =>
    cases message with
    | requestVoteRequest request =>
      cases hafter
      exact handleRequestVoteRequest_hardStored hstored
    | requestVoteResponse response =>
      cases hafter
      exact iff_of_true (handleRequestVoteResponse_hardStored hstored) trivial
    | appendEntriesRequest request =>
      exact iff_of_true (afterEntries_hardStored hstored hafter) trivial
    | appendEntriesResponse response =>
      exact iff_of_true (handleAppendEntriesResponse_hardStored hstored hafter) trivial
    | installSnapshotRequest request =>
      cases hafter
      exact iff_of_true (handleInstallSnapshotRequest_hardStored hstored) trivial
    | installSnapshotResponse response =>
      refine iff_of_true ?_ trivial
      rcases cases_handleInstallSnapshotResponse hafter with ⟨-, rfl⟩ | hmoves
      · exact hardStored_saveHardState
      · exact hmoves.hardStored hstored
  | listDir request => cases hafter; exact iff_of_true hstored trivial
  | makeDir request => cases outcome_of_makeDir hafter <;> exact iff_of_true hstored trivial
  | prepareUploadFile request =>
    obtain ⟨_, rfl⟩ := exists_of_prepareUploadFile hafter
    exact iff_of_true hstored trivial
  | uploadFile request => cases outcome_of_uploadFile hafter <;> exact iff_of_true hstored trivial
  | prepareDownloadFile request => cases hafter; exact iff_of_true hstored trivial

/-- What `create` starts with is on the disk. -/
theorem create_hardStored {config : Config} {disk : Disk Payload}
    (hcreate : create env config disk = .ok node) :
    node.HardStored ∧ ∀ hardState, disk.get hardStateKey = some (.hardState hardState) →
      node.hardState = hardState := by
  obtain ⟨snapshot, snapshotter, entries, hardState, disk', -, -, hload, rfl⟩ :=
    create_spec hcreate
  unfold Persister.loadHardState at hload
  split at hload
  next hnone =>
    cases hload
    refine ⟨get_saveHardState _ _, fun hardState hget => ?_⟩
    rw [hnone] at hget
    cases hget
  next stored hsome =>
    cases hload
    refine ⟨hsome, fun hardState hget => ?_⟩
    rw [hsome] at hget
    cases hget
    rfl
  next => cases hload

end RaftNode

/-! ## Votes over many lives -/

/-- Each vote was given in an earlier term, or the hard state does not contradict it. -/
def Promised (votes : List (ℕ × ℕ)) (hardState : HardState) : Prop :=
  ∀ vote ∈ votes, vote.1 < hardState.currentTerm ∨
    (vote.1 = hardState.currentTerm ∧
      (hardState.votedFor = none ∨ hardState.votedFor = some vote.2))

theorem Promised.later {votes : List (ℕ × ℕ)} {hardState hardState' : HardState}
    (hpromised : Promised votes hardState) (hlater : Later hardState hardState') :
    Promised votes hardState' := by
  intro vote hvote
  rcases hlater with hlt | ⟨heq, hsame⟩
  · left
    rcases hpromised vote hvote with hearlier | ⟨hterm, -⟩ <;> omega
  · rcases hpromised vote hvote with hearlier | ⟨hterm, hvoted⟩
    · exact Or.inl (heq ▸ hearlier)
    · refine Or.inr ⟨hterm.trans heq.symm, ?_⟩
      rcases hsame with hsame | hnone
      · rwa [hsame]
      · exact Or.inl hnone

/-- In no term two candidates got the vote. -/
def VotedOnce (votes : List (ℕ × ℕ)) : Prop :=
  ∀ vote ∈ votes, ∀ vote' ∈ votes, vote.1 = vote'.1 → vote.2 = vote'.2

theorem VotedOnce.append {votes : List (ℕ × ℕ)} (honce : VotedOnce votes) {vote : ℕ × ℕ}
    (hnew : ∀ vote' ∈ votes, vote'.1 = vote.1 → vote'.2 = vote.2) :
    VotedOnce (votes ++ [vote]) := by
  intro first hfirst second hsecond hterm
  rw [List.mem_append, List.mem_singleton] at hfirst hsecond
  rcases hfirst with hfirst | rfl
  · rcases hsecond with hsecond | rfl
    · exact honce first hfirst second hsecond hterm
    · exact hnew first hfirst hterm
  · rcases hsecond with hsecond | rfl
    · exact (hnew second hsecond hterm.symm).symm
    · rfl

namespace RaftNode

variable [Platform]

omit [Platform] in
/-- A candidate has its own vote in a term that is new. -/
theorem electionLoop_vote (hfits : node.TermFits env) (hstart : TimedOut env node)
    (hrole : node.role ≠ .leader) :
    node.currentTerm < node.startElection.currentTerm ∧
      (node.electionLoop env).1.currentTerm = node.startElection.currentTerm ∧
      ((node.electionLoop env).1.hardState.votedFor = none ∨
        (node.electionLoop env).1.hardState.votedFor = some node.memberId) := by
  have hterm : node.startElection.currentTerm = node.currentTerm + 1 :=
    Nat.mod_eq_of_lt (hfits hstart hrole)
  refine ⟨by omega, ?_⟩
  unfold electionLoop
  rw [if_neg (by simp [hstart, hrole])]
  simp only
  unfold tryToLead
  split
  next => exact ⟨rfl, Or.inl rfl⟩
  next => exact ⟨rfl, Or.inr rfl⟩

omit [Platform] in
/-- Under the condition, a vote that is given was recorded before. -/
theorem handleRequestVoteRequest_vote {src : ℕ} {request : RequestVoteRequest}
    (hrecords : node.RecordsNoVote env (.deliver src (.requestVoteRequest request)))
    (hgranted : (node.handleRequestVoteRequest env request).2.voteGranted = true) :
    (node.handleRequestVoteRequest env request).2.term =
        (node.handleRequestVoteRequest env request).1.currentTerm ∧
      (node.handleRequestVoteRequest env request).1.hardState =
        (node.catchUp env request.term).hardState ∧
      (node.catchUp env request.term).hardState.votedFor = some request.candidateId := by
  unfold RecordsNoVote at hrecords
  unfold handleRequestVoteRequest at hgranted ⊢
  split at hgranted
  next => cases hgranted
  next hge =>
    rw [if_neg hge]
    simp only at hgranted ⊢
    split at hgranted
    next hcan =>
      have hvoted := hrecords (not_lt.mp hge) hcan
      rw [if_pos hcan]
      refine ⟨rfl, ?_, hvoted⟩
      simp only [grantVote, ← hvoted]
    next => cases hgranted

/-- A vote given in a step agrees with the hard state after it, and with the votes
that the hard state before it promised. -/
theorem votesGiven_spec {input : Input} {votes : List (ℕ × ℕ)}
    (hrecords : node.RecordsNoVote env input) (hfits : node.TermFitsFor env input)
    (hpromised : Promised votes node.hardState) (hafter : node.after env input = .ok node') :
    node.votesGiven env input = [] ∨ ∃ vote, node.votesGiven env input = [vote] ∧
      Promised [vote] node'.hardState ∧
      ∀ vote' ∈ votes, vote'.1 = vote.1 → vote'.2 = vote.2 := by
  unfold votesGiven
  split
  next =>
    cases hafter
    split
    next hstart =>
      obtain ⟨hlt, hterm, hvoted⟩ := electionLoop_vote (hfits rfl) hstart.1 hstart.2
      refine Or.inr ⟨_, rfl, ?_, fun vote' hvote' hsame => ?_⟩
      · intro vote hvote
        obtain rfl := List.mem_singleton.mp hvote
        exact Or.inr ⟨hterm.symm, hvoted⟩
      · -- nobody got a vote in the new term before
        have hbefore : vote'.1 ≤ node.currentTerm := by
          rcases hpromised vote' hvote' with hlt' | ⟨heq, -⟩
          · exact hlt'.le
          · exact heq.le
        omega
    next => exact Or.inl rfl
  next src request =>
    cases hafter
    simp only
    split
    next hgranted =>
      obtain ⟨hterm, hhard, hvoted⟩ := handleRequestVoteRequest_vote hrecords hgranted
      have hlater : Later node.hardState (node.catchUp env request.term).hardState := later_catchUp
      have hcaught := hpromised.later hlater
      have hcurrent : (node.handleRequestVoteRequest env request).1.currentTerm =
          (node.catchUp env request.term).hardState.currentTerm :=
        congrArg HardState.currentTerm hhard
      refine Or.inr ⟨_, rfl, ?_, fun vote' hvote' hsame => ?_⟩
      · intro vote hvote
        obtain rfl := List.mem_singleton.mp hvote
        exact Or.inr ⟨hterm, Or.inr (hhard ▸ hvoted)⟩
      · rcases hcaught vote' hvote' with hlt | ⟨-, hnone | hsome⟩
        · rw [hsame, hterm, hcurrent] at hlt
          exact absurd hlt (lt_irrefl _)
        · rw [hvoted] at hnone
          cases hnone
        · rw [hvoted] at hsome
          exact (Option.some.inj hsome).symm
    next => exact Or.inl rfl
  next => exact Or.inl rfl

end RaftNode

namespace Life

variable [Platform] {life life' : Life}

/-- The condition on an event: no vote is newly recorded, and no term is wrapped. -/
def KeepsVotes (life : Life) : Event → Prop
  | .handle env input =>
    life.node.RecordsNoVote env input ∧ life.node.TermFitsFor env input
  | .restart env input _ => life.node.TermFitsFor env input

instance : ∀ {event : Event}, Decidable (KeepsVotes life event)
  | .handle _ _ => inferInstanceAs (Decidable (_ ∧ _))
  | .restart _ _ _ => inferInstanceAs (Decidable (RaftNode.TermFitsFor _ _ _))

/-- What holds in every life. -/
structure VotesKept (life : Life) : Prop where
  stored : life.node.HardStored
  promised : Promised life.votes life.node.hardState
  once : VotedOnce life.votes

/-- **The step lemma.** -/
theorem VotesKept.step {event : Event} (hkept : life.VotesKept) (hkeeps : life.KeepsVotes event)
    (hstep : life.step event = some life') : life'.VotesKept := by
  cases event with
  | handle env input =>
    obtain ⟨hrecords, hfits⟩ := hkeeps
    obtain ⟨node', hafter, rfl⟩ := Life.step_handle hstep
    have hstored : node'.HardStored :=
      (RaftNode.after_hardStored hkept.stored hafter).mpr hrecords
    have hwrote := RaftNode.wrote_after_all fun _ : True => hfits
    rw [hafter] at hwrote
    obtain ⟨hardState, hget, hlater⟩ := RaftNode.storesLater_of_wrote hkept.stored hwrote
    obtain rfl : node'.hardState = hardState := by
      have heq := hstored.symm.trans hget
      simpa using heq
    have hpromised := hkept.promised.later hlater
    rcases RaftNode.votesGiven_spec hrecords hfits hkept.promised hafter with
      hnone | ⟨vote, hvotes, hnew, hsame⟩
    · rw [hnone, List.append_nil]
      exact ⟨hstored, hpromised, hkept.once⟩
    · rw [hvotes]
      refine ⟨hstored, fun vote' hvote' => ?_, hkept.once.append hsame⟩
      exact (List.mem_append.mp hvote').elim (hpromised vote') (hnew vote')
  | restart env input lost =>
    obtain ⟨node', hcreate, rfl⟩ := Life.step_restart hstep
    obtain ⟨hstored, hread⟩ := RaftNode.create_hardStored hcreate
    have hwrote : Disk.Wrote _ life.node.disk (life.node.diskLeft env input lost) :=
      RaftNode.wrote_diskLeft (RaftNode.wrote_after_all fun _ : True => hkeeps)
    obtain ⟨hardState, hget, hlater⟩ := RaftNode.storesLater_of_wrote hkept.stored hwrote
    obtain rfl : node'.hardState = hardState := hread hardState hget
    exact ⟨hstored, hkept.promised.later hlater, hkept.once⟩

theorem VotesKept.run (hkept : life.VotesKept) (hrun : Run Life.step KeepsVotes life life') :
    life'.VotesKept :=
  hrun.invariant VotesKept hkept fun hkept hkeeps hstep => hkept.step hkeeps hstep

end Life

/-- **The hard state is stored before it is promised.** -/
theorem hardStateDurable [Platform] {config : Config} {disk : Disk Payload} {life life' : Life}
    (hcreate : RaftNode.create env config disk = .ok life.node) (hvotes : life.votes = [])
    (hrun : Run Life.step Life.KeepsVotes life life') :
    life'.node.HardStored ∧ VotedOnce life'.votes ∧
      ∀ env input life'', life'.step (.handle env input) = some life'' →
        (life''.node.HardStored ↔ life'.node.RecordsNoVote env input) := by
  have hstart : life.VotesKept := by
    refine ⟨(RaftNode.create_hardStored hcreate).1, ?_, ?_⟩
    · rw [hvotes]
      exact fun vote hvote => absurd hvote (List.not_mem_nil)
    · rw [hvotes]
      exact fun vote hvote => absurd hvote (List.not_mem_nil)
  have hkept := hstart.run hrun
  refine ⟨hkept.stored, hkept.once, fun env input life'' hstep => ?_⟩
  obtain ⟨node, hafter, rfl⟩ := Life.step_handle hstep
  exact RaftNode.after_hardStored hkept.stored hafter

/-! ## Lives of member 1 of three -/

/-- One of three members. -/
def memberOfThree : Config :=
  { memberId := 1, raftNodes := [1, 2, 3], nodup := nodup_threeMembers }

/-- That member as it is started for the first time. -/
def firstLife : Life :=
  { node := Cluster.freshNode memberOfThree }

/-- A leader is elected, dies while a heartbeat is due, and is started again. -/
def leadAndRestart : List Event :=
  [.handle late .electionTimeout,
    .handle late (.deliver 3 (vote 3 1)),
    .restart late .heartbeat 0]

theorem hardStateDurable_leadAndRestart :
    ∃ life', @Run _ _ (@Life.step plainPlatform) Life.KeepsVotes
        firstLife life' ∧
      life'.votes = [(1, 1)] ∧ life'.node.HardStored ∧ VotedOnce life'.votes := by
  obtain ⟨life', hrun, hvotes⟩ := Run.exists_of_exec (@Life.step plainPlatform)
    Life.KeepsVotes firstLife leadAndRestart
    (fun life' => decide (life'.votes = [(1, 1)])) (by decide)
  have hdurable := @hardStateDurable _ plainPlatform _ _ _ _
    (@Cluster.create_freshNode plainPlatform memberOfThree) rfl hrun
  exact ⟨life', hrun, of_decide_eq_true hvotes, hdurable.1, hdurable.2.1⟩

/-- Member 2 gets the vote of term 1, and after a restart member 3 gets it too. -/
def voteAndRestart : List Event :=
  [.handle late (.deliver 2 (voteRequest 2 1)),
    .restart late .heartbeat 0,
    .handle late (.deliver 3 (voteRequest 3 1))]

theorem exists_two_votes :
    @RaftNode.create plainPlatform {} memberOfThree {} = .ok firstLife.node ∧
      ∃ life', Run (@Life.step plainPlatform) (fun _ _ => True) firstLife life' ∧
        ¬ life'.node.HardStored ∧ ¬ VotedOnce life'.votes := by
  obtain ⟨life', hrun, hcheck⟩ := Run.exists_of_exec (@Life.step plainPlatform)
    (fun _ _ => True) firstLife voteAndRestart
    (fun life' => decide (life'.votes = [(1, 2), (1, 3)] ∧
      life'.node.disk.get hardStateKey ≠ some (.hardState life'.node.hardState))) (by decide)
  obtain ⟨hvotes, hstored⟩ := of_decide_eq_true hcheck
  refine ⟨@Cluster.create_freshNode plainPlatform memberOfThree, life', hrun, hstored, ?_⟩
  intro honce
  rw [hvotes] at honce
  exact absurd (honce (1, 2) (by simp) (1, 3) (by simp) rfl) (by decide)

end Vosfs.Raft
