import Vosfs.Raft.LogSafety

/-!
# What is committed stays, and is the same everywhere

The guarantees for runs that also keep what is committed: a leader commits an entry of
its own term that a majority holds (`commitSound`), leaders of later terms have it
(`leaderCompleteness`), and no two members apply different entries at one position
(`stateMachineSafety`).

Two of the exceptions are performed here.  After a repeated batch, members commit and
apply different entries (`exists_unsound_commit`, `exists_different_applied`).  And a
vote goes to the longer log even if its last term is older, which makes a leader that
lacks a committed entry (`exists_incomplete_leader`).
-/

namespace Vosfs.Raft

open Consensus Function

variable {c₀ c c' : Cluster} {members : Finset ℕ} {h : History ℕ LogEntry}
  {network : List Packet} {node : ℕ → RaftNode} {id : ℕ} {raft raft' : RaftNode} {env : Env}

namespace Cluster

/-- The last entry a leader committed is of its term, and a majority holds it. -/
def CommitSound (c : Cluster) (leader : ℕ) : Prop :=
  (c.node leader).commitIndex ≤ (c.node leader).logs.lastLogIndex ∧
    ∃ entry, (c.node leader).logs.getEntry (c.node leader).commitIndex = some entry ∧
      entry.term = (c.node leader).currentTerm ∧
      Majority c.members (c.members.filter fun m =>
        (c.node m).logs.getEntry (c.node leader).commitIndex = some entry)

/-- What a leader has committed in `c`, the leaders of later terms hold in `c'`. -/
def LeaderComplete (c c' : Cluster) : Prop :=
  ∀ l ∈ c.members, (c.node l).role = .leader →
    ∀ m ∈ c'.members, (c'.node m).role = .leader →
      (c.node l).currentTerm < (c'.node m).currentTerm →
      ∀ index entry, index ≤ (c.node l).commitIndex →
        (c.node l).logs.getEntry index = some entry →
        ∃ entry', (c'.node m).logs.getEntry index = some entry' ∧
          entry'.term = entry.term ∧ entry'.command = entry.command

/-- Members apply the same commands at the same positions. -/
def ApplySafe (c : Cluster) : Prop :=
  ∀ m ∈ c.members, ∀ m' ∈ c.members, ∀ index entry entry',
    (index, entry) ∈ (c.node m).applied → (index, entry') ∈ (c.node m').applied →
      entry.term = entry'.term ∧ entry.command = entry'.command

theorem CommitsHold.regular [Platform] {action : Action} (hok : CommitsHold c action) :
    Regular 3 c action :=
  ⟨hok.reports.logs.votes, fun _ => hok.reports.logs, fun _ => hok.reports, fun _ => hok⟩

end Cluster

/-! ## The leader's commit step -/

section Commit

variable [Platform]

/-- A leader's commit index moves only to the quorum index of what it recorded. -/
theorem commitIndex_advances (hstart : raft.logs.FromStart) {response : AppendEntriesResponse}
    (hhandle : raft.handleAppendEntriesResponse env response = .ok raft')
    (hadvance : raft.commitIndex < raft'.commitIndex) :
    raft.role = .leader ∧ response.term = raft.currentTerm ∧ response.success = true ∧
      raft'.commitIndex =
        RaftNode.quorumIndex (raft.recordMatch response.id response.lastLogIndex).matchIndex ∧
      raft'.logs = raft.logs ∧ raft'.currentTerm = raft.currentTerm := by
  unfold RaftNode.handleAppendEntriesResponse at hhandle
  split at hhandle
  next => cases hhandle; exact absurd hadvance (lt_irrefl _)
  next hlead =>
    simp only [not_or, not_not, not_lt] at hlead
    split at hhandle
    next => cases hhandle; exact absurd hadvance (lt_irrefl _)
    next hle =>
      split at hhandle
      next =>
        split at hhandle
        next => cases hhandle; exact absurd hadvance (lt_irrefl _)
        next => cases hhandle; exact absurd hadvance (lt_irrefl _)
      next hsuccess =>
        unfold RaftNode.advanceCommit at hhandle
        split at hhandle
        next =>
          have hstart' : ({ raft.recordMatch response.id response.lastLogIndex with
              commitIndex := RaftNode.quorumIndex
                (raft.recordMatch response.id response.lastLogIndex).matchIndex } :
                RaftNode).logs.FromStart := hstart
          obtain ⟨_, ⟨_, _, _, rfl⟩, -⟩ := RaftNode.applyEntry_spec hstart' hhandle
          exact ⟨hlead.2, by omega, by simpa using hsuccess, rfl, rfl, rfl⟩
        next => cases hhandle; exact absurd hadvance (lt_irrefl _)

theorem step_appendResponse {src : ℕ} {response : AppendEntriesResponse}
    (hstep : c.step (.handle id env (.deliver src (.appendEntriesResponse response))) = some c') :
    id ∈ c.members ∧ (⟨src, id, .appendEntriesResponse response⟩ : Packet) ∈ c.network ∧
      ∃ raft', (c.node id).handleAppendEntriesResponse env response = .ok raft' ∧
        c'.members = c.members ∧ c'.node = update c.node id raft' := by
  obtain ⟨hid, network, raft', output, hconsume, hhandle, rfl⟩ := Cluster.step_handle hstep
  obtain ⟨⟨_, packets⟩, hreceive, hout⟩ := RaftNode.exists_of_map_eq_ok hhandle
  cases hout
  obtain ⟨_, hresponse, hout⟩ := RaftNode.exists_of_map_eq_ok hreceive
  cases hout
  exact ⟨hid, (Cluster.consume_some hconsume).1, raft', hresponse, rfl, rfl⟩

omit [Platform] in
/-- What a majority confirmed, a majority holds now. -/
theorem Sim.majority_holds (hs : Sim 3 members node network h) {T i : ℕ}
    (hchosen : h.Chosen members T i) :
    Majority members (members.filter fun m =>
      (node m).logs.getEntry (i + 1) = (h.leaderLog T)[i]?) := by
  have hr := hs.replicated (by omega)
  obtain ⟨hown, voters, hmaj, hacked⟩ := hchosen
  refine hmaj.mono (fun m hm => ?_) (Finset.filter_subset _ _)
  have hmem : m ∈ members := hmaj.1 hm
  have hn := hs.nodes m hmem
  have hpre := Retained.log_prefix hr.retained (hs.inherited le_rfl) hs.election
    ⟨hown, voters, hmaj, hacked⟩ (hacked m hm)
  rw [(hn.log (by omega)).log] at hpre
  have hlen : i < (h.upTo T i).length := by
    rw [History.length_upTo hown.lt_length]
    exact Nat.lt_succ_self i
  refine Finset.mem_filter.mpr ⟨hmem, ?_⟩
  calc (node m).logs.getEntry (i + 1) = (node m).logs.entries[i]? := hn.votes.fromStart.getEntry
    _ = some (h.upTo T i)[i] := List.prefix_iff_getElem?.mp hpre i hlen
    _ = (h.upTo T i)[i]? := (List.getElem?_eq_getElem hlen).symm
    _ = (h.leaderLog T)[i]? := List.getElem?_take_of_lt (Nat.lt_succ_self i)

/-- The entry a leader commits up to is of its term, and a majority holds it. -/
theorem Sim.exists_committed (hs : Sim 3 members node network h) (hid : id ∈ members) {src : ℕ}
    {response : AppendEntriesResponse}
    (hmem : (⟨src, id, .appendEntriesResponse response⟩ : Packet) ∈ network)
    (hown : (node id).CommitsOwnTerm response)
    (hhandle : (node id).handleAppendEntriesResponse env response = .ok raft')
    (hadvance : (node id).commitIndex < raft'.commitIndex) :
    ∃ entry, (node id).logs.getEntry raft'.commitIndex = some entry ∧
      entry.term = (node id).currentTerm ∧
      Majority members (members.filter fun m =>
        (node m).logs.getEntry raft'.commitIndex = some entry) := by
  have hpacket := hs.packets _ hmem
  have hn := hs.nodes id hid
  obtain ⟨hrole, hterm, hsuccess, hcommit, -, -⟩ :=
    commitIndex_advances hn.votes.fromStart hhandle hadvance
  -- the state between recording the report and committing
  have hs₁ : Sim 3 members (update node id (node id)) network h := by rwa [update_eq_self]
  have hs₂ := hs₁.recordMatch hid hpacket.message hpacket.src hpacket.ne hterm hsuccess
  obtain ⟨-, hchosen⟩ := hs₂.chosen_of_quorum hid (by omega) hrole (hown hrole hterm hsuccess)
    (hcommit ▸ hadvance)
  rw [← hcommit] at hchosen
  obtain ⟨i, hi⟩ : ∃ i, raft'.commitIndex = i + 1 := ⟨raft'.commitIndex - 1, by omega⟩
  rw [hi, Nat.add_sub_cancel] at hchosen
  have hchosen : h.Chosen members (node id).currentTerm i := hchosen
  obtain ⟨entry, hentry, hentryTerm⟩ := hchosen.1
  have hmaj := hs.majority_holds hchosen
  rw [hentry, ← hi] at hmaj
  have hlead := (hs.replicated (by omega)).matching.leading (hn.votes.leader hrole) hn.votes.term
  rw [(hn.log (by omega)).log] at hlead
  refine ⟨entry, ?_, hentryTerm, hmaj⟩
  rw [hi, hn.votes.fromStart.getEntry, hlead, hentry]

/-- **A leader's commit is sound.** -/
theorem commitSound (hinit : c₀.Initial) (hrun : Run Cluster.step Cluster.CommitsHold c₀ c)
    {src : ℕ} {response : AppendEntriesResponse}
    (hok : Cluster.CommitsHold c (.handle id env (.deliver src (.appendEntriesResponse response))))
    (hstep : c.step (.handle id env (.deliver src (.appendEntriesResponse response))) = some c')
    (hadvance : (c.node id).commitIndex < (c'.node id).commitIndex) : c'.CommitSound id := by
  obtain ⟨h, hs⟩ := exists_sim_of_run hinit (hrun.mono Cluster.CommitsHold.regular)
  obtain ⟨hid, hmem, raft', hhandle, hmembers, hnode⟩ := step_appendResponse hstep
  rw [hnode, update_self] at hadvance
  have hstart := (hs.nodes id hid).votes.fromStart
  obtain ⟨entry, hget, hterm, hmaj⟩ :=
    hs.exists_committed hid hmem (hok.ownTerm _ rfl) hhandle hadvance
  obtain ⟨-, -, -, -, hlogs, hcurrent⟩ := commitIndex_advances hstart hhandle hadvance
  have hsame : ∀ m, (c'.node m).logs = (c.node m).logs := by
    intro m
    rw [hnode, update_apply]
    split
    next heq => rw [heq, hlogs]
    next => rfl
  have hcommit : (c'.node id).commitIndex = raft'.commitIndex := by rw [hnode, update_self]
  have hterm' : (c'.node id).currentTerm = (c.node id).currentTerm := by
    rw [hnode, update_self, hcurrent]
  unfold Cluster.CommitSound
  simp only [hsame, hcommit, hterm', hmembers]
  refine ⟨?_, entry, hget, hterm, hmaj⟩
  obtain ⟨k, hk, hentry⟩ := hstart.exists_of_getEntry hget
  rw [hk, hstart.lastLogIndex]
  exact (List.getElem?_eq_some_iff.mp hentry).1

end Commit

/-! ## Later leaders, and all members -/

section Theorems

variable [Platform]

omit [Platform] in
theorem History.Chosen.exists_leader {T i : ℕ} (hm : Matching h) (hchosen : h.Chosen members T i) :
    ∃ l, h.leader T = some l := by
  obtain ⟨entry, hentry, hterm⟩ := hchosen.1
  have hmem := List.mem_of_getElem? hentry
  exact hterm ▸ hm.exists_leader (hm.backed_leader T) hmem

/-- **Leader completeness.** -/
theorem leaderCompleteness (hinit : c₀.Initial)
    (hrun : Run Cluster.step Cluster.CommitsHold c₀ c)
    (hlater : Run Cluster.step Cluster.CommitsHold c c') : c.LeaderComplete c' := by
  obtain ⟨h, hs⟩ := exists_sim_of_run hinit (hrun.mono Cluster.CommitsHold.regular)
  obtain ⟨h', hg, hs'⟩ := hs.run (hlater.mono Cluster.CommitsHold.regular)
  intro l hl hrole m hm hrole' hterm index entry hindex hentry
  have hn := hs.nodes l hl
  have hn' := hs'.nodes m hm
  have hr := hs.replicated (by omega)
  have hr' := hs'.replicated (by omega)
  have hlead := hr.matching.leading (hn.votes.leader hrole) hn.votes.term
  have hlead' := hr'.matching.leading (hn'.votes.leader hrole') hn'.votes.term
  rw [(hn.log (by omega)).log] at hlead
  rw [(hn'.log (by omega)).log] at hlead'
  obtain ⟨k, rfl, -⟩ := hn.votes.fromStart.exists_of_getEntry hentry
  rcases (hn.commit le_rfl).commit with hzero | ⟨T, hT, i, hchosen, hcommit⟩
  · omega
  · -- both logs start with what a majority confirmed
    have hpre := Inherited.leaderLog_prefix (hs.inherited le_rfl) hs.election hr.matching hchosen
      hT (hn.votes.leader hrole)
    have hchosen' : h'.Chosen c'.members T i := by
      rw [Cluster.members_of_run hlater]
      exact hg.chosen hr.matching hchosen
    have hpre' := Inherited.leaderLog_prefix (hs'.inherited le_rfl) hs'.election hr'.matching
      hchosen' (hT.trans hterm.le) (hn'.votes.leader hrole')
    have hlen := hchosen.1.lt_length
    obtain ⟨first, hfirst⟩ := History.Chosen.exists_leader hr.matching hchosen
    rw [← hlead] at hpre
    rw [← hlead', upTo_eq_of_isPrefix (hg.leaderLog hfirst) hlen] at hpre'
    obtain ⟨entry', hget, hget'⟩ := agreeUpTo_of_isPrefix hn.votes.fromStart hn'.votes.fromStart
      hpre hpre' (History.length_upTo hlen).ge (k + 1) (by omega) (by omega)
    obtain rfl : entry = entry' := Option.some.inj (hentry.symm.trans hget)
    exact ⟨entry, hget', rfl, rfl⟩

/-- **State machine safety.** -/
theorem stateMachineSafety (hinit : c.Initial) (hrun : Run Cluster.step Cluster.CommitsHold c c') :
    c'.ApplySafe := by
  obtain ⟨h, hs⟩ := exists_sim_of_run hinit (hrun.mono Cluster.CommitsHold.regular)
  intro m hm m' hm' index entry entry' hmem hmem'
  obtain ⟨T, i, hchosen, hpos, hle, hentry⟩ :=
    ((hs.nodes m hm).commit le_rfl).applied index entry hmem
  obtain ⟨T', i', hchosen', -, hle', hentry'⟩ :=
    ((hs.nodes m' hm').commit le_rfl).applied index entry' hmem'
  have hagree := Inherited.chosen_agree (hs.inherited le_rfl) hs.election
    (hs.replicated (by omega)).matching hchosen hchosen' (j := index - 1) (by omega) (by omega)
  rw [hentry, hentry'] at hagree
  obtain rfl : entry = entry' := Option.some.inj hagree
  exact ⟨rfl, rfl⟩

end Theorems

/-! ## Runs that keep what is committed -/

/-- The leader hears that the entry is stored. -/
def hearStored : Action :=
  .handle 1 late (.deliver 2 (stored 1))

/-- The steps of `replicateOne` before the last. -/
def replicateUnheard : List Action :=
  replicateOne.dropLast

theorem commitSound_hearStored :
    ∃ c c', @Run _ _ (@Cluster.step plainPlatform) (@Cluster.CommitsHold plainPlatform)
        twoNodes c ∧ @Cluster.step plainPlatform c hearStored = some c' ∧
      (c.node 1).commitIndex < (c'.node 1).commitIndex ∧ c'.CommitSound 1 := by
  obtain ⟨c, c', hrun, hstep, hcheck⟩ := Run.exists_step_of_exec (@Cluster.step plainPlatform)
    (@Cluster.CommitsHold plainPlatform) twoNodes replicateUnheard hearStored
    (fun c c' => decide (@Cluster.CommitsHold plainPlatform c hearStored ∧
      (c.node 1).commitIndex < (c'.node 1).commitIndex)) (by decide)
  obtain ⟨hok, hadvance⟩ := of_decide_eq_true hcheck
  exact ⟨c, c', hrun, hstep, hadvance,
    @commitSound _ _ _ _ _ plainPlatform initial_twoNodes hrun _ _ hok hstep hadvance⟩

/-- Clock readings at which the election timeouts passed again. -/
def later : Env :=
  { monotonicMs := 600 }

/-- Clock readings at which they passed a third time. -/
def latest : Env :=
  { monotonicMs := 900 }

/-- Member 2 becomes the leader of term 2, with the entry of term 1. -/
def electSecond : List Action :=
  [.handle 2 later .electionTimeout,
    .handle 1 later (.deliver 2 (.requestVoteRequest
      { term := 2, candidateId := 2, lastLogIndex := 1, lastLogTerm := 1 })),
    .handle 2 later (.deliver 1 (vote 1 2))]

theorem leaderCompleteness_electSecond :
    ∃ c c', @Run _ _ (@Cluster.step plainPlatform) (@Cluster.CommitsHold plainPlatform)
        twoNodes c ∧
      @Run _ _ (@Cluster.step plainPlatform) (@Cluster.CommitsHold plainPlatform) c c' ∧
      (c.node 1).commitIndex = 1 ∧ (c'.node 2).role = .leader ∧ c.LeaderComplete c' := by
  obtain ⟨c, c', hrun, hlater, hcheck⟩ := Run.exists_later_of_exec (@Cluster.step plainPlatform)
    (@Cluster.CommitsHold plainPlatform) (@Cluster.CommitsHold plainPlatform)
    twoNodes replicateOne electSecond
    (fun c c' => decide ((c.node 1).commitIndex = 1 ∧ (c'.node 2).role = .leader)) (by decide)
  obtain ⟨hcommit, hrole⟩ := of_decide_eq_true hcheck
  exact ⟨c, c', hrun, hlater, hcommit, hrole,
    @leaderCompleteness _ _ _ plainPlatform initial_twoNodes hrun hlater⟩

theorem stateMachineSafety_replicateOne :
    ∃ c', @Run _ _ (@Cluster.step plainPlatform) (@Cluster.CommitsHold plainPlatform)
        twoNodes c' ∧
      (c'.node 1).applied = [(1, created 1 "a")] ∧ c'.ApplySafe := by
  obtain ⟨c', hrun, happlied⟩ := Run.exists_of_exec (@Cluster.step plainPlatform)
    (@Cluster.CommitsHold plainPlatform) twoNodes replicateOne
    (fun c' => decide ((c'.node 1).applied = [(1, created 1 "a")])) (by decide)
  exact ⟨c', hrun, of_decide_eq_true happlied,
    @stateMachineSafety _ _ plainPlatform initial_twoNodes hrun⟩

/-! ## Runs that lose it -/

/-- The leader has a third entry when it hears of three stored ones. -/
def hearResend : Action :=
  .handle 1 late (.deliver 2 (stored 3))

/-- The leader commits an entry that only it holds. -/
theorem exists_unsound_commit :
    @Cluster.Initial plainPlatform twoNodes ∧
      ∃ c c', Run (@Cluster.step plainPlatform) (fun _ action => action.restarts = false)
        twoNodes c ∧ @Cluster.step plainPlatform c hearResend = some c' ∧
        (c.node 1).commitIndex < (c'.node 1).commitIndex ∧ ¬ c'.CommitSound 1 := by
  obtain ⟨c, c', hrun, hstep, hcheck⟩ := Run.exists_step_of_exec (@Cluster.step plainPlatform)
    (fun _ action => action.restarts = false) twoNodes reportResend.dropLast hearResend
    (fun c c' => decide ((c.node 1).commitIndex < (c'.node 1).commitIndex ∧
      (c'.node 1).logs.getEntry (c'.node 1).commitIndex = some (created 3 "c") ∧
      ¬ Majority c'.members (c'.members.filter fun m =>
        (c'.node m).logs.getEntry (c'.node 1).commitIndex = some (created 3 "c")))) (by decide)
  obtain ⟨hadvance, hget, hmaj⟩ := of_decide_eq_true hcheck
  refine ⟨initial_twoNodes, c, c', hrun, hstep, hadvance, fun hsound => ?_⟩
  obtain ⟨-, entry, hentry, -, hmaj'⟩ := hsound
  rw [hget] at hentry
  obtain rfl := Option.some.inj hentry
  exact hmaj hmaj'

/-- Member 2 hears that three entries are committed. -/
def commitResend : List Action :=
  [.handle 1 late .heartbeat,
    .handle 2 late (.deliver 1 (.appendEntriesRequest
      { term := 1, leaderId := 1, prevLogIndex := 3, prevLogTerm := 1, leaderCommit := 3 }))]

/-- Both members apply their second entry, and the entries differ. -/
theorem exists_different_applied :
    @Cluster.Initial plainPlatform twoNodes ∧
      ∃ c', Run (@Cluster.step plainPlatform) (fun _ action => action.restarts = false)
        twoNodes c' ∧ ¬ c'.ApplySafe := by
  obtain ⟨c', hrun, happlied⟩ := Run.exists_of_exec (@Cluster.step plainPlatform)
    (fun _ action => action.restarts = false) twoNodes
    (reportResend ++ commitResend)
    (fun c' => decide (1 ∈ c'.members ∧ 2 ∈ c'.members ∧
      (2, created 2 "b") ∈ (c'.node 1).applied ∧ (2, created 1 "a") ∈ (c'.node 2).applied))
    (by decide)
  obtain ⟨hfirst, hsecond, hleader, hfollower⟩ := of_decide_eq_true happlied
  refine ⟨initial_twoNodes, c', hrun, fun hsafe => ?_⟩
  have hcommand := (hsafe 1 hfirst 2 hsecond 2 _ _ hleader hfollower).2
  exact absurd hcommand (by decide)

/-- Four members without data nodes. -/
def fourNodes : Cluster :=
  Cluster.fresh [1, 2, 3, 4] nodup_fourMembers []

/-- The entry of the leader of term 2. -/
def committed : LogEntry :=
  { term := 2, index := 1, command := some (.mkdir (directory "c")) }

/-- The leader of term 2 sends its entry. -/
def sendCommitted : Message :=
  .appendEntriesRequest { term := 2, leaderId := 2, entries := [committed] }

/-- A member confirms the entry. -/
def storedBy (member : ℕ) : Message :=
  .appendEntriesResponse { id := member, term := 2, success := true, lastLogIndex := 1 }

/-- Member 1 leads term 1 and keeps two entries to itself; member 2 leads term 2 and
commits an entry with members 3 and 4. -/
def commitInSecondTerm : List Action :=
  [.handle 1 late .electionTimeout,
    .handle 3 late (.deliver 1 (voteRequest 1 1)),
    .handle 4 late (.deliver 1 (voteRequest 1 1)),
    .handle 1 late (.deliver 3 (vote 3 1)),
    .handle 1 late (.deliver 4 (vote 4 1)),
    .handle 1 late (.makeDir (directory "a")),
    .handle 1 late (.makeDir (directory "b")),
    .handle 2 late .electionTimeout,
    .handle 2 later .electionTimeout,
    .handle 1 later (.deliver 2 (voteRequest 2 2)),
    .handle 3 later (.deliver 2 (voteRequest 2 2)),
    .handle 4 later (.deliver 2 (voteRequest 2 2)),
    .handle 2 later (.deliver 3 (vote 3 2)),
    .handle 2 later (.deliver 4 (vote 4 2)),
    .handle 2 later (.makeDir (directory "c")),
    .handle 2 later .heartbeat,
    .handle 3 later (.deliver 2 sendCommitted),
    .handle 4 later (.deliver 2 sendCommitted),
    .handle 2 later (.deliver 3 (storedBy 3)),
    .handle 2 later (.deliver 4 (storedBy 4))]

/-- Member 1 has the longer log, of the older term, and wins term 3. -/
def electLongerLog : List Action :=
  [.handle 1 latest .electionTimeout,
    .handle 3 latest (.deliver 1 (.requestVoteRequest
      { term := 3, candidateId := 1, lastLogIndex := 2, lastLogTerm := 1 })),
    .handle 4 latest (.deliver 1 (.requestVoteRequest
      { term := 3, candidateId := 1, lastLogIndex := 2, lastLogTerm := 1 })),
    .handle 1 latest (.deliver 3 (vote 3 3)),
    .handle 1 latest (.deliver 4 (vote 4 3))]

theorem exists_incomplete_leader :
    @Cluster.Initial plainPlatform fourNodes ∧
      ∃ c c', Run (@Cluster.step plainPlatform) (fun _ action => action.restarts = false)
        fourNodes c ∧
        Run (@Cluster.step plainPlatform) (fun _ action => action.restarts = false) c c' ∧
        ¬ c.LeaderComplete c' := by
  obtain ⟨c, c', hrun, hlater, hcheck⟩ := Run.exists_later_of_exec (@Cluster.step plainPlatform)
    (fun _ action => action.restarts = false) (fun _ action => action.restarts = false)
    fourNodes commitInSecondTerm electLongerLog
    (fun c c' => decide (2 ∈ c.members ∧ 1 ∈ c'.members ∧ (c.node 2).role = .leader ∧
      (c'.node 1).role = .leader ∧ (c.node 2).currentTerm < (c'.node 1).currentTerm ∧
      (c.node 2).commitIndex = 1 ∧ (c.node 2).logs.getEntry 1 = some committed ∧
      (c'.node 1).logs.getEntry 1 = some (created 1 "a"))) (by decide)
  obtain ⟨hfirst, hsecond, hrole, hrole', hterm, hcommit, hget, hget'⟩ := of_decide_eq_true hcheck
  refine ⟨@Cluster.initial_fresh plainPlatform .., c, c', hrun, hlater, fun hcomplete => ?_⟩
  obtain ⟨entry, hentry, hsame, -⟩ :=
    hcomplete 2 hfirst hrole 1 hsecond hrole' hterm 1 committed hcommit.ge hget
  rw [hget'] at hentry
  obtain rfl := Option.some.inj hentry
  exact absurd hsame (by decide)

end Vosfs.Raft
