import Vosfs.Raft.LogAccess

/-!
# When a majority commits

A leader sorts what it recorded in `match_index_` and commits `idxs[n / 2]`.  Its own slot is
there too, and it stays 0 as no leader answers itself, in every run (`Cluster.Slotted`).

So the position is that of an index which `n - n / 2` other members reached: with the leader
that is a majority, and the smallest one if `n` is even.  If `n` is odd, half of the other
members would do, and the code waits for one more; with a single member it waits forever, as
the step that appends an entry never commits.  `majorityCommits` says that a step is late in
these cases only.
-/

namespace Vosfs.Raft

open Function

namespace RaftNode

variable {env : Env} {node node' : RaftNode} {index : ℕ}

/-! ## Slots -/

/-- What a step does to the recorded indices and to the role. -/
inductive SlotStep (node node' : RaftNode) : Input → Prop
  | keeps {input : Input} (recorded : node'.matchIndex = node.matchIndex)
      (role : node'.role = .leader → node.role = .leader) : SlotStep node node' input
  | leads {input : Input} (recorded : node'.matchIndex = node.transport.peers.foldl
      (fun matchIndex id => matchIndex.insert id 0) node.matchIndex) : SlotStep node node' input
  | records {src : ℕ} {response : AppendEntriesResponse} (role : node.role = .leader)
      (recorded : node'.matchIndex =
        node.matchIndex.insert response.id response.lastLogIndex) :
      SlotStep node node' (.deliver src (.appendEntriesResponse response))

theorem SlotStep.refl {input : Input} : SlotStep node node input := .keeps rfl id

theorem SlotStep.of_catchUp {term : ℕ} {input : Input}
    (recorded : node'.matchIndex = (node.catchUp env term).matchIndex)
    (role : node'.role = (node.catchUp env term).role) : SlotStep node node' input := by
  have hcaught : (node.catchUp env term).matchIndex = node.matchIndex ∧
      ((node.catchUp env term).role = .leader → node.role = .leader) := by
    unfold catchUp
    split
    next => exact ⟨rfl, nofun⟩
    next => exact ⟨rfl, id⟩
  exact .keeps (recorded.trans hcaught.1) fun hrole => hcaught.2 (role ▸ hrole)

theorem tryToLead_slots {input : Input} : SlotStep node node.tryToLead input := by
  unfold tryToLead
  split
  next => exact .leads rfl
  next => exact .refl

theorem electionLoop_slots : SlotStep node (node.electionLoop env).1 .electionTimeout := by
  unfold electionLoop
  split
  next => exact .refl
  next =>
    have hvoted : SlotStep node.startElection.voteForSelf
      node.startElection.voteForSelf.tryToLead .electionTimeout := tryToLead_slots
    cases hvoted with
    | keeps recorded role => exact .keeps recorded fun hrole => nomatch role hrole
    | leads recorded => exact .leads recorded

theorem handleRequestVoteRequest_slots {src : ℕ} {request : RequestVoteRequest} :
    SlotStep node (node.handleRequestVoteRequest env request).1
      (.deliver src (.requestVoteRequest request)) := by
  unfold handleRequestVoteRequest
  split
  next => exact .refl
  next =>
    simp only
    split <;> exact .of_catchUp rfl rfl

theorem handleRequestVoteResponse_slots {src : ℕ} {response : RequestVoteResponse} :
    SlotStep node (node.handleRequestVoteResponse env response)
      (.deliver src (.requestVoteResponse response)) := by
  unfold handleRequestVoteResponse
  split
  next => exact .refl
  next =>
    split
    next => exact .keeps rfl nofun
    next =>
      split
      next => exact .refl
      next =>
        split
        next =>
          have hcounted : SlotStep { node with votes := node.votes + 1 }
            { node with votes := node.votes + 1 }.tryToLead
            (.deliver src (.requestVoteResponse response)) := tryToLead_slots
          cases hcounted with
          | keeps recorded role => exact .keeps recorded role
          | leads recorded => exact .leads recorded
        next => exact .refl

section Step

variable [Platform]

theorem afterEntries_slots {src : ℕ} {request : AppendEntriesRequest}
    (hafter : node.afterEntries env request = .ok node') :
    SlotStep node node' (.deliver src (.appendEntriesRequest request)) := by
  rcases lt_or_ge request.term node.currentTerm with hlate | hterm
  · unfold afterEntries at hafter
    rw [if_pos hlate] at hafter
    cases hafter
    exact .refl
  · have hraft := afterEntries_keepsRaft hterm hafter
    exact .of_catchUp hraft.matchIndex hraft.role

theorem handleAppendEntriesResponse_slots {src : ℕ} {response : AppendEntriesResponse}
    (hafter : node.handleAppendEntriesResponse env response = .ok node') :
    SlotStep node node' (.deliver src (.appendEntriesResponse response)) := by
  cases outcome_of_handleAppendEntriesResponse hafter with
  | ignored => exact .refl
  | deposed => exact .keeps rfl nofun
  | rejected => exact .keeps rfl id
  | confirmed hconfirms hadvance =>
    exact .records hconfirms.1 (movesCommit_of_advanceCommit hadvance).keepsRaft.matchIndex

theorem handleInstallSnapshotRequest_slots {src : ℕ} {request : InstallSnapshotRequest} :
    SlotStep node (node.handleInstallSnapshotRequest env request).1
      (.deliver src (.installSnapshotRequest request)) := by
  generalize hafter : (node.handleInstallSnapshotRequest env request).1 = node'
  cases outcome_of_handleInstallSnapshotRequest hafter with
  | late => exact .refl
  | received => exact .of_catchUp rfl rfl
  | installed => exact .of_catchUp rfl rfl

theorem slotStep_of_after {input : Input} (hafter : node.after env input = .ok node') :
    SlotStep node node' input := by
  cases input with
  | electionTimeout => cases hafter; exact electionLoop_slots
  | heartbeat =>
    have hraft := (moves_of_heartbeat hafter).keepsRaft
    exact .keeps hraft.matchIndex fun hrole => hraft.role ▸ hrole
  | deliver src message =>
    cases message with
    | requestVoteRequest request => cases hafter; exact handleRequestVoteRequest_slots
    | requestVoteResponse response => cases hafter; exact handleRequestVoteResponse_slots
    | appendEntriesRequest request => exact afterEntries_slots hafter
    | appendEntriesResponse response => exact handleAppendEntriesResponse_slots hafter
    | installSnapshotRequest request => cases hafter; exact handleInstallSnapshotRequest_slots
    | installSnapshotResponse response =>
      rcases cases_handleInstallSnapshotResponse hafter with ⟨-, rfl⟩ | hmoves
      · exact .keeps rfl nofun
      · exact .keeps hmoves.keepsRaft.matchIndex fun hrole => hmoves.keepsRaft.role ▸ hrole
  | listDir request => cases hafter; exact .refl
  | makeDir request => cases outcome_of_makeDir hafter <;> exact .keeps rfl id
  | prepareUploadFile request =>
    obtain ⟨_, rfl⟩ := exists_of_prepareUploadFile hafter
    exact .keeps rfl id
  | uploadFile request => cases outcome_of_uploadFile hafter <;> exact .keeps rfl id
  | prepareDownloadFile request => cases hafter; exact .refl

end Step

/-- There is a slot for each member once the node leads, and its own one is 0. -/
structure Slots (members : Finset ℕ) (id : ℕ) (node : RaftNode) : Prop where
  memberId : node.memberId = id
  member : id ∈ members
  peers : ∀ peer, peer ∈ node.transport.peers ↔ peer ∈ members
  known : ∀ peer ∈ node.matchIndex, peer ∈ members
  complete : node.role = .leader → ∀ peer ∈ members, peer ∈ node.matchIndex
  own : node.role = .leader → node.matchIndex.lookup id = some 0

variable {members : Finset ℕ} {id : ℕ}

theorem Slots.recorded {peer lastLogIndex : ℕ} (hslots : Slots members id node)
    (hpeer : peer ∈ members) (hne : peer ≠ id) (hmember : node'.memberId = id)
    (hpeers : node'.transport.peers = node.transport.peers)
    (hrole : node.role = .leader)
    (hrecorded : node'.matchIndex = node.matchIndex.insert peer lastLogIndex) :
    Slots members id node' := by
  refine ⟨hmember, hslots.member, hpeers ▸ hslots.peers, fun other hother => ?_,
    fun _ other hother => ?_, fun _ => ?_⟩
  · rw [hrecorded, AList.mem_insert] at hother
    exact hother.elim (fun heq => heq ▸ hpeer) (hslots.known other)
  · rw [hrecorded, AList.mem_insert]
    exact Or.inr (hslots.complete hrole other hother)
  · rw [hrecorded, UnorderedMap.lookup_insert_eq, if_neg hne.symm]
    exact hslots.own hrole

/-- **The step lemma**, for one node: an answer must come from another member. -/
theorem Slots.step {input : Input} (hslots : Slots members id node)
    (htransport : node'.transport = node.transport)
    (hanswer : ∀ src response, input = .deliver src (.appendEntriesResponse response) →
      response.id ∈ members ∧ response.id ≠ id)
    (hstep : SlotStep node node' input) : Slots members id node' := by
  have hmember := (memberId_of_transport htransport).trans hslots.memberId
  have hpeers := congrArg Transport.peers htransport
  cases hstep with
  | keeps recorded role =>
    refine ⟨hmember, hslots.member, hpeers ▸ hslots.peers, recorded ▸ hslots.known, ?_, ?_⟩
    · exact fun hrole => recorded ▸ hslots.complete (role hrole)
    · exact fun hrole => recorded ▸ hslots.own (role hrole)
  | leads recorded =>
    -- a new leader sets the slots of all members, its own one too
    have hlookup : ∀ peer ∈ members, node'.matchIndex.lookup peer = some 0 := fun peer hpeer => by
      rw [recorded, UnorderedMap.lookup_foldl_insert, if_pos ((hslots.peers peer).mpr hpeer)]
    refine ⟨hmember, hslots.member, hpeers ▸ hslots.peers, fun peer hpeer => ?_,
      fun _ peer hpeer => ?_, fun _ => hlookup id hslots.member⟩
    · obtain ⟨index, hindex⟩ := UnorderedMap.mem_iff_lookup.mp hpeer
      rw [recorded, UnorderedMap.lookup_foldl_insert] at hindex
      split at hindex
      next hmem => exact (hslots.peers peer).mp hmem
      next => exact hslots.known peer (UnorderedMap.mem_iff_lookup.mpr ⟨index, hindex⟩)
    · exact UnorderedMap.mem_iff_lookup.mpr ⟨0, hlookup peer hpeer⟩
  | records role recorded =>
    obtain ⟨hmem, hne⟩ := hanswer _ _ rfl
    exact hslots.recorded hmem hne hmember hpeers role recorded

/-! ## Counting members -/

/-- The members a leader counts at an index: itself by the end of its log, and the others by
what it recorded of them. -/
def countsAt (node : RaftNode) (index peer : ℕ) : Bool :=
  if peer = node.memberId then index ≤ node.logs.lastLogIndex
  else (node.matchIndex.lookup peer).any (index ≤ ·)

/-- A majority has reached an index of the leader's term. -/
def MajorityReached (node : RaftNode) (index : ℕ) : Prop :=
  node.role = .leader ∧ node.logs.getTerm index = some node.currentTerm ∧
    node.transport.clusterSize < 2 * node.transport.peers.countP (node.countsAt index)

/-- How many other members have reached an index. -/
def othersAt (node : RaftNode) (index : ℕ) : ℕ :=
  node.transport.peers.countP fun peer =>
    decide (peer ≠ node.memberId) && (node.matchIndex.lookup peer).any (index ≤ ·)

instance : Decidable (MajorityReached node index) :=
  inferInstanceAs (Decidable (_ ∧ _ ∧ _))

/-- The leader is one of the members that reached what it has. -/
theorem countP_countsAt (hmember : node.memberId ∈ node.transport.peers)
    (hlast : index ≤ node.logs.lastLogIndex) :
    node.transport.peers.countP (node.countsAt index) = node.othersAt index + 1 := by
  have hnodup := node.transport.nodup
  have hperm := List.perm_cons_erase hmember
  have hrest : ∀ peer ∈ node.transport.peers.erase node.memberId, peer ≠ node.memberId :=
    fun peer hpeer => ((hnodup.mem_erase_iff).mp hpeer).1
  unfold othersAt
  rw [hperm.countP_eq, hperm.countP_eq, List.countP_cons, List.countP_cons]
  have hself : node.countsAt index node.memberId = true := by simp [countsAt, hlast]
  simp only [hself, if_true, ne_eq, not_true_eq_false, decide_false, Bool.false_and,
    Bool.false_eq_true, if_false, Nat.add_zero, Nat.add_right_cancel_iff]
  refine List.countP_congr fun peer hpeer => ?_
  simp [countsAt, hrest peer hpeer]

/-- Among the recorded indices the leader's own one does not count. -/
theorem Slots.countP_values (hslots : Slots members id node) (hrole : node.role = .leader)
    (hpos : 0 < index) :
    node.matchIndex.values.length = node.transport.clusterSize ∧
      (node.matchIndex.values.countP fun recorded => decide (index ≤ recorded)) =
        node.othersAt index := by
  have hkeys : node.matchIndex.keys.toFinset = node.transport.peers.toFinset := by
    ext peer
    rw [List.mem_toFinset, List.mem_toFinset, ← AList.mem_keys, hslots.peers]
    exact ⟨hslots.known peer, hslots.complete hrole peer⟩
  constructor
  · rw [UnorderedMap.length_values, hkeys]
    exact List.toFinset_card_of_nodup node.transport.nodup
  · rw [UnorderedMap.countP_values, hkeys, othersAt, List.countP_eq_length_filter,
      ← List.toFinset_card_of_nodup (node.transport.nodup.filter _), List.toFinset_filter]
    refine congrArg Finset.card (Finset.filter_congr fun peer _ => ?_)
    -- the own slot is below any index from 1 on
    have hself : peer = node.memberId → (node.matchIndex.lookup peer).any (index ≤ ·) = false := by
      rintro rfl
      rw [hslots.memberId, hslots.own hrole]
      simp [hpos.ne']
    by_cases heq : peer = node.memberId
    · simp [heq, hself heq]
    · simp [heq]

/-- **What the quorum index covers**: more than half of the other members, rounded up. -/
theorem Slots.le_quorumIndex_iff (hslots : Slots members id node) (hrole : node.role = .leader)
    (hpos : 0 < index) : index ≤ quorumIndex node.matchIndex ↔
      node.transport.clusterSize ≤ node.transport.clusterSize / 2 + node.othersAt index := by
  obtain ⟨hlength, hcount⟩ := hslots.countP_values hrole hpos
  have hne : 0 < node.matchIndex.values.length := by
    rw [hlength]
    exact List.length_pos_of_mem ((hslots.peers id).mpr hslots.member)
  rw [← reached_iff hne, Reached, hlength, hcount]
  omega

theorem Slots.majorityReached_iff (hslots : Slots members id node) :
    node.MajorityReached index ↔ node.role = .leader ∧
      node.logs.getTerm index = some node.currentTerm ∧
        node.transport.clusterSize < 2 * (node.othersAt index + 1) := by
  refine and_congr_right fun _ => and_congr_right fun hterm => ?_
  have hmember : node.memberId ∈ node.transport.peers := by
    rw [hslots.memberId, hslots.peers]
    exact hslots.member
  rw [countP_countsAt hmember (RaftLog.le_lastLogIndex_of_getTerm hterm)]

/-! ## Commits that are late -/

/-- The step commits every index that it makes a majority reach. -/
def CommitsMajority (node : RaftNode) (input : Input) (node' : RaftNode) : Prop :=
  match input with
  | .deliver _ (.appendEntriesResponse response) =>
    node.Confirms response → ∀ index, ¬ node.MajorityReached index →
      (node.recordMatch response.id response.lastLogIndex).MajorityReached index →
        index ≤ node'.commitIndex
  | .makeDir _ | .uploadFile _ =>
    ∀ index, ¬ node.MajorityReached index → node'.MajorityReached index → index ≤ node'.commitIndex
  | _ => True

/-- No index past the commit index gets, with this answer, to just half of the other members;
an appended entry needs another member. -/
def HasMajority (env : Env) (node : RaftNode) : Input → Prop
  | .deliver _ (.appendEntriesResponse response) =>
    node.Confirms response → ∀ index, node.commitIndex < index →
      node.logs.getTerm index = some node.currentTerm → ¬ node.MajorityReached index →
        2 * (node.recordMatch response.id response.lastLogIndex).othersAt index + 1 ≠
          node.transport.clusterSize
  | input =>
    node.accepted env input ≠ none → node.commitIndex ≤ node.logs.lastLogIndex →
      2 * (node.othersAt (node.logs.lastLogIndex + 1) + 1) ≤ node.transport.clusterSize

theorem getTerm_appendEntry {log : RaftLog} {entry : LogEntry} :
    (log.appendEntry entry).getTerm index =
      if index = log.lastLogIndex + 1 then some entry.term else log.getTerm index := by
  unfold RaftLog.getTerm RaftLog.appendEntry RaftLog.lastLogIndex
  simp only
  by_cases hbase : index = log.lastIncludedIndex
  · rw [if_pos hbase, if_neg (by omega)]
    simp [hbase]
  · rw [if_neg hbase, if_neg hbase]
    by_cases hpast : log.lastIncludedIndex < index
    · rw [if_pos hpast, if_pos hpast]
      split
      next heq =>
        have hplace : index - log.lastIncludedIndex - 1 = log.entries.length := by omega
        rw [hplace, List.getElem?_concat_length]
        rfl
      next hne =>
        rw [List.getElem?_append]
        split
        next => rfl
        next hlt =>
          have hnone : log.entries.length ≤ index - log.lastIncludedIndex - 1 := by omega
          rw [List.getElem?_eq_none hnone, List.getElem?_eq_none (by simp; omega)]
    · rw [if_neg hpast, if_neg hpast, if_neg (by omega)]

/-- Only a leader takes commands. -/
theorem role_of_accepted {input : Input} {command : EntryCommand}
    (haccepted : node.accepted env input = some command) : node.role = .leader := by
  cases input with
  | makeDir request =>
    obtain ⟨hrefusal, -⟩ := Option.ite_none_right_eq_some.mp haccepted
    exact leader_of_refusal hrefusal
  | uploadFile request =>
    obtain ⟨hrefusal, -⟩ := Option.ite_none_right_eq_some.mp haccepted
    exact leader_of_refusal hrefusal
  | _ => cases haccepted

/-- Only the new entry can get to a majority, and it is not committed. -/
theorem Slots.commitsMajority_append_iff {input : Input} (hslots : Slots members id node)
    (houtcome : CommandOutcome env node input node') :
    (∀ index, ¬ node.MajorityReached index → node'.MajorityReached index →
        index ≤ node'.commitIndex) ↔
      (node.accepted env input ≠ none → node.commitIndex ≤ node.logs.lastLogIndex →
        2 * (node.othersAt (node.logs.lastLogIndex + 1) + 1) ≤ node.transport.clusterSize) := by
  cases houtcome with
  | refused hnone =>
    exact iff_of_true (fun _ hnot hreached => absurd hreached hnot) fun hsome => absurd hnone hsome
  | @appended command haccepted response =>
    have hrole : node.role = .leader := role_of_accepted haccepted
    have hslots' : Slots members id (node.appendCommand command response) :=
      ⟨hslots.memberId, hslots.member, hslots.peers, hslots.known, hslots.complete, hslots.own⟩
    have hterm : ∀ index, (node.appendCommand command response).logs.getTerm index =
        if index = node.logs.lastLogIndex + 1 then some node.currentTerm
        else node.logs.getTerm index := fun index => getTerm_appendEntry
    have hothers : ∀ index, (node.appendCommand command response).othersAt index =
      node.othersAt index := fun _ => rfl
    -- the leader counts at the new index only once the entry is in its log
    have hnew : ¬ node.MajorityReached (node.logs.lastLogIndex + 1) := by
      rintro ⟨-, hstored, -⟩
      have := RaftLog.le_lastLogIndex_of_getTerm hstored
      omega
    simp only [hslots'.majorityReached_iff, hterm, hothers]
    constructor
    · intro hcommits _ hcommit
      -- with a majority there, the step would have to commit its own entry
      by_contra hlt
      have hreached := hcommits _ hnew ⟨hrole, if_pos rfl, not_le.mp hlt⟩
      have hsame : (node.appendCommand command response).commitIndex = node.commitIndex := rfl
      omega
    · rintro hmajority index hnot ⟨-, hstored, hcount⟩
      split at hstored
      next heq =>
        subst heq
        by_contra hlt
        have hsame : (node.appendCommand command response).commitIndex = node.commitIndex := rfl
        have hneeds := hmajority (by rw [haccepted]; nofun) (by omega)
        have hsize : (node.appendCommand command response).transport.clusterSize =
          node.transport.clusterSize := rfl
        omega
      next => exact absurd (hslots.majorityReached_iff.mpr ⟨hrole, hstored, hcount⟩) hnot

section Commits

variable [Platform]

theorem commitIndex_of_advanceCommit (hadvance : node.advanceCommit env = .ok node') :
    node'.commitIndex = max node.commitIndex (quorumIndex node.matchIndex) := by
  unfold advanceCommit at hadvance
  split at hadvance
  next hlt =>
    have hcommit : node'.commitIndex = quorumIndex node.matchIndex :=
      (applyRounds_indexes hadvance).2.1
    rw [hcommit, max_eq_right hlt.le]
  next hge =>
    cases hadvance
    rw [max_eq_left (not_lt.mp hge)]

/-- The quorum index is late for what exactly half of the other members reached. -/
theorem Slots.commitsMajority_answer_iff {response : AppendEntriesResponse}
    (hslots : Slots members id node) (hpeer : response.id ∈ members) (hne : response.id ≠ id)
    (hafter : node.handleAppendEntriesResponse env response = .ok node') {src : ℕ} :
    node.CommitsMajority (.deliver src (.appendEntriesResponse response)) node' ↔
      node.HasMajority env (.deliver src (.appendEntriesResponse response)) := by
  refine forall_congr' fun hconfirms => ?_
  have hrole := hconfirms.1
  have hadvance : (node.recordMatch response.id response.lastLogIndex).advanceCommit env =
      .ok node' := by
    unfold handleAppendEntriesResponse at hafter
    rwa [if_neg (by simp [hrole, hconfirms.2.1]), if_neg (by simp [hconfirms.2.1]),
      if_neg (by simp [hconfirms.2.2])] at hafter
  have hslots' : Slots members id (node.recordMatch response.id response.lastLogIndex) :=
    hslots.recorded hpeer hne hslots.memberId rfl hrole rfl
  have hcommit : node'.commitIndex = max node.commitIndex
      (quorumIndex (node.recordMatch response.id response.lastLogIndex).matchIndex) :=
    commitIndex_of_advanceCommit hadvance
  have hsize : (node.recordMatch response.id response.lastLogIndex).transport.clusterSize =
    node.transport.clusterSize := rfl
  -- past the commit index, an index is committed exactly if the quorum index covers it
  have hcovered : ∀ index, node.commitIndex < index → (index ≤ node'.commitIndex ↔
      node.transport.clusterSize ≤ node.transport.clusterSize / 2 +
        (node.recordMatch response.id response.lastLogIndex).othersAt index) := by
    intro index hlt
    rw [hcommit, le_max_iff, or_iff_right (by omega), hslots'.le_quorumIndex_iff hrole (by omega),
      hsize]
  constructor
  · intro hcommits index hlt hterm hnot heq
    have hreached := hcommits index hnot (hslots'.majorityReached_iff.mpr
      ⟨hrole, hterm, by rw [hsize]; omega⟩)
    rw [hcovered index hlt] at hreached
    omega
  · intro hmajority index hnot hreached
    rcases Nat.lt_or_ge node.commitIndex index with hlt | hge
    · obtain ⟨-, hterm, hcount⟩ := hslots'.majorityReached_iff.mp hreached
      have hhalf := hmajority index hlt hterm hnot
      rw [hcovered index hlt]
      rw [hsize] at hcount
      omega
    · rw [hcommit]
      exact hge.trans (le_max_left _ _)

/-- **The step lemma.** -/
theorem Slots.commitsMajority_iff {input : Input} (hslots : Slots members id node)
    (hanswer : ∀ src response, input = .deliver src (.appendEntriesResponse response) →
      response.id ∈ members ∧ response.id ≠ id)
    (hafter : node.after env input = .ok node') :
    node.CommitsMajority input node' ↔ node.HasMajority env input := by
  have hquiet : node.accepted env input = none → (node.accepted env input ≠ none →
      node.commitIndex ≤ node.logs.lastLogIndex →
        2 * (node.othersAt (node.logs.lastLogIndex + 1) + 1) ≤ node.transport.clusterSize) :=
    fun hnone hsome => absurd hnone hsome
  cases input with
  | deliver src message =>
    cases message with
    | appendEntriesResponse response =>
      obtain ⟨hpeer, hne⟩ := hanswer _ _ rfl
      exact hslots.commitsMajority_answer_iff hpeer hne hafter
    | _ => exact iff_of_true trivial (hquiet rfl)
  | makeDir request => exact hslots.commitsMajority_append_iff (outcome_of_makeDir hafter)
  | uploadFile request => exact hslots.commitsMajority_append_iff (outcome_of_uploadFile hafter)
  | _ => exact iff_of_true trivial (hquiet rfl)

end Commits

end RaftNode

/-! ## The cluster -/

namespace Cluster

variable {c c' : Cluster}

/-- No member asks or answers itself. -/
def Addressed (c : Cluster) (packet : Packet) : Prop :=
  match packet.message with
  | .appendEntriesRequest _ => packet.src ≠ packet.dst
  | .appendEntriesResponse response =>
    response.id = packet.src ∧ packet.src ∈ c.members ∧ packet.src ≠ packet.dst
  | _ => True

/-- The invariant of the cluster: `Slots` at every node, and `Addressed` messages. -/
structure Slotted (c : Cluster) : Prop where
  nodes : ∀ id ∈ c.members, (c.node id).Slots c.members id
  packets : ∀ packet ∈ c.network, c.Addressed packet

theorem Slotted.answer {id src : ℕ} {network : List Packet} {input : Input}
    {response : AppendEntriesResponse} (hslotted : c.Slotted)
    (hconsume : consume c.network (delivered id input) = some network)
    (hinput : input = .deliver src (.appendEntriesResponse response)) :
    response.id ∈ c.members ∧ response.id ≠ id := by
  subst hinput
  obtain ⟨hsrc, hmem, hne⟩ := hslotted.packets _ (consume_some hconsume).1
  exact hsrc.symm ▸ ⟨hmem, hne⟩

variable [Platform]

/-- A member that was asked by another one answers it. -/
theorem Slotted.sends {id : ℕ} {env : Env} {input : Input} {node : RaftNode} {packet : Packet}
    (hslotted : c.Slotted) (hid : id ∈ c.members)
    (hdelivered : ∀ packet ∈ delivered id input, packet ∈ c.network)
    (hsends : (c.node id).Sends env input node packet) : c.Addressed packet := by
  have hmember := (hslotted.nodes id hid).memberId
  cases hsends with
  | voteRequest => trivial
  | entries _ _ _ other => exact other.symm
  | vote => trivial
  | appended hhandle =>
    have hne := hslotted.packets _ (hdelivered _ rfl)
    obtain ⟨hresponse, -⟩ := RaftNode.conflict_of_handle hhandle
    exact ⟨hresponse, hmember.symm ▸ hid, hmember.symm ▸ hne.symm⟩
  | installed => trivial

/-- **The step lemma.** -/
theorem Slotted.step {action : Action} (hslotted : c.Slotted) (hstep : c.step action = some c') :
    c'.Slotted := by
  cases action with
  | handle id env input =>
    obtain ⟨hid, network, node, output, hconsume, hhandle, rfl⟩ := step_handle hstep
    have hafter := RaftNode.after_of_handle hhandle
    have hdelivered := mem_of_taken hconsume
    constructor
    case nodes =>
      refine forall_update (fun other node' => node'.Slots c.members other) hslotted.nodes ?_
      exact (hslotted.nodes id hid).step (RaftNode.transport_of_after hafter)
        (fun _ _ hinput => hslotted.answer hconsume hinput) (RaftNode.slotStep_of_after hafter)
    case packets =>
      intro packet hpacket
      rcases List.mem_append.mp hpacket with hold | hnew
      · exact hslotted.packets packet (mem_of_consume hconsume hold)
      · exact hslotted.sends hid hdelivered (RaftNode.sends_of_handle hhandle packet hnew)
  | lose packet =>
    obtain ⟨network, hconsume, rfl⟩ := Option.map_eq_some_iff.mp hstep
    exact ⟨hslotted.nodes,
      fun packet' hpacket' => hslotted.packets packet' (mem_of_consume hconsume hpacket')⟩
  | restart id env input lost =>
    obtain ⟨hid, network, node, hconsume, hcreate, rfl⟩ := step_restart hstep
    obtain ⟨_, _, _, _, _, -, -, -, rfl⟩ := RaftNode.create_spec hcreate
    have hslots := hslotted.nodes id hid
    constructor
    case nodes =>
      refine forall_update (fun other node' => node'.Slots c.members other) hslotted.nodes ?_
      exact ⟨hslots.memberId, hid, hslots.peers, nofun, nofun, nofun⟩
    case packets =>
      exact fun packet hpacket => hslotted.packets packet (mem_of_consume hconsume hpacket)

theorem Slotted.initial (hinit : c.Initial) : c.Slotted := by
  constructor
  case nodes =>
    intro id hid
    obtain ⟨env, config, hmember, hpeers, hcreate⟩ := hinit.created id hid
    rw [create_empty hcreate]
    exact ⟨hmember, hid, hpeers, nofun, nofun, nofun⟩
  case packets =>
    rw [hinit.network]
    exact fun packet hpacket => absurd hpacket List.not_mem_nil

/-- **The run lemma.** -/
theorem slotted_of_run {allowed : Cluster → Action → Prop} (hinit : c.Initial)
    (hrun : Run step allowed c c') : c'.Slotted :=
  hrun.invariant Slotted (.initial hinit) fun hslotted _ hstep => hslotted.step hstep

end Cluster

/-- **When a majority commits.**  In every reachable state a step commits what it makes a
majority reach, if and only if more than half of the other members are part of it, or exactly
half of an even cluster. -/
theorem majorityCommits [Platform] {start c c' : Cluster} (hinit : start.Initial)
    (hrun : Run Cluster.step (fun _ _ => True) start c) {id : ℕ} {env : Env} {input : Input}
    (hstep : c.step (.handle id env input) = some c') :
    (c.node id).CommitsMajority input (c'.node id) ↔ (c.node id).HasMajority env input := by
  obtain ⟨hid, network, node, output, hconsume, hhandle, rfl⟩ := Cluster.step_handle hstep
  have hslotted := Cluster.slotted_of_run hinit hrun
  have hnode : (c.afterHandling id network node output).node id = node := update_self ..
  rw [hnode]
  exact (hslotted.nodes id hid).commitsMajority_iff
    (fun _ _ hinput => hslotted.answer hconsume hinput) (RaftNode.after_of_handle hhandle)

/-! ## Clusters of two, three and one -/

/-- With the other member of two the leader commits. -/
theorem majorityCommits_hearStored :
    ∃ c c', Run (@Cluster.step plainPlatform) (fun _ _ => True) twoNodes c ∧
      @Cluster.step plainPlatform c hearStored = some c' ∧
      ¬ (c.node 1).MajorityReached 1 ∧ (c'.node 1).MajorityReached 1 ∧
      (c.node 1).CommitsMajority (.deliver 2 (stored 1)) (c'.node 1) := by
  obtain ⟨c, c', hrun, hstep, hcheck⟩ := Run.exists_step_of_exec (@Cluster.step plainPlatform)
    (fun _ _ => True) twoNodes replicateUnheard hearStored
    (fun c c' => decide (¬ (c.node 1).MajorityReached 1 ∧ (c'.node 1).MajorityReached 1 ∧
      (c.node 1).transport.clusterSize = 2)) (by decide)
  obtain ⟨hbefore, hafter, hsize⟩ := of_decide_eq_true hcheck
  refine ⟨c, c', hrun, hstep, hbefore, hafter, ?_⟩
  refine (@majorityCommits plainPlatform _ _ _ initial_twoNodes hrun _ _ _ hstep).mpr ?_
  intro _ index _ _ _ heq
  omega

/-- Member 3 stores the entry of the leader of three. -/
def replicateToThird : List Action :=
  electFirst ++ [.handle 1 late (makeDir "a"),
    .handle 1 late .heartbeat,
    .handle 3 late (.deliver 1 (batch [created 1 "a"]))]

/-- The leader of three waits for a third member, and a single one commits nothing. -/
theorem exists_late_commit :
    (@Cluster.Initial plainPlatform threeNodes ∧
      ∃ c c', Run (@Cluster.step plainPlatform) (fun _ _ => True) threeNodes c ∧
        @Cluster.step plainPlatform c (.handle 1 late (.deliver 3 (confirm 3 1 1))) = some c' ∧
        ¬ (c.node 1).MajorityReached 1 ∧ (c'.node 1).MajorityReached 1 ∧
        (c'.node 1).commitIndex = 0) ∧
      @Cluster.Initial plainPlatform (Cluster.fresh [1] (by decide) []) ∧
      ∃ c c', Run (@Cluster.step plainPlatform) (fun _ _ => True)
          (Cluster.fresh [1] (by decide) []) c ∧
        @Cluster.step plainPlatform c (.handle 1 late (makeDir "a")) = some c' ∧
        ¬ (c.node 1).MajorityReached 1 ∧ (c'.node 1).MajorityReached 1 ∧
        (c'.node 1).commitIndex = 0 := by
  refine ⟨⟨@Cluster.initial_fresh plainPlatform .., ?_⟩, @Cluster.initial_fresh plainPlatform .., ?_⟩
  · obtain ⟨c, c', hrun, hstep, hcheck⟩ := Run.exists_step_of_exec (@Cluster.step plainPlatform)
      (fun _ _ => True) threeNodes replicateToThird
      (.handle 1 late (.deliver 3 (confirm 3 1 1)))
      (fun c c' => decide (¬ (c.node 1).MajorityReached 1 ∧ (c'.node 1).MajorityReached 1 ∧
        (c'.node 1).commitIndex = 0)) (by decide)
    exact ⟨c, c', hrun, hstep, of_decide_eq_true hcheck⟩
  · obtain ⟨c, c', hrun, hstep, hcheck⟩ := Run.exists_step_of_exec (@Cluster.step plainPlatform)
      (fun _ _ => True) (Cluster.fresh [1] (by decide) []) [.handle 1 late .electionTimeout]
      (.handle 1 late (makeDir "a"))
      (fun c c' => decide (¬ (c.node 1).MajorityReached 1 ∧ (c'.node 1).MajorityReached 1 ∧
        (c'.node 1).commitIndex = 0)) (by decide)
    exact ⟨c, c', hrun, hstep, of_decide_eq_true hcheck⟩

end Vosfs.Raft
