import Vosfs.Consensus.Repair
import Vosfs.Raft.LogAccess
import Vosfs.Raft.Merging

/-!
# A new leader repairs a follower

A round is one heartbeat to a follower: the leader builds the request, the follower handles
it, and the leader handles the answer (`Pair.round`).  As long as the follower does not hold
more than the leader's whole log, a round is a step of `Consensus.Repair` (`Paired.round`), and
what that needs at most is the bound on the rounds.

If the follower holds all of the leader's log and more, the first heartbeat is answered with
success, and the leader takes the end of the follower's log as what they share.  The next
request would have to name the term of an entry that the leader does not have: the assertion
fails, and there is no second round (`Pair.no_rounds`).
-/

namespace Vosfs.Raft

open Consensus (Repair lastTerm)

/-! ## Requests -/

namespace RaftNode

variable {env : Env} {node node' : RaftNode}

/-- The request to a member whose next entry is `next`, by a log from the start. -/
def requestFor (node : RaftNode) (next : ℕ) : AppendEntriesRequest :=
  { term := node.currentTerm
    leaderId := node.memberId
    prevLogIndex := next - 1
    prevLogTerm := lastTerm (node.logs.entries.take (next - 1))
    entries := (node.logs.entries.drop (next - 1)).take maxAppendEntriesSize
    leaderCommit := node.commitIndex }

theorem heartbeatTo_eq (hstart : node.logs.FromStart) {dst next : ℕ} (hdst : dst ≠ node.memberId)
    (hpos : 0 < next) (hnext : next ≤ node.logs.entries.length + 1) :
    node.heartbeatTo env dst next =
      .ok (node, [node.send dst (.appendEntriesRequest (node.requestFor next))]) := by
  have hterm : node.logs.getTerm (next - 1) =
      some (lastTerm (node.logs.entries.take (next - 1))) :=
    hstart.getTerm_eq_lastTerm (by omega)
  unfold heartbeatTo
  rw [if_neg hdst, if_neg (by rw [hstart.index]; omega), hstart.lastLogIndex, hterm]
  split_ifs with hmore
  · obtain ⟨prev, rfl⟩ : ∃ prev, next = prev + 1 := ⟨next - 1, by omega⟩
    rw [hstart.getEntries hmore]
    have hsize : (node.logs.entries.drop prev).length =
        node.logs.entries.length - (prev + 1) + 1 := by
      rw [List.length_drop]
      omega
    have hbatch : (node.logs.entries.drop prev).take
        (min maxAppendEntriesSize (node.logs.entries.length - (prev + 1) + 1)) =
          (node.logs.entries.drop prev).take maxAppendEntriesSize := by
      rw [← hsize, ← List.take_eq_take_min]
    simp only [Nat.add_sub_cancel, hbatch, requestFor]
  · have hnone : node.logs.entries.drop (next - 1) = [] := List.drop_eq_nil_of_le (by omega)
    simp only [requestFor, hnone, List.take_nil]

/-- A target past the end of the log fails the assertion on the preceding entry. -/
theorem heartbeatTo_ne_ok (hstart : node.logs.FromStart) {dst next : ℕ}
    (hdst : dst ≠ node.memberId) (hnext : node.logs.entries.length + 1 < next)
    (after : RaftNode × List Packet) : node.heartbeatTo env dst next ≠ .ok after := by
  intro hbeat
  have hterm : node.logs.getTerm (next - 1) = none := by
    obtain ⟨k, hk⟩ : ∃ k, next - 1 = k + 1 := ⟨next - 2, by omega⟩
    rw [hk, hstart.getTerm, List.getElem?_eq_none (by omega)]
    rfl
  unfold heartbeatTo at hbeat
  rw [if_neg hdst, if_neg (by rw [hstart.lastLogIndex]; omega), hterm] at hbeat
  simp only at hbeat
  split at hbeat
  next heq => cases heq
  next => cases hbeat

/-- The requests to all targets within the log. -/
theorem heartbeats_eq (hstart : node.logs.FromStart) {targets : List (ℕ × ℕ)}
    (htargets : ∀ target ∈ targets, target.1 ≠ node.memberId →
      0 < target.2 ∧ target.2 ≤ node.logs.entries.length + 1) :
    heartbeats env targets node = .ok (node, (targets.filter (·.1 ≠ node.memberId)).map
      fun target => node.send target.1 (.appendEntriesRequest (node.requestFor target.2))) := by
  induction targets with
  | nil => rfl
  | cons target rest ih =>
    rw [List.forall_mem_cons] at htargets
    unfold heartbeats
    by_cases hself : target.1 = node.memberId
    · have hskip : node.heartbeatTo env target.1 target.2 = .ok (node, []) := if_pos hself
      rw [hskip, List.filter_cons_of_neg (by simpa using hself)]
      simp only [ih htargets.2, List.nil_append]
    · obtain ⟨hpos, hnext⟩ := htargets.1 hself
      rw [heartbeatTo_eq hstart hself hpos hnext, List.filter_cons_of_pos (by simpa using hself)]
      simp only [ih htargets.2, List.map_cons, List.singleton_append]

theorem heartbeats_ne_ok (hstart : node.logs.FromStart) (hdata : node.snapshotData = [])
    {targets : List (ℕ × ℕ)} {target : ℕ × ℕ} (hmem : target ∈ targets)
    (hdst : target.1 ≠ node.memberId) (hnext : node.logs.entries.length + 1 < target.2)
    (after : RaftNode × List Packet) : heartbeats env targets node ≠ .ok after := by
  induction targets generalizing after with
  | nil => cases hmem
  | cons first rest ih =>
    intro hbeat
    obtain ⟨next, sent, more, hto, hmore, -⟩ := exists_of_heartbeats hbeat
    rcases List.mem_cons.mp hmem with rfl | hrest
    · exact heartbeatTo_ne_ok hstart hdst hnext _ hto
    · obtain ⟨rfl, -⟩ := heartbeatTo_spec hstart hdata hto
      exact ih hrest _ hmore

/-! ## Applying -/

section Apply

variable [Platform]

theorem locked_applyRounds {rounds : ℕ} (happly : applyRounds env rounds node = .ok node') :
    node'.snapshotter.locked = node.snapshotter.locked := by
  induction rounds generalizing node with
  | zero => cases happly; rfl
  | succ rounds ih =>
    obtain ⟨next, hnext, happly⟩ := exists_of_applyRounds happly
    exact (ih happly).trans (applyNext_logs hnext).2.2.1

/-- A log from the start can be applied as far as it goes, and stays as it is. -/
theorem exists_applyEntry (hstart : node.logs.FromStart)
    (hunlocked : node.snapshotter.locked = false) {commitIndex : ℕ}
    (hcommit : commitIndex ≤ node.logs.lastLogIndex) :
    ∃ node', ({ node with commitIndex := commitIndex } : RaftNode).applyEntry env = .ok node' ∧
      node'.logs = node.logs ∧ node'.snapshotter.locked = false := by
  rcases Nat.lt_or_ge node.lastApplied commitIndex with hmore | hdone
  · have hto : node.lastApplied + (commitIndex - node.lastApplied) = commitIndex := by omega
    have happlies : AppliesInPlace env { node with commitIndex := commitIndex } commitIndex :=
      ⟨by rw [hstart.index]; exact Nat.zero_le _, fun _ _ _ _ => hunlocked, fun _ => hstart⟩
    obtain ⟨node', happly⟩ := @exists_applyRounds env { node with commitIndex := commitIndex } _
      (commitIndex - node.lastApplied) (hto.trans_le hcommit) (hto.symm ▸ happlies)
    have hsame : node'.logs = node.logs := by
      refine (applyRounds_logs happly).2.2.trans ?_
      split
      next => exact loadSnapshot_of_fromStart hstart
      next => rfl
    exact ⟨node', happly, hsame, (locked_applyRounds happly).trans hunlocked⟩
  · have hzero : commitIndex - node.lastApplied = 0 := by omega
    refine ⟨{ node with commitIndex := commitIndex }, ?_, rfl, hunlocked⟩
    unfold applyEntry
    rw [hzero]
    rfl

theorem exists_followCommit (hstart : node.logs.FromStart)
    (hunlocked : node.snapshotter.locked = false) (leaderCommit : ℕ) :
    ∃ node', node.followCommit env leaderCommit = .ok node' ∧ node'.logs = node.logs ∧
      node'.snapshotter.locked = false := by
  unfold followCommit
  split
  next => exact exists_applyEntry hstart hunlocked (min_le_left _ _)
  next => exact ⟨node, rfl, rfl, hunlocked⟩

theorem exists_advanceCommit (hstart : node.logs.FromStart)
    (hunlocked : node.snapshotter.locked = false)
    (hquorum : quorumIndex node.matchIndex ≤ node.logs.lastLogIndex) :
    ∃ node', node.advanceCommit env = .ok node' ∧ node'.logs = node.logs ∧
      node'.snapshotter.locked = false := by
  unfold advanceCommit
  split
  next => exact exists_applyEntry hstart hunlocked hquorum
  next => exact ⟨node, rfl, rfl, hunlocked⟩

/-! ## Answers -/

variable {request : AppendEntriesRequest}

theorem handleAppendEntriesRequest_eq : node.handleAppendEntriesRequest env request =
    if request.term < node.currentTerm then
      .ok (node, { id := node.memberId, term := node.currentTerm, success := false,
                   lastLogIndex := node.logs.lastLogIndex })
    else if ¬ LogOk (node.followed env request) request then
      .ok (node.followed env request,
        { id := (node.followed env request).memberId,
          term := (node.followed env request).currentTerm, success := false,
          lastLogIndex := (node.followed env request).logs.lastLogIndex,
          conflictIndex := some request.prevLogIndex })
    else
      match (node.followed env request).storeEntries request.entries with
      | .error node => .error node
      | .ok node =>
        match node.followCommit env request.leaderCommit with
        | .error node => .error node
        | .ok node =>
          .ok (node, { id := node.memberId, term := node.currentTerm, success := true,
                       lastLogIndex := node.logs.lastLogIndex }) :=
  rfl

/-- The follower does not have the preceding entry. -/
theorem handle_of_rejected (hterm : node.currentTerm ≤ request.term)
    (hreject : ¬ LogOk node request) :
    node.handleAppendEntriesRequest env request = .ok (node.followed env request,
      { id := node.memberId, term := request.term, success := false,
        lastLogIndex := node.logs.lastLogIndex, conflictIndex := some request.prevLogIndex }) := by
  have hfollowed : KeepsData node (node.followed env request) := followed_keepsData
  have hcurrent : (node.followed env request).currentTerm = request.term :=
    currentTerm_catchUp hterm
  have hreject' : ¬ LogOk (node.followed env request) request :=
    fun hok => hreject (logOk_followed.mp hok)
  rw [handleAppendEntriesRequest_eq, if_neg (not_lt.mpr hterm), if_pos hreject', hcurrent,
    hfollowed.logs, memberId_of_transport hfollowed.transport]

/-- The follower stores the entries, and follows the leader's commit index. -/
theorem exists_handle_of_stored {stored : RaftNode} (haccepts : node.Accepts request)
    (hstore : (node.followed env request).storeEntries request.entries = .ok stored)
    (hstart : stored.logs.FromStart) (hunlocked : stored.snapshotter.locked = false) :
    ∃ node', node.handleAppendEntriesRequest env request = .ok (node',
        { id := node.memberId, term := request.term, success := true,
          lastLogIndex := stored.logs.lastLogIndex }) ∧
      node'.logs = stored.logs ∧ node'.snapshotter.locked = false ∧
      node'.memberId = node.memberId ∧ node'.currentTerm = request.term := by
  have hfollowed : KeepsData node (node.followed env request) := followed_keepsData
  obtain ⟨node', hfollow, hlogs, hfree⟩ :=
    @exists_followCommit env stored _ hstart hunlocked request.leaderCommit
  have hraft := (storeEntries_keepsRaft hstore).trans
    (movesCommit_of_followCommit hfollow).keepsRaft
  have hmember : node'.memberId = node.memberId :=
    memberId_of_transport (hraft.transport.trans hfollowed.transport)
  have hcurrent : node'.currentTerm = request.term :=
    (congrArg HardState.currentTerm hraft.hardState).trans (currentTerm_catchUp haccepts.1)
  refine ⟨node', ?_, hlogs, hfree, hmember, hcurrent⟩
  rw [handleAppendEntriesRequest_eq, if_neg (not_lt.mpr haccepts.1),
    if_neg (not_not.mpr (logOk_followed.mpr haccepts.2)), hstore]
  simp only [hfollow, hmember, hcurrent, hlogs]

/-- The leader handles an answer of its own term. -/
theorem handleAppendEntriesResponse_eq {response : AppendEntriesResponse}
    (hrole : node.role = .leader) (hterm : response.term = node.currentTerm) :
    node.handleAppendEntriesResponse env response =
      if response.success then
        (node.recordMatch response.id response.lastLogIndex).advanceCommit env
      else
        match response.conflictIndex with
        | none => .ok node
        | some conflictIndex =>
          .ok { node with nextIndex := node.nextIndex.insert response.id conflictIndex } := by
  unfold handleAppendEntriesResponse
  rw [if_neg (by simp [hrole, hterm]), if_neg (by simp [hterm])]
  cases response.success <;> rfl

end Apply

end RaftNode

/-! ## Two logs that match -/

section Logs

variable {log log' : RaftLog}

/-- Where the terms are the same, the logs are the same up to there. -/
theorem prefix_of_matches (hstart : log.FromStart) (hstart' : log'.FromStart)
    (hmatches : log.Matches log') {prev : ℕ} (hprev : prev ≤ log.entries.length)
    (hprev' : prev ≤ log'.entries.length) (hterm : log'.getTerm prev = log.getTerm prev) :
    log.entries.take prev <+: log'.entries := by
  cases prev with
  | zero => exact List.nil_prefix
  | succ prev =>
    rw [hstart.getTerm, hstart'.getTerm, List.getElem?_eq_getElem hprev,
      List.getElem?_eq_getElem hprev'] at hterm
    have hget : log.getEntry (prev + 1) = some log.entries[prev] := by
      rw [hstart.getEntry, List.getElem?_eq_getElem hprev]
    have hget' : log'.getEntry (prev + 1) = some log'.entries[prev] := by
      rw [hstart'.getEntry, List.getElem?_eq_getElem hprev']
    rw [List.prefix_iff_getElem?]
    intro k hk
    rw [List.length_take_of_le hprev] at hk
    rw [List.getElem_take, List.getElem?_eq_getElem (by omega)]
    refine congrArg some (hmatches _ _ _ hget hget' (Option.some.inj hterm).symm (k + 1)
      (by omega) _ _ ?_ ?_).symm
    · rw [hstart.getEntry, List.getElem?_eq_getElem]
    · rw [hstart'.getEntry, List.getElem?_eq_getElem]

/-- A part of a log matches it. -/
theorem matches_of_prefix (hstart : log.FromStart) (hstart' : log'.FromStart)
    (hpre : log'.entries <+: log.entries) : log.Matches log' := by
  intro index entry entry' _ _ _ earlier _ e e' he he'
  obtain ⟨k, rfl, hk⟩ := hstart.exists_of_getEntry he
  rw [hstart'.getEntry] at he'
  obtain ⟨hlt, rfl⟩ := List.getElem?_eq_some_iff.mp he'
  have hsame := List.prefix_iff_getElem?.mp hpre k hlt
  exact Option.some.inj (hk.symm.trans hsame)

/-- What a leader asks about an index is whether the follower holds its log up to there. -/
theorem logOk_requestFor_iff {leader follower : RaftNode} {next : ℕ}
    (hstart : leader.logs.FromStart) (hstart' : follower.logs.FromStart)
    (hmatches : leader.logs.Matches follower.logs)
    (hnext : next ≤ leader.logs.entries.length + 1) :
    follower.LogOk (leader.requestFor next) ↔
      leader.logs.entries.take (next - 1) <+: follower.logs.entries := by
  have hprev : next - 1 ≤ leader.logs.entries.length := by omega
  have hterm := hstart.getTerm_eq_lastTerm hprev
  constructor
  · rintro ⟨hlast, -, hsame⟩
    rw [hstart'.lastLogIndex] at hlast
    exact prefix_of_matches hstart hstart' hmatches hprev hlast (hsame.trans hterm.symm)
  · intro hpre
    have hlast := hpre.length_le
    rw [List.length_take_of_le hprev] at hlast
    refine ⟨hstart'.lastLogIndex ▸ hlast, hstart'.index ▸ Nat.zero_le _, ?_⟩
    change follower.logs.getTerm (next - 1) = _
    rw [hstart'.getTerm_eq_lastTerm hlast]
    have htake := List.prefix_iff_eq_take.mp hpre
    rw [List.length_take_of_le hprev] at htake
    rw [← htake]
    rfl

/-- At the end of what the logs share, the follower takes the batch. -/
theorem storeEntries_requestFor {leader follower : RaftNode} {next : ℕ}
    (hstart : leader.logs.FromStart) (hindexed : leader.logs.Indexed)
    (hstart' : follower.logs.FromStart) (hmatches : leader.logs.Matches follower.logs)
    (hpos : 0 < next) (hmore : next ≤ leader.logs.entries.length)
    (hshared : next - 1 = Consensus.agreement leader.logs.entries follower.logs.entries) :
    ∃ disk, follower.storeEntries (leader.requestFor next).entries = .ok { follower with
      disk := disk
      logs := { follower.logs with
        entries := leader.logs.entries.take (next - 1 + maxAppendEntriesSize) } } := by
  obtain ⟨prev, rfl⟩ : ∃ prev, next = prev + 1 := ⟨next - 1, by omega⟩
  rw [Nat.add_sub_cancel] at hshared
  have hpre : leader.logs.entries.take prev <+: follower.logs.entries := by
    rw [hshared]
    exact Consensus.isPrefix_take_agreement _ _
  have hlast := hpre.length_le
  rw [List.length_take_of_le (by omega)] at hlast
  have htake : follower.logs.entries.take prev = leader.logs.entries.take prev := by
    rw [List.prefix_iff_eq_take.mp hpre, List.length_take_of_le (by omega)]
  have hentries : (leader.requestFor (prev + 1)).entries = leader.logs.entries[prev] ::
      (leader.logs.entries.drop (prev + 1)).take (maxAppendEntriesSize - 1) := by
    change (leader.logs.entries.drop prev).take maxAppendEntriesSize = _
    rw [List.drop_eq_getElem_cons hmore]
    rfl
  have hindex : leader.logs.entries[prev].index = prev + 1 := by
    have hnumber := hindexed prev _ (List.getElem?_eq_getElem hmore)
    rwa [hstart.index, Nat.zero_add] at hnumber
  -- another entry of the batch in the follower's log would be shared
  have hnew : follower.logs.getTerm (prev + 1) ≠ some leader.logs.entries[prev].term := by
    intro hterm
    have hlast' : prev + 1 ≤ follower.logs.entries.length := by
      rw [← hstart'.lastLogIndex]
      exact RaftLog.le_lastLogIndex_of_getTerm hterm
    have hsame : follower.logs.getTerm (prev + 1) = leader.logs.getTerm (prev + 1) := by
      rw [hterm, hstart.getTerm, List.getElem?_eq_getElem hmore]
      rfl
    have hlonger := Consensus.le_agreement_iff.mpr
      ⟨hmore, prefix_of_matches hstart hstart' hmatches hmore hlast' hsame⟩
    omega
  obtain ⟨disk, hstore⟩ := @RaftNode.storeEntries_of_new follower prev _
    ((leader.logs.entries.drop (prev + 1)).take (maxAppendEntriesSize - 1)) hstart' hlast hindex
    hnew
  refine ⟨disk, ?_⟩
  rw [hentries, hstore, ← hentries, htake, Nat.add_sub_cancel, List.take_add]
  rfl

end Logs

/-! ## Rounds -/

/-- A leader and one of its followers. -/
structure Pair where
  leader : RaftNode
  follower : RaftNode

/-- The request for a member among the packets. -/
def requestTo (packets : List Packet) (id : ℕ) : Option AppendEntriesRequest :=
  packets.findSome? fun packet =>
    match packet.message with
    | .appendEntriesRequest request => if packet.dst = id then some request else none
    | _ => none

/-- All targets with the member's id have the same next index. -/
theorem requestTo_targets {node : RaftNode} {id next : ℕ} {targets : List (ℕ × ℕ)}
    (hid : id ≠ node.memberId) (hmem : (id, next) ∈ targets)
    (hall : ∀ target ∈ targets, target.1 = id → target.2 = next) :
    requestTo ((targets.filter (·.1 ≠ node.memberId)).map fun target =>
        node.send target.1 (.appendEntriesRequest (node.requestFor target.2))) id =
      some (node.requestFor next) := by
  induction targets with
  | nil => cases hmem
  | cons target rest ih =>
    rw [List.forall_mem_cons] at hall
    have hrest : target.1 ≠ id → (id, next) ∈ rest := fun hne =>
      (List.mem_cons.mp hmem).resolve_left fun heq => hne (congrArg Prod.fst heq).symm
    by_cases hself : target.1 = node.memberId
    · rw [List.filter_cons_of_neg (by simpa using hself)]
      exact ih (hrest (hself ▸ hid.symm)) hall.2
    · rw [List.filter_cons_of_pos (by simpa using hself), List.map_cons, requestTo,
        List.findSome?_cons]
      by_cases htarget : target.1 = id
      · simp [RaftNode.send, htarget, hall.1 htarget]
      · simp only [RaftNode.send, htarget, if_false]
        exact ih (hrest htarget) hall.2

namespace Pair

section Rounds

variable [Platform]

/-- A heartbeat to the follower, and its answer. -/
def round (envs : Env × Env × Env) (pair : Pair) : Option Pair :=
  match pair.leader.heartbeatLoop envs.1 with
  | .error _ => none
  | .ok (leader, packets) =>
    match requestTo packets pair.follower.memberId with
    | none => none
    | some request =>
      match pair.follower.handleAppendEntriesRequest envs.2.1 request with
      | .error _ => none
      | .ok (follower, response) =>
        match leader.handleAppendEntriesResponse envs.2.2 response with
        | .error _ => none
        | .ok leader => some ⟨leader, follower⟩

/-- Rounds one after another. -/
def rounds (envs : ℕ → Env × Env × Env) (pair : Pair) : ℕ → Option Pair
  | 0 => some pair
  | k + 1 => (rounds envs pair k).bind (round (envs k))

end Rounds

/-- The leader's next index for the follower. -/
def next (pair : Pair) : ℕ :=
  (pair.leader.nextIndex.lookup pair.follower.memberId).getD 0

/-- What the leader asks about, and what the follower has. -/
def repair (pair : Pair) : Repair LogEntry :=
  ⟨pair.next - 1, pair.follower.logs.entries⟩

end Pair

/-- A leader with the log and a follower whose log matches, before any snapshot. -/
structure Paired (log : RaftLog) (pair : Pair) : Prop where
  role : pair.leader.role = .leader
  logs : pair.leader.logs = log
  start : log.FromStart
  indexed : log.Indexed
  data : pair.leader.snapshotData = []
  unlocked : pair.leader.snapshotter.locked = false
  other : pair.follower.memberId ≠ pair.leader.memberId
  asked : pair.follower.memberId ∈ pair.leader.nextIndex
  next : ∀ id next, pair.leader.nextIndex.lookup id = some next → id ≠ pair.leader.memberId →
    0 < next ∧ next ≤ log.entries.length + 1
  recorded : ∀ id index, pair.leader.matchIndex.lookup id = some index →
    index ≤ log.entries.length
  followerStart : pair.follower.logs.FromStart
  followerUnlocked : pair.follower.snapshotter.locked = false
  term : pair.follower.currentTerm ≤ pair.leader.currentTerm
  matching : log.Matches pair.follower.logs

namespace Paired

variable {log : RaftLog} {pair : Pair} {env : Env}

theorem lookup_next (h : Paired log pair) :
    pair.leader.nextIndex.lookup pair.follower.memberId = some pair.next := by
  obtain ⟨next, hnext⟩ := UnorderedMap.mem_iff_lookup.mp h.asked
  rw [Pair.next, hnext]
  rfl

theorem next_range (h : Paired log pair) : 0 < pair.next ∧ pair.next ≤ log.entries.length + 1 :=
  h.next _ _ h.lookup_next h.other

/-- The heartbeat asks the follower about the log up to its next index. -/
theorem exists_heartbeat (h : Paired log pair) :
    ∃ packets, pair.leader.heartbeatLoop env = .ok (pair.leader, packets) ∧
      requestTo packets pair.follower.memberId = some (pair.leader.requestFor pair.next) := by
  have hstart : pair.leader.logs.FromStart := h.logs ▸ h.start
  refine ⟨_, (if_neg (not_not.mpr h.role)).trans (RaftNode.heartbeats_eq hstart ?_), ?_⟩
  · intro target htarget hother
    rw [h.logs]
    exact h.next _ _ (UnorderedMap.mem_pairs.mp htarget) hother
  · refine requestTo_targets h.other (UnorderedMap.mem_pairs.mpr h.lookup_next) ?_
    rintro ⟨id, next⟩ htarget rfl
    exact Option.some.inj ((UnorderedMap.mem_pairs.mp htarget).symm.trans h.lookup_next)

theorem logOk_iff (h : Paired log pair) :
    pair.follower.LogOk (pair.leader.requestFor pair.next) ↔
      log.entries.take pair.repair.asked <+: pair.repair.log := by
  have hstart : pair.leader.logs.FromStart := h.logs ▸ h.start
  have hmatches : pair.leader.logs.Matches pair.follower.logs := h.logs ▸ h.matching
  have hnext : pair.next ≤ pair.leader.logs.entries.length + 1 := h.logs ▸ h.next_range.2
  rw [logOk_requestFor_iff hstart h.followerStart hmatches hnext, h.logs]
  rfl

theorem followed_logs (request : AppendEntriesRequest) :
    (pair.follower.followed env request).logs = pair.follower.logs ∧
      (pair.follower.followed env request).snapshotter = pair.follower.snapshotter :=
  ⟨RaftNode.logs_catchUp, RaftNode.snapshotter_catchUp⟩

section Rounds

variable [Platform] {envs : Env × Env × Env}

/-- The heartbeat leaves the leader as it is. -/
theorem round_eq (h : Paired log pair) : pair.round envs =
    match pair.follower.handleAppendEntriesRequest envs.2.1 (pair.leader.requestFor pair.next) with
    | .error _ => none
    | .ok (follower, response) =>
      match pair.leader.handleAppendEntriesResponse envs.2.2 response with
      | .error _ => none
      | .ok leader => some ⟨leader, follower⟩ := by
  obtain ⟨packets, hbeat, hrequest⟩ := @exists_heartbeat _ _ envs.1 h
  unfold Pair.round
  simp only [hbeat, hrequest]

/-- The request is rejected, and the leader steps back. -/
theorem round_of_rejected (h : Paired log pair) (hpos : 0 < pair.next - 1)
    (hreject : ¬ pair.follower.LogOk (pair.leader.requestFor pair.next)) :
    ∃ pair', pair.round envs = some pair' ∧ Paired log pair' ∧
      pair'.repair = ⟨pair.next - 1 - 1, pair.follower.logs.entries⟩ ∧
      pair'.follower.memberId = pair.follower.memberId := by
  have hterm : pair.follower.currentTerm ≤ (pair.leader.requestFor pair.next).term := h.term
  let follower := pair.follower.followed envs.2.1 (pair.leader.requestFor pair.next)
  let leader : RaftNode := { pair.leader with
    nextIndex := pair.leader.nextIndex.insert pair.follower.memberId (pair.next - 1) }
  have hkeeps : RaftNode.KeepsData pair.follower follower := RaftNode.followed_keepsData
  have hmember : follower.memberId = pair.follower.memberId :=
    RaftNode.memberId_of_transport hkeeps.transport
  have hcurrent : follower.currentTerm = pair.leader.currentTerm :=
    RaftNode.currentTerm_catchUp hterm
  have hunlocked : follower.snapshotter = pair.follower.snapshotter := (followed_logs _).2
  have hlookup : ∀ id, leader.nextIndex.lookup id = if id = pair.follower.memberId then
      some (pair.next - 1) else pair.leader.nextIndex.lookup id := fun id =>
    UnorderedMap.lookup_insert_eq _ _ _ _
  refine ⟨⟨leader, follower⟩, ?_, ?_, ?_, hmember⟩
  · rw [h.round_eq, RaftNode.handle_of_rejected hterm hreject]
    simp only
    rw [RaftNode.handleAppendEntriesResponse_eq h.role rfl]
    rfl
  · refine ⟨h.role, h.logs, h.start, h.indexed, h.data, h.unlocked, hmember ▸ h.other, ?_, ?_,
      h.recorded, ?_, ?_, hcurrent.le, ?_⟩
    · rw [hmember, UnorderedMap.mem_iff_lookup, hlookup, if_pos rfl]
      exact ⟨_, rfl⟩
    · intro id next hnext hother
      rw [hlookup] at hnext
      split at hnext
      next =>
        cases hnext
        have := h.next_range
        omega
      next => exact h.next id next hnext hother
    · rw [hkeeps.logs]
      exact h.followerStart
    · rw [hunlocked]
      exact h.followerUnlocked
    · rw [hkeeps.logs]
      exact h.matching
  · have hnext : (Pair.mk leader follower).next = pair.next - 1 := by
      rw [Pair.next, hmember, hlookup, if_pos rfl]
      rfl
    rw [Pair.repair, hnext, hkeeps.logs]

/-- The request is accepted, and the leader goes on behind what the follower has now. -/
theorem round_of_accepted (h : Paired log pair) {stored : RaftNode}
    (hok : pair.follower.LogOk (pair.leader.requestFor pair.next))
    (hstore : (pair.follower.followed envs.2.1 (pair.leader.requestFor pair.next)).storeEntries
      (pair.leader.requestFor pair.next).entries = .ok stored)
    (hstart : stored.logs.FromStart) (hunlocked : stored.snapshotter.locked = false)
    (hpre : stored.logs.entries <+: log.entries) :
    ∃ pair', pair.round envs = some pair' ∧ Paired log pair' ∧
      pair'.repair = ⟨stored.logs.entries.length, stored.logs.entries⟩ ∧
      pair'.follower.memberId = pair.follower.memberId ∧
      pair'.leader.matchIndex.lookup pair.follower.memberId =
        some stored.logs.entries.length := by
  have haccepts : pair.follower.Accepts (pair.leader.requestFor pair.next) := ⟨h.term, hok⟩
  obtain ⟨follower, hhandle, hlogs, hfree, hmember, hcurrent⟩ :=
    RaftNode.exists_handle_of_stored haccepts hstore hstart hunlocked
  have hlast : stored.logs.lastLogIndex = stored.logs.entries.length := hstart.lastLogIndex
  let recorded := pair.leader.recordMatch pair.follower.memberId stored.logs.lastLogIndex
  have hmatch : ∀ id, recorded.matchIndex.lookup id = if id = pair.follower.memberId then
      some stored.logs.lastLogIndex else pair.leader.matchIndex.lookup id := fun id =>
    UnorderedMap.lookup_insert_eq _ _ _ _
  have hnext : ∀ id, recorded.nextIndex.lookup id = if id = pair.follower.memberId then
      some (stored.logs.lastLogIndex + 1) else pair.leader.nextIndex.lookup id := fun id =>
    UnorderedMap.lookup_insert_eq _ _ _ _
  have hbound : ∀ id index, recorded.matchIndex.lookup id = some index →
      index ≤ log.entries.length := by
    intro id index hindex
    rw [hmatch] at hindex
    split at hindex
    next => cases hindex; exact hlast ▸ hpre.length_le
    next => exact h.recorded id index hindex
  have hleaderStart : recorded.logs.FromStart := h.logs.symm ▸ h.start
  have hleaderLast : recorded.logs.lastLogIndex = log.entries.length :=
    hleaderStart.lastLogIndex.trans (congrArg (fun l : RaftLog => l.entries.length) h.logs)
  -- so what a quorum reached is in the leader's log, and can be applied
  have hquorum : RaftNode.quorumIndex recorded.matchIndex ≤ recorded.logs.lastLogIndex :=
    hleaderLast ▸ RaftNode.quorumIndex_le hbound
  obtain ⟨leader, hadvance, hleaderLogs, hleaderFree⟩ :=
    @RaftNode.exists_advanceCommit envs.2.2 recorded _ hleaderStart h.unlocked hquorum
  have hraft := (RaftNode.movesCommit_of_advanceCommit hadvance).keepsRaft
  refine ⟨⟨leader, follower⟩, ?_, ?_, ?_, hmember, ?_⟩
  · rw [h.round_eq, hhandle]
    simp only
    rw [RaftNode.handleAppendEntriesResponse_eq h.role rfl, if_pos rfl, hadvance]
  · refine ⟨hraft.role.trans h.role, hleaderLogs.trans h.logs, h.start, h.indexed,
      hraft.snapshotData.trans h.data, hleaderFree, ?_, ?_, ?_, ?_, ?_, hfree, ?_, ?_⟩
    · rw [hmember, RaftNode.memberId_of_transport hraft.transport]
      exact h.other
    · rw [hmember, hraft.nextIndex, UnorderedMap.mem_iff_lookup]
      exact ⟨_, (hnext _).trans (if_pos rfl)⟩
    · intro id next hid hother
      rw [hraft.nextIndex, hnext] at hid
      rw [RaftNode.memberId_of_transport hraft.transport] at hother
      split at hid
      next =>
        cases hid
        rw [hlast]
        exact ⟨Nat.succ_pos _, Nat.succ_le_succ hpre.length_le⟩
      next => exact h.next id next hid hother
    · rw [hraft.matchIndex]
      exact hbound
    · rw [hlogs]
      exact hstart
    · exact hcurrent.le.trans (congrArg HardState.currentTerm hraft.hardState).ge
    · rw [hlogs]
      exact matches_of_prefix h.start hstart hpre
  · have hafter : (Pair.mk leader follower).next = stored.logs.lastLogIndex + 1 := by
      rw [Pair.next, hmember, hraft.nextIndex, hnext, if_pos rfl]
      rfl
    rw [Pair.repair, hafter, hlogs, hlast, Nat.add_sub_cancel]
  · rw [hraft.matchIndex, ← hlast]
    exact (hmatch _).trans (if_pos rfl)

/-- **The step lemma.**  A round is a step of the repair. -/
theorem round (h : Paired log pair) (haligned : pair.repair.Aligned log.entries) :
    ∃ pair', pair.round envs = some pair' ∧ Paired log pair' ∧
      pair'.repair = pair.repair.step maxAppendEntriesSize log.entries ∧
      pair'.follower.memberId = pair.follower.memberId ∧
      (pair.repair = Repair.done log.entries →
        pair'.leader.matchIndex.lookup pair.follower.memberId = some log.entries.length) := by
  obtain ⟨hsame, hsnapshotter⟩ :=
    @followed_logs pair envs.2.1 (pair.leader.requestFor pair.next)
  rcases haligned.step_cases maxAppendEntriesSize with
    ⟨hback, hstep⟩ | ⟨hshared, hmore, hstep⟩ | hdone
  -- the leader asks past what the logs share
  · have hreject : ¬ pair.follower.LogOk (pair.leader.requestFor pair.next) := fun hok =>
      absurd (haligned.asked_eq (h.logOk_iff.mp hok)) hback.ne'
    obtain ⟨pair', hround, h', hrepair, hmember⟩ :=
      @round_of_rejected _ _ _ envs h (Nat.zero_lt_of_lt hback) hreject
    refine ⟨pair', hround, h', hrepair.trans hstep.symm, hmember, fun hdone => ?_⟩
    have hagree := Consensus.agreement_take (le_refl log.entries.length)
    rw [List.take_length] at hagree
    rw [hdone] at hback
    exact absurd (hagree ▸ hback) (lt_irrefl _)
  -- it asks at the end of what they share, and sends a batch of the rest
  · have hok := h.logOk_iff.mpr (hshared ▸ Consensus.isPrefix_take_agreement _ _)
    have hrange := h.next_range
    have hfollowed : (pair.follower.followed envs.2.1
        (pair.leader.requestFor pair.next)).logs.FromStart := hsame ▸ h.followerStart
    have hstart : pair.leader.logs.FromStart := h.logs ▸ h.start
    have hlogs : pair.leader.logs = log := h.logs
    obtain ⟨disk, hstore⟩ := @storeEntries_requestFor pair.leader
      (pair.follower.followed envs.2.1 (pair.leader.requestFor pair.next)) pair.next hstart
      (h.logs ▸ h.indexed) hfollowed (hsame.symm ▸ h.logs ▸ h.matching) hrange.1
      (by rw [hlogs]; exact Nat.le_of_pred_lt hmore) (by rw [hlogs, hsame]; exact hshared)
    rw [hlogs] at hstore
    obtain ⟨pair', hround, h', hrepair, hmember, -⟩ := @round_of_accepted _ _ _ envs h _ hok hstore
      ⟨hfollowed.index, hfollowed.term⟩ (hsnapshotter ▸ h.followerUnlocked)
      (List.take_prefix _ _)
    refine ⟨pair', hround, h', hrepair.trans ?_, hmember, fun hdone => ?_⟩
    · rw [hstep]
      exact Repair.ext List.length_take rfl
    · rw [hdone] at hmore
      exact absurd hmore (lt_irrefl _)
  -- the logs are the same: a request without entries is confirmed
  · have hend : pair.next - 1 = log.entries.length := congrArg Repair.asked hdone
    have hlog : pair.follower.logs.entries = log.entries := congrArg Repair.log hdone
    have hok := h.logOk_iff.mpr (by
      rw [hdone, Repair.done, List.take_length])
    have hnone : (pair.leader.requestFor pair.next).entries = [] := by
      change (pair.leader.logs.entries.drop (pair.next - 1)).take _ = []
      rw [h.logs, hend, List.drop_length, List.take_nil]
    obtain ⟨pair', hround, h', hrepair, hmember, hmatch⟩ := @round_of_accepted _ _ _ envs h
      (pair.follower.followed envs.2.1 (pair.leader.requestFor pair.next)) hok
      (hnone ▸ RaftNode.storeEntries_nil) (hsame ▸ h.followerStart)
      (hsnapshotter ▸ h.followerUnlocked) (by rw [hsame, hlog])
    rw [hsame, hlog] at hrepair hmatch
    exact ⟨pair', hround, h', by rw [hrepair, hdone, Repair.step_done]; rfl, hmember,
      fun _ => hmatch⟩

/-- **The run lemma.** -/
theorem rounds (h : Paired log pair) (haligned : pair.repair.Aligned log.entries)
    (envs : ℕ → Env × Env × Env) (k : ℕ) :
    ∃ pair', pair.rounds envs k = some pair' ∧ Paired log pair' ∧
      pair'.repair = (Repair.step maxAppendEntriesSize log.entries)^[k] pair.repair ∧
      pair'.follower.memberId = pair.follower.memberId := by
  induction k with
  | zero => exact ⟨pair, rfl, h, rfl, rfl⟩
  | succ k ih =>
    obtain ⟨next, hrounds, hnext, hrepair, hmember⟩ := ih
    have hnextAligned : next.repair.Aligned log.entries :=
      hrepair ▸ haligned.iterate_aligned k
    obtain ⟨pair', hround, h', hrepair', hmember', -⟩ := @round _ _ _ (envs k) hnext hnextAligned
    refine ⟨pair', ?_, h', ?_, hmember'.trans hmember⟩
    · rw [Pair.rounds, hrounds]
      exact hround
    · rw [hrepair', hrepair, Function.iterate_succ_apply']

/-! ## A follower with more than the leader -/

/-- The leader asks past the end of its own log. -/
theorem round_eq_none {pair : Pair} (hrole : pair.leader.role = .leader)
    (hstart : pair.leader.logs.FromStart) (hdata : pair.leader.snapshotData = [])
    {id next : ℕ} (hid : id ≠ pair.leader.memberId)
    (hnext : pair.leader.nextIndex.lookup id = some next)
    (hlast : pair.leader.logs.entries.length + 1 < next) : pair.round envs = none := by
  unfold Pair.round RaftNode.heartbeatLoop
  rw [if_neg (not_not.mpr hrole)]
  cases hbeat : RaftNode.heartbeats envs.1 pair.leader.nextIndex.pairs pair.leader with
  | error stopped => rfl
  | ok after =>
    exact absurd hbeat (RaftNode.heartbeats_ne_ok hstart hdata
      (UnorderedMap.mem_pairs.mpr hnext) hid hlast after)

/-- The first heartbeat is accepted, and there is no second one. -/
theorem no_rounds (h : Paired log pair) (hnext : pair.next = log.entries.length + 1)
    (hpre : log.entries <+: pair.follower.logs.entries)
    (hlonger : log.entries.length < pair.follower.logs.entries.length)
    (envs : ℕ → Env × Env × Env) (k : ℕ) : pair.rounds envs (k + 2) = none := by
  induction k with
  | succ k ih =>
    rw [Pair.rounds, ih]
    rfl
  | zero =>
    obtain ⟨hsame, hsnapshotter⟩ :=
      @followed_logs pair (envs 0).2.1 (pair.leader.requestFor pair.next)
    have hstart : pair.leader.logs.FromStart := h.logs ▸ h.start
    have hok : pair.follower.LogOk (pair.leader.requestFor pair.next) := by
      refine h.logOk_iff.mpr ?_
      rw [Pair.repair, hnext, Nat.add_sub_cancel, List.take_length]
      exact hpre
    have hnone : (pair.leader.requestFor pair.next).entries = [] := by
      change (pair.leader.logs.entries.drop (pair.next - 1)).take _ = []
      rw [h.logs, hnext, Nat.add_sub_cancel, List.drop_length, List.take_nil]
    obtain ⟨follower, hhandle, -, -, hmember, -⟩ :=
      @RaftNode.exists_handle_of_stored (envs 0).2.1 pair.follower _ _ _
        ⟨h.term, hok⟩ (hnone ▸ RaftNode.storeEntries_nil) (hsame ▸ h.followerStart)
        (hsnapshotter ▸ h.followerUnlocked)
    rw [hsame, h.followerStart.lastLogIndex] at hhandle
    let recorded := pair.leader.recordMatch pair.follower.memberId
      pair.follower.logs.entries.length
    have hfirst : pair.round (envs 0) = match recorded.advanceCommit (envs 0).2.2 with
        | .error _ => none
        | .ok leader => some ⟨leader, follower⟩ := by
      rw [h.round_eq, hhandle]
      simp only
      rw [RaftNode.handleAppendEntriesResponse_eq h.role rfl, if_pos rfl]
    simp only [Pair.rounds, Option.bind_some, hfirst]
    cases hadvance : recorded.advanceCommit (envs 0).2.2 with
    | error stopped => rfl
    | ok leader =>
      have hmoves := RaftNode.movesCommit_of_advanceCommit hadvance
      have hraft := hmoves.keepsRaft
      have hrecorded : recorded.logs.FromStart := hstart
      have hkept := (hmoves.keeps hrecorded).2
      have hlogs : leader.logs = pair.leader.logs := hkept
      have hother : pair.follower.memberId ≠ leader.memberId := by
        rw [RaftNode.memberId_of_transport hraft.transport]
        exact h.other
      have hasked : leader.nextIndex.lookup pair.follower.memberId =
          some (pair.follower.logs.entries.length + 1) := by
        rw [hraft.nextIndex]
        exact (UnorderedMap.lookup_insert_eq _ _ _ _).trans (if_pos rfl)
      refine round_eq_none (hraft.role.trans h.role) (hlogs ▸ hstart)
        (hraft.snapshotData.trans h.data) hother hasked ?_
      rw [hlogs, h.logs]
      omega

end Rounds

end Paired

/-! ## From the election on -/

/-- A candidate and a follower before any snapshot: the candidate's log is numbered from 1 on
and matches the follower's, whose term is not above.  The candidate's maps have members only. -/
structure Repairable (candidate follower : RaftNode) : Prop where
  start : candidate.logs.FromStart
  indexed : candidate.logs.Indexed
  data : candidate.snapshotData = []
  unlocked : candidate.snapshotter.locked = false
  followerStart : follower.logs.FromStart
  followerUnlocked : follower.snapshotter.locked = false
  term : follower.currentTerm ≤ candidate.currentTerm
  matching : candidate.logs.Matches follower.logs
  other : follower.memberId ≠ candidate.memberId
  peer : follower.memberId ∈ candidate.transport.peers
  nextKeys : ∀ id ∈ candidate.nextIndex, id ∈ candidate.transport.peers
  matchKeys : ∀ id ∈ candidate.matchIndex, id ∈ candidate.transport.peers

/-- The follower holds the leader's log, and the leader knows. -/
structure Repaired (log : RaftLog) (member : ℕ) (pair : Pair) : Prop where
  agrees : log.AgreeUpTo pair.follower.logs log.lastLogIndex
  recorded : pair.leader.matchIndex.lookup member = some log.lastLogIndex
  next : pair.leader.nextIndex.lookup member = some (log.lastLogIndex + 1)

theorem Repairable.paired {candidate follower : RaftNode} (h : Repairable candidate follower) :
    Paired candidate.logs ⟨candidate.becomeLeader, follower⟩ ∧
      Pair.next ⟨candidate.becomeLeader, follower⟩ = candidate.logs.entries.length + 1 := by
  have hlookup : ∀ m : UnorderedMap ℕ ℕ, (∀ id ∈ m, id ∈ candidate.transport.peers) →
      ∀ value id index, (candidate.transport.peers.foldl (fun m id => m.insert id value) m).lookup
        id = some index → index = value := by
    intro m hkeys value id index hindex
    rw [UnorderedMap.lookup_foldl_insert] at hindex
    split at hindex
    next => exact (Option.some.inj hindex).symm
    next hnot => exact absurd (hkeys id (UnorderedMap.mem_iff_lookup.mpr ⟨index, hindex⟩)) hnot
  have hasked : candidate.becomeLeader.nextIndex.lookup follower.memberId =
      some (candidate.logs.lastLogIndex + 1) :=
    (UnorderedMap.lookup_foldl_insert _ _ _ _).trans (if_pos h.peer)
  constructor
  · refine ⟨rfl, rfl, h.start, h.indexed, h.data, h.unlocked, h.other,
      UnorderedMap.mem_iff_lookup.mpr ⟨_, hasked⟩, fun id next hnext _ => ?_,
      fun id index hindex => ?_, h.followerStart, h.followerUnlocked, h.term, h.matching⟩
    · have hvalue : next = candidate.logs.lastLogIndex + 1 := hlookup _ h.nextKeys _ id next hnext
      rw [hvalue, h.start.lastLogIndex]
      exact ⟨Nat.succ_pos _, le_rfl⟩
    · rw [hlookup _ h.matchKeys _ id index hindex]
      exact Nat.zero_le _
  · rw [Pair.next, hasked, h.start.lastLogIndex]
    rfl

/-- **Log repair terminates** within the bound, if and only if the follower does not hold all
of the leader's log and more. -/
theorem logRepair [Platform] {candidate follower : RaftNode} (h : Repairable candidate follower)
    (envs : ℕ → Env × Env × Env) :
    (∃ k ≤ candidate.logs.lastLogIndex + 2 + (candidate.logs.lastLogIndex +
        (maxAppendEntriesSize - 1)) / maxAppendEntriesSize,
      ∀ later ≥ k, ∃ pair, Pair.rounds envs ⟨candidate.becomeLeader, follower⟩ later = some pair ∧
        Repaired candidate.logs follower.memberId pair) ↔
      ¬ (candidate.logs.entries <+: follower.logs.entries ∧
        candidate.logs.entries.length < follower.logs.entries.length) := by
  obtain ⟨hpaired, hnext⟩ := h.paired
  have hlast := h.start.lastLogIndex
  constructor
  · rintro ⟨k, -, hrepaired⟩ ⟨hpre, hlonger⟩
    -- the repaired state is not kept: there are no two rounds
    obtain ⟨pair, hrounds, -⟩ := hrepaired (k + 2) (Nat.le_add_right _ _)
    rw [hpaired.no_rounds hnext hpre hlonger envs k] at hrounds
    cases hrounds
  · intro hnot
    have haligned : (Pair.repair ⟨candidate.becomeLeader, follower⟩).Aligned
        candidate.logs.entries := by
      refine ⟨?_, ?_, fun hpre => ?_⟩
      · rw [Pair.repair, hnext, Nat.add_sub_cancel]
        exact Consensus.agreement_le
      · rw [Pair.repair, hnext, Nat.add_sub_cancel]
      · refine (hpre.eq_of_length_le ?_).symm
        exact not_lt.mp fun hlonger => hnot ⟨hpre, hlonger⟩
    have hbatch : 0 < maxAppendEntriesSize := Nat.succ_pos _
    have hleft := @Repair.left_le _ _ maxAppendEntriesSize _ _ haligned.asked
    -- after the steps that are left, one more round records what the follower has
    refine ⟨Repair.left maxAppendEntriesSize candidate.logs.entries
      (Pair.repair ⟨candidate.becomeLeader, follower⟩) + 1, ?_, fun later hlater => ?_⟩
    · rw [hlast]
      omega
    · obtain ⟨k, rfl⟩ : ∃ k, later = k + 1 := ⟨later - 1, by omega⟩
      obtain ⟨before, hbefore, hbeforePaired, hbeforeRepair, hbeforeMember⟩ :=
        hpaired.rounds haligned envs k
      have hdone := haligned.iterate hbatch (Nat.le_of_succ_le_succ hlater)
      rw [hdone] at hbeforeRepair
      obtain ⟨pair, hround, hpair, hrepair, hmember, hmatch⟩ := @Paired.round _ _ _ (envs k)
        hbeforePaired (hbeforeRepair ▸ Repair.aligned_done)
      rw [hbeforeRepair, Repair.step_done] at hrepair
      have hlog : pair.follower.logs.entries = candidate.logs.entries := congrArg Repair.log hrepair
      have hasked : pair.next - 1 = candidate.logs.entries.length := congrArg Repair.asked hrepair
      refine ⟨pair, by rw [Pair.rounds, hbefore]; exact hround, ?_, ?_, ?_⟩
      · exact agreeUpTo_of_isPrefix h.start hpair.followerStart List.prefix_rfl
          (hlog ▸ List.prefix_rfl) hlast.le
      · rw [hlast, ← hbeforeMember]
        exact hmatch hbeforeRepair
      · have hpos := hpair.next_range.1
        have hlookup := hpair.lookup_next
        rw [hmember, hbeforeMember] at hlookup
        rw [hlookup, hlast, ← hasked]
        exact congrArg some (by omega)

/-! ## A follower that is repaired, and one that is not -/

/-- Member 2 of three in term 2, with a log. -/
def candidateWith (entries : List LogEntry) : RaftNode :=
  { Cluster.freshNode { memberOfThree with memberId := 2 } with
    logs := { entries := entries }
    hardState := { currentTerm := 2, votedFor := some 2 } }

/-- Member 1 of three in term 1, with a log. -/
def followerWith (entries : List LogEntry) : RaftNode :=
  { follower with logs := { entries := entries }, hardState := { currentTerm := 1 } }

theorem repairable_of_matches {entries entries' : List LogEntry} (hnumbered : Numbered entries)
    (hmatches : RaftLog.Matches { entries := entries } { entries := entries' }) :
    Repairable (candidateWith entries) (followerWith entries') where
  start := ⟨rfl, rfl⟩
  indexed k entry hentry := (hnumbered k entry hentry).trans (Nat.zero_add _ ▸ rfl)
  data := rfl
  unlocked := rfl
  followerStart := ⟨rfl, rfl⟩
  followerUnlocked := rfl
  term := Nat.le_succ 1
  matching := hmatches
  other := Nat.succ_ne_self 1 ∘ Eq.symm
  peer := List.mem_cons_self
  nextKeys := nofun
  matchKeys := nofun

/-- A log of term 2. -/
def twoEntries : List LogEntry :=
  [{ term := 2, index := 1 }, { term := 2, index := 2 }]

/-- The entry of an earlier leader is replaced, and another one follows. -/
theorem logRepair_diverging :
    ∃ k ≤ 5, ∀ later ≥ k, ∃ pair, @Pair.rounds plainPlatform (fun _ => ({}, {}, {}))
        ⟨(candidateWith twoEntries).becomeLeader, followerWith [{ term := 1, index := 1 }]⟩ later =
          some pair ∧ Repaired (candidateWith twoEntries).logs 1 pair := by
  have hnumbered : Numbered twoEntries := by
    intro k entry hentry
    match k, hentry with
    | 0, hentry => cases hentry; rfl
    | 1, hentry => cases hentry; rfl
    | _ + 2, hentry => cases hentry
  have hmatches : RaftLog.Matches { entries := twoEntries }
      { entries := [{ term := 1, index := 1 }] } := by
    intro index entry entry' hentry hentry' hterm
    obtain ⟨k, rfl, hk⟩ := RaftLog.FromStart.exists_of_getEntry ⟨rfl, rfl⟩ hentry'
    match k, hk with
    | 0, hk =>
      obtain rfl : _ = entry' := Option.some.inj hk
      obtain rfl : ({ term := 2, index := 1 } : LogEntry) = entry := Option.some.inj hentry
      exact absurd hterm (by decide)
    | _ + 1, hk => cases hk
  have hrepairable := repairable_of_matches hnumbered hmatches
  obtain ⟨k, hk, hrepaired⟩ := (@logRepair plainPlatform _ _ hrepairable
    (fun _ => ({}, {}, {}))).mpr fun hmore => absurd hmore.2 (by decide)
  exact ⟨k, hk.trans (by decide), hrepaired⟩

/-- The follower has the leader's only entry, and one more. -/
theorem exists_unrepaired :
    ∃ candidate follower, Repairable candidate follower ∧ candidate.logs.lastLogIndex = 1 ∧
      ∀ envs, ¬ ∃ k, ∀ later ≥ k, ∃ pair,
        @Pair.rounds plainPlatform envs ⟨candidate.becomeLeader, follower⟩ later = some pair ∧
          Repaired candidate.logs follower.memberId pair := by
  have hnumbered : Numbered [{ term := 1, index := 1 }] := by
    intro k entry hentry
    match k, hentry with
    | 0, hentry => cases hentry; rfl
    | _ + 1, hentry => cases hentry
  have hmatches : RaftLog.Matches { entries := [{ term := 1, index := 1 }] }
      { entries := [{ term := 1, index := 1 }, { term := 1, index := 2 }] } := by
    intro index _ _ _ _ _ earlier _ e e' he he'
    obtain ⟨k, rfl, hk⟩ := RaftLog.FromStart.exists_of_getEntry ⟨rfl, rfl⟩ he
    match k, hk with
    | 0, hk =>
      obtain rfl : _ = e := Option.some.inj hk
      exact Option.some.inj he'
    | _ + 1, hk => cases hk
  have hrepairable := repairable_of_matches hnumbered hmatches
  refine ⟨_, _, hrepairable, rfl, fun envs => ?_⟩
  rintro ⟨k, hrepaired⟩
  obtain ⟨pair, hrounds, -⟩ := hrepaired (k + 2) (Nat.le_add_right _ _)
  obtain ⟨hpaired, hnext⟩ := hrepairable.paired
  rw [@Paired.no_rounds _ _ plainPlatform hpaired hnext (by decide) (by decide) envs k] at hrounds
  cases hrounds

end Vosfs.Raft
