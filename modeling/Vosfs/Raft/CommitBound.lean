import Vosfs.Raft.Resumptions

/-!
# What a request lets a follower commit

A request that is answered with success verifies the log of the follower up to its last
entry, or up to `prev_log_index` if it has none (`AppendEntriesRequest.verifiedEnd`).  What
the follower has past that may be left over from an earlier leader.

The follower takes `min(last_log_index(), leader_commit)` as its commit index.  That is
within what was verified if its log ends there once the entries are stored, or if the leader
has committed no more (`CommitsWithin`); these are the only cases (`commitVerified`).
-/

namespace Vosfs.Raft

/-- The last index up to which the log of a follower is known to be the leader's. -/
def AppendEntriesRequest.verifiedEnd (request : AppendEntriesRequest) : ℕ :=
  request.prevLogIndex + request.entries.length

namespace RaftNode

variable {env : Env} {node node' : RaftNode} {request : AppendEntriesRequest}

/-- What may be committed on account of a request. -/
def verifiedCommit (node : RaftNode) (request : AppendEntriesRequest) : ℕ :=
  max node.commitIndex (min request.leaderCommit request.verifiedEnd)

/-- No more than that is committed or applied, and nothing is taken back. -/
structure CommitsVerified (node : RaftNode) (request : AppendEntriesRequest) (node' : RaftNode) :
    Prop where
  grows : node.commitIndex ≤ node'.commitIndex
  bounded : node'.commitIndex ≤ node.verifiedCommit request
  applied : ∃ new, node'.applied = node.applied ++ new ∧
    ∀ p ∈ new, p.1 ≤ node.verifiedCommit request

/-- If there is more to commit, then the log holds what is committed already, and it ends with
what was verified or committed, or the leader has committed no more than was verified. -/
def CommitsWithin (node : RaftNode) (request : AppendEntriesRequest) : Prop :=
  node.commitIndex < request.leaderCommit →
    node.commitIndex ≤ node.logs.storedIndex request.entries ∧
      (node.logs.storedIndex request.entries ≤ max node.commitIndex request.verifiedEnd ∨
        request.leaderCommit ≤ request.verifiedEnd)

section Apply

variable [Platform]

theorem applied_applyNext (happly : node.applyNext env = .ok node') :
    ∃ entry, node'.applied = node.applied ++ [(node.lastApplied + 1, entry)] := by
  obtain ⟨entry, -, hround⟩ := round_of_applyNext happly
  refine ⟨entry, ?_⟩
  cases hround <;> rfl

/-- The rounds apply the positions up to the last one. -/
theorem applied_applyRounds {rounds : ℕ} (happly : applyRounds env rounds node = .ok node') :
    ∃ new, node'.applied = node.applied ++ new ∧
      ∀ p ∈ new, node.lastApplied < p.1 ∧ p.1 ≤ node.lastApplied + rounds := by
  induction rounds generalizing node with
  | zero =>
    cases happly
    exact ⟨[], (List.append_nil _).symm, nofun⟩
  | succ rounds ih =>
    obtain ⟨next, hnext, happly⟩ := exists_of_applyRounds happly
    obtain ⟨entry, hfirst⟩ := applied_applyNext hnext
    obtain ⟨new, hnew, hrange⟩ := ih happly
    rw [(applyNext_indexes hnext).1] at hrange
    refine ⟨(node.lastApplied + 1, entry) :: new, ?_, fun p hp => ?_⟩
    · rw [hnew, hfirst, List.append_assoc]
      rfl
    · rcases List.mem_cons.mp hp with rfl | hmore
      · exact ⟨Nat.lt_succ_self _, by simp only; omega⟩
      · have := hrange p hmore
        omega

theorem followCommit_spec {leaderCommit : ℕ}
    (hfollow : node.followCommit env leaderCommit = .ok node') :
    (node'.commitIndex = if node.commitIndex < leaderCommit then
        min node.logs.lastLogIndex leaderCommit else node.commitIndex) ∧
      ∃ new, node'.applied = node.applied ++ new ∧ ∀ p ∈ new, p.1 ≤ node'.commitIndex := by
  unfold followCommit at hfollow
  split at hfollow
  next hlt =>
    have hcommit : node'.commitIndex = min node.logs.lastLogIndex leaderCommit :=
      (applyRounds_indexes hfollow).2.1
    obtain ⟨new, hnew, hrange⟩ := applied_applyRounds hfollow
    refine ⟨hcommit.trans (if_pos hlt).symm, new, hnew, fun p hp => ?_⟩
    have hp_range : node.lastApplied < p.1 ∧ p.1 ≤ node.lastApplied +
      (min node.logs.lastLogIndex leaderCommit - node.lastApplied) := hrange p hp
    omega
  next hge =>
    cases hfollow
    exact ⟨(if_neg hge).symm, [], (List.append_nil _).symm, nofun⟩

end Apply

section Step

variable [Platform]

/-- Where the commit index ends up. -/
theorem commitIndex_of_accepted (haccepts : node.Accepts request)
    (hafter : node.afterEntries env request = .ok node') :
    (node'.commitIndex = if node.commitIndex < request.leaderCommit then
        min (node.logs.storedIndex request.entries) request.leaderCommit else node.commitIndex) ∧
      ∃ new, node'.applied = node.applied ++ new ∧ ∀ p ∈ new, p.1 ≤ node'.commitIndex := by
  have hfollowed : KeepsData node (node.followed env request) := followed_keepsData
  cases outcome_of_afterEntries hafter with
  | late hlate => exact absurd haccepts.1 (not_le.mpr hlate)
  | rejected _ hreject => exact absurd haccepts.2 hreject
  | @stored stored _ _ hstore hfollow =>
    have hlast := storeEntries_lastLogIndex hstore
    have hcommit := (indexes_of_stored hstore).2.1
    have happlied : stored.applied = node.applied := by
      obtain ⟨_, _, rfl⟩ := storeEntries_shape hstore
      exact hfollowed.applied
    obtain ⟨hcommit', hnew⟩ := followCommit_spec hfollow
    rw [hfollowed.logs] at hlast
    rw [hcommit, hlast] at hcommit'
    rw [happlied] at hnew
    exact ⟨hcommit', hnew⟩

/-- A request is answered with success exactly if it is accepted. -/
theorem accepts_of_success {response : AppendEntriesResponse}
    (hhandle : node.handleAppendEntriesRequest env request = .ok (node', response))
    (hsuccess : response.success = true) :
    node.Accepts request ∧ node.afterEntries env request = .ok node' := by
  have hafter : node.afterEntries env request = .ok node' := by
    rw [← map_handleAppendEntriesRequest, hhandle]
    rfl
  refine ⟨?_, hafter⟩
  unfold handleAppendEntriesRequest at hhandle
  split at hhandle
  next => cases hhandle; cases hsuccess
  next hterm =>
    simp only at hhandle
    split at hhandle
    next => cases hhandle; cases hsuccess
    next hok => exact ⟨not_lt.mp hterm, logOk_followed.mp (not_not.mp hok)⟩

end Step

end RaftNode

/-- **What a request lets a follower commit** is what it verified, if and only if the follower's
log or the leader's commit index ends there. -/
theorem commitVerified [Platform] {env : Env} {node node' : RaftNode}
    {request : AppendEntriesRequest} {response : AppendEntriesResponse}
    (hhandle : node.handleAppendEntriesRequest env request = .ok (node', response))
    (hsuccess : response.success = true) :
    node.CommitsVerified request node' ↔ node.CommitsWithin request := by
  obtain ⟨haccepts, hafter⟩ := RaftNode.accepts_of_success hhandle hsuccess
  obtain ⟨hcommit, new, hnew, hle⟩ := RaftNode.commitIndex_of_accepted haccepts hafter
  constructor
  · rintro ⟨hgrows, hbounded, -⟩ hlt
    rw [if_pos hlt] at hcommit
    -- the new index is the smaller one of `E` and `leader_commit`
    unfold RaftNode.verifiedCommit at hbounded
    omega
  · intro hwithin
    have hbounded : node'.commitIndex ≤ node.verifiedCommit request := by
      unfold RaftNode.verifiedCommit
      by_cases hlt : node.commitIndex < request.leaderCommit
      · obtain ⟨-, hends⟩ := hwithin hlt
        rw [if_pos hlt] at hcommit
        omega
      · rw [if_neg hlt] at hcommit
        omega
    refine ⟨?_, hbounded, new, hnew, fun p hp => (hle p hp).trans hbounded⟩
    by_cases hlt : node.commitIndex < request.leaderCommit
    · obtain ⟨hcommitted, -⟩ := hwithin hlt
      rw [if_pos hlt] at hcommit
      omega
    · rw [if_neg hlt] at hcommit
      omega

/-! ## Two followers -/

/-- The first entry and its commit. -/
def firstCommitted : AppendEntriesRequest :=
  { term := 1, leaderId := 2, entries := [{ term := 1, index := 1 }], leaderCommit := 1 }

/-- A check of a result passes only if there is one. -/
theorem exists_ok_of_any {ε α : Type*} (result : Except ε α) (check : α → Bool)
    (hcheck : result.toOption.any check = true) : ∃ a, result = .ok a ∧ check a = true := by
  cases result with
  | error err => cases hcheck
  | ok a => exact ⟨a, rfl, hcheck⟩

theorem commitVerified_firstCommitted :
    ∃ node' response, @RaftNode.handleAppendEntriesRequest plainPlatform {} follower
        firstCommitted = .ok (node', response) ∧ node'.commitIndex = 1 ∧
      follower.CommitsVerified firstCommitted node' := by
  obtain ⟨after, hhandle, hcheck⟩ := exists_ok_of_any
    (@RaftNode.handleAppendEntriesRequest plainPlatform {} follower firstCommitted)
    (fun after => decide (after.1.commitIndex = 1 ∧ after.2.success = true)) (by decide)
  obtain ⟨hcommit, hsuccess⟩ := of_decide_eq_true hcheck
  refine ⟨after.1, after.2, hhandle, hcommit, ?_⟩
  refine (@commitVerified plainPlatform _ _ _ _ _ hhandle hsuccess).mpr fun _ => ?_
  exact ⟨Nat.zero_le _, Or.inr (by decide)⟩

/-- A heartbeat of the next leader, which has the first entry only. -/
def heartbeatAtOne : AppendEntriesRequest :=
  { term := 2, leaderId := 3, prevLogIndex := 1, prevLogTerm := 1, leaderCommit := 2 }

/-- What the first leader left, and what the follower applied of it. -/
def leftOver : List LogEntry :=
  [{ term := 1, index := 1 }, { term := 1, index := 2 }]

/-- The second entry is left over from the first leader, and it is applied. -/
theorem exists_unverified_commit :
    ∃ node node' response,
      Run (@RaftNode.next plainPlatform) (fun _ _ => True) follower node ∧
      node.role = .follower ∧ node.verifiedCommit heartbeatAtOne = 1 ∧
      @RaftNode.handleAppendEntriesRequest plainPlatform {} node heartbeatAtOne =
        .ok (node', response) ∧
      response.success = true ∧ node'.commitIndex = 2 ∧ node'.applied.map Prod.snd = leftOver ∧
      ¬ node.CommitsVerified heartbeatAtOne node' := by
  obtain ⟨node, hrun, hcheck⟩ := Run.exists_of_exec (@RaftNode.next plainPlatform)
    (fun _ _ => True) follower [entriesOf 1 leftOver 0]
    (fun node => decide (node.role = .follower ∧ node.verifiedCommit heartbeatAtOne = 1) &&
      (@RaftNode.handleAppendEntriesRequest plainPlatform {} node heartbeatAtOne).toOption.any
        fun after : RaftNode × AppendEntriesResponse => decide (after.2.success = true ∧
          after.1.commitIndex = 2 ∧ after.1.applied.map Prod.snd = leftOver)) (by decide)
  rw [Bool.and_eq_true] at hcheck
  obtain ⟨hrole, hverified⟩ := of_decide_eq_true hcheck.1
  obtain ⟨after, hhandle, hafter⟩ := exists_ok_of_any _ _ hcheck.2
  obtain ⟨hsuccess, hcommit, happlied⟩ := of_decide_eq_true hafter
  refine ⟨node, after.1, after.2, hrun, hrole, hverified, hhandle, hsuccess, hcommit, happlied,
    fun hcommits => ?_⟩
  have := hcommits.bounded
  omega

end Vosfs.Raft
