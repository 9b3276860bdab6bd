import Mathlib.Data.Prod.Lex
import Vosfs.Raft.IndexChain
import Vosfs.Raft.LogSafety

/-!
# The vote rule

A voter compares logs by the pair of their last term and their last index, the term first:
a log is as good as another one if it ends in a later term, or in the same term and is no
shorter.  `handleRequestVoteRequest` compares the indexes first, and the terms only where the
indexes are the same.

The two comparisons agree unless one of the logs ends in the later term and the other one is
longer, or both are of one length (`voteRule`).  A longer log that ends in an earlier term is
given a vote that it must not get (`exists_wrong_vote`).
-/

namespace Vosfs.Raft

namespace RaftNode

variable {env : Env} {node : RaftNode} {request : RequestVoteRequest}

/-- No vote was given to another candidate in the term of the request. -/
def MayVote (node : RaftNode) (request : RequestVoteRequest) : Prop :=
  node.currentTerm < request.term ∨ node.hardState.votedFor = none ∨
    node.hardState.votedFor = some request.candidateId

/-- The candidate's log ends in a later term, or in the same term at no lower index. -/
def AsUpToDate (node : RaftNode) (request : RequestVoteRequest) : Prop :=
  toLex (node.logs.lastLogTerm, node.logs.lastLogIndex) ≤
    toLex (request.lastLogTerm, request.lastLogIndex)

/-- The vote is given by the rule, and a request of an earlier term is refused. -/
def VotesByRule (env : Env) (node : RaftNode) (request : RequestVoteRequest) : Prop :=
  (request.term < node.currentTerm →
    (node.handleRequestVoteRequest env request).1 = node ∧
      (node.handleRequestVoteRequest env request).2.voteGranted = false) ∧
  (node.currentTerm ≤ request.term →
    ((node.handleRequestVoteRequest env request).2.voteGranted = true ↔
      node.MayVote request ∧ node.AsUpToDate request))

/-- The log that ends in the later term is the longer one. -/
def OrdersAlike (node : RaftNode) (request : RequestVoteRequest) : Prop :=
  (request.lastLogTerm < node.logs.lastLogTerm →
    request.lastLogIndex ≤ node.logs.lastLogIndex) ∧
  (node.logs.lastLogTerm < request.lastLogTerm →
    node.logs.lastLogIndex < request.lastLogIndex)

theorem asUpToDate_iff :
    node.AsUpToDate request ↔ node.logs.lastLogTerm < request.lastLogTerm ∨
      node.logs.lastLogTerm = request.lastLogTerm ∧
        node.logs.lastLogIndex ≤ request.lastLogIndex :=
  Prod.Lex.toLex_le_toLex

theorem upToDateLog_iff_asUpToDate_iff :
    (UpToDateLog node request ↔ node.AsUpToDate request) ↔ node.OrdersAlike request := by
  rw [asUpToDate_iff]
  unfold UpToDateLog OrdersAlike
  omega

/-- Moving to a later term takes the vote back, and leaves the log. -/
theorem canVote_catchUp_iff :
    CanVote (node.catchUp env request.term) request ↔
      node.MayVote request ∧ UpToDateLog node request := by
  unfold catchUp MayVote CanVote
  split
  next hlt => exact and_congr (iff_of_true (Or.inl rfl) (Or.inl hlt)) Iff.rfl
  next hge => rw [or_iff_right hge]

theorem voteGranted_iff (hterm : node.currentTerm ≤ request.term) :
    (node.handleRequestVoteRequest env request).2.voteGranted = true ↔
      node.MayVote request ∧ UpToDateLog node request := by
  rw [← @canVote_catchUp_iff env]
  unfold handleRequestVoteRequest
  rw [if_neg (not_lt.mpr hterm)]
  simp only
  split
  next hcan => exact iff_of_true rfl hcan
  next hcannot => exact iff_of_false Bool.false_ne_true hcannot

end RaftNode

/-- **When votes follow the rule.** -/
theorem voteRule {env : Env} {node : RaftNode} {request : RequestVoteRequest} :
    node.VotesByRule env request ↔ request.term < node.currentTerm ∨ ¬ node.MayVote request ∨
      node.OrdersAlike request := by
  have hrefused : request.term < node.currentTerm →
      (node.handleRequestVoteRequest env request).1 = node ∧
        (node.handleRequestVoteRequest env request).2.voteGranted = false := by
    intro hlate
    unfold RaftNode.handleRequestVoteRequest
    rw [if_pos hlate]
    exact ⟨rfl, rfl⟩
  unfold RaftNode.VotesByRule
  rw [and_iff_right hrefused]
  by_cases hterm : node.currentTerm ≤ request.term
  · rw [or_iff_right (not_lt.mpr hterm), RaftNode.voteGranted_iff hterm, forall_prop_of_true hterm,
      ← RaftNode.upToDateLog_iff_asUpToDate_iff, and_congr_right_iff, imp_iff_not_or]
  · exact iff_of_true (fun h => absurd h hterm) (Or.inl (not_le.mp hterm))

/-! ## A vote for the wrong log -/

/-- A candidate whose two entries are older than the voter's only one. -/
def outdated : RequestVoteRequest :=
  { term := 3, candidateId := 3, lastLogIndex := 2, lastLogTerm := 1 }

theorem exists_wrong_vote :
    ∃ node, Run (@RaftNode.next plainPlatform) (fun _ _ => True) follower node ∧
      node.logs.lastLogTerm = 2 ∧ node.currentTerm ≤ outdated.term ∧
      (node.handleRequestVoteRequest {} outdated).2.voteGranted = true ∧
      ¬ node.VotesByRule {} outdated := by
  obtain ⟨node, hrun, hcheck⟩ := Run.exists_of_exec (@RaftNode.next plainPlatform)
    (fun _ _ => True) follower
    [entriesOf 2 [{ term := 2, index := 1, command := some (.mkdir (directory "a")) }] 0]
    (fun node => decide (node.logs.lastLogTerm = 2 ∧ node.currentTerm = 2 ∧
      (node.handleRequestVoteRequest {} outdated).2.voteGranted = true)) (by decide)
  obtain ⟨hlast, hterm, hgranted⟩ := of_decide_eq_true hcheck
  refine ⟨node, hrun, hlast, by rw [hterm]; decide, hgranted, fun hrule => ?_⟩
  have hboth := (hrule.2 (by rw [hterm]; decide)).mp hgranted
  -- the voter's log ends in the later term
  have hlog := RaftNode.asUpToDate_iff.mp hboth.2
  have hlower : outdated.lastLogTerm = 1 := rfl
  omega

end Vosfs.Raft
