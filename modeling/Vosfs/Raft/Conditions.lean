import Vosfs.Raft.Cluster

/-!
# Steps that keep to the protocol

What a step must avoid for the guarantees of the protocol, each as a condition on
the state before the step.
-/

namespace Vosfs.Raft

namespace RaftNode

section Restart

variable [Platform]

/-- A node that is started again was no leader, and its disk holds the hard state and the log it had
in memory. -/
def Recovers (node : RaftNode) (env : Env) (input : Input) (lost : ℕ) : Prop :=
  node.role ≠ .leader ∧
    ((node.diskLeft env input lost).file snapshotFileName).getD [] = [] ∧
    (node.diskLeft env input lost).get Persister.hardStateKey = some (.hardState node.hardState) ∧
    Persister.loadEntries (node.diskLeft env input lost) 0 = .ok node.logs.entries

instance {node : RaftNode} {env : Env} {input : Input} {lost : ℕ} :
    Decidable (Recovers node env input lost) :=
  inferInstanceAs (Decidable (_ ∧ _ ∧ _ ∧ _))

end Restart

/-- No election starts in the last term a `uint64_t` can hold. -/
def TermFits (node : RaftNode) (env : Env) : Prop :=
  TimedOut env node → node.role ≠ .leader → node.currentTerm + 1 < 2 ^ 64

/-- A leader, which has cleared its own vote, is not asked for it. -/
def KeepsOwnVote (node : RaftNode) (request : RequestVoteRequest) : Prop :=
  node.role = .leader → request.term = node.currentTerm → ¬ UpToDateLog node request

/-- The request passes the checks of the term and of the preceding entry. -/
def Accepts (node : RaftNode) (request : AppendEntriesRequest) : Prop :=
  node.currentTerm ≤ request.term ∧ LogOk node request

/-- A follower of the leader confirms that it holds its log. -/
def Confirms (node : RaftNode) (response : AppendEntriesResponse) : Prop :=
  node.role = .leader ∧ response.term = node.currentTerm ∧ response.success = true

/-- A follower is not sent entries it already holds. -/
def AppendsOnce (node : RaftNode) (request : AppendEntriesRequest) : Prop :=
  Accepts node request → ∀ entry ∈ request.entries.head?,
    node.logs.getTerm (request.prevLogIndex + 1) ≠ some entry.term

/-- A follower that is sent no entries has none past the ones the leader checked, or all of them are
the leader's. -/
def ReportsVerified (node : RaftNode) (request : AppendEntriesRequest) : Prop :=
  Accepts node request → request.entries = [] →
    request.prevLogIndex = node.logs.lastLogIndex ∨ node.logs.lastLogTerm = request.term

/-- No vote goes to a log with a lower last term. -/
def ComparesLogs (node : RaftNode) (env : Env) (request : RequestVoteRequest) : Prop :=
  node.currentTerm ≤ request.term → CanVote (node.catchUp env request.term) request →
    ¬ request.lastLogTerm < node.logs.lastLogTerm

/-- Enough members are recorded at `index` or past it; the leader's own slot is 0. -/
def Reached (matchIndex : UnorderedMap ℕ ℕ) (index : ℕ) : Prop :=
  matchIndex.values.length - matchIndex.values.length / 2 ≤
    matchIndex.values.countP fun recorded => decide (index ≤ recorded)

/-- Where enough members are past the commit index, they reach an entry of the
leader's own term. -/
def QuorumOwnTerm (node : RaftNode) : Prop :=
  ∀ index ∈ node.matchIndex.values, node.commitIndex < index → Reached node.matchIndex index →
    ∃ own ∈ node.matchIndex.values, index ≤ own ∧ Reached node.matchIndex own ∧
      node.logs.getTerm own = some node.currentTerm

/-- A leader whose members reached an index past its commit index finds an entry of its own term
there. -/
def CommitsOwnTerm (node : RaftNode) (response : AppendEntriesResponse) : Prop :=
  node.role = .leader → response.term = node.currentTerm → response.success = true →
    QuorumOwnTerm (node.recordMatch response.id response.lastLogIndex)

variable {node : RaftNode} {env : Env}

instance : Decidable (TermFits node env) :=
  inferInstanceAs (Decidable (_ → _ → _))

instance {request : RequestVoteRequest} : Decidable (KeepsOwnVote node request) :=
  inferInstanceAs (Decidable (_ → _ → ¬ _))

instance {request : AppendEntriesRequest} : Decidable (Accepts node request) :=
  inferInstanceAs (Decidable (_ ∧ _))

instance {response : AppendEntriesResponse} : Decidable (Confirms node response) :=
  inferInstanceAs (Decidable (_ ∧ _ ∧ _))

instance {request : AppendEntriesRequest} : Decidable (AppendsOnce node request) :=
  inferInstanceAs (Decidable (Accepts node request → ∀ entry ∈ request.entries.head?,
    node.logs.getTerm (request.prevLogIndex + 1) ≠ some entry.term))

instance {request : AppendEntriesRequest} : Decidable (ReportsVerified node request) :=
  inferInstanceAs (Decidable (_ → _ → _ ∨ _))

instance {request : RequestVoteRequest} : Decidable (ComparesLogs node env request) :=
  inferInstanceAs (Decidable (_ → CanVote _ _ → ¬ _))

instance {matchIndex : UnorderedMap ℕ ℕ} {index : ℕ} : Decidable (Reached matchIndex index) :=
  inferInstanceAs (Decidable (_ ≤ _))

instance : Decidable (QuorumOwnTerm node) :=
  inferInstanceAs (Decidable (∀ _ ∈ _, _ → Reached _ _ → ∃ _ ∈ _, _ ≤ _ ∧ Reached _ _ ∧ _ = _))

instance {response : AppendEntriesResponse} : Decidable (CommitsOwnTerm node response) :=
  inferInstanceAs (Decidable (_ → _ → _ → QuorumOwnTerm _))

end RaftNode

/-! ## Conditions on a step of the cluster -/

namespace Action

/-- The step is a restart. -/
def restarts : Action → Bool
  | .restart .. => true
  | _ => false

/-- What happens in a restart. -/
def restart? : Action → Option (ℕ × Env × Input × ℕ)
  | .restart id env input lost => some (id, env, input, lost)
  | _ => none

/-- The election timeout that fires, if one does. -/
def timeout? : Action → Option (ℕ × Env)
  | .handle id env .electionTimeout => some (id, env)
  | _ => none

/-- The request for a vote that is handled, and by whom. -/
def voteRequest? : Action → Option (ℕ × Env × RequestVoteRequest)
  | .handle id env (.deliver _ (.requestVoteRequest request)) => some (id, env, request)
  | _ => none

/-- The request to append that is handled, and by whom. -/
def appendRequest? : Action → Option (ℕ × AppendEntriesRequest)
  | .handle id _ (.deliver _ (.appendEntriesRequest request)) => some (id, request)
  | _ => none

/-- The response to such a request that is handled, and by whom. -/
def appendResponse? : Action → Option (ℕ × AppendEntriesResponse)
  | .handle id _ (.deliver _ (.appendEntriesResponse response)) => some (id, response)
  | _ => none

end Action

namespace Cluster

variable [Platform]

/-- The steps that keep one vote per term. -/
structure VotesOnce (c : Cluster) (action : Action) : Prop where
  recovers : ∀ r ∈ action.restart?, (c.node r.1).Recovers r.2.1 r.2.2.1 r.2.2.2
  fits : ∀ t ∈ action.timeout?, (c.node t.1).TermFits t.2
  ownVote : ∀ r ∈ action.voteRequest?, (c.node r.1).KeepsOwnVote r.2.2

/-- The steps that also keep the logs in agreement. -/
structure LogsMatch (c : Cluster) (action : Action) : Prop where
  votes : VotesOnce c action
  once : ∀ r ∈ action.appendRequest?, (c.node r.1).AppendsOnce r.2

/-- The steps that also keep what members report true. -/
structure ReportsHold (c : Cluster) (action : Action) : Prop where
  logs : LogsMatch c action
  verified : ∀ r ∈ action.appendRequest?, (c.node r.1).ReportsVerified r.2

/-- The steps that also keep what is committed. -/
structure CommitsHold (c : Cluster) (action : Action) : Prop where
  reports : ReportsHold c action
  compares : ∀ r ∈ action.voteRequest?, (c.node r.1).ComparesLogs r.2.1 r.2.2
  ownTerm : ∀ r ∈ action.appendResponse?, (c.node r.1).CommitsOwnTerm r.2

variable {c : Cluster} {action : Action}

instance : Decidable (VotesOnce c action) :=
  decidable_of_iff ((∀ r ∈ action.restart?, (c.node r.1).Recovers r.2.1 r.2.2.1 r.2.2.2) ∧
    (∀ t ∈ action.timeout?, (c.node t.1).TermFits t.2) ∧
    ∀ r ∈ action.voteRequest?, (c.node r.1).KeepsOwnVote r.2.2)
    ⟨fun h => ⟨h.1, h.2.1, h.2.2⟩, fun h => ⟨h.recovers, h.fits, h.ownVote⟩⟩

instance : Decidable (LogsMatch c action) :=
  decidable_of_iff (VotesOnce c action ∧
    ∀ r ∈ action.appendRequest?, (c.node r.1).AppendsOnce r.2)
    ⟨fun h => ⟨h.1, h.2⟩, fun h => ⟨h.votes, h.once⟩⟩

instance : Decidable (ReportsHold c action) :=
  decidable_of_iff (LogsMatch c action ∧
    ∀ r ∈ action.appendRequest?, (c.node r.1).ReportsVerified r.2)
    ⟨fun h => ⟨h.1, h.2⟩, fun h => ⟨h.logs, h.verified⟩⟩

instance : Decidable (CommitsHold c action) :=
  decidable_of_iff (ReportsHold c action ∧
    (∀ r ∈ action.voteRequest?, (c.node r.1).ComparesLogs r.2.1 r.2.2) ∧
    ∀ r ∈ action.appendResponse?, (c.node r.1).CommitsOwnTerm r.2)
    ⟨fun h => ⟨h.1, h.2.1, h.2.2⟩, fun h => ⟨h.reports, h.compares, h.ownTerm⟩⟩

/-- The condition on a step at a level of the relation to histories. -/
def Regular (level : ℕ) (c : Cluster) (action : Action) : Prop :=
  VotesOnce c action ∧ (1 ≤ level → LogsMatch c action) ∧ (2 ≤ level → ReportsHold c action) ∧
    (3 ≤ level → CommitsHold c action)

end Cluster

end Vosfs.Raft
