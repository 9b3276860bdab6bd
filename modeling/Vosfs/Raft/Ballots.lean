import Vosfs.Raft.Terms

/-!
# A leader has a quorum behind it

`votes_` counts approvals without a record of who gave them.  The request for a vote and
its approval are one token on the network, which turns into one grant when it arrives; as
a candidate asks each member once in a term, no member is counted twice, and whoever leads
a term has grants of more than half of the members, its own vote included (`quorumBehind`).

A candidate whose term wraps around asks for votes again in an old term, where late
approvals and new ones add up (`exists_leader_without_quorum`).
-/

namespace Vosfs.Raft

open Function

/-- An approval that arrived at the candidate. -/
structure Grant where
  voter : ℕ
  candidate : ℕ
  term : ℕ
  deriving DecidableEq

/-- A cluster with the approvals that arrived so far. -/
structure Poll where
  cluster : Cluster
  grants : List Grant := []

/-! ## What a step does to the votes of a node -/

namespace RaftNode

variable {env : Env} {node node' : RaftNode} {term : ℕ}

/-- The approval is counted. -/
def Counts (node : RaftNode) (response : RequestVoteResponse) : Prop :=
  response.term = node.currentTerm ∧ node.role ≠ .leader ∧ response.voteGranted = true

/-- No vote is counted; they are forgotten with the term. -/
structure CountsNothing (node node' : RaftNode) : Prop where
  led : node'.led = node.led
  votes : node'.votes = 0 ∨ (node'.votes = node.votes ∧ node'.currentTerm = node.currentTerm)

theorem CountsNothing.refl : CountsNothing node node :=
  ⟨rfl, Or.inr ⟨rfl, rfl⟩⟩

theorem catchUp_countsNothing : CountsNothing node (node.catchUp env term) := by
  unfold catchUp
  split
  next => exact ⟨rfl, Or.inl rfl⟩
  next => exact .refl

theorem KeepsRaft.countsNothing (hkeeps : KeepsRaft node node') : CountsNothing node node' :=
  ⟨hkeeps.led, Or.inr ⟨hkeeps.votes, congrArg HardState.currentTerm hkeeps.hardState⟩⟩

theorem CountsNothing.trans_keeps {node'' : RaftNode} (hfirst : CountsNothing node node')
    (hsecond : KeepsRaft node' node'') : CountsNothing node node'' := by
  refine ⟨hsecond.led.trans hfirst.led, ?_⟩
  have hterm : node''.currentTerm = node'.currentTerm :=
    congrArg HardState.currentTerm hsecond.hardState
  rw [hsecond.votes, hterm]
  exact hfirst.votes

/-- All that a step can do to the votes. -/
inductive BallotEffect (env : Env) (node : RaftNode) : Input → RaftNode → Prop
  | nothing {input : Input} {node' : RaftNode} (hnothing : CountsNothing node node') :
      BallotEffect env node input node'
  | elects {node' : RaftNode} (hstart : StartsElection env node .electionTimeout)
      (hled : node'.led = node.startElection.voteForSelf.tryToLead.led)
      (hvotes : node'.votes = node.startElection.voteForSelf.tryToLead.votes)
      (hterm : node'.currentTerm = u64 (node.currentTerm + 1)) :
      BallotEffect env node .electionTimeout node'
  | counts {src : ℕ} {response : RequestVoteResponse} (hcounts : node.Counts response) :
      BallotEffect env node (.deliver src (.requestVoteResponse response))
        ({ node with votes := node.votes + 1 } : RaftNode).tryToLead

theorem handleRequestVoteRequest_countsNothing {request : RequestVoteRequest} :
    CountsNothing node (node.handleRequestVoteRequest env request).1 := by
  have hcatch := @catchUp_countsNothing env node request.term
  unfold handleRequestVoteRequest
  split
  next => exact .refl
  next =>
    simp only
    split
    next => exact ⟨hcatch.led, hcatch.votes⟩
    next => exact hcatch

theorem electionLoop_ballotEffect :
    BallotEffect env node .electionTimeout (node.electionLoop env).1 := by
  by_cases hstart : StartsElection env node .electionTimeout
  · have hterm := currentTerm_electionLoop hstart
    rw [electionLoop_of_starts hstart] at hterm ⊢
    exact .elects hstart rfl rfl hterm
  · rw [electionLoop_of_not_starts hstart]
    exact .nothing .refl

theorem handleRequestVoteResponse_ballotEffect {src : ℕ} {response : RequestVoteResponse} :
    BallotEffect env node (.deliver src (.requestVoteResponse response))
      (node.handleRequestVoteResponse env response) := by
  unfold handleRequestVoteResponse
  split
  next => exact .nothing .refl
  next hge =>
    split
    next => exact .nothing ⟨rfl, Or.inl rfl⟩
    next hle =>
      split
      next => exact .nothing .refl
      next hrole =>
        split
        next hgranted =>
          exact .counts ⟨le_antisymm (not_lt.mp hle) (not_lt.mp hge), hrole, hgranted⟩
        next => exact .nothing .refl

variable [Platform]

theorem afterEntries_countsNothing {request : AppendEntriesRequest}
    (hafter : node.afterEntries env request = .ok node') : CountsNothing node node' := by
  by_cases hterm : node.currentTerm ≤ request.term
  · exact catchUp_countsNothing.trans_keeps (afterEntries_keepsRaft hterm hafter)
  · cases outcome_of_afterEntries hafter with
    | late => exact .refl
    | rejected hterm' => exact absurd hterm' hterm
    | stored haccepts => exact absurd haccepts.1 hterm

theorem handleAppendEntriesResponse_countsNothing {response : AppendEntriesResponse}
    (hafter : node.handleAppendEntriesResponse env response = .ok node') :
    CountsNothing node node' := by
  cases outcome_of_handleAppendEntriesResponse hafter with
  | ignored => exact .refl
  | deposed => exact ⟨rfl, Or.inl rfl⟩
  | rejected => exact ⟨rfl, Or.inr ⟨rfl, rfl⟩⟩
  | confirmed _ hadvance =>
    have hrecorded : CountsNothing node (node.recordMatch response.id response.lastLogIndex) :=
      ⟨rfl, Or.inr ⟨rfl, rfl⟩⟩
    exact hrecorded.trans_keeps (movesCommit_of_advanceCommit hadvance).keepsRaft

theorem handleInstallSnapshotRequest_countsNothing {request : InstallSnapshotRequest} :
    CountsNothing node (node.handleInstallSnapshotRequest env request).1 := by
  have hcatch := @catchUp_countsNothing env node request.term
  generalize hafter : (node.handleInstallSnapshotRequest env request).1 = node'
  cases outcome_of_handleInstallSnapshotRequest hafter with
  | late => exact .refl
  | received => exact ⟨hcatch.led, hcatch.votes⟩
  | installed => exact ⟨hcatch.led, hcatch.votes⟩

theorem ballotEffect_of_after {input : Input} (hafter : node.after env input = .ok node') :
    BallotEffect env node input node' := by
  cases input with
  | electionTimeout => cases hafter; exact electionLoop_ballotEffect
  | heartbeat => exact .nothing (moves_of_heartbeat hafter).keepsRaft.countsNothing
  | deliver src message =>
    cases message with
    | requestVoteRequest request =>
      cases hafter
      exact .nothing handleRequestVoteRequest_countsNothing
    | requestVoteResponse response => cases hafter; exact handleRequestVoteResponse_ballotEffect
    | appendEntriesRequest request => exact .nothing (afterEntries_countsNothing hafter)
    | appendEntriesResponse response =>
      exact .nothing (handleAppendEntriesResponse_countsNothing hafter)
    | installSnapshotRequest request =>
      cases hafter
      exact .nothing handleInstallSnapshotRequest_countsNothing
    | installSnapshotResponse response =>
      rcases cases_handleInstallSnapshotResponse hafter with ⟨-, rfl⟩ | hmoves
      · exact .nothing ⟨rfl, Or.inl rfl⟩
      · exact .nothing hmoves.keepsRaft.countsNothing
  | listDir request => cases hafter; exact .nothing .refl
  | makeDir request =>
    cases outcome_of_makeDir hafter with
    | refused => exact .nothing .refl
    | appended => exact .nothing appendCommand_keepsRaft.countsNothing
  | prepareUploadFile request =>
    obtain ⟨_, rfl⟩ := exists_of_prepareUploadFile hafter
    exact .nothing ⟨rfl, Or.inr ⟨rfl, rfl⟩⟩
  | uploadFile request =>
    cases outcome_of_uploadFile hafter with
    | refused => exact .nothing .refl
    | appended => exact .nothing appendCommand_keepsRaft.countsNothing
  | prepareDownloadFile request => cases hafter; exact .nothing .refl

/-! ## The votes that are on their way -/

/-- The approval that arrives with an input. -/
def grants (node : RaftNode) : Input → List Grant
  | .deliver src (.requestVoteResponse response) =>
    if response.voteGranted then [⟨src, node.memberId, response.term⟩] else []
  | _ => []

/-- A message that brings no vote is answered by no vote. -/
theorem tokens_eq_zero_of_sends {input : Input} {packets : List Packet}
    (hsends : ∀ packet ∈ packets, Sends env node input node' packet)
    (helection : input ≠ .electionTimeout)
    (hrequest : ∀ src request, input ≠ .deliver src (.requestVoteRequest request))
    (voter candidate T : ℕ) : tokens packets voter candidate T = 0 := by
  refine List.countP_eq_zero.mpr fun packet hpacket => ?_
  cases hsends packet hpacket with
  | voteRequest => exact absurd rfl helection
  | entries => simp [isToken]
  | vote => exact absurd rfl (hrequest _ _)
  | appended => simp [isToken]
  | installed => simp [isToken]

omit [Platform] in
/-- A request that is granted is of the term the voter is in afterwards. -/
theorem term_of_voteGranted {request : RequestVoteRequest}
    (hgranted : (node.handleRequestVoteRequest env request).2.voteGranted = true) :
    (node.handleRequestVoteRequest env request).2.term = request.term := by
  unfold handleRequestVoteRequest at hgranted ⊢
  split
  next hlt => rw [if_pos hlt] at hgranted; cases hgranted
  next hge =>
    have hcaught := @currentTerm_catchUp env _ _ (not_lt.mp hge)
    rw [if_neg hge] at hgranted
    simp only at hgranted ⊢
    split
    next => exact hcaught
    next => exact hcaught

/-- A vote that arrives is one vote afterwards, on the network or granted. -/
theorem votes_deliver {src : ℕ} {message : Message} {output : Output}
    (hhandle : node.handle env (.deliver src message) = .ok (node', output))
    (voter candidate T : ℕ) :
    tokens output.packets voter candidate T +
        (node.grants (.deliver src message)).count ⟨voter, candidate, T⟩ ≤
      if isToken voter candidate T ⟨src, node.memberId, message⟩ then 1 else 0 := by
  have hsends := sends_of_handle hhandle
  cases message with
  | requestVoteRequest request =>
    have hmember := memberId_of_transport
      (@handleRequestVoteRequest_keepsData env node request).transport
    have hpackets : output.packets = [(node.handleRequestVoteRequest env request).1.send src
        (.requestVoteResponse (node.handleRequestVoteRequest env request).2)] := by
      cases hhandle
      rfl
    have hgrants : node.grants (.deliver src (.requestVoteRequest request)) = [] := rfl
    rw [hpackets, hgrants, tokens, List.countP_singleton, List.count_nil, Nat.add_zero, send,
      hmember]
    split
    next htoken =>
      -- the approval takes the place of the request
      obtain ⟨hvoter, hcandidate, hterm, hgranted⟩ := isToken_voteResponse.mp htoken
      rw [term_of_voteGranted hgranted] at hterm
      rw [if_pos (isToken_voteRequest.mpr ⟨hcandidate, hvoter, hterm⟩)]
    next => exact Nat.zero_le _
  | requestVoteResponse response =>
    have hpackets : output.packets = [] := by
      cases hhandle
      rfl
    rw [hpackets, grants, tokens, List.countP_nil, Nat.zero_add]
    split
    next hgranted =>
      rw [List.count_singleton]
      split
      next heq =>
        obtain ⟨rfl, rfl, rfl⟩ : src = voter ∧ node.memberId = candidate ∧ response.term = T := by
          simpa using heq
        rw [if_pos (isToken_voteResponse.mpr ⟨rfl, rfl, rfl, hgranted⟩)]
      next => exact Nat.zero_le _
    next => exact Nat.zero_le _
  | _ =>
    rw [tokens_eq_zero_of_sends hsends (by simp) (by simp)]
    simp [grants]

/-- A candidate asks each other member once. -/
theorem votes_electionTimeout {output : Output}
    (hhandle : node.handle env .electionTimeout = .ok (node', output)) (voter candidate T : ℕ) :
    tokens output.packets voter candidate T ≤
      if StartsElection env node .electionTimeout ∧ candidate = node.memberId ∧
        T = u64 (node.currentTerm + 1) ∧ voter ≠ candidate then 1 else 0 := by
  have hpackets : output.packets = (node.electionLoop env).2 := by
    cases hhandle
    rfl
  rw [hpackets]
  by_cases hstart : StartsElection env node .electionTimeout
  · have hmember : node.startElection.voteForSelf.tryToLead.memberId = node.memberId :=
      memberId_of_transport tryToLead_keepsData.transport
    have hasked := tokens_voteRequests node.startElection.voteForSelf.tryToLead node.voteRequest
      voter candidate T
    rw [hmember] at hasked
    rw [electionLoop_of_starts hstart]
    refine hasked.trans ?_
    simp only [hstart, true_and]
    exact le_rfl
  · rw [electionLoop_of_not_starts hstart]
    exact Nat.zero_le _

end RaftNode

/-! ## Polls -/

namespace Poll

/-- The other members whose approvals reached the candidate. -/
def granters (poll : Poll) (candidate term : ℕ) : Finset ℕ :=
  poll.cluster.members.filter fun voter =>
    voter ≠ candidate ∧ ⟨voter, candidate, term⟩ ∈ poll.grants

/-- With its own vote, the candidate has those of more than half of the members. -/
def HasQuorum (poll : Poll) (candidate term : ℕ) : Prop :=
  poll.cluster.members.card < 2 * (1 + (poll.granters candidate term).card)

/-- The approvals that reached the candidate, and the chances that one still does. -/
def ballots (poll : Poll) (voter candidate term : ℕ) : ℕ :=
  tokens poll.cluster.network voter candidate term + poll.grants.count ⟨voter, candidate, term⟩

variable [Platform] {poll poll' : Poll}

/-- A step of the cluster, with the approval that it hands to a candidate. -/
def step (poll : Poll) (action : Action) : Option Poll :=
  (poll.cluster.step action).map fun c =>
    { cluster := c
      grants := poll.grants ++
        match action with
        | .handle id _ input => (poll.cluster.node id).grants input
        | _ => [] }

/-- No approval has been handed out. -/
structure Initial (poll : Poll) : Prop where
  cluster : poll.cluster.Initial
  grants : poll.grants = []

/-- No election starts in the last term. -/
def TermFits (poll : Poll) : Action → Prop
  | .handle id env input => (poll.cluster.node id).TermFitsFor env input
  | .restart id env input _ => (poll.cluster.node id).TermFitsFor env input
  | .lose _ => True

/-- What holds of one node, for the approvals that reached it. -/
structure NodeCounted (members : Finset ℕ) (granters : ℕ → Finset ℕ) (node : RaftNode) : Prop where
  votes : node.votes ≤ 1 + (granters node.currentTerm).card
  led : ∀ term ∈ node.led, members.card < 2 * (1 + (granters term).card)

/-- The invariant: an approval reaches its candidate at most once, and a node counts no more votes
than it was granted in its term. -/
structure Counted (poll : Poll) : Prop where
  memberId : ∀ id ∈ poll.cluster.members, (poll.cluster.node id).memberId = id
  peers : ∀ id ∈ poll.cluster.members,
    (poll.cluster.node id).transport.clusterSize = poll.cluster.members.card
  stored : ∀ id ∈ poll.cluster.members, (poll.cluster.node id).TermStored
  src : ∀ packet ∈ poll.cluster.network, packet.src ∈ poll.cluster.members
  once : ∀ voter candidate term, poll.ballots voter candidate term ≤ 1
  fresh : ∀ voter, ∀ candidate ∈ poll.cluster.members, ∀ term,
    (poll.cluster.node candidate).currentTerm < term → poll.ballots voter candidate term = 0
  others : ∀ id term, poll.ballots id id term = 0
  nodes : ∀ id ∈ poll.cluster.members,
    NodeCounted poll.cluster.members (poll.granters id) (poll.cluster.node id)

/-! ## One node -/

section Node

variable {members : Finset ℕ} {granters granters' : ℕ → Finset ℕ} {node node' : RaftNode}
  {env : Env} {input : Input}

omit [Platform]

theorem NodeCounted.mono (hcounted : NodeCounted members granters node)
    (hsub : ∀ term, granters term ⊆ granters' term) : NodeCounted members granters' node := by
  constructor
  · have hcard := Finset.card_le_card (hsub node.currentTerm)
    have := hcounted.votes
    omega
  · intro term hterm
    have hcard := Finset.card_le_card (hsub term)
    have := hcounted.led term hterm
    omega

/-- A leader has votes of more than half of the cluster, and they were granted. -/
theorem NodeCounted.tryToLead (hcounted : NodeCounted members granters node)
    (hsize : node.transport.clusterSize = members.card) :
    NodeCounted members granters node.tryToLead := by
  unfold RaftNode.tryToLead
  split
  next hwon =>
    refine ⟨Nat.zero_le _, fun term hterm => ?_⟩
    rcases List.mem_append.mp hterm with hold | hnew
    · exact hcounted.led term hold
    · rw [List.mem_singleton.mp hnew]
      change members.card < 2 * (1 + (granters node.currentTerm).card)
      have hvotes := hcounted.votes
      rw [hsize] at hwon
      omega
  next => exact hcounted

/-- **The step lemma**: a vote is counted only with a new approval. -/
theorem NodeCounted.after (hcounted : NodeCounted members granters node)
    (heffect : RaftNode.BallotEffect env node input node')
    (hsize : node.transport.clusterSize = members.card)
    (hsub : ∀ term, granters term ⊆ granters' term)
    (hnew : ∀ src response, input = .deliver src (.requestVoteResponse response) →
      node.Counts response → (granters node.currentTerm).card < (granters' node.currentTerm).card) :
    NodeCounted members granters' node' := by
  cases heffect with
  | nothing hnothing =>
    refine ⟨?_, hnothing.led ▸ (hcounted.mono hsub).led⟩
    rcases hnothing.votes with hzero | ⟨hvotes, hterm⟩
    · omega
    · rw [hvotes, hterm]
      exact (hcounted.mono hsub).votes
  | elects hstart hled hvotes hterm =>
    have hvoted : NodeCounted members granters' node.startElection.voteForSelf :=
      ⟨Nat.le_add_right 1 _, (hcounted.mono hsub).led⟩
    have hcalled := hvoted.tryToLead hsize
    have hsame : node'.currentTerm = node.startElection.voteForSelf.tryToLead.currentTerm :=
      hterm.trans (@RaftNode.currentTerm_tryToLead node.startElection.voteForSelf).symm
    refine ⟨?_, hled ▸ hcalled.led⟩
    rw [hvotes, hsame]
    exact hcalled.votes
  | counts hcounts =>
    have hmore := hnew _ _ rfl hcounts
    have hone : NodeCounted members granters' { node with votes := node.votes + 1 } := by
      refine ⟨?_, (hcounted.mono hsub).led⟩
      have := hcounted.votes
      change node.votes + 1 ≤ 1 + (granters' node.currentTerm).card
      omega
    exact hone.tryToLead hsize

end Node

/-! ## All nodes -/

omit [Platform] in
theorem tokens_consume {network network' : List Packet} {packet : Packet}
    (hconsume : Cluster.consume network (some packet) = some network') (voter candidate T : ℕ) :
    tokens network' voter candidate T + (if isToken voter candidate T packet then 1 else 0) =
      tokens network voter candidate T := by
  obtain ⟨hmem, rfl⟩ := Cluster.consume_some hconsume
  rw [tokens_erase hmem]
  split
  next htoken => exact Nat.sub_add_cancel (tokens_pos hmem htoken)
  next => rfl

omit [Platform] in
theorem tokens_consume_le {network network' : List Packet} {taken : Option Packet}
    (hconsume : Cluster.consume network taken = some network') (voter candidate T : ℕ) :
    tokens network' voter candidate T ≤ tokens network voter candidate T := by
  cases taken with
  | none => cases hconsume; exact le_rfl
  | some packet => exact (Nat.le_add_right _ _).trans (tokens_consume hconsume ..).le

omit [Platform] in
/-- Without new approvals and messages there are no new ballots. -/
theorem ballots_le {c : Cluster} {taken : Option Packet}
    (hconsume : Cluster.consume poll.cluster.network taken = some c.network)
    (voter candidate term : ℕ) :
    ({ cluster := c, grants := poll.grants ++ [] } : Poll).ballots voter candidate term ≤
      poll.ballots voter candidate term := by
  have hfewer := tokens_consume_le hconsume voter candidate term
  simp only [ballots, List.append_nil]
  omega

/-- The step of a node brings new ballots only if the node starts an election. -/
theorem ballots_handle {id : ℕ} {env : Env} {input : Input} {network : List Packet}
    {node : RaftNode} {output : Output} (hmember : (poll.cluster.node id).memberId = id)
    (hconsume : Cluster.consume poll.cluster.network (Cluster.delivered id input) = some network)
    (hhandle : (poll.cluster.node id).handle env input = .ok (node, output))
    (voter candidate T : ℕ) :
    tokens (network ++ output.packets) voter candidate T +
        (poll.grants ++ (poll.cluster.node id).grants input).count ⟨voter, candidate, T⟩ ≤
      poll.ballots voter candidate T +
        if (poll.cluster.node id).StartsElection env input ∧ candidate = id ∧
          T = u64 ((poll.cluster.node id).currentTerm + 1) ∧ voter ≠ candidate then 1 else 0 := by
  have hsends := RaftNode.sends_of_handle hhandle
  rw [tokens_append, List.count_append, ballots]
  cases input with
  | electionTimeout =>
    have hasked := RaftNode.votes_electionTimeout hhandle voter candidate T
    rw [hmember] at hasked
    cases hconsume
    simp only [RaftNode.grants, List.count_nil]
    omega
  | deliver src message =>
    have hbrought := RaftNode.votes_deliver hhandle voter candidate T
    rw [hmember] at hbrought
    have htaken := tokens_consume hconsume voter candidate T
    omega
  | _ =>
    cases hconsume
    rw [RaftNode.tokens_eq_zero_of_sends hsends nofun nofun]
    simp only [RaftNode.grants, List.count_nil]
    omega

theorem Counted.initial (hinitial : poll.Initial) : poll.Counted := by
  have hcreated : ∀ id ∈ poll.cluster.members, ∃ config : Config, config.memberId = id ∧
      (∀ peer, peer ∈ config.raftNodes ↔ peer ∈ poll.cluster.members) ∧
      poll.cluster.node id = Cluster.freshNode config := by
    intro id hid
    obtain ⟨env, config, hmember, hpeers, hcreate⟩ := hinitial.cluster.created id hid
    exact ⟨config, hmember, hpeers, Cluster.create_empty hcreate⟩
  have hnone : ∀ voter candidate term, poll.ballots voter candidate term = 0 := by
    intro voter candidate term
    rw [ballots, hinitial.cluster.network, hinitial.grants]
    rfl
  refine ⟨fun id hid => ?_, fun id hid => ?_, fun id hid => ?_, ?_, fun _ _ _ => ?_,
    fun _ _ _ _ _ => hnone _ _ _, fun _ _ => hnone _ _ _, fun id hid => ?_⟩
  · obtain ⟨config, hmember, -, hnode⟩ := hcreated id hid
    rw [hnode]
    exact hmember
  · obtain ⟨config, -, hpeers, hnode⟩ := hcreated id hid
    have hset : config.raftNodes.toFinset = poll.cluster.members := by
      ext peer
      rw [List.mem_toFinset, hpeers]
    rw [hnode, ← hset, List.toFinset_card_of_nodup config.nodup]
    rfl
  · obtain ⟨config, -, -, hnode⟩ := hcreated id hid
    rw [hnode]
    exact ⟨none, RaftNode.get_saveHardState _ _⟩
  · rw [hinitial.cluster.network]
    exact fun packet hpacket => absurd hpacket List.not_mem_nil
  · rw [hnone]
    exact Nat.zero_le 1
  · obtain ⟨config, -, -, hnode⟩ := hcreated id hid
    rw [hnode]
    exact ⟨Nat.zero_le _, fun term hterm => absurd hterm List.not_mem_nil⟩

omit [Platform] in
/-- One node moved on. -/
theorem Counted.afterNode {id : ℕ} {node : RaftNode} {starts : Prop} [Decidable starts]
    (hcounted : poll.Counted) (hid : id ∈ poll.cluster.members)
    (hmembers : poll'.cluster.members = poll.cluster.members)
    (hnode : poll'.cluster.node = update poll.cluster.node id node)
    (htransport : node.transport = (poll.cluster.node id).transport)
    (hstored : node.TermStored)
    (hge : (poll.cluster.node id).currentTerm ≤ node.currentTerm)
    (hstart : starts → u64 ((poll.cluster.node id).currentTerm + 1) = node.currentTerm ∧
      (poll.cluster.node id).currentTerm < node.currentTerm)
    (hsrc : ∀ packet ∈ poll'.cluster.network, packet.src ∈ poll.cluster.members)
    (hballots : ∀ voter candidate term, poll'.ballots voter candidate term ≤
      poll.ballots voter candidate term + if starts ∧ candidate = id ∧
        term = u64 ((poll.cluster.node id).currentTerm + 1) ∧ voter ≠ candidate then 1 else 0)
    (hgranters : ∀ candidate term, poll.granters candidate term ⊆ poll'.granters candidate term)
    (hself : NodeCounted poll.cluster.members (poll'.granters id) node) : poll'.Counted := by
  constructor
  case memberId =>
    rw [hmembers, hnode]
    refine forall_update (fun other node' => node'.memberId = other) hcounted.memberId ?_
    rw [RaftNode.memberId_of_transport htransport]
    exact hcounted.memberId id hid
  case peers =>
    rw [hmembers, hnode]
    exact forall_update
      (fun _ node' => node'.transport.clusterSize = poll.cluster.members.card)
      hcounted.peers (htransport ▸ hcounted.peers id hid)
  case stored =>
    rw [hmembers, hnode]
    exact forall_update (fun _ node' => node'.TermStored) hcounted.stored hstored
  case src => rwa [hmembers]
  case once =>
    intro voter candidate term
    refine (hballots voter candidate term).trans ?_
    split
    next hasked =>
      -- nobody was asked in the new term before
      obtain ⟨hstarts, rfl, rfl, -⟩ := hasked
      obtain ⟨hterm, hlt⟩ := hstart hstarts
      rw [hterm, hcounted.fresh voter candidate hid _ hlt]
    next => exact hcounted.once voter candidate term
  case fresh =>
    intro voter candidate hmem term hlt
    have hle := hballots voter candidate term
    rw [hmembers] at hmem
    rw [hnode] at hlt
    by_cases heq : candidate = id
    · subst heq
      rw [update_self] at hlt
      rw [hcounted.fresh voter candidate hid term (hge.trans_lt hlt), if_neg] at hle
      · exact Nat.le_zero.mp hle
      · rintro ⟨hstarts, -, rfl, -⟩
        exact absurd hlt ((hstart hstarts).1.le.not_gt)
    · rw [update_of_ne heq] at hlt
      rw [hcounted.fresh voter candidate hmem term hlt, if_neg fun hasked => heq hasked.2.1] at hle
      exact Nat.le_zero.mp hle
  case others =>
    intro other term
    have hle := hballots other other term
    rw [hcounted.others, if_neg fun hasked => hasked.2.2.2 rfl] at hle
    exact Nat.le_zero.mp hle
  case nodes =>
    rw [hmembers, hnode]
    exact forall_update
      (fun other node' => NodeCounted poll.cluster.members (poll'.granters other) node')
      (fun other hmem => (hcounted.nodes other hmem).mono (hgranters other)) hself

omit [Platform] in
/-- More approvals, more granters. -/
theorem granters_subset {c : Cluster} {more : List Grant}
    (hmembers : c.members = poll.cluster.members) (candidate term : ℕ) :
    poll.granters candidate term ⊆
      ({ cluster := c, grants := poll.grants ++ more } : Poll).granters candidate term := by
  intro voter hvoter
  obtain ⟨hmem, hne, hgrant⟩ := Finset.mem_filter.mp hvoter
  exact Finset.mem_filter.mpr ⟨hmembers ▸ hmem, hne, List.mem_append_left _ hgrant⟩

omit [Platform] in
/-- An approval that is counted comes from a new voter. -/
theorem Counted.new_granter {id src : ℕ} {response : RequestVoteResponse} {c : Cluster}
    (hcounted : poll.Counted) (hid : id ∈ poll.cluster.members)
    (hmembers : c.members = poll.cluster.members)
    (hpacket : ⟨src, id, .requestVoteResponse response⟩ ∈ poll.cluster.network)
    (hcounts : (poll.cluster.node id).Counts response) :
    (poll.granters id (poll.cluster.node id).currentTerm).card <
      (({ cluster := c, grants := poll.grants ++
          (poll.cluster.node id).grants (.deliver src (.requestVoteResponse response)) } : Poll).granters
        id (poll.cluster.node id).currentTerm).card := by
  obtain ⟨hterm, -, hgranted⟩ := hcounts
  have htoken : isToken src id (poll.cluster.node id).currentTerm
      ⟨src, id, .requestVoteResponse response⟩ = true :=
    isToken_voteResponse.mpr ⟨rfl, rfl, hterm, hgranted⟩
  have hone := tokens_pos hpacket htoken
  have honce := hcounted.once src id (poll.cluster.node id).currentTerm
  unfold ballots at honce
  have hold : src ∉ poll.granters id (poll.cluster.node id).currentTerm := by
    intro hmem
    have := List.count_pos_iff.mpr (Finset.mem_filter.mp hmem).2.2
    omega
  have hne : src ≠ id := by
    rintro rfl
    have := hcounted.others src (poll.cluster.node src).currentTerm
    unfold ballots at this
    omega
  refine Finset.card_lt_card ((Finset.ssubset_iff_of_subset
    (granters_subset hmembers _ _)).mpr ⟨src, ?_, hold⟩)
  refine Finset.mem_filter.mpr ⟨hmembers ▸ hcounted.src _ hpacket, hne, ?_⟩
  rw [RaftNode.grants, if_pos hgranted, hcounted.memberId id hid, hterm]
  exact List.mem_append_right _ (List.mem_singleton_self _)

theorem Counted.step {action : Action} (hcounted : poll.Counted) (hfits : poll.TermFits action)
    (hstep : poll.step action = some poll') : poll'.Counted := by
  obtain ⟨c, hcluster, rfl⟩ := Option.map_eq_some_iff.mp hstep
  have hmembers := Cluster.members_of_step hcluster
  cases action with
  | handle id env input =>
    obtain ⟨hid, network, node, output, hconsume, hhandle, rfl⟩ := Cluster.step_handle hcluster
    have hafter := RaftNode.after_of_handle hhandle
    have hsends := RaftNode.sends_of_handle hhandle
    have hmember := hcounted.memberId id hid
    have hfollows := RaftNode.termFollows_of_after (hcounted.stored id hid) hafter
    refine hcounted.afterNode hid hmembers rfl (RaftNode.transport_of_after hafter) hfollows.stored
      (hfollows.ge hfits) ?_ ?_ (ballots_handle hmember hconsume hhandle) (granters_subset hmembers) ?_
    · -- an election moves to the next term
      intro hstart
      have hterm := RaftNode.u64_of_termFits hfits hstart
      obtain rfl := hstart.1
      cases hafter
      rw [RaftNode.currentTerm_electionLoop hstart]
      exact ⟨rfl, by omega⟩
    · intro packet hpacket
      rcases List.mem_append.mp hpacket with hold | hnew
      · exact hcounted.src packet (Cluster.mem_of_consume hconsume hold)
      · rw [RaftNode.src_of_sends (hsends packet hnew), hmember]
        exact hid
    · refine (hcounted.nodes id hid).after (RaftNode.ballotEffect_of_after hafter)
        (hcounted.peers id hid) (granters_subset hmembers id) ?_
      rintro src response rfl hcounts
      exact hcounted.new_granter hid hmembers (Cluster.consume_some hconsume).1 hcounts
  | lose packet =>
    obtain ⟨network, hconsume, rfl⟩ := Option.map_eq_some_iff.mp hcluster
    -- a lost packet can only take a ballot away
    have hballots := ballots_le (c := { poll.cluster with network := network }) hconsume
    refine ⟨hcounted.memberId, hcounted.peers, hcounted.stored,
      fun packet' hpacket' => hcounted.src packet' (Cluster.mem_of_consume hconsume hpacket'),
      fun voter candidate term => (hballots ..).trans (hcounted.once voter candidate term),
      fun voter candidate hmem term hlt => Nat.le_zero.mp
        ((hballots ..).trans (hcounted.fresh voter candidate hmem term hlt).le),
      fun other term => Nat.le_zero.mp ((hballots ..).trans (hcounted.others other term).le),
      fun id hid => (hcounted.nodes id hid).mono (granters_subset hmembers id)⟩
  | restart id env input lost =>
    obtain ⟨hid, network, node, hconsume, hcreate, rfl⟩ := Cluster.step_restart hcluster
    have hfollows := RaftNode.termFollows_of_create (hcounted.stored id hid) hcreate
    obtain ⟨_, _, _, _, _, -, -, -, rfl⟩ := RaftNode.create_spec hcreate
    refine hcounted.afterNode hid hmembers rfl rfl hfollows.stored (hfollows.ge hfits)
      (fun hnever : False => hnever.elim) ?_ ?_ (granters_subset hmembers) ?_
    · exact fun packet hpacket => hcounted.src packet (Cluster.mem_of_consume hconsume hpacket)
    · intro voter candidate term
      exact Nat.le_add_right_of_le (ballots_le (by exact hconsume) voter candidate term)
    · -- the count starts over
      exact ⟨Nat.zero_le _, ((hcounted.nodes id hid).mono (granters_subset hmembers id)).led⟩

theorem Counted.run (hcounted : poll.Counted) (hrun : Run Poll.step Poll.TermFits poll poll') :
    poll'.Counted :=
  hrun.invariant Counted hcounted fun hcounted hfits hstep => hcounted.step hfits hstep

end Poll

/-- **A leader has a quorum behind it.** -/
theorem quorumBehind [Platform] {poll poll' : Poll} (hinitial : poll.Initial)
    (hrun : Run Poll.step Poll.TermFits poll poll') :
    ∀ id ∈ poll'.cluster.members, ∀ term ∈ (poll'.cluster.node id).led, poll'.HasQuorum id term :=
  fun id hid => (((Poll.Counted.initial hinitial).run hrun).nodes id hid).led

/-! ## Three members -/

instance {poll : Poll} : ∀ {action : Action}, Decidable (poll.TermFits action)
  | .handle _ _ _ | .restart _ _ _ _ => inferInstanceAs (Decidable (RaftNode.TermFitsFor _ _ _))
  | .lose _ => inferInstanceAs (Decidable True)

theorem initial_pollOfThree : @Poll.Initial plainPlatform { cluster := threeNodes } :=
  @Poll.Initial.mk plainPlatform _ (@Cluster.initial_fresh plainPlatform ..) rfl

theorem quorumBehind_electFirst :
    ∃ poll', Run (@Poll.step plainPlatform) Poll.TermFits { cluster := threeNodes } poll' ∧
      1 ∈ (poll'.cluster.node 1).led ∧ poll'.HasQuorum 1 1 := by
  obtain ⟨poll', hrun, hcheck⟩ := Run.exists_of_exec (@Poll.step plainPlatform)
    Poll.TermFits { cluster := threeNodes } electFirst
    (fun poll' => decide (1 ∈ poll'.cluster.members ∧ 1 ∈ (poll'.cluster.node 1).led)) (by decide)
  obtain ⟨hmember, hled⟩ := of_decide_eq_true hcheck
  exact ⟨poll', hrun, hled,
    @quorumBehind plainPlatform _ _ initial_pollOfThree hrun 1 hmember 1 hled⟩

/-! ## A term that wraps around

Member 1 of four stands in term 1 and gets the vote of member 2, which stays on the
network.  After 2^64 more elections member 1 stands in term 1 again, member 2 approves
again, and the two approvals arrive. -/

/-- One of four members. -/
def memberOfFour (id : ℕ) : RaftNode :=
  Cluster.freshNode ⟨id, [1, 2, 3, 4], nodup_fourMembers, []⟩

/-- Four members before the first election. -/
def pollOfFour : Poll where
  cluster := Cluster.fresh [1, 2, 3, 4] nodup_fourMembers []

/-- Member 1 while it does not lead. -/
def standing (disk : Disk Payload) (time votes : ℕ) (hardState : HardState) (role : Role) :
    RaftNode :=
  { memberOfFour 1 with
    disk := disk
    lastResetTime := time
    votes := votes
    hardState := hardState
    role := role }

/-- Member 2 after it voted for member 1. -/
def approving : RaftNode :=
  ((memberOfFour 2).handleRequestVoteRequest late { term := 1, candidateId := 1 }).1

/-- The clock at the `k`-th election. -/
def lateBy (k : ℕ) : Env :=
  { monotonicMs := 300 * k }

section WrappedTerm

variable [Platform] {poll poll' : Poll}

theorem Poll.exists_step {id : ℕ} {env : Env} {input : Input} {network : List Packet}
    {node : RaftNode} {output : Output} (hid : id ∈ poll.cluster.members)
    (hconsume : Cluster.consume poll.cluster.network (Cluster.delivered id input) = some network)
    (hhandle : (poll.cluster.node id).handle env input = .ok (node, output)) :
    ∃ poll', poll.step (.handle id env input) = some poll' ∧
      poll'.cluster.members = poll.cluster.members ∧
      poll'.cluster.node = update poll.cluster.node id node ∧
      poll'.cluster.network = network ++ output.packets ∧
      poll'.grants = poll.grants ++ (poll.cluster.node id).grants input := by
  refine ⟨{ cluster := poll.cluster.afterHandling id network node output
            grants := poll.grants ++ (poll.cluster.node id).grants input }, ?_, rfl, rfl, rfl, rfl⟩
  simp [Poll.step, Cluster.step, hid, hconsume, hhandle]

theorem Poll.exists_deliver {id src : ℕ} {env : Env} {message : Message} {node : RaftNode}
    {output : Output} (hid : id ∈ poll.cluster.members)
    (hpacket : ⟨src, id, message⟩ ∈ poll.cluster.network)
    (hhandle : (poll.cluster.node id).handle env (.deliver src message) = .ok (node, output)) :
    ∃ poll', poll.step (.handle id env (.deliver src message)) = some poll' ∧
      poll'.cluster.members = poll.cluster.members ∧
      poll'.cluster.node = update poll.cluster.node id node ∧
      poll'.cluster.network = poll.cluster.network.erase ⟨src, id, message⟩ ++ output.packets ∧
      poll'.grants = poll.grants ++ (poll.cluster.node id).grants (.deliver src message) :=
  Poll.exists_step hid (if_pos hpacket) hhandle

omit [Platform] in
theorem startsElection_standing {disk : Disk Payload} {k votes : ℕ} {hardState : HardState}
    {role : Role} (hrole : role ≠ .leader) :
    (standing disk (300 * k) votes hardState role).StartsElection
      (lateBy (k + 1)) .electionTimeout := by
  refine ⟨rfl, ?_, hrole⟩
  have htime : 150 ≤ (300 * (k + 1) + 2 ^ 64 - 300 * k) % 2 ^ 64 := by omega
  exact htime

omit [Platform] in
/-- Two votes of four are not enough. -/
theorem tryToLead_standing {disk : Disk Payload} {time : ℕ} {hardState : HardState} {votes : ℕ}
    (hvotes : votes ≤ 2) {role : Role} :
    (standing disk time votes hardState role).tryToLead =
      standing disk time votes hardState role := by
  apply if_neg
  rintro ⟨hwon, -⟩
  have hmore : 4 / 2 < votes := hwon
  omega

/-- The requests of member 1. -/
def requestsIn (term : ℕ) : List Packet :=
  [2, 3, 4].map fun peer => ⟨1, peer, voteRequest 1 term⟩

omit [Platform] in
theorem startElection_standing {disk : Disk Payload} {time votes term : ℕ}
    {votedFor : Option ℕ} {role : Role} :
    (standing disk time votes ⟨term, votedFor⟩ role).startElection =
      standing (standing disk time votes ⟨term, votedFor⟩ role).startElection.disk time 0
        ⟨u64 (term + 1), some 1⟩ .candidate := rfl

omit [Platform] in
theorem voteForSelf_standing {disk : Disk Payload} {time votes : ℕ} {hardState : HardState}
    {role : Role} : (standing disk time votes hardState role).voteForSelf =
      standing disk time (votes + 1) hardState role := rfl

omit [Platform] in
theorem voteRequest_standing {disk : Disk Payload} {time votes term : ℕ} {votedFor : Option ℕ}
    {role : Role} : (standing disk time votes ⟨term, votedFor⟩ role).voteRequest =
      { term := u64 (term + 1), candidateId := 1 } := by
  unfold RaftNode.voteRequest
  rw [startElection_standing]
  generalize u64 (term + 1) = term'
  rfl

omit [Platform] in
theorem electionLoop_standing {disk : Disk Payload} {k votes term : ℕ} {votedFor : Option ℕ}
    {role : Role} (hrole : role ≠ .leader) :
    ∃ disk', (standing disk (300 * k) votes ⟨term, votedFor⟩ role).electionLoop (lateBy (k + 1)) =
      (standing disk' (300 * (k + 1)) 1 ⟨u64 (term + 1), some 1⟩ .candidate,
        requestsIn (u64 (term + 1))) := by
  refine ⟨(standing disk (300 * k) votes ⟨term, votedFor⟩ role).startElection.disk, ?_⟩
  rw [RaftNode.electionLoop_of_starts (startsElection_standing hrole), voteRequest_standing]
  generalize hdisk : (standing disk (300 * k) votes ⟨term, votedFor⟩ role).startElection.disk = disk'
  have hstarted := @startElection_standing disk (300 * k) votes term votedFor role
  rw [hdisk] at hstarted
  rw [hstarted, voteForSelf_standing, tryToLead_standing (by decide)]
  -- the term is abstracted, as the remainder by 2^64 must not be computed
  generalize u64 (term + 1) = term'
  rfl

theorem RaftNode.handle_electionTimeout {env : Env} {node node' : RaftNode} {packets : List Packet}
    (hloop : node.electionLoop env = (node', packets)) :
    node.handle env .electionTimeout = .ok (node', { packets := packets }) := by
  simp only [RaftNode.handle, hloop]

/-- Each election moves member 1 to the next term, with one vote. -/
theorem handle_standing {disk : Disk Payload} {k votes term : ℕ} {votedFor : Option ℕ}
    {role : Role} (hrole : role ≠ .leader) :
    ∃ disk', (standing disk (300 * k) votes ⟨term, votedFor⟩ role).handle (lateBy (k + 1))
        .electionTimeout =
      .ok (standing disk' (300 * (k + 1)) 1 ⟨u64 (term + 1), some 1⟩ .candidate,
        { packets := requestsIn (u64 (term + 1)) }) := by
  obtain ⟨disk', hloop⟩ := @electionLoop_standing disk k votes term votedFor role hrole
  exact ⟨disk', RaftNode.handle_electionTimeout hloop⟩

/-- Member 1 stands in a term, and the approval of member 2 in term 1 is on its way. -/
structure Standing (poll : Poll) (k term : ℕ) : Prop where
  members : poll.cluster.members = {1, 2, 3, 4}
  first : ∃ disk, poll.cluster.node 1 = standing disk (300 * k) 1 ⟨term, some 1⟩ .candidate
  second : poll.cluster.node 2 = approving
  approval : ⟨2, 1, vote 2 1⟩ ∈ poll.cluster.network
  grants : poll.grants = []

/-- After another election the same holds of the next term. -/
theorem Standing.next {k term : ℕ} (hstanding : Standing poll k term) :
    ∃ poll', poll.step (.handle 1 (lateBy (k + 1)) .electionTimeout) = some poll' ∧
      Standing poll' (k + 1) (u64 (term + 1)) ∧
      ⟨1, 2, voteRequest 1 (u64 (term + 1))⟩ ∈ poll'.cluster.network := by
  obtain ⟨disk, hfirst⟩ := hstanding.first
  obtain ⟨disk', hhandle⟩ := @handle_standing _ disk k 1 term (some 1) .candidate (by decide)
  rw [← hfirst] at hhandle
  generalize u64 (term + 1) = term' at hhandle ⊢
  have hid : 1 ∈ poll.cluster.members := by
    rw [hstanding.members]
    decide
  obtain ⟨poll', hstep, hmembers, hnode, hnetwork, hgrants⟩ := Poll.exists_step hid rfl hhandle
  refine ⟨poll', hstep, ⟨hmembers.trans hstanding.members, ⟨disk', ?_⟩, ?_, ?_, ?_⟩, ?_⟩
  · rw [hnode, update_self]
  · rw [hnode, update_of_ne (by decide), hstanding.second]
  · rw [hnetwork]
    exact List.mem_append_left _ hstanding.approval
  · simp [hgrants, hstanding.grants, RaftNode.grants]
  · rw [hnetwork]
    exact List.mem_append_right _ (List.mem_cons_self)

/-- However many elections follow. -/
theorem Standing.iterate {k term : ℕ} (hstanding : Standing poll k term) (hterm : term < 2 ^ 64)
    (n : ℕ) : ∃ poll', Run Poll.step (fun _ _ => True) poll poll' ∧
      Standing poll' (k + n) (u64 (term + n)) := by
  induction n with
  | zero =>
    refine ⟨poll, Run.refl, ?_⟩
    have hsame : u64 (term + 0) = term := Nat.mod_eq_of_lt hterm
    rwa [hsame]
  | succ n ih =>
    obtain ⟨poll₁, hrun, hstanding₁⟩ := ih
    obtain ⟨poll₂, hstep, hstanding₂, -⟩ := hstanding₁.next
    refine ⟨poll₂, hrun.next trivial hstep, ?_⟩
    have hnext : u64 (u64 (term + n) + 1) = u64 (term + (n + 1)) := Nat.mod_add_mod _ _ _
    rwa [hnext] at hstanding₂

/-- Member 1 stands in term 1 and member 2 approves. -/
theorem exists_standing :
    ∃ poll, Run Poll.step (fun _ _ => True) pollOfFour poll ∧ Standing poll 1 1 := by
  obtain ⟨disk', hhandle⟩ := @handle_standing _ (memberOfFour 1).disk 0 0 0 none .follower
    (by decide)
  have hterm : u64 (0 + 1) = 1 := rfl
  rw [hterm] at hhandle
  obtain ⟨poll₁, hstep₁, hmembers₁, hnode₁, hnetwork₁, hgrants₁⟩ :=
    @Poll.exists_step _ pollOfFour 1 (lateBy 1) .electionTimeout _ _ _ (by decide) rfl hhandle
  have happrove : (poll₁.cluster.node 2).handle late (.deliver 1 (voteRequest 1 1)) =
      .ok (approving, { packets := [⟨2, 1, vote 2 1⟩] }) := by
    rw [hnode₁, update_of_ne (by decide)]
    rfl
  have hrequest : ⟨1, 2, voteRequest 1 1⟩ ∈ poll₁.cluster.network := by
    rw [hnetwork₁]
    exact List.mem_append_right _ List.mem_cons_self
  have hid : 2 ∈ poll₁.cluster.members := by
    rw [hmembers₁]
    decide
  obtain ⟨poll₂, hstep₂, hmembers₂, hnode₂, hnetwork₂, hgrants₂⟩ :=
    Poll.exists_deliver hid hrequest happrove
  refine ⟨poll₂, (Run.refl.next trivial hstep₁).next trivial hstep₂, ?_, ⟨disk', ?_⟩, ?_, ?_, ?_⟩
  · rw [hmembers₂, hmembers₁]
    rfl
  · rw [hnode₂, update_of_ne (by decide), hnode₁, update_self]
  · rw [hnode₂, update_self]
  · rw [hnetwork₂]
    exact List.mem_append_right _ (List.mem_singleton_self _)
  · rw [hgrants₂, hgrants₁]
    rfl

theorem handle_vote {disk : Disk Payload} {time votes : ℕ} {env : Env} :
    (standing disk time votes ⟨1, some 1⟩ .candidate).handle env (.deliver 2 (vote 2 1)) =
      .ok ((standing disk time (votes + 1) ⟨1, some 1⟩ .candidate).tryToLead, {}) := rfl

/-- Member 1 stands in term 1 again, and both approvals of member 2 arrive. -/
theorem exists_leads {k : ℕ} (hstanding : Standing poll k 1)
    (hrequest : ⟨1, 2, voteRequest 1 1⟩ ∈ poll.cluster.network) :
    ∃ poll', Run Poll.step (fun _ _ => True) poll poll' ∧
      poll'.cluster.members = {1, 2, 3, 4} ∧ (poll'.cluster.node 1).led = [1] ∧
      poll'.grants = [⟨2, 1, 1⟩, ⟨2, 1, 1⟩] := by
  obtain ⟨disk, hfirst⟩ := hstanding.first
  have hmember : ∀ {poll' : Poll}, poll'.cluster.members = poll.cluster.members →
      1 ∈ poll'.cluster.members ∧ 2 ∈ poll'.cluster.members := by
    intro poll' hmembers
    rw [hmembers, hstanding.members]
    decide
  -- member 2 approves for the second time
  have happrove : (poll.cluster.node 2).handle late (.deliver 1 (voteRequest 1 1)) =
      .ok ((approving.handleRequestVoteRequest late { term := 1, candidateId := 1 }).1,
        { packets := [⟨2, 1, vote 2 1⟩] }) := by
    rw [hstanding.second]
    rfl
  obtain ⟨poll₁, hstep₁, hmembers₁, hnode₁, hnetwork₁, hgrants₁⟩ :=
    Poll.exists_deliver (hmember rfl).2 hrequest happrove
  have happroval : ⟨2, 1, vote 2 1⟩ ∈ poll.cluster.network.erase ⟨1, 2, voteRequest 1 1⟩ :=
    (List.mem_erase_of_ne (by decide)).mpr hstanding.approval
  have hfirst₁ : poll₁.cluster.node 1 = standing disk (300 * k) 1 ⟨1, some 1⟩ .candidate := by
    rw [hnode₁, update_of_ne (by decide), hfirst]
  -- the first approval is not enough
  have hcount₁ : (poll₁.cluster.node 1).handle late (.deliver 2 (vote 2 1)) =
      .ok (standing disk (300 * k) 2 ⟨1, some 1⟩ .candidate, {}) := by
    rw [hfirst₁, handle_vote, tryToLead_standing le_rfl]
  obtain ⟨poll₂, hstep₂, hmembers₂, hnode₂, hnetwork₂, hgrants₂⟩ :=
    Poll.exists_deliver (hmember hmembers₁).1
      (hnetwork₁ ▸ List.mem_append_left _ happroval) hcount₁
  -- the second one is of the same member
  have hcount₂ : (poll₂.cluster.node 1).handle late (.deliver 2 (vote 2 1)) =
      .ok ((standing disk (300 * k) 3 ⟨1, some 1⟩ .candidate).tryToLead, {}) := by
    rw [hnode₂, update_self, handle_vote]
  have happroval₂ : ⟨2, 1, vote 2 1⟩ ∈ poll₂.cluster.network := by
    rw [hnetwork₂, hnetwork₁, List.erase_append_left _ happroval]
    simp
  obtain ⟨poll₃, hstep₃, hmembers₃, hnode₃, hnetwork₃, hgrants₃⟩ :=
    Poll.exists_deliver (hmember (hmembers₂.trans hmembers₁)).1 happroval₂ hcount₂
  refine ⟨poll₃, ((Run.refl.next trivial hstep₁).next trivial hstep₂).next trivial hstep₃, ?_, ?_, ?_⟩
  · rw [hmembers₃, hmembers₂, hmembers₁, hstanding.members]
  · have hwon : 4 / 2 < 3 := by decide
    rw [hnode₃, update_self, RaftNode.tryToLead, if_pos ⟨hwon, rfl⟩]
    rfl
  · rw [hgrants₃, hgrants₂, hgrants₁, hstanding.grants, hnode₂, update_self, hfirst₁]
    rfl

end WrappedTerm

theorem exists_leader_without_quorum :
    @Poll.Initial plainPlatform pollOfFour ∧
      ∃ poll', Run (@Poll.step plainPlatform) (fun _ _ => True) pollOfFour poll' ∧
        1 ∈ poll'.cluster.members ∧ 1 ∈ (poll'.cluster.node 1).led ∧ ¬ poll'.HasQuorum 1 1 := by
  obtain ⟨poll₁, hrun₁, hstanding₁⟩ := @exists_standing plainPlatform
  -- as many elections as there are terms lead back to term 1
  obtain ⟨poll₂, hrun₂, hstanding₂⟩ :=
    @Standing.iterate plainPlatform _ _ _ hstanding₁ (by decide) (2 ^ 64 - 1)
  obtain ⟨poll₃, hstep₃, hstanding₃, hrequest⟩ := @Standing.next plainPlatform _ _ _ hstanding₂
  have hterm : u64 (u64 (1 + (2 ^ 64 - 1)) + 1) = 1 := by decide
  rw [hterm] at hstanding₃ hrequest
  obtain ⟨poll₄, hrun₄, hmembers, hled, hgrants⟩ :=
    @exists_leads plainPlatform _ _ hstanding₃ hrequest
  refine ⟨@Poll.Initial.mk plainPlatform _ (@Cluster.initial_fresh plainPlatform ..) rfl, poll₄,
    ((hrun₁.trans hrun₂).next trivial hstep₃).trans hrun₄, ?_, ?_, ?_⟩
  · rw [hmembers]
    decide
  · rw [hled]
    decide
  · unfold Poll.HasQuorum Poll.granters
    rw [hmembers, hgrants]
    decide

end Vosfs.Raft
