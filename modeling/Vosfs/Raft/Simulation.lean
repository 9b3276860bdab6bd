import Vosfs.Consensus.Growth
import Vosfs.Raft.Cluster

/-!
# The cluster as a history

A state of the cluster is described by a history of the replicated log (`Sim`).  How
much of the history is meaningful depends on what the steps of the run respected,
so the relation has a level:

* level 0: terms, votes and leaders,
* level 1: also the logs,
* level 2: also what the nodes confirmed and the leaders recorded,
* level 3: also what was committed and applied.

Votes are counted with `tokens`: the request for a vote, and later its approval, is
the one token that a candidate's count can grow by.
-/

namespace Vosfs.Raft

open Consensus Function

/-- A log that starts at index 1. -/
def Numbered (entries : List LogEntry) : Prop :=
  ∀ k entry, entries[k]? = some entry → entry.index = k + 1

theorem Numbered.of_isPrefix {entries entries' : List LogEntry} (hnum : Numbered entries)
    (hpre : entries' <+: entries) : Numbered entries' := by
  intro k entry hentry
  obtain ⟨hk, rfl⟩ := List.getElem?_eq_some_iff.mp hentry
  exact hnum k _ (List.prefix_iff_getElem?.mp hpre k hk)

/-- A majority confirmed the first `c` entries, in some term up to `T`. -/
def Covered (members : Finset ℕ) (h : History ℕ LogEntry) (T c : ℕ) : Prop :=
  c = 0 ∨ ∃ T' ≤ T, ∃ i, h.Chosen members T' i ∧ c ≤ i + 1

/-! ## Nodes -/

/-- Level 0 of a node: its term, its vote and its leadership are those of the history, and no
snapshot has reached it. -/
structure NodeVotes (members : Finset ℕ) (h : History ℕ LogEntry) (id : ℕ) (node : RaftNode) :
    Prop where
  memberId : node.memberId = id
  peers : ∀ peer, peer ∈ node.transport.peers ↔ peer ∈ members
  fromStart : node.logs.FromStart
  snapshotData : node.snapshotData = []
  term : h.term id = node.currentTerm
  leader : node.role = .leader → h.leader node.currentTerm = some id
  not_leader : node.role ≠ .leader → h.leader node.currentTerm ≠ some id
  voted : node.role ≠ .leader → h.vote node.currentTerm id = node.hardState.votedFor
  candidate : node.role = .candidate → h.vote node.currentTerm id = some id
  led : ∀ T ∈ node.led, h.leader T = some id

/-- Level 1: its log is that of the history, and a candidate stands with it. -/
structure NodeLog (h : History ℕ LogEntry) (id : ℕ) (node : RaftNode) : Prop where
  log : h.log id = node.logs.entries
  stood : node.role = .candidate → h.leader node.currentTerm = none →
    h.candidateLog node.currentTerm id = node.logs.entries

/-- Level 2: what a leader recorded of a member, that member has confirmed in the term. -/
structure NodeMatch (members : Finset ℕ) (h : History ℕ LogEntry) (id : ℕ) (node : RaftNode) :
    Prop where
  keys : ∀ peer ∈ node.matchIndex, peer ∈ members
  complete : node.role = .leader → ∀ peer ∈ members, peer ∈ node.matchIndex
  self : node.role = .leader → node.matchIndex.lookup id = some 0
  confirmed : node.role = .leader → ∀ peer index, node.matchIndex.lookup peer = some index →
    index ≤ h.acked node.currentTerm peer

/-- Level 3: what is committed is covered by a majority, and what was applied was chosen at its
position. -/
structure NodeCommit (members : Finset ℕ) (h : History ℕ LogEntry) (node : RaftNode) :
    Prop where
  commit : Covered members h node.currentTerm node.commitIndex
  applied : ∀ index entry, (index, entry) ∈ node.applied → ∃ T i, h.Chosen members T i ∧
    0 < index ∧ index ≤ i + 1 ∧ (h.leaderLog T)[index - 1]? = some entry

/-- What the history says about a node, as far as the level goes. -/
structure NodeSim (level : ℕ) (members : Finset ℕ) (h : History ℕ LogEntry) (id : ℕ)
    (node : RaftNode) : Prop where
  votes : NodeVotes members h id node
  log : 1 ≤ level → NodeLog h id node
  matchIndex : 2 ≤ level → NodeMatch members h id node
  commit : 3 ≤ level → NodeCommit members h node

/-! ## Packets -/

/-- A request for a vote comes from a candidate that voted for itself, and describes the log it
stands with. -/
def VoteRequestSim (level : ℕ) (h : History ℕ LogEntry) (src : ℕ) (request : RequestVoteRequest) :
    Prop :=
  request.candidateId = src ∧ h.vote request.term src = some src ∧
    (1 ≤ level → request.lastLogIndex = (h.candidateLog request.term src).length ∧
      request.lastLogTerm = lastTerm (h.candidateLog request.term src))

/-- A request to append comes from the leader of its term, with a slice of the leader's log. -/
structure AppendRequestSim (level : ℕ) (members : Finset ℕ) (h : History ℕ LogEntry) (src : ℕ)
    (request : AppendEntriesRequest) : Prop where
  leader : h.leader request.term = some src
  slice : 1 ≤ level → ∃ front, front ++ request.entries <+: h.leaderLog request.term ∧
    front.length = request.prevLogIndex ∧ lastTerm front = request.prevLogTerm
  commit : 3 ≤ level → Covered members h request.term request.leaderCommit

/-- A response that reports success was confirmed by its sender. -/
structure AppendResponseSim (level : ℕ) (h : History ℕ LogEntry) (src : ℕ)
    (response : AppendEntriesResponse) : Prop where
  id : response.id = src
  confirmed : 2 ≤ level → response.success = true →
    (∃ l, h.leader response.term = some l) ∧ response.lastLogIndex ≤ h.acked response.term src

/-- What the history says about a message; none is about a snapshot. -/
def MessageSim (level : ℕ) (members : Finset ℕ) (h : History ℕ LogEntry) (src dst : ℕ) :
    Message → Prop
  | .requestVoteRequest request => VoteRequestSim level h src request
  | .requestVoteResponse response =>
    response.voteGranted = true → h.vote response.term src = some dst
  | .appendEntriesRequest request => AppendRequestSim level members h src request
  | .appendEntriesResponse response => AppendResponseSim level h src response
  | .installSnapshotRequest _ => False
  | .installSnapshotResponse _ => False

/-- A packet is from a member to another node, with a message that the history explains. -/
structure PacketSim (level : ℕ) (members : Finset ℕ) (h : History ℕ LogEntry) (packet : Packet) :
    Prop where
  src : packet.src ∈ members
  ne : packet.src ≠ packet.dst
  message : MessageSim level members h packet.src packet.dst packet.message

/-! ## Counting votes -/

/-- The packet can still bring the vote of `voter` in term `T` to `candidate`. -/
def isToken (voter candidate T : ℕ) (packet : Packet) : Bool :=
  match packet.message with
  | .requestVoteRequest request =>
    packet.src = candidate && packet.dst = voter && request.term = T
  | .requestVoteResponse response =>
    packet.src = voter && packet.dst = candidate && response.term = T && response.voteGranted
  | _ => false

theorem isToken_voteRequest {voter candidate T src dst : ℕ} {request : RequestVoteRequest} :
    isToken voter candidate T ⟨src, dst, .requestVoteRequest request⟩ = true ↔
      src = candidate ∧ dst = voter ∧ request.term = T := by
  simp [isToken, and_assoc]

theorem isToken_voteResponse {voter candidate T src dst : ℕ} {response : RequestVoteResponse} :
    isToken voter candidate T ⟨src, dst, .requestVoteResponse response⟩ = true ↔
      src = voter ∧ dst = candidate ∧ response.term = T ∧ response.voteGranted = true := by
  simp [isToken, and_assoc]

/-- The tokens of a vote on the network. -/
def tokens (network : List Packet) (voter candidate T : ℕ) : ℕ :=
  network.countP (isToken voter candidate T)

/-- The members whose vote for the candidate is not on its way any more. -/
def heard (members : Finset ℕ) (h : History ℕ LogEntry) (network : List Packet)
    (candidate T : ℕ) : Finset ℕ :=
  members.filter fun voter => h.vote T voter = some candidate ∧ tokens network voter candidate T = 0

/-- No vote counts twice. -/
structure Ballots (members : Finset ℕ) (node : ℕ → RaftNode) (network : List Packet)
    (h : History ℕ LogEntry) : Prop where
  tokens_le : ∀ voter candidate T, tokens network voter candidate T ≤ 1
  votes_le : ∀ id ∈ members, (node id).role = .candidate →
    (node id).votes ≤ (heard members h network id (node id).currentTerm).card

/-! ## The relation -/

/-- The history describes the members and the network, as far as the level goes. -/
structure Sim (level : ℕ) (members : Finset ℕ) (node : ℕ → RaftNode) (network : List Packet)
    (h : History ℕ LogEntry) : Prop where
  election : Election members h
  replicated : 1 ≤ level → Replicated h
  numbered : 1 ≤ level → ∀ T, Numbered (h.leaderLog T)
  inherited : 3 ≤ level → Inherited h
  nodes : ∀ id ∈ members, NodeSim level members h id (node id)
  packets : ∀ packet ∈ network, PacketSim level members h packet
  ballots : Ballots members node network h

variable {level : ℕ} {members : Finset ℕ} {h h' : History ℕ LogEntry} {network : List Packet}
  {node : ℕ → RaftNode}

/-! ## What a growing history keeps -/

theorem Covered.grow {T T' c : ℕ} (hcov : Covered members h T c) (hg : Grows h h')
    (hm : Matching h) (hT : T ≤ T') : Covered members h' T' c := by
  rcases hcov with hzero | ⟨T₀, hle, i, hchosen, hc⟩
  · exact Or.inl hzero
  · exact Or.inr ⟨T₀, hle.trans hT, i, hg.chosen hm hchosen, hc⟩

theorem AppendRequestSim.grow {src : ℕ} {request : AppendEntriesRequest}
    (hrequest : AppendRequestSim level members h src request) (hg : Grows h h')
    (hm : 1 ≤ level → Matching h) : AppendRequestSim level members h' src request := by
  refine ⟨hg.leader hrequest.leader, fun hlevel => ?_, fun hlevel => ?_⟩
  · obtain ⟨front, hpre, hlen⟩ := hrequest.slice hlevel
    exact ⟨front, hpre.trans (hg.leaderLog hrequest.leader), hlen⟩
  · exact (hrequest.commit hlevel).grow hg (hm (by omega)) le_rfl

theorem MessageSim.grow (hg : Grows h h') (hm : 1 ≤ level → Matching h) {src dst : ℕ}
    {message : Message} (hmsg : MessageSim level members h src dst message) :
    MessageSim level members h' src dst message := by
  cases message with
  | requestVoteRequest request =>
    obtain ⟨hcand, hvote, hlog⟩ := hmsg
    refine ⟨hcand, hg.vote hvote, fun hlevel => ?_⟩
    rw [hg.candidateLog hvote]
    exact hlog hlevel
  | requestVoteResponse response => exact fun hgranted => hg.vote (hmsg hgranted)
  | appendEntriesRequest request => exact AppendRequestSim.grow hmsg hg hm
  | appendEntriesResponse response =>
    refine ⟨hmsg.id, fun hlevel hsuccess => ?_⟩
    obtain ⟨⟨l, hl⟩, hacked⟩ := hmsg.confirmed hlevel hsuccess
    exact ⟨⟨l, hg.leader hl⟩, hacked.trans (hg.acked hl _)⟩
  | installSnapshotRequest request => exact hmsg
  | installSnapshotResponse response => exact hmsg

theorem PacketSim.grow {packet : Packet} (hp : PacketSim level members h packet)
    (hg : Grows h h') (hm : 1 ≤ level → Matching h) : PacketSim level members h' packet :=
  ⟨hp.src, hp.ne, hp.message.grow hg hm⟩

theorem NodeCommit.grow {raft : RaftNode} (hcommit : NodeCommit members h raft) (hg : Grows h h')
    (hm : Matching h) : NodeCommit members h' raft where
  commit := hcommit.commit.grow hg hm le_rfl
  applied := by
    intro index entry hmem
    obtain ⟨T, i, hchosen, hpos, hle, hentry⟩ := hcommit.applied index entry hmem
    obtain ⟨e, he, -⟩ := hchosen.1
    have hmem := List.mem_of_getElem? he
    refine ⟨T, i, hg.chosen hm hchosen, hpos, hle, ?_⟩
    cases hl : h.leader T with
    | none => rw [hm.leaderless hl] at hmem; cases hmem
    | some l =>
      obtain ⟨hlt, rfl⟩ := List.getElem?_eq_some_iff.mp hentry
      exact List.prefix_iff_getElem?.mp (hg.leaderLog hl) _ hlt

/-- A node that nothing happened to is still described by the longer history. -/
theorem NodeSim.grow {id : ℕ} {raft : RaftNode} (hn : NodeSim level members h id raft)
    (hg : Grows h h') (hsame : SameAt h h' id) (hm : 1 ≤ level → Matching h) :
    NodeSim level members h' id raft where
  votes :=
    { memberId := hn.votes.memberId
      peers := hn.votes.peers
      fromStart := hn.votes.fromStart
      snapshotData := hn.votes.snapshotData
      term := hsame.term.trans hn.votes.term
      leader := fun hrole => hg.leader (hn.votes.leader hrole)
      not_leader := fun hrole hl => hn.votes.not_leader hrole (hsame.leader hl)
      voted := fun hrole => (hsame.vote _).trans (hn.votes.voted hrole)
      candidate := fun hrole => hg.vote (hn.votes.candidate hrole)
      led := fun T hT => hg.leader (hn.votes.led T hT) }
  log hlevel :=
    { log := hsame.log.trans (hn.log hlevel).log
      stood := by
        intro hrole hnone
        rw [hg.candidateLog (hn.votes.candidate hrole)]
        refine (hn.log hlevel).stood hrole ?_
        cases hl : h.leader raft.currentTerm with
        | none => rfl
        | some l => rw [hg.leader hl] at hnone; cases hnone }
  matchIndex hlevel :=
    { keys := (hn.matchIndex hlevel).keys
      complete := (hn.matchIndex hlevel).complete
      self := (hn.matchIndex hlevel).self
      confirmed := fun hrole peer index hindex =>
        ((hn.matchIndex hlevel).confirmed hrole peer index hindex).trans
          (hg.acked (hn.votes.leader hrole) peer) }
  commit hlevel := (hn.commit hlevel).grow hg (hm (by omega))

theorem heard_subset_heard {network' : List Packet} {candidate T : ℕ}
    (hvote : ∀ {voter}, h.vote T voter = some candidate → h'.vote T voter = some candidate)
    (htokens : ∀ voter, tokens network' voter candidate T ≤ tokens network voter candidate T) :
    heard members h network candidate T ⊆ heard members h' network' candidate T := by
  intro voter hvoter
  simp only [heard, Finset.mem_filter] at hvoter ⊢
  obtain ⟨hmem, hv, hzero⟩ := hvoter
  exact ⟨hmem, hvote hv, Nat.le_zero.mp ((htokens voter).trans_eq hzero)⟩

/-! ## Updating one node, or the network -/

/-- One node changed, and is described by a longer history that leaves the others alone. -/
theorem Sim.setNode (hs : Sim level members node network h) {id : ℕ} {raft : RaftNode}
    (hg : Grows h h') (hsame : ∀ other ≠ id, SameAt h h' other)
    (helection : Election members h') (hreplicated : 1 ≤ level → Replicated h')
    (hnumbered : 1 ≤ level → ∀ T, Numbered (h'.leaderLog T))
    (hinherited : 3 ≤ level → Inherited h') (hnode : NodeSim level members h' id raft)
    (hvotes : raft.role = .candidate →
      raft.votes ≤ (heard members h' network id raft.currentTerm).card) :
    Sim level members (update node id raft) network h' where
  election := helection
  replicated := hreplicated
  numbered := hnumbered
  inherited := hinherited
  nodes := by
    intro other hother
    by_cases hid : other = id
    · subst hid
      rwa [update_self]
    · rw [update_of_ne hid]
      exact (hs.nodes other hother).grow hg (hsame other hid)
        fun hlevel => (hs.replicated hlevel).matching
  packets := fun packet hpacket =>
    (hs.packets packet hpacket).grow hg fun hlevel => (hs.replicated hlevel).matching
  ballots :=
    { tokens_le := hs.ballots.tokens_le
      votes_le := by
        intro other hother
        by_cases hid : other = id
        · subst hid
          rwa [update_self]
        · rw [update_of_ne hid]
          intro hrole
          exact (hs.ballots.votes_le other hother hrole).trans
            (Finset.card_le_card (heard_subset_heard hg.vote fun _ => le_rfl)) }

/-- The network changed by packets the history describes, and no token was added. -/
theorem Sim.exchange (hs : Sim level members node network h) {network' : List Packet}
    (hpackets : ∀ packet ∈ network', packet ∈ network ∨ PacketSim level members h packet)
    (htokens : ∀ voter candidate T,
      tokens network' voter candidate T ≤ tokens network voter candidate T) :
    Sim level members node network' h where
  election := hs.election
  replicated := hs.replicated
  numbered := hs.numbered
  inherited := hs.inherited
  nodes := hs.nodes
  packets := fun packet hpacket => (hpackets packet hpacket).elim (hs.packets packet) id
  ballots :=
    { tokens_le := fun voter candidate T =>
        (htokens voter candidate T).trans (hs.ballots.tokens_le voter candidate T)
      votes_le := fun other hother hrole => (hs.ballots.votes_le other hother hrole).trans
        (Finset.card_le_card (heard_subset_heard id fun voter => htokens voter _ _)) }

end Vosfs.Raft
