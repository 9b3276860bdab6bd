import Mathlib.Data.Finset.Max
import Vosfs.Raft.Ballots
import Vosfs.Raft.Conditions

/-!
# A campaign that succeeds

Voters compare the index of the last entry first, and at the same index they insist on the same
term (`Trails`).  A member whose log is behind nobody's among more than half of the members can make
itself the leader: it stands until its term is past theirs, asks them one after another, and counts
the approvals (`exists_leader_of_trails`).  Only the members in `live` take part, no packet is lost
and nobody is started again.
-/

namespace Vosfs.Raft

open Function

/-! ## The comparison of logs -/

/-- The index and the term of the last entry. -/
def RaftLog.last (log : RaftLog) : ℕ × ℕ :=
  (log.lastLogIndex, log.lastLogTerm)

/-- The end of the log that the request describes. -/
def RequestVoteRequest.last (request : RequestVoteRequest) : ℕ × ℕ :=
  (request.lastLogIndex, request.lastLogTerm)

/-- A voter whose log ends with `voter` votes for a log that ends with `candidate`. -/
def Trails (voter candidate : ℕ × ℕ) : Prop :=
  voter.1 < candidate.1 ∨ voter = candidate

instance (voter candidate : ℕ × ℕ) : Decidable (Trails voter candidate) :=
  inferInstanceAs (Decidable (_ ∨ _))

theorem Trails.refl (last : ℕ × ℕ) : Trails last last :=
  Or.inr rfl

theorem upToDateLog_iff {node : RaftNode} {request : RequestVoteRequest} :
    node.UpToDateLog request ↔ Trails node.logs.last request.last := by
  unfold RaftNode.UpToDateLog Trails
  refine or_congr_right ?_
  rw [Prod.ext_iff]
  exact and_congr eq_comm eq_comm

namespace RaftNode

/-- The request for votes in a term. -/
def asks (node : RaftNode) (term : ℕ) : RequestVoteRequest where
  term := term
  candidateId := node.memberId
  lastLogIndex := node.logs.lastLogIndex
  lastLogTerm := node.logs.lastLogTerm

/-- The clock when the election timeout has just passed. -/
def timeout (node : RaftNode) : Env :=
  { monotonicMs := node.lastResetTime + 150 }

variable {node : RaftNode}

theorem startsElection_timeout (hrole : node.role ≠ .leader) :
    node.StartsElection node.timeout .electionTimeout := by
  refine ⟨rfl, ?_, hrole⟩
  show 150 ≤ u64 (node.lastResetTime + 150 + 2 ^ 64 - node.lastResetTime)
  have hpassed : node.lastResetTime + 150 + 2 ^ 64 - node.lastResetTime = 150 + 2 ^ 64 := by omega
  rw [hpassed]
  decide

/-- A candidate leads if it has enough votes, and else goes on as it is. -/
theorem tryToLead_of_candidate (hrole : node.role = .candidate) :
    node.tryToLead.role = .leader ∨
      node.tryToLead = node ∧ node.votes ≤ node.transport.clusterSize / 2 := by
  unfold tryToLead
  split
  next => exact Or.inl rfl
  next hfew => exact Or.inr ⟨rfl, not_lt.mp fun hwon => hfew ⟨hwon, hrole⟩⟩

theorem currentTerm_voted (node : RaftNode) :
    node.voteForSelf.tryToLead.currentTerm = node.currentTerm :=
  @currentTerm_tryToLead node.voteForSelf

/-- A new candidate leads if its own vote is enough. -/
theorem tryToLead_of_voted (hrole : node.role = .candidate) (hvotes : node.votes = 0) :
    node.voteForSelf.tryToLead.role = .leader ∧ node.transport.clusterSize / 2 < 1 ∨
      node.voteForSelf.tryToLead.role = .candidate ∧ node.voteForSelf.tryToLead.votes = 1 ∧
        1 ≤ node.transport.clusterSize / 2 := by
  have hone : node.voteForSelf.votes = 1 := congrArg (· + 1) hvotes
  unfold tryToLead
  rw [hone]
  split
  next hwon => exact Or.inl ⟨rfl, hwon.1⟩
  next hfew => exact Or.inr ⟨hrole, hone, not_lt.mp fun hwon => hfew ⟨hwon, hrole⟩⟩

theorem voteRequest_eq : node.voteRequest = node.asks node.startElection.currentTerm := rfl

/-- A member that stands for election asks all others. -/
theorem exists_stands (hrole : node.role ≠ .leader) (hfits : node.currentTerm + 1 < 2 ^ 64) :
    ∃ node' packets, node.electionLoop node.timeout = (node', packets) ∧ KeepsData node node' ∧
      node'.currentTerm = node.currentTerm + 1 ∧
      (∀ peer ∈ node.transport.peers, peer ≠ node.memberId →
        node.send peer (.requestVoteRequest (node.asks node'.currentTerm)) ∈ packets) ∧
      (node'.role = .leader ∧ node.transport.clusterSize / 2 < 1 ∨
        node'.role = .candidate ∧ node'.votes = 1 ∧ 1 ≤ node.transport.clusterSize / 2) := by
  have hstart := startsElection_timeout hrole
  have hterm : u64 (node.currentTerm + 1) = node.currentTerm + 1 := Nat.mod_eq_of_lt hfits
  have hcurrent := currentTerm_electionLoop hstart
  have hkeeps := @electionLoop_keepsData node.timeout node
  rw [hterm] at hcurrent
  rw [electionLoop_of_starts hstart] at hcurrent hkeeps ⊢
  refine ⟨_, _, rfl, hkeeps, hcurrent, fun peer hpeer hne => ?_, ?_⟩
  · have htransport : node.startElection.voteForSelf.tryToLead.transport = node.transport :=
      hkeeps.transport
    refine List.mem_map.mpr ⟨peer, List.mem_filter.mpr ⟨htransport ▸ hpeer, ?_⟩, ?_⟩
    · rw [memberId_of_transport htransport]
      exact decide_eq_true hne
    · unfold send
      rw [memberId_of_transport htransport, voteRequest_eq,
        ← currentTerm_voted node.startElection]
      rfl
  · exact @tryToLead_of_voted node.startElection rfl rfl

theorem handleRequestVoteRequest_of_trails {env : Env} {request : RequestVoteRequest}
    (hterm : node.currentTerm < request.term) (htrails : Trails node.logs.last request.last) :
    node.handleRequestVoteRequest env request =
      ((node.increaseTermTo env request.term).grantVote env request.candidateId,
        { id := node.memberId, term := request.term, voteGranted := true }) := by
  have hcatch : node.catchUp env request.term = node.increaseTermTo env request.term :=
    if_pos hterm
  have hvote : CanVote (node.increaseTermTo env request.term) request :=
    ⟨Or.inl rfl, upToDateLog_iff.mpr htrails⟩
  unfold handleRequestVoteRequest
  rw [if_neg hterm.not_gt, hcatch]
  simp only
  rw [if_pos hvote]
  rfl

theorem handleRequestVoteResponse_of_granted {env : Env} {response : RequestVoteResponse}
    (hterm : response.term = node.currentTerm) (hrole : node.role = .candidate)
    (hgranted : response.voteGranted = true) :
    node.handleRequestVoteResponse env response =
      ({ node with votes := node.votes + 1 } : RaftNode).tryToLead := by
  unfold handleRequestVoteResponse
  rw [if_neg hterm.not_lt, if_neg hterm.not_gt, if_neg (by rw [hrole]; decide), if_pos hgranted]

end RaftNode

namespace Cluster

/-- The members know who they are and who belongs to the cluster. -/
structure Formed (c : Cluster) : Prop where
  memberId : ∀ id ∈ c.members, (c.node id).memberId = id
  peers : ∀ id ∈ c.members, ∀ peer, peer ∈ (c.node id).transport.peers ↔ peer ∈ c.members

theorem Formed.clusterSize {c : Cluster} (hformed : c.Formed) {id : ℕ} (hid : id ∈ c.members) :
    (c.node id).transport.clusterSize = c.members.card := by
  have hset : (c.node id).transport.peers.toFinset = c.members := by
    ext peer
    rw [List.mem_toFinset, hformed.peers id hid]
  rw [← hset, List.toFinset_card_of_nodup (c.node id).transport.nodup]
  rfl

variable [Platform]

/-- A live member takes a step, and the logs go on to match. -/
structure OfLive (live : Finset ℕ) (c : Cluster) (action : Action) : Prop where
  regular : c.LogsMatch action
  member : ∃ id ∈ live, ∃ env input, action = .handle id env input

/-- Live members took steps that changed no log. -/
structure Polls (live : Finset ℕ) (c c' : Cluster) : Prop where
  run : Run Cluster.step (OfLive live) c c'
  logs : ∀ id, (c'.node id).logs = (c.node id).logs
  transport : ∀ id, (c'.node id).transport = (c.node id).transport

variable {live : Finset ℕ} {c c' c'' : Cluster}

/-- A step of an election keeps the logs in agreement, if it keeps one vote per term. -/
theorem logsMatch_of_election {action : Action} (hrestart : action.restart? = none)
    (happend : action.appendRequest? = none)
    (hfits : ∀ t ∈ action.timeout?, (c.node t.1).TermFits t.2)
    (hvote : ∀ r ∈ action.voteRequest?, (c.node r.1).KeepsOwnVote r.2.2) : c.LogsMatch action := by
  refine ⟨⟨?_, hfits, hvote⟩, ?_⟩
  · rw [hrestart]
    exact fun r hr => absurd hr (Option.not_mem_none r)
  · rw [happend]
    exact fun r hr => absurd hr (Option.not_mem_none r)

theorem Polls.refl : Polls live c c :=
  ⟨Run.refl, fun _ => rfl, fun _ => rfl⟩

theorem Polls.trans (hfirst : Polls live c c') (hsecond : Polls live c' c'') : Polls live c c'' :=
  ⟨hfirst.run.trans hsecond.run, fun id => (hsecond.logs id).trans (hfirst.logs id),
    fun id => (hsecond.transport id).trans (hfirst.transport id)⟩

theorem Polls.formed (hpolls : Polls live c c') (hformed : c.Formed) : c'.Formed := by
  have hmembers := members_of_run hpolls.run
  constructor
  · intro id hid
    rw [RaftNode.memberId_of_transport (hpolls.transport id)]
    exact hformed.memberId id (hmembers ▸ hid)
  · intro id hid peer
    rw [hpolls.transport id, hmembers]
    exact hformed.peers id (hmembers ▸ hid) peer

/-- A live member handles what leaves its log alone. -/
theorem Polls.handle {id : ℕ} {env : Env} {input : Input} {network : List Packet} {node : RaftNode}
    {output : Output} (hid : id ∈ c.members) (hlive : id ∈ live)
    (hconsume : consume c.network (delivered id input) = some network)
    (hhandle : (c.node id).handle env input = .ok (node, output))
    (hmatch : c.LogsMatch (.handle id env input)) (hkeeps : (c.node id).KeepsData node) :
    Polls live c (c.afterHandling id network node output) := by
  have hstep : c.step (.handle id env input) = some (c.afterHandling id network node output) := by
    simp only [step, if_pos hid, hconsume, hhandle]
  refine ⟨Run.refl.next ⟨hmatch, id, hlive, env, input, rfl⟩ hstep, fun m => ?_, fun m => ?_⟩
  · show (update c.node id node m).logs = (c.node m).logs
    by_cases heq : m = id
    · rw [heq, update_self, hkeeps.logs]
    · rw [update_of_ne heq]
  · show (update c.node id node m).transport = (c.node m).transport
    by_cases heq : m = id
    · rw [heq, update_self, hkeeps.transport]
    · rw [update_of_ne heq]

/-- A packet for a live member can be delivered. -/
theorem exists_delivered {id src : ℕ} {env : Env} {message : Message} {node : RaftNode}
    {output : Output} (hid : id ∈ c.members) (hlive : id ∈ live)
    (hpacket : (⟨src, id, message⟩ : Packet) ∈ c.network)
    (hhandle : (c.node id).handle env (.deliver src message) = .ok (node, output))
    (hmatch : c.LogsMatch (.handle id env (.deliver src message)))
    (hkeeps : (c.node id).KeepsData node) :
    ∃ c', Polls live c c' ∧ (∀ m ≠ id, c'.node m = c.node m) ∧ c'.node id = node ∧
      (∀ packet ∈ c.network, packet ≠ ⟨src, id, message⟩ → packet ∈ c'.network) ∧
      ∀ packet ∈ output.packets, packet ∈ c'.network := by
  have hconsume : consume c.network (delivered id (.deliver src message)) =
      some (c.network.erase ⟨src, id, message⟩) := by
    unfold delivered consume
    exact if_pos hpacket
  refine ⟨_, Polls.handle hid hlive hconsume hhandle hmatch hkeeps, fun m hm => update_of_ne hm ..,
    update_self .., fun packet hmem hne => ?_, fun packet hmem => ?_⟩
  · exact List.mem_append_left _ ((List.mem_erase_of_ne hne).mpr hmem)
  · exact List.mem_append_right _ hmem

/-! ## Elections -/

/-- The candidate's request, on its way to a voter. -/
def ballot (c : Cluster) (candidate term voter : ℕ) : Packet :=
  ⟨candidate, voter, .requestVoteRequest ((c.node candidate).asks term)⟩

theorem Polls.ballot (hpolls : Polls live c c') (candidate term voter : ℕ) :
    c'.ballot candidate term voter = c.ballot candidate term voter := by
  unfold Cluster.ballot RaftNode.asks
  rw [hpolls.logs, RaftNode.memberId_of_transport (hpolls.transport candidate)]

/-- A member that leads, in a term that no live member is past. -/
def Won (live : Finset ℕ) (c : Cluster) (id : ℕ) : Prop :=
  (c.node id).role = .leader ∧ ∀ m ∈ live, (c.node m).currentTerm ≤ (c.node id).currentTerm

/-- The member stands in a new term, and leads if it needs no other vote. -/
theorem exists_election (hformed : c.Formed) {id : ℕ} (hid : id ∈ c.members) (hlive : id ∈ live)
    (hrole : (c.node id).role ≠ .leader) (hfits : (c.node id).currentTerm + 1 < 2 ^ 64) :
    ∃ c', Polls live c c' ∧ (∀ m ≠ id, c'.node m = c.node m) ∧
      (c'.node id).currentTerm = (c.node id).currentTerm + 1 ∧
      (∀ peer ∈ c.members, peer ≠ id →
        c.ballot id ((c.node id).currentTerm + 1) peer ∈ c'.network) ∧
      ((c'.node id).role = .leader ∧ c.members.card < 2 ∨
        (c'.node id).role = .candidate ∧ (c'.node id).votes = 1 ∧ 1 ≤ c.members.card / 2) := by
  obtain ⟨node', packets, hloop, hkeeps, hterm, hasked, hrole'⟩ :=
    RaftNode.exists_stands hrole hfits
  have hhandle := RaftNode.handle_electionTimeout hloop
  have hmatch : c.LogsMatch (.handle id (c.node id).timeout .electionTimeout) := by
    refine logsMatch_of_election rfl rfl ?_ fun r hr => absurd hr (Option.not_mem_none r)
    rintro t ⟨⟩
    exact fun _ _ => hfits
  have hself : (c.afterHandling id c.network node' { packets := packets }).node id = node' :=
    update_self ..
  rw [hformed.clusterSize hid] at hrole'
  refine ⟨_, Polls.handle hid hlive rfl hhandle hmatch hkeeps, fun m hm => update_of_ne hm .., ?_,
    fun peer hpeer hne => List.mem_append_right _ ?_, ?_⟩
  · rw [hself, hterm]
  · have hmember := hformed.memberId id hid
    have hother : peer ≠ (c.node id).memberId := by rwa [hmember]
    have hsent := hasked peer ((hformed.peers id hid peer).mpr hpeer) hother
    rw [hterm] at hsent
    unfold RaftNode.send at hsent
    rwa [hmember] at hsent
  · rw [hself]
    refine hrole'.imp_left fun hwon => ⟨hwon.1, ?_⟩
    have hfew := hwon.2
    omega

/-- A voter in an earlier term, with a log that trails the candidate's, approves. -/
theorem exists_vote {candidate voter term : ℕ} (hvoter : voter ∈ c.members) (hlive : voter ∈ live)
    (hpacket : c.ballot candidate term voter ∈ c.network)
    (hterm : (c.node voter).currentTerm < term)
    (htrails : Trails (c.node voter).logs.last (c.node candidate).logs.last) :
    ∃ c', Polls live c c' ∧ (∀ m ≠ voter, c'.node m = c.node m) ∧
      (c'.node voter).currentTerm = term ∧
      (∀ packet ∈ c.network, packet ≠ c.ballot candidate term voter → packet ∈ c'.network) ∧
      ⟨(c.node voter).memberId, candidate, .requestVoteResponse
        { id := (c.node voter).memberId, term := term, voteGranted := true }⟩ ∈ c'.network := by
  have hhandle : (c.node voter).handle {} (.deliver candidate
      (.requestVoteRequest ((c.node candidate).asks term))) = .ok
        (((c.node voter).increaseTermTo {} term).grantVote {} (c.node candidate).memberId,
          { packets := [⟨(c.node voter).memberId, candidate, .requestVoteResponse
            { id := (c.node voter).memberId, term := term, voteGranted := true }⟩] }) := by
    have hvote := @RaftNode.handleRequestVoteRequest_of_trails (c.node voter) {}
      ((c.node candidate).asks term) hterm htrails
    simp only [RaftNode.handle, RaftNode.receive, hvote]
    rfl
  have hmatch : c.LogsMatch (.handle voter {} (.deliver candidate
      (.requestVoteRequest ((c.node candidate).asks term)))) := by
    refine logsMatch_of_election rfl rfl (fun t ht => absurd ht (Option.not_mem_none t)) ?_
    rintro r ⟨⟩
    exact fun _ hsame => absurd hsame hterm.ne'
  obtain ⟨c', hpolls, hothers, hself, hkept, hsent⟩ := exists_delivered hvoter hlive hpacket hhandle
    hmatch ⟨rfl, rfl, rfl, rfl, rfl, rfl, rfl⟩
  refine ⟨c', hpolls, hothers, ?_, hkept, hsent _ (List.mem_singleton_self _)⟩
  rw [hself]
  rfl

/-- A candidate counts an approval, and leads when it has enough. -/
theorem exists_count (hformed : c.Formed) {candidate voter : ℕ} {response : RequestVoteResponse}
    (hcandidate : candidate ∈ c.members) (hlive : candidate ∈ live)
    (hpacket : (⟨voter, candidate, .requestVoteResponse response⟩ : Packet) ∈ c.network)
    (hterm : response.term = (c.node candidate).currentTerm)
    (hrole : (c.node candidate).role = .candidate) (hgranted : response.voteGranted = true) :
    ∃ c', Polls live c c' ∧ (∀ m ≠ candidate, c'.node m = c.node m) ∧
      (c'.node candidate).currentTerm = (c.node candidate).currentTerm ∧
      (∀ packet ∈ c.network, packet ≠ ⟨voter, candidate, .requestVoteResponse response⟩ →
        packet ∈ c'.network) ∧
      ((c'.node candidate).role = .leader ∨ (c'.node candidate).role = .candidate ∧
        (c'.node candidate).votes = (c.node candidate).votes + 1 ∧
        (c.node candidate).votes + 1 ≤ c.members.card / 2) := by
  have hhandle : (c.node candidate).handle {} (.deliver voter (.requestVoteResponse response)) =
      .ok ((c.node candidate).voteForSelf.tryToLead, {}) := by
    have hcount := @RaftNode.handleRequestVoteResponse_of_granted _ {} _ hterm hrole hgranted
    simp only [RaftNode.handle, RaftNode.receive, hcount]
    rfl
  have hcounted : (c.node candidate).KeepsData (c.node candidate).voteForSelf := by
    constructor <;> rfl
  have hmatch : c.LogsMatch
      (.handle candidate {} (.deliver voter (.requestVoteResponse response))) :=
    logsMatch_of_election rfl rfl (fun t ht => absurd ht (Option.not_mem_none t))
      fun r hr => absurd hr (Option.not_mem_none r)
  obtain ⟨c', hpolls, hothers, hself, hkept, -⟩ := exists_delivered hcandidate hlive hpacket hhandle
    hmatch (hcounted.trans RaftNode.tryToLead_keepsData)
  refine ⟨c', hpolls, hothers, ?_, hkept, ?_⟩
  · rw [hself, RaftNode.currentTerm_voted]
  · rw [hself]
    have hrole' : (c.node candidate).voteForSelf.role = .candidate := hrole
    rcases RaftNode.tryToLead_of_candidate hrole' with hwon | ⟨hsame, hfew⟩
    · exact Or.inl hwon
    · rw [hsame]
      rw [hcounted.transport, hformed.clusterSize hcandidate] at hfew
      exact Or.inr ⟨hrole, rfl, hfew⟩

/-- The member stands until it is in the term. -/
theorem exists_candidate (hformed : c.Formed) {id : ℕ} (hid : id ∈ c.members) (hlive : id ∈ live)
    {term n : ℕ} (hrole : (c.node id).role ≠ .leader)
    (hterm : (c.node id).currentTerm + (n + 1) = term) (hfits : term < 2 ^ 64) :
    ∃ c', Polls live c c' ∧ (∀ m ≠ id, c'.node m = c.node m) ∧
      ((c'.node id).role = .leader ∧ c.members.card < 2 ∨
        (c'.node id).role = .candidate ∧ (c'.node id).votes = 1 ∧ 1 ≤ c.members.card / 2 ∧
          (c'.node id).currentTerm = term ∧
          ∀ peer ∈ c.members, peer ≠ id → c.ballot id term peer ∈ c'.network) := by
  induction n generalizing c with
  | zero =>
    obtain ⟨c', hpolls, hothers, hnext, hasked, hresult⟩ :=
      exists_election hformed hid hlive hrole (by omega)
    refine ⟨c', hpolls, hothers, hresult.imp_right fun ⟨hstands, hvotes, hmore⟩ => ?_⟩
    rw [hterm] at hasked
    exact ⟨hstands, hvotes, hmore, hnext.trans hterm, hasked⟩
  | succ n ih =>
    obtain ⟨c₁, hpolls, hothers, hnext, -, hresult⟩ :=
      exists_election hformed hid hlive hrole (by omega)
    rcases hresult with hleads | ⟨hstands, -, -⟩
    · exact ⟨c₁, hpolls, hothers, Or.inl hleads⟩
    · have hmembers := members_of_run hpolls.run
      obtain ⟨c', hpolls', hothers', hresult⟩ := ih (hpolls.formed hformed) (hmembers ▸ hid)
        (by rw [hstands]; decide) (by omega)
      refine ⟨c', hpolls.trans hpolls', fun m hm => (hothers' m hm).trans (hothers m hm), ?_⟩
      simp only [hpolls.ballot, hmembers] at hresult
      exact hresult

/-- A candidate that some voters have yet to answer. -/
structure Campaigning (live : Finset ℕ) (c : Cluster) (candidate term votes : ℕ)
    (voters : List ℕ) : Prop where
  role : (c.node candidate).role = .candidate
  current : (c.node candidate).currentTerm = term
  counted : (c.node candidate).votes = votes
  distinct : (candidate :: voters).Nodup
  asked : ∀ voter ∈ voters, c.ballot candidate term voter ∈ c.network
  earlier : ∀ voter ∈ voters, (c.node voter).currentTerm < term
  trails : ∀ voter ∈ voters, Trails (c.node voter).logs.last (c.node candidate).logs.last
  highest : ∀ m ∈ live, (c.node m).currentTerm ≤ term

/-- One more voter approves, and the approval is counted. -/
theorem Campaigning.next (hformed : c.Formed) {candidate voter term votes : ℕ} {voters : List ℕ}
    (h : Campaigning live c candidate term votes (voter :: voters))
    (hcandidate : candidate ∈ c.members) (hlive : candidate ∈ live) (hvoter : voter ∈ c.members)
    (hvoterLive : voter ∈ live) :
    ∃ c', Polls live c c' ∧ (Won live c' candidate ∨
      Campaigning live c' candidate term (votes + 1) voters ∧ votes + 1 ≤ c.members.card / 2) := by
  obtain ⟨hnotMem, hdistinct⟩ := List.nodup_cons.mp h.distinct
  obtain ⟨hvoterNew, hvoters⟩ := List.nodup_cons.mp hdistinct
  have hne : candidate ≠ voter := fun heq => hnotMem (heq ▸ List.mem_cons_self)
  obtain ⟨c₁, hpolls₁, hothers₁, hterm₁, hkept₁, hanswer⟩ := exists_vote hvoter hvoterLive
    (h.asked voter List.mem_cons_self) (h.earlier voter List.mem_cons_self)
    (h.trails voter List.mem_cons_self)
  have hmembers₁ := members_of_run hpolls₁.run
  have hsame : c₁.node candidate = c.node candidate := hothers₁ candidate hne
  have hcurrent : term = (c₁.node candidate).currentTerm := by rw [hsame, h.current]
  obtain ⟨c₂, hpolls₂, hothers₂, hterm₂, hkept₂, hresult⟩ := exists_count (hpolls₁.formed hformed)
    (hmembers₁ ▸ hcandidate) hlive hanswer hcurrent (by rw [hsame, h.role]) rfl
  rw [hsame, h.counted, hmembers₁] at hresult
  rw [← hcurrent] at hterm₂
  have hpolls := hpolls₁.trans hpolls₂
  -- nobody is past the candidate's term
  have hhighest : ∀ m ∈ live, (c₂.node m).currentTerm ≤ term := by
    intro m hm
    by_cases hself : m = candidate
    · rw [hself, hterm₂]
    rw [hothers₂ m hself]
    by_cases hvoted : m = voter
    · rw [hvoted, hterm₁]
    · rw [hothers₁ m hvoted]
      exact h.highest m hm
  refine ⟨c₂, hpolls, ?_⟩
  rcases hresult with hleads | ⟨hstands, hvotes, hfew⟩
  · exact Or.inl ⟨hleads, fun m hm => hterm₂.symm ▸ hhighest m hm⟩
  · refine Or.inr ⟨⟨hstands, hterm₂, hvotes, List.nodup_cons.mpr ⟨fun hmem =>
      hnotMem (List.mem_cons_of_mem _ hmem), hvoters⟩, fun other hmem => ?_, fun other hmem => ?_,
      fun other hmem => ?_, hhighest⟩, hfew⟩
    · rw [hpolls.ballot]
      have hother : other ≠ voter := fun heq => hvoterNew (heq ▸ hmem)
      refine hkept₂ _ (hkept₁ _ (h.asked other (List.mem_cons_of_mem _ hmem)) fun heq => ?_)
        fun heq => ?_
      · exact hother (congrArg Packet.dst heq)
      · cases congrArg Packet.message heq
    · have hother : other ≠ voter := fun heq => hvoterNew (heq ▸ hmem)
      have hself : other ≠ candidate := fun heq => hnotMem (heq ▸ List.mem_cons_of_mem _ hmem)
      rw [hothers₂ other hself, hothers₁ other hother]
      exact h.earlier other (List.mem_cons_of_mem _ hmem)
    · rw [hpolls.logs, hpolls.logs]
      exact h.trails other (List.mem_cons_of_mem _ hmem)

/-- With enough voters, the candidate leads in the end. -/
theorem Campaigning.win (hformed : c.Formed) {candidate term votes : ℕ} {voters : List ℕ}
    (h : Campaigning live c candidate term votes voters) (hcandidate : candidate ∈ c.members)
    (hlive : candidate ∈ live) (hvoters : ∀ voter ∈ voters, voter ∈ c.members ∧ voter ∈ live)
    (hfew : votes ≤ c.members.card / 2) (henough : c.members.card / 2 < votes + voters.length) :
    ∃ c', Polls live c c' ∧ Won live c' candidate := by
  induction voters generalizing c votes with
  | nil => exact absurd henough (not_lt.mpr hfew)
  | cons voter voters ih =>
    obtain ⟨hvoter, hvoterLive⟩ := hvoters voter List.mem_cons_self
    obtain ⟨c₁, hpolls, hresult⟩ := h.next hformed hcandidate hlive hvoter hvoterLive
    rcases hresult with hwon | ⟨hnext, hfew'⟩
    · exact ⟨c₁, hpolls, hwon⟩
    · have hmembers := members_of_run hpolls.run
      rw [List.length_cons] at henough
      obtain ⟨c', hpolls', hwon⟩ := ih (hpolls.formed hformed) hnext (hmembers ▸ hcandidate)
        (fun other hmem => hmembers ▸ hvoters other (List.mem_cons_of_mem _ hmem))
        (hmembers ▸ hfew') (by rw [hmembers]; omega)
      exact ⟨c', hpolls.trans hpolls', hwon⟩

/-- The candidate stands in a term that is later than those of all live members, and asks for the
votes of those whose logs trail its own. -/
theorem exists_campaigning (hformed : c.Formed) (hsub : live ⊆ c.members) {candidate : ℕ}
    (hlive : candidate ∈ live) (hrole : (c.node candidate).role ≠ .leader) {voters : Finset ℕ}
    (hvoters : voters ⊆ live)
    (htrails : ∀ voter ∈ voters, Trails (c.node voter).logs.last (c.node candidate).logs.last)
    (hfits : ∀ m ∈ live, (c.node m).currentTerm + 1 < 2 ^ 64) :
    ∃ c', Polls live c c' ∧ (Won live c' candidate ∨ 1 ≤ c.members.card / 2 ∧
      ∃ term, Campaigning live c' candidate term 1 (voters.erase candidate).toList) := by
  have hcandidate := hsub hlive
  obtain ⟨highest, hmem, hhighest⟩ := live.exists_max_image (fun m => (c.node m).currentTerm)
    ⟨candidate, hlive⟩
  obtain ⟨n, hn⟩ := Nat.exists_eq_add_of_le (hhighest candidate hlive)
  obtain ⟨c', hpolls, hothers, hresult⟩ := exists_candidate (n := n) hformed hcandidate hlive hrole
    (by rw [← Nat.add_assoc, ← hn]) (hfits highest hmem)
  refine ⟨c', hpolls, ?_⟩
  rcases hresult with ⟨hleads, hone⟩ | ⟨hstands, hvotes, hfew, hterm, hasked⟩
  · -- there is no other member
    refine Or.inl ⟨hleads, fun m hm => ?_⟩
    have hsingle : m = candidate :=
      Finset.card_le_one.mp (Nat.le_of_lt_succ hone) m (hsub hm) candidate hcandidate
    rw [hsingle]
  · have hother : ∀ voter ∈ (voters.erase candidate).toList,
        voter ≠ candidate ∧ voter ∈ voters :=
      fun voter hmem => Finset.mem_erase.mp (Finset.mem_toList.mp hmem)
    have hdistinct : (candidate :: (voters.erase candidate).toList).Nodup :=
      List.nodup_cons.mpr ⟨fun hmem => (hother _ hmem).1 rfl, Finset.nodup_toList _⟩
    refine Or.inr ⟨hfew, _, hstands, hterm, hvotes, hdistinct, fun voter hmem => ?_,
      fun voter hmem => ?_, fun voter hmem => ?_, fun m hm => ?_⟩
    · obtain ⟨hne, hvoter⟩ := hother voter hmem
      rw [hpolls.ballot]
      exact hasked voter (hsub (hvoters hvoter)) hne
    · obtain ⟨hne, hvoter⟩ := hother voter hmem
      rw [hothers voter hne]
      exact Nat.lt_succ_of_le (hhighest voter (hvoters hvoter))
    · rw [hpolls.logs, hpolls.logs]
      exact htrails voter (hother voter hmem).2
    · by_cases heq : m = candidate
      · rw [heq, hterm]
      · rw [hothers m heq]
        exact (hhighest m hm).trans (Nat.le_succ _)

/-- **A campaign that succeeds.** -/
theorem exists_leader_of_trails (hformed : c.Formed) (hsub : live ⊆ c.members) {candidate : ℕ}
    (hlive : candidate ∈ live) (hrole : (c.node candidate).role ≠ .leader) {voters : Finset ℕ}
    (hvoters : voters ⊆ live) (hself : candidate ∈ voters)
    (hmajority : c.members.card < 2 * voters.card)
    (htrails : ∀ voter ∈ voters, Trails (c.node voter).logs.last (c.node candidate).logs.last)
    (hfits : ∀ m ∈ live, (c.node m).currentTerm + 1 < 2 ^ 64) :
    ∃ c', Polls live c c' ∧ Won live c' candidate := by
  obtain ⟨c₁, hpolls, hresult⟩ :=
    exists_campaigning hformed hsub hlive hrole hvoters htrails hfits
  rcases hresult with hwon | ⟨hfew, term, hcampaign⟩
  · exact ⟨c₁, hpolls, hwon⟩
  · have hmembers := members_of_run hpolls.run
    have henough : c₁.members.card / 2 < 1 + (voters.erase candidate).toList.length := by
      rw [hmembers, Finset.length_toList, Finset.card_erase_of_mem hself]
      omega
    have hasked : ∀ voter ∈ (voters.erase candidate).toList, voter ∈ c₁.members ∧ voter ∈ live := by
      intro voter hmem
      have hvoter := hvoters (Finset.mem_of_mem_erase (Finset.mem_toList.mp hmem))
      exact ⟨hmembers ▸ hsub hvoter, hvoter⟩
    obtain ⟨c', hpolls', hwon⟩ := hcampaign.win (hpolls.formed hformed)
      (hmembers ▸ hsub hlive) hlive hasked (hmembers ▸ hfew) henough
    exact ⟨c', hpolls.trans hpolls', hwon⟩

end Cluster

end Vosfs.Raft
