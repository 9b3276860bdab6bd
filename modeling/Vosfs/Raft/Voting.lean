import Vosfs.Raft.Effects
import Vosfs.Raft.Simulation

/-!
# Elections in the history

The stages of the voting handlers, each as an operation on the history:
`increaseTermTo` adopts a term, `startElection` stands, `grantVote` grants and
`becomeLeader` elects.  A stage looks at one node, `raft`, in the place of member
`id`; the packets stay where they are until the handler is done.
-/

namespace Vosfs.Raft

open Consensus Function

variable {level : ℕ} {members : Finset ℕ} {h h' : History ℕ LogEntry} {network : List Packet}
  {node : ℕ → RaftNode} {id : ℕ} {raft raft' : RaftNode} {env : Env}

/-! ## One node at a time -/

theorem Sim.nodeSim (hs : Sim level members (update node id raft) network h) (hid : id ∈ members) :
    NodeSim level members h id raft := by
  have := hs.nodes id hid
  rwa [update_self] at this

theorem Sim.change (hs : Sim level members (update node id raft) network h)
    (hg : Grows h h') (hsame : ∀ other ≠ id, SameAt h h' other)
    (helection : Election members h') (hreplicated : 1 ≤ level → Replicated h')
    (hnumbered : 1 ≤ level → ∀ T, Numbered (h'.leaderLog T))
    (hinherited : 3 ≤ level → Inherited h') (hnode : NodeSim level members h' id raft')
    (hvotes : raft'.role = .candidate →
      raft'.votes ≤ (heard members h' network id raft'.currentTerm).card) :
    Sim level members (update node id raft') network h' := by
  have := hs.setNode hg hsame helection hreplicated hnumbered hinherited hnode hvotes
  rwa [update_idem] at this

/-- The node changed in nothing the history records. -/
theorem Sim.keep (hs : Sim level members (update node id raft) network h) (hid : id ∈ members)
    (hnode : NodeSim level members h id raft')
    (hvotes : raft'.role = .candidate → raft.role = .candidate ∧ raft'.votes ≤ raft.votes ∧
      raft'.currentTerm = raft.currentTerm) :
    Sim level members (update node id raft') network h := by
  refine hs.change Grows.refl (fun _ _ => SameAt.refl _) hs.election hs.replicated hs.numbered
    hs.inherited hnode fun hrole => ?_
  obtain ⟨hcand, hle, hterm⟩ := hvotes hrole
  have := hs.ballots.votes_le id hid
  rw [update_self] at this
  rw [hterm]
  exact hle.trans (this hcand)

/-! ## Later terms -/

theorem Sim.increaseTermTo (hs : Sim level members (update node id raft) network h)
    (hid : id ∈ members) {T : ℕ} (hT : raft.currentTerm < T) :
    ∃ h', Grows h h' ∧
      Sim level members (update node id (raft.increaseTermTo env T)) network h' := by
  have hn := hs.nodeSim hid
  have hlt : h.term id < T := hn.votes.term ▸ hT
  have hg : Grows h (h.adopt id T) := Grows.adopt hlt.le
  refine ⟨h.adopt id T, hg, ?_⟩
  refine hs.change hg (fun other hne => SameAt.adopt hne T) (hs.election.adopt hlt.le)
    (fun hlevel => (hs.replicated hlevel).adopt hs.election hlt) hs.numbered hs.inherited ?_ ?_
  · refine ⟨?_, fun hlevel => ?_, fun hlevel => ?_, fun hlevel => ?_⟩
    · exact
        { memberId := hn.votes.memberId
          peers := hn.votes.peers
          fromStart := hn.votes.fromStart
          snapshotData := hn.votes.snapshotData
          term := update_self ..
          leader := fun hrole => by cases hrole
          not_leader := fun _ => hs.election.leader_ne hlt
          voted := fun _ => hs.election.vote_eq_none hlt
          candidate := fun hrole => by cases hrole
          led := hn.votes.led }
    · exact ⟨(hn.log hlevel).log, fun hrole => by cases hrole⟩
    · exact ⟨(hn.matchIndex hlevel).keys, (fun hrole => by cases hrole),
        (fun hrole => by cases hrole), (fun hrole => by cases hrole)⟩
    · have hm := (hs.replicated (by omega)).matching
      have hcommit := (hn.commit hlevel).grow hg hm
      exact ⟨(hn.commit hlevel).commit.grow hg hm hT.le, hcommit.applied⟩
  · intro hrole
    cases hrole

theorem Sim.catchUp (hs : Sim level members (update node id raft) network h)
    (hid : id ∈ members) (env : Env) (T : ℕ) :
    ∃ h', Grows h h' ∧ Sim level members (update node id (raft.catchUp env T)) network h' := by
  unfold RaftNode.catchUp
  split
  next hlt => exact hs.increaseTermTo hid hlt
  next => exact ⟨h, Grows.refl, hs⟩

/-! ## Standing for election -/

/-- No packet goes from a member to itself. -/
theorem Sim.tokens_self (hs : Sim level members node network h) (id T : ℕ) :
    tokens network id id T = 0 := by
  rw [tokens, List.countP_eq_zero]
  intro packet hpacket htoken
  have hne := (hs.packets packet hpacket).ne
  unfold isToken at htoken
  split at htoken <;> simp at htoken
  · exact hne (htoken.1.1.trans htoken.1.2.symm)
  · exact hne (htoken.1.1.1.trans htoken.1.1.2.symm)

/-- Nobody was asked for a vote in a term the candidate has not reached. -/
theorem Sim.tokens_eq_zero (hs : Sim level members node network h) {candidate T : ℕ}
    (hT : h.term candidate < T) (voter : ℕ) : tokens network voter candidate T = 0 := by
  have hnone := hs.election.vote_eq_none hT
  rw [tokens, List.countP_eq_zero]
  intro packet hpacket htoken
  have hmsg := (hs.packets packet hpacket).message
  unfold isToken at htoken
  split at htoken
  next request hmessage =>
    rw [hmessage] at hmsg
    obtain ⟨-, hvote, -⟩ := hmsg
    simp only [Bool.and_eq_true, decide_eq_true_eq] at htoken
    obtain ⟨⟨rfl, -⟩, rfl⟩ := htoken
    rw [hnone] at hvote
    cases hvote
  next response hmessage =>
    rw [hmessage] at hmsg
    simp only [Bool.and_eq_true, decide_eq_true_eq] at htoken
    obtain ⟨⟨⟨rfl, rfl⟩, rfl⟩, hgranted⟩ := htoken
    rw [hs.election.stood (hmsg hgranted)] at hnone
    cases hnone
  next => cases htoken

theorem Sim.startElection (hs : Sim level members (update node id raft) network h)
    (hid : id ∈ members) (hfits : raft.currentTerm + 1 < 2 ^ 64) :
    ∃ h', Grows h h' ∧
      Sim level members (update node id raft.startElection.voteForSelf) network h' ∧
      h'.vote (raft.currentTerm + 1) id = some id ∧
      (1 ≤ level → h'.candidateLog (raft.currentTerm + 1) id = raft.logs.entries) := by
  have hn := hs.nodeSim hid
  have hu64 : u64 (raft.currentTerm + 1) = raft.currentTerm + 1 := Nat.mod_eq_of_lt hfits
  have hlt : h.term id < raft.currentTerm + 1 := hn.votes.term ▸ Nat.lt_succ_self _
  have hterm : raft.startElection.voteForSelf.currentTerm = raft.currentTerm + 1 := hu64
  have hvote : (h.stand id (raft.currentTerm + 1)).vote (raft.currentTerm + 1) id = some id :=
    set₂_self ..
  have hg := Grows.stand hs.election hlt
  refine ⟨h.stand id (raft.currentTerm + 1), hg, ?_, hvote, fun hlevel => ?_⟩
  · refine hs.change hg (fun other hne => SameAt.stand hne _) (hs.election.stand hlt)
      (fun hlevel => (hs.replicated hlevel).stand hs.election hlt) hs.numbered
      (fun hlevel => Inherited.stand (hs.inherited hlevel) (hs.replicated (by omega)).retained
        hs.election hlt) ?_ ?_
    · refine ⟨?_, fun hlevel => ?_, fun hlevel => ?_, fun hlevel => ?_⟩
      · exact
          { memberId := hn.votes.memberId
            peers := hn.votes.peers
            fromStart := hn.votes.fromStart
            snapshotData := hn.votes.snapshotData
            term := by rw [hterm]; exact update_self ..
            leader := fun hrole => by cases hrole
            not_leader := fun _ => by rw [hterm]; exact hs.election.leader_ne hlt
            voted := fun _ => by
              rw [hterm, hvote]
              exact congrArg some hn.votes.memberId.symm
            candidate := fun _ => by rw [hterm, hvote]
            led := hn.votes.led }
      · refine ⟨(hn.log hlevel).log, fun _ _ => ?_⟩
        rw [hterm]
        exact (set₂_self ..).trans (hn.log hlevel).log
      · exact ⟨(hn.matchIndex hlevel).keys, (fun hrole => by cases hrole),
          (fun hrole => by cases hrole), (fun hrole => by cases hrole)⟩
      · have hm := (hs.replicated (by omega)).matching
        have hcommit := (hn.commit hlevel).grow hg hm
        refine ⟨(hn.commit hlevel).commit.grow hg hm ?_, hcommit.applied⟩
        rw [hterm]
        exact Nat.le_succ _
    · -- the own vote is counted, and was never on its way
      intro _
      rw [hterm]
      refine Finset.one_le_card.mpr ⟨id, ?_⟩
      rw [heard, Finset.mem_filter]
      exact ⟨hid, hvote, hs.tokens_self id _⟩
  · exact (set₂_self ..).trans (hn.log hlevel).log

/-! ## Granting a vote -/

theorem Sim.grantVote (hs : Sim level members (update node id raft) network h)
    (hid : id ∈ members) (env : Env) {src : ℕ} {request : RequestVoteRequest}
    (hrequest : VoteRequestSim level h src request) (hterm : request.term = raft.currentTerm)
    (hrole : raft.role ≠ .leader) (hcan : raft.CanVote request)
    (hcmp : 3 ≤ level → ¬ request.lastLogTerm < raft.logs.lastLogTerm) :
    ∃ h', Grows h h' ∧ h'.vote request.term id = some src ∧
      Sim level members (update node id (raft.grantVote env request.candidateId)) network h' := by
  have hn := hs.nodeSim hid
  obtain ⟨rfl, hvote, hlog⟩ := hrequest
  obtain ⟨hfree, huptodate⟩ := hcan
  have hvoted := hn.votes.voted hrole
  rw [hterm] at hvote hlog ⊢
  -- the history after the vote, whether it is new or given again
  obtain ⟨h', hg, hnow, hsame, helection, hreplicated, hlogs, hinherited⟩ :
      ∃ h', Grows h h' ∧ h'.vote raft.currentTerm id = some request.candidateId ∧
        (∀ other ≠ id, SameAt h h' other) ∧ Election members h' ∧
        (1 ≤ level → Replicated h') ∧
        (h'.term = h.term ∧ h'.leader = h.leader ∧ h'.leaderLog = h.leaderLog ∧
          h'.log = h.log ∧ h'.candidateLog = h.candidateLog) ∧
        (3 ≤ level → Inherited h') := by
    rcases hfree with hnone | hagain
    · rw [hnone] at hvoted
      refine ⟨h.grant id request.candidateId raft.currentTerm, Grows.grant hvoted,
        set₂_self .., fun other hne => SameAt.grant hne _ _,
        hs.election.grant hn.votes.term hvoted hvote,
        fun hlevel => (hs.replicated hlevel).grant _ _ _, ⟨rfl, rfl, rfl, rfl, rfl⟩,
        fun hlevel => ?_⟩
      refine Inherited.grant (hs.inherited hlevel) (hs.replicated (by omega)).retained
        hs.election (hs.replicated (by omega)).matching hn.votes.term hvoted fun _ => ?_
      obtain ⟨hlen, hlast⟩ := hlog (by omega)
      have hown := (hn.log (by omega)).log
      unfold RaftNode.UpToDateLog at huptodate
      have hcmp := hcmp hlevel
      rw [hn.votes.fromStart.lastLogTerm, ← hown, hlast] at huptodate hcmp
      rw [hn.votes.fromStart.lastLogIndex, ← hown, hlen] at huptodate
      unfold UpToDate
      omega
    · rw [hagain] at hvoted
      exact ⟨h, Grows.refl, hvoted, fun _ _ => SameAt.refl _, hs.election, hs.replicated,
        ⟨rfl, rfl, rfl, rfl, rfl⟩, hs.inherited⟩
  obtain ⟨hterms, hleaders, hleaderLogs, hlogs, hcandidateLogs⟩ := hlogs
  refine ⟨h', hg, hnow, hs.change hg hsame helection hreplicated
    (fun hlevel => hleaderLogs ▸ hs.numbered hlevel) hinherited ?_ fun hrole' => ?_⟩
  · refine ⟨?_, fun hlevel => ?_, fun hlevel => ?_, fun hlevel => ?_⟩
    · exact
        { memberId := hn.votes.memberId
          peers := hn.votes.peers
          fromStart := hn.votes.fromStart
          snapshotData := hn.votes.snapshotData
          term := hterms ▸ hn.votes.term
          leader := fun hrole' => absurd hrole' hrole
          not_leader := fun _ => hleaders ▸ hn.votes.not_leader hrole
          voted := fun _ => hnow
          candidate := fun hrole' => hg.vote (hn.votes.candidate hrole')
          led := fun T hT => hg.leader (hn.votes.led T hT) }
    · refine ⟨hlogs ▸ (hn.log hlevel).log, fun hrole' hnone => ?_⟩
      rw [hcandidateLogs]
      exact (hn.log hlevel).stood hrole' (hleaders ▸ hnone)
    · exact ⟨(hn.matchIndex hlevel).keys, fun hrole' => absurd hrole' hrole,
        fun hrole' => absurd hrole' hrole, fun hrole' => absurd hrole' hrole⟩
    · exact ⟨((hn.commit hlevel).grow hg (hs.replicated (by omega)).matching).commit,
        ((hn.commit hlevel).grow hg (hs.replicated (by omega)).matching).applied⟩
  · have hvotes := hs.ballots.votes_le id hid
    rw [update_self] at hvotes
    exact (hvotes hrole').trans
      (Finset.card_le_card (heard_subset_heard hg.vote fun _ => le_rfl))

/-! ## Becoming the leader -/

theorem numbered_of_backed (hnumbered : ∀ T, Numbered (h.leaderLog T)) {entries : List LogEntry}
    (hbacked : h.Backed entries) : Numbered entries := by
  intro k entry hentry
  have hnum := (hnumbered (termOf entry)).of_isPrefix (hbacked k entry hentry)
  refine hnum k entry ?_
  rwa [List.getElem?_take_of_lt (Nat.lt_succ_self k)]

theorem NodeVotes.clusterSize_eq_card (hn : NodeVotes members h id raft) :
    raft.transport.clusterSize = members.card := by
  have hset : raft.transport.peers.toFinset = members := by
    ext peer
    rw [List.mem_toFinset, hn.peers]
  rw [← hset, List.toFinset_card_of_nodup raft.transport.nodup]
  rfl

/-- A new leader has recorded index 0 for every member. -/
theorem NodeMatch.becomeLeader (hn : NodeVotes members h id raft) (hid : id ∈ members)
    (hmatch : NodeMatch members h id raft) : NodeMatch members h' id raft.becomeLeader := by
  have hlookup : ∀ peer, raft.becomeLeader.matchIndex.lookup peer =
      if peer ∈ raft.transport.peers then some 0 else raft.matchIndex.lookup peer :=
    UnorderedMap.lookup_foldl_insert _ _ _
  constructor
  · intro peer hpeer
    by_contra hnot
    rw [UnorderedMap.mem_iff_lookup, hlookup, if_neg fun hmem => hnot ((hn.peers peer).mp hmem),
      ← UnorderedMap.mem_iff_lookup] at hpeer
    exact hnot (hmatch.keys peer hpeer)
  · intro _ peer hpeer
    rw [UnorderedMap.mem_iff_lookup, hlookup, if_pos ((hn.peers peer).mpr hpeer)]
    exact ⟨0, rfl⟩
  · intro _
    rw [hlookup, if_pos ((hn.peers id).mpr hid)]
  · intro _ peer index hindex
    rw [hlookup] at hindex
    split at hindex
    next => cases hindex; exact Nat.zero_le _
    next hnot =>
      have hmem := hmatch.keys peer (UnorderedMap.mem_iff_lookup.mpr ⟨index, hindex⟩)
      exact absurd ((hn.peers peer).mpr hmem) hnot

theorem Sim.becomeLeader (hs : Sim level members (update node id raft) network h)
    (hid : id ∈ members) (hvotes : raft.transport.clusterSize / 2 < raft.votes)
    (hrole : raft.role = .candidate) :
    ∃ h', Grows h h' ∧ Sim level members (update node id raft.becomeLeader) network h' := by
  have hn := hs.nodeSim hid
  have hleads : raft.role ≠ .leader := by rw [hrole]; decide
  have hcounted := hs.ballots.votes_le id hid
  rw [update_self] at hcounted
  rw [hn.votes.clusterSize_eq_card] at hvotes
  have helectors : ∀ voter ∈ heard members h network id raft.currentTerm,
      h.vote raft.currentTerm voter = some id := fun voter hvoter =>
    (Finset.mem_filter.mp hvoter).2.1
  have hmaj : Majority members (heard members h network id raft.currentTerm) := by
    have := hcounted hrole
    exact ⟨Finset.filter_subset _ _, by omega⟩
  -- a leader of this term would have to be this node
  have hnone : h.leader raft.currentTerm = none := by
    cases hl : h.leader raft.currentTerm with
    | none => rfl
    | some l =>
      obtain rfl : id = l := hs.election.leader_unique hl hmaj helectors
      exact absurd hl (hn.votes.not_leader hleads)
  have hg : Grows h (h.elect id raft.currentTerm
      (heard members h network id raft.currentTerm)) := Grows.elect hnone
  have hstood : 1 ≤ level → h.candidateLog raft.currentTerm id = h.log id := fun hlevel =>
    ((hn.log hlevel).stood hrole hnone).trans (hn.log hlevel).log.symm
  refine ⟨_, hg, hs.change hg (fun other hne => SameAt.elect hne _ _)
    (hs.election.elect hmaj helectors)
    (fun hlevel => (hs.replicated hlevel).elect _ hn.votes.term hnone (hstood hlevel))
    (fun hlevel T => ?_)
    (fun hlevel => Inherited.elect (hs.inherited hlevel) (hs.replicated (by omega)).matching _
      hnone (hstood (by omega))) ?_ fun hrole' => by cases hrole'⟩
  · by_cases hT : T = raft.currentTerm
    · subst hT
      simp only [History.elect, update_self]
      exact numbered_of_backed (hs.numbered hlevel) ((hs.replicated hlevel).matching.backed_log id)
    · simp only [History.elect, update_of_ne hT]
      exact hs.numbered hlevel T
  · refine ⟨?_, fun hlevel => ?_, fun hlevel => ?_, fun hlevel => ?_⟩
    · exact
        { memberId := hn.votes.memberId
          peers := hn.votes.peers
          fromStart := hn.votes.fromStart
          snapshotData := hn.votes.snapshotData
          term := hn.votes.term
          leader := fun _ => update_self ..
          not_leader := fun hrole' => absurd rfl hrole'
          voted := fun hrole' => absurd rfl hrole'
          candidate := fun hrole' => by cases hrole'
          led := fun T hT => by
            rcases List.mem_append.mp hT with hold | hnew
            · exact hg.leader (hn.votes.led T hold)
            · rw [List.mem_singleton.mp hnew]
              exact update_self .. }
    · exact ⟨(hn.log hlevel).log, fun hrole' => by cases hrole'⟩
    · exact (hn.matchIndex hlevel).becomeLeader hn.votes hid
    · have hcommit := (hn.commit hlevel).grow hg (hs.replicated (by omega)).matching
      exact ⟨hcommit.commit, hcommit.applied⟩

theorem Sim.tryToLead (hs : Sim level members (update node id raft) network h)
    (hid : id ∈ members) :
    ∃ h', Grows h h' ∧ Sim level members (update node id raft.tryToLead) network h' := by
  unfold RaftNode.tryToLead
  split
  next hwon => exact hs.becomeLeader hid hwon.1 hwon.2
  next => exact ⟨h, Grows.refl, hs⟩

/-! ## Packets on their way -/

theorem tokens_erase {packet : Packet} (hmem : packet ∈ network) (voter candidate T : ℕ) :
    tokens (network.erase packet) voter candidate T =
      tokens network voter candidate T - if isToken voter candidate T packet then 1 else 0 := by
  rw [tokens, List.countP_erase]
  simp [hmem, tokens]

theorem tokens_append (network more : List Packet) (voter candidate T : ℕ) :
    tokens (network ++ more) voter candidate T =
      tokens network voter candidate T + tokens more voter candidate T :=
  List.countP_append

theorem tokens_pos {packet : Packet} (hmem : packet ∈ network) {voter candidate T : ℕ}
    (htoken : isToken voter candidate T packet = true) : 0 < tokens network voter candidate T :=
  List.countP_pos_iff.mpr ⟨packet, hmem, htoken⟩

/-- A delivered or lost packet is gone. -/
theorem Sim.erase (hs : Sim level members node network h) {packet : Packet}
    (hmem : packet ∈ network) : Sim level members node (network.erase packet) h := by
  refine hs.exchange (fun packet' hpacket' => Or.inl (List.mem_of_mem_erase hpacket')) ?_
  intro voter candidate T
  rw [tokens_erase hmem]
  exact Nat.sub_le _ _

/-- A packet is answered.  The answer carries a token only if the packet did. -/
theorem Sim.answer (hs : Sim level members node network h) {packet answer : Packet}
    (hmem : packet ∈ network) (hanswer : PacketSim level members h answer)
    (htoken : ∀ voter candidate T, isToken voter candidate T answer = true →
      isToken voter candidate T packet = true) :
    Sim level members node (network.erase packet ++ [answer]) h := by
  refine hs.exchange (fun packet' hpacket' => ?_) fun voter candidate T => ?_
  · rcases List.mem_append.mp hpacket' with hold | hnew
    · exact Or.inl (List.mem_of_mem_erase hold)
    · exact Or.inr (List.mem_singleton.mp hnew ▸ hanswer)
  · have hone : tokens [answer] voter candidate T =
        if isToken voter candidate T answer then 1 else 0 := List.countP_singleton
    rw [tokens_append, tokens_erase hmem, hone]
    by_cases hcarries : isToken voter candidate T answer = true
    · have hpos := tokens_pos hmem (htoken voter candidate T hcarries)
      rw [if_pos hcarries, if_pos (htoken voter candidate T hcarries)]
      omega
    · rw [if_neg hcarries, Nat.add_zero]
      exact Nat.sub_le _ _

/-- Packets without tokens are sent. -/
theorem Sim.send (hs : Sim level members node network h) {packets : List Packet}
    (hpackets : ∀ packet ∈ packets, PacketSim level members h packet)
    (htoken : ∀ packet ∈ packets, ∀ voter candidate T,
      isToken voter candidate T packet = false) :
    Sim level members node (network ++ packets) h := by
  refine hs.exchange (fun packet hpacket => ?_) fun voter candidate T => ?_
  · exact (List.mem_append.mp hpacket).imp_right (hpackets packet)
  · have hnone : tokens packets voter candidate T = 0 := by
      rw [tokens, List.countP_eq_zero]
      intro packet hpacket
      simp [htoken packet hpacket]
    rw [tokens_append, hnone, Nat.add_zero]

/-- A vote that arrives was not counted before. -/
theorem Sim.countVote (hs : Sim level members (update node id raft) network h)
    (hid : id ∈ members) {src : ℕ} {response : RequestVoteResponse}
    (hmem : (⟨src, id, .requestVoteResponse response⟩ : Packet) ∈ network)
    (hterm : response.term = raft.currentTerm) (hgranted : response.voteGranted = true) :
    Sim level members (update node id { raft with votes := raft.votes + 1 })
      (network.erase ⟨src, id, .requestVoteResponse response⟩) h := by
  have hn := hs.nodeSim hid
  have hpacket := hs.packets _ hmem
  have hvote : h.vote raft.currentTerm src = some id := hterm ▸ hpacket.message hgranted
  have htoken : isToken src id raft.currentTerm
      ⟨src, id, .requestVoteResponse response⟩ = true := by
    simp [isToken, hterm, hgranted]
  have hpos := tokens_pos hmem htoken
  have hle := hs.ballots.tokens_le src id raft.currentTerm
  refine (hs.erase hmem).change Grows.refl (fun _ _ => SameAt.refl _) hs.election hs.replicated
    hs.numbered hs.inherited ?_ fun hrole => ?_
  · exact
      { votes := ⟨hn.votes.memberId, hn.votes.peers, hn.votes.fromStart, hn.votes.snapshotData,
          hn.votes.term, hn.votes.leader, hn.votes.not_leader, hn.votes.voted,
          hn.votes.candidate, hn.votes.led⟩
        log := fun hlevel => ⟨(hn.log hlevel).log, (hn.log hlevel).stood⟩
        matchIndex := fun hlevel => ⟨(hn.matchIndex hlevel).keys, (hn.matchIndex hlevel).complete,
          (hn.matchIndex hlevel).self, (hn.matchIndex hlevel).confirmed⟩
        commit := fun hlevel => ⟨(hn.commit hlevel).commit, (hn.commit hlevel).applied⟩ }
  · have hcounted := hs.ballots.votes_le id hid
    rw [update_self] at hcounted
    refine Nat.lt_of_le_of_lt (hcounted hrole) (Finset.card_lt_card ?_)
    have hsub : heard members h network id raft.currentTerm ⊆ heard members h
        (network.erase ⟨src, id, .requestVoteResponse response⟩) id raft.currentTerm := by
      refine heard_subset_heard (fun hv => hv) fun voter => ?_
      rw [tokens_erase hmem]
      exact Nat.sub_le _ _
    refine (Finset.ssubset_iff_of_subset hsub).mpr ⟨src, ?_, ?_⟩
    · rw [heard, Finset.mem_filter, tokens_erase hmem, if_pos htoken]
      exact ⟨hpacket.src, hvote, by omega⟩
    · rw [heard, Finset.mem_filter]
      rintro ⟨-, -, hzero⟩
      exact absurd (hzero ▸ hpos) (Nat.lt_irrefl 0)

/-! ## Asking for votes -/

/-- The requests of a candidate. -/
def voteRequests (raft : RaftNode) (request : RequestVoteRequest) : List Packet :=
  (raft.transport.peers.filter (· ≠ raft.memberId)).map fun peer =>
    raft.send peer (.requestVoteRequest request)

theorem tokens_voteRequests (raft : RaftNode) (request : RequestVoteRequest)
    (voter candidate T : ℕ) :
    tokens (voteRequests raft request) voter candidate T ≤
      if candidate = raft.memberId ∧ T = request.term ∧ voter ≠ candidate then 1 else 0 := by
  have hcount : tokens (voteRequests raft request) voter candidate T =
      (raft.transport.peers.filter (· ≠ raft.memberId)).countP fun peer =>
        isToken voter candidate T (raft.send peer (.requestVoteRequest request)) :=
    List.countP_map
  rw [hcount]
  split
  next =>
    calc (raft.transport.peers.filter (· ≠ raft.memberId)).countP _
        ≤ (raft.transport.peers.filter (· ≠ raft.memberId)).count voter := by
          refine List.countP_mono_left fun peer _ htoken => ?_
          simpa using (isToken_voteRequest.mp htoken).2.1
      _ ≤ 1 := List.nodup_iff_count_le_one.mp (raft.transport.nodup.filter _) voter
  next hother =>
    rw [Nat.le_zero, List.countP_eq_zero]
    intro peer hpeer htoken
    obtain ⟨hcandidate, hvoter, hterm⟩ := isToken_voteRequest.mp htoken
    have hne : peer ≠ raft.memberId := by simpa using (List.mem_filter.mp hpeer).2
    exact hother ⟨hcandidate.symm, hterm.symm, by rw [← hvoter, ← hcandidate]; exact hne⟩

/-- A candidate asks all other members, in a term in which nobody was asked before. -/
theorem Sim.askForVotes (hs : Sim level members (update node id raft) network h)
    (hid : id ∈ members) {request : RequestVoteRequest}
    (hrequest : VoteRequestSim level h id request)
    (hfresh : ∀ voter, tokens network voter id request.term = 0)
    (hvotes : raft.role = .candidate → raft.votes ≤ 1) :
    Sim level members (update node id raft) (network ++ voteRequests raft request) h := by
  have hn := hs.nodeSim hid
  have htokens : ∀ voter candidate T,
      tokens (network ++ voteRequests raft request) voter candidate T ≤
        tokens network voter candidate T +
          if candidate = id ∧ T = request.term ∧ voter ≠ candidate then 1 else 0 := by
    intro voter candidate T
    rw [tokens_append, ← hn.votes.memberId]
    exact Nat.add_le_add_left (tokens_voteRequests raft request voter candidate T) _
  refine ⟨hs.election, hs.replicated, hs.numbered, hs.inherited, hs.nodes, ?_, ?_⟩
  · intro packet hpacket
    rcases List.mem_append.mp hpacket with hold | hnew
    · exact hs.packets packet hold
    · obtain ⟨peer, hpeer, rfl⟩ := List.mem_map.mp hnew
      have hne : peer ≠ raft.memberId := by simpa using (List.mem_filter.mp hpeer).2
      rw [RaftNode.send, hn.votes.memberId]
      exact ⟨hid, hn.votes.memberId ▸ hne.symm, hrequest⟩
  · constructor
    · intro voter candidate T
      have hold := hs.ballots.tokens_le voter candidate T
      have hnew := htokens voter candidate T
      split at hnew
      next hasked =>
        obtain ⟨rfl, rfl, -⟩ := hasked
        have := hfresh voter
        omega
      next => omega
    · intro other hother hrole
      by_cases hne : other = id
      · -- the candidate's own vote is the only one counted
        subst hne
        rw [update_self] at hrole ⊢
        refine (hvotes hrole).trans (Finset.one_le_card.mpr ⟨other, ?_⟩)
        have hself := htokens other other raft.currentTerm
        rw [hs.tokens_self, if_neg fun hasked => hasked.2.2 rfl] at hself
        rw [heard, Finset.mem_filter]
        exact ⟨hother, hn.votes.candidate hrole, Nat.le_zero.mp hself⟩
      · refine (hs.ballots.votes_le other hother hrole).trans
          (Finset.card_le_card (heard_subset_heard (fun hv => hv) fun voter => ?_))
        have := htokens voter other (update node id raft other).currentTerm
        rwa [if_neg fun hasked => hne hasked.1, Nat.add_zero] at this

end Vosfs.Raft
