import Vosfs.Raft.Committing

/-!
# Every regular step is a step of the history

One lemma per handler puts its stages together, and `Sim.step` goes through the
inputs.  `exists_sim_of_run` is the simulation: a run whose steps are regular at a
level is described at that level, by histories that grow along the run.
-/

namespace Vosfs.Raft

open Consensus Function

variable {level : ℕ} {members : Finset ℕ} {h h' : History ℕ LogEntry} {network : List Packet}
  {node : ℕ → RaftNode} {id src : ℕ} {raft raft' : RaftNode} {env : Env}

/-! ## Elections -/

theorem votes_tryToLead (hrole : raft.tryToLead.role = .candidate) :
    raft.tryToLead.votes = raft.votes := by
  unfold RaftNode.tryToLead at hrole ⊢
  split
  next hwon => rw [if_pos hwon] at hrole; cases hrole
  next => rfl

theorem Sim.electionLoop (hs : Sim level members (update node id raft) network h)
    (hid : id ∈ members) (hfits : raft.TermFits env) :
    ∃ h', Grows h h' ∧ Sim level members (update node id (raft.electionLoop env).1)
      (network ++ (raft.electionLoop env).2) h' := by
  have hn := hs.nodeSim hid
  unfold RaftNode.electionLoop
  split
  next => exact ⟨h, Grows.refl, by rwa [List.append_nil]⟩
  next hstart =>
    simp only [not_or, not_not] at hstart
    have hfits := hfits hstart.1 hstart.2
    have hterm : raft.startElection.currentTerm = raft.currentTerm + 1 := Nat.mod_eq_of_lt hfits
    have hlt : h.term id < raft.currentTerm + 1 := by
      rw [hn.votes.term]
      exact Nat.lt_succ_self _
    have hfresh := hs.tokens_eq_zero hlt
    obtain ⟨h₁, hg₁, hs₁, hvote, hlog⟩ := hs.startElection hid hfits
    obtain ⟨h₂, hg₂, hs₂⟩ := hs₁.tryToLead hid
    have hs₃ : Sim level members (update node id
        { raft.startElection.voteForSelf.tryToLead with lastResetTime := env.monotonicMs })
        network h₂ :=
      hs₂.unchanged hid ⟨rfl, rfl, rfl, rfl, rfl, rfl, rfl, rfl, rfl, rfl⟩
    refine ⟨h₂, hg₁.trans hg₂, hs₃.askForVotes hid ?_ ?_ fun hrole => ?_⟩
    · refine ⟨hn.votes.memberId, ?_, fun hlevel => ?_⟩
      · simp only [hterm]
        exact hg₂.vote hvote
      · simp only [hterm]
        rw [hg₂.candidateLog hvote, hlog hlevel]
        exact ⟨hn.votes.fromStart.lastLogIndex, hn.votes.fromStart.lastLogTerm⟩
    · simp only [hterm]
      exact hfresh
    · exact (votes_tryToLead hrole).le

/-- A node that moved to a later term does not lead it. -/
theorem catchUp_of_leader {T : ℕ} (hrole : (raft.catchUp env T).role = .leader) :
    raft.catchUp env T = raft := by
  unfold RaftNode.catchUp at hrole ⊢
  split
  next hlt => rw [if_pos hlt] at hrole; cases hrole
  next => rfl

theorem Sim.handleRequestVoteRequest (hs : Sim level members (update node id raft) network h)
    (hid : id ∈ members) {request : RequestVoteRequest}
    (hmem : (⟨src, id, .requestVoteRequest request⟩ : Packet) ∈ network)
    (hkeeps : raft.KeepsOwnVote request) (hcompares : 3 ≤ level → raft.ComparesLogs env request) :
    ∃ h', Grows h h' ∧
      Sim level members (update node id (raft.handleRequestVoteRequest env request).1)
        (network.erase ⟨src, id, .requestVoteRequest request⟩ ++
          [(raft.handleRequestVoteRequest env request).1.send src
            (.requestVoteResponse (raft.handleRequestVoteRequest env request).2)]) h' := by
  have hpacket := hs.packets _ hmem
  unfold RaftNode.handleRequestVoteRequest
  split
  next =>
    have hn := hs.nodeSim hid
    refine ⟨h, Grows.refl, hs.answer hmem ?_ ?_⟩
    · rw [RaftNode.send, hn.votes.memberId]
      exact ⟨hid, hpacket.ne.symm, fun hgranted => by cases hgranted⟩
    · intro voter candidate T htoken
      cases (isToken_voteResponse.mp htoken).2.2.2
  next hge =>
    have hterm : (raft.catchUp env request.term).currentTerm = request.term :=
      RaftNode.currentTerm_catchUp (not_lt.mp hge)
    obtain ⟨h₁, hg₁, hs₁⟩ := hs.catchUp hid env request.term
    have hn := hs₁.nodeSim hid
    have hrequest : VoteRequestSim level h₁ src request :=
      hpacket.message.grow hg₁ fun hlevel => (hs.replicated hlevel).matching
    simp only
    split
    next hcan =>
      -- a leader would have been asked in its own term
      have hrole : (raft.catchUp env request.term).role ≠ .leader := by
        intro hrole
        have hsame := catchUp_of_leader hrole
        rw [hsame] at hrole hterm hcan
        exact hkeeps hrole hterm.symm hcan.2
      obtain ⟨h₂, hg₂, hvote, hs₂⟩ := hs₁.grantVote hid env hrequest hterm.symm hrole
        hcan fun hlevel => by
          rw [RaftNode.logs_catchUp]
          exact hcompares hlevel (not_lt.mp hge) hcan
      refine ⟨h₂, hg₁.trans hg₂, hs₂.answer hmem ?_ ?_⟩
      · have hsrc : ((raft.catchUp env request.term).grantVote env request.candidateId).memberId
            = id := hn.votes.memberId
        rw [RaftNode.send, hsrc]
        refine ⟨hid, hpacket.ne.symm, fun _ => ?_⟩
        rw [hterm]
        exact hvote
      · intro voter candidate T htoken
        obtain ⟨hvoter, hcandidate, hT, -⟩ := isToken_voteResponse.mp htoken
        refine isToken_voteRequest.mpr ⟨hcandidate, ?_, hterm.symm.trans hT⟩
        exact hn.votes.memberId.symm.trans hvoter
    next =>
      refine ⟨h₁, hg₁, hs₁.answer hmem ?_ ?_⟩
      · rw [RaftNode.send, hn.votes.memberId]
        exact ⟨hid, hpacket.ne.symm, fun hgranted => by cases hgranted⟩
      · intro voter candidate T htoken
        cases (isToken_voteResponse.mp htoken).2.2.2

theorem Sim.handleRequestVoteResponse (hs : Sim level members (update node id raft) network h)
    (hid : id ∈ members) {response : RequestVoteResponse}
    (hmem : (⟨src, id, .requestVoteResponse response⟩ : Packet) ∈ network) :
    ∃ h', Grows h h' ∧
      Sim level members (update node id (raft.handleRequestVoteResponse env response))
        (network.erase ⟨src, id, .requestVoteResponse response⟩) h' := by
  unfold RaftNode.handleRequestVoteResponse
  split
  next => exact ⟨h, Grows.refl, hs.erase hmem⟩
  next hge =>
    split
    next hlt => exact (hs.erase hmem).increaseTermTo hid hlt
    next hle =>
      split
      next => exact ⟨h, Grows.refl, hs.erase hmem⟩
      next =>
        split
        next hgranted =>
          have hterm : response.term = raft.currentTerm := by omega
          exact (hs.countVote hid hmem hterm hgranted).tryToLead hid
        next => exact ⟨h, Grows.refl, hs.erase hmem⟩

/-! ## Replication -/

variable [Platform]

omit [Platform] in
theorem heardFrom_unchanged (env : Env) (raft : RaftNode) (leaderId : ℕ) :
    Unchanged raft (raft.heardFrom env leaderId) :=
  ⟨rfl, rfl, rfl, rfl, rfl, rfl, rfl, rfl, rfl, rfl⟩

theorem Sim.handleAppendEntriesRequest (hs : Sim level members (update node id raft) network h)
    (hid : id ∈ members) {request : AppendEntriesRequest} {response : AppendEntriesResponse}
    (hmem : (⟨src, id, .appendEntriesRequest request⟩ : Packet) ∈ network)
    (honce : 1 ≤ level → raft.AppendsOnce request)
    (hverified : 2 ≤ level → raft.ReportsVerified request)
    (hhandle : raft.handleAppendEntriesRequest env request = .ok (raft', response)) :
    ∃ h', Grows h h' ∧ Sim level members (update node id raft')
      (network.erase ⟨src, id, .appendEntriesRequest request⟩ ++
        [raft'.send src (.appendEntriesResponse response)]) h' := by
  have hpacket := hs.packets _ hmem
  -- answers carry no votes
  have hanswer : ∀ {h₁ : History ℕ LogEntry} {raft₁ : RaftNode} {answer : AppendEntriesResponse},
      Sim level members (update node id raft₁) network h₁ → answer.id = raft₁.memberId →
      (2 ≤ level → answer.success = true → (∃ l, h₁.leader answer.term = some l) ∧
        answer.lastLogIndex ≤ h₁.acked answer.term id) →
      Sim level members (update node id raft₁)
        (network.erase ⟨src, id, .appendEntriesRequest request⟩ ++
          [raft₁.send src (.appendEntriesResponse answer)]) h₁ := by
    intro h₁ raft₁ answer hs₁ hanswerId hconfirmed
    have hsrc : raft₁.memberId = id := (hs₁.nodeSim hid).votes.memberId
    refine hs₁.answer hmem ?_ fun voter candidate T htoken => by cases htoken
    rw [RaftNode.send, hsrc]
    exact ⟨hid, hpacket.ne.symm, hanswerId.trans hsrc, hconfirmed⟩
  unfold RaftNode.handleAppendEntriesRequest at hhandle
  split at hhandle
  next =>
    cases hhandle
    exact ⟨h, Grows.refl, hanswer hs rfl fun _ hsuccess => by cases hsuccess⟩
  next hge =>
    obtain ⟨h₁, hg₁, hs₁⟩ := hs.catchUp hid env request.term
    have hs₂ := hs₁.unchanged hid (heardFrom_unchanged env _ request.leaderId)
    have hterm : ((raft.catchUp env request.term).heardFrom env request.leaderId).currentTerm =
        request.term := RaftNode.currentTerm_catchUp (not_lt.mp hge)
    have hlogs : ((raft.catchUp env request.term).heardFrom env request.leaderId).logs =
        raft.logs := RaftNode.logs_catchUp
    have hrequest : AppendRequestSim level members h₁ src request :=
      hpacket.message.grow hg₁ fun hlevel => (hs.replicated hlevel).matching
    simp only at hhandle
    split at hhandle
    next =>
      cases hhandle
      exact ⟨h₁, hg₁, hanswer hs₂ rfl fun _ hsuccess => by cases hsuccess⟩
    next hok =>
      have hok := not_not.mp hok
      split at hhandle
      next => cases hhandle
      next stored hstore =>
        split at hhandle
        next => cases hhandle
        next followed hfollow =>
          cases hhandle
          have haccepts : ∀ {P : Prop}, (raft.Accepts request → P) → P := fun hacc =>
            hacc ⟨not_lt.mp hge, by unfold RaftNode.LogOk at hok ⊢; rwa [hlogs] at hok⟩
          obtain ⟨h₂, hg₂, hs₃, hfull⟩ := hs₂.storeEntries hid hrequest hpacket.ne hterm hok
            (fun hlevel _ => by rw [hlogs]; exact haccepts (honce hlevel))
            (fun hlevel _ => by rw [hlogs]; exact haccepts (hverified hlevel)) hstore
          have hstoredTerm : stored.currentTerm = request.term := by
            obtain ⟨_, _, rfl⟩ := RaftNode.storeEntries_shape hstore
            exact hterm
          have hrequest₂ : AppendRequestSim level members h₂ src request :=
            hrequest.grow hg₂ fun hlevel => (hs₁.replicated hlevel).matching
          have hs₄ := hs₃.followCommit hid hrequest₂ hstoredTerm (fun hlevel => (hfull hlevel).1)
            hfollow
          obtain ⟨hfollowedTerm, hfollowedLogs⟩ :=
            (RaftNode.movesCommit_of_followCommit hfollow).keeps (hs₃.nodeSim hid).votes.fromStart
          refine ⟨h₂, hg₁.trans hg₂, hanswer hs₄ rfl fun hlevel _ => ?_⟩
          simp only [hfollowedTerm, hstoredTerm, hfollowedLogs]
          rw [(hs₃.nodeSim hid).votes.fromStart.lastLogIndex]
          exact ⟨⟨src, hrequest₂.leader⟩, (hfull hlevel).2⟩

theorem Sim.handleAppendEntriesResponse (hs : Sim level members (update node id raft) network h)
    (hid : id ∈ members) {response : AppendEntriesResponse}
    (hmem : (⟨src, id, .appendEntriesResponse response⟩ : Packet) ∈ network)
    (hown : 3 ≤ level → raft.CommitsOwnTerm response)
    (hhandle : raft.handleAppendEntriesResponse env response = .ok raft') :
    ∃ h', Grows h h' ∧ Sim level members (update node id raft')
      (network.erase ⟨src, id, .appendEntriesResponse response⟩) h' := by
  have hpacket := hs.packets _ hmem
  unfold RaftNode.handleAppendEntriesResponse at hhandle
  split at hhandle
  next => cases hhandle; exact ⟨h, Grows.refl, hs.erase hmem⟩
  next hlead =>
    simp only [not_or, not_not, not_lt] at hlead
    obtain ⟨hge, hrole⟩ := hlead
    split at hhandle
    next hlt => cases hhandle; exact (hs.erase hmem).increaseTermTo hid hlt
    next hle =>
      have hterm : response.term = raft.currentTerm := by omega
      split at hhandle
      next =>
        split at hhandle
        next => cases hhandle; exact ⟨h, Grows.refl, hs.erase hmem⟩
        next =>
          cases hhandle
          exact ⟨h, Grows.refl, (hs.erase hmem).unchanged hid
            ⟨rfl, rfl, rfl, rfl, rfl, rfl, rfl, rfl, rfl, rfl⟩⟩
      next hsuccess =>
        have hsuccess : response.success = true := by simpa using hsuccess
        have hs₁ := hs.recordMatch hid hpacket.message hpacket.src hpacket.ne hterm hsuccess
        exact ⟨h, Grows.refl, (hs₁.advanceCommit hid hrole
          (fun hlevel => hown hlevel hrole hterm hsuccess) hhandle).erase hmem⟩

omit [Platform] in
/-- A slice of the leader's log is a request the history describes. -/
theorem Sim.packetSim_of_slice (hs : Sim level members (update node id raft) network h)
    (hid : id ∈ members) (hrole : raft.role = .leader) {packet : Packet}
    (hslice : raft.Slice packet) : PacketSim level members h packet ∧
      ∀ voter candidate T, isToken voter candidate T packet = false := by
  have hn := hs.nodeSim hid
  have hl := hn.votes.leader hrole
  obtain ⟨dst, prev, entries, hne, hprev, hpre, rfl⟩ := hslice
  refine ⟨?_, fun _ _ _ => rfl⟩
  rw [RaftNode.send, hn.votes.memberId]
  refine ⟨hid, hn.votes.memberId ▸ hne.symm, hl, fun hlevel => ?_, fun hlevel => ?_⟩
  · have hlead := (hs.replicated hlevel).matching.leading hl hn.votes.term
    rw [(hn.log hlevel).log] at hlead
    refine ⟨raft.logs.entries.take prev, hlead ▸ hpre, ?_, rfl⟩
    rw [List.length_take, min_eq_left hprev]
  · exact (hn.commit hlevel).commit

omit [Platform] in
theorem Sim.heartbeatLoop (hs : Sim level members (update node id raft) network h)
    (hid : id ∈ members) {packets : List Packet}
    (hbeat : raft.heartbeatLoop env = .ok (raft', packets)) :
    Sim level members (update node id raft') (network ++ packets) h := by
  have hn := hs.nodeSim hid
  obtain ⟨rfl, hslices⟩ :=
    RaftNode.heartbeatLoop_spec hn.votes.fromStart hn.votes.snapshotData hbeat
  refine hs.send (fun packet hpacket => ?_) fun packet hpacket => ?_
  · exact (hs.packetSim_of_slice hid (hslices packet hpacket).1 (hslices packet hpacket).2).1
  · exact (hs.packetSim_of_slice hid (hslices packet hpacket).1 (hslices packet hpacket).2).2

/-! ## Steps and runs -/

/-- A delivered message, with what is sent in return. -/
theorem Sim.receive (hs : Sim level members (update node id raft) network h) (hid : id ∈ members)
    {message : Message} (hmem : (⟨src, id, message⟩ : Packet) ∈ network)
    {packets : List Packet}
    (hkeeps : ∀ request, message = .requestVoteRequest request → raft.KeepsOwnVote request)
    (honce : 1 ≤ level → ∀ request, message = .appendEntriesRequest request →
      raft.AppendsOnce request)
    (hverified : 2 ≤ level → ∀ request, message = .appendEntriesRequest request →
      raft.ReportsVerified request)
    (hcompares : 3 ≤ level → ∀ request, message = .requestVoteRequest request →
      raft.ComparesLogs env request)
    (hown : 3 ≤ level → ∀ response, message = .appendEntriesResponse response →
      raft.CommitsOwnTerm response)
    (hreceive : raft.receive env src message = .ok (raft', packets)) :
    ∃ h', Grows h h' ∧ Sim level members (update node id raft')
      (network.erase ⟨src, id, message⟩ ++ packets) h' := by
  cases message with
  | requestVoteRequest request =>
    cases hreceive
    exact hs.handleRequestVoteRequest hid hmem (hkeeps request rfl)
      fun hlevel => hcompares hlevel request rfl
  | requestVoteResponse response =>
    cases hreceive
    rw [List.append_nil]
    exact hs.handleRequestVoteResponse hid hmem
  | appendEntriesRequest request =>
    obtain ⟨⟨_, response⟩, hhandle, hout⟩ := RaftNode.exists_of_map_eq_ok hreceive
    cases hout
    exact hs.handleAppendEntriesRequest hid hmem (fun hlevel => honce hlevel request rfl)
      (fun hlevel => hverified hlevel request rfl) hhandle
  | appendEntriesResponse response =>
    obtain ⟨_, hhandle, hout⟩ := RaftNode.exists_of_map_eq_ok hreceive
    cases hout
    rw [List.append_nil]
    exact hs.handleAppendEntriesResponse hid hmem (fun hlevel => hown hlevel response rfl) hhandle
  | installSnapshotRequest request => exact (hs.packets _ hmem).message.elim
  | installSnapshotResponse response => exact (hs.packets _ hmem).message.elim

omit [Platform] in
theorem leader_of_refusal {token : String} (hrefusal : raft.refusal env token = none) :
    raft.role = .leader := by
  unfold RaftNode.refusal at hrefusal
  split at hrefusal
  next => cases hrefusal
  next =>
    split at hrefusal
    next => cases hrefusal
    next hrole => exact not_not.mp hrole

/-- Preparing an upload touches the state machine only. -/
theorem handlePrepareUploadFileRequest_unchanged {request : PrepareUploadFileRequest}
    {response : PrepareUploadFileResponse}
    (hhandle : raft.handlePrepareUploadFileRequest env request = .ok (raft', response)) :
    Unchanged raft raft' := by
  unfold RaftNode.handlePrepareUploadFileRequest at hhandle
  split at hhandle
  next => cases hhandle; exact ⟨rfl, rfl, rfl, rfl, rfl, rfl, rfl, rfl, rfl, rfl⟩
  next =>
    split at hhandle
    next => cases hhandle
    next => cases hhandle; exact ⟨rfl, rfl, rfl, rfl, rfl, rfl, rfl, rfl, rfl, rfl⟩

theorem Sim.handle {c : Cluster} {network' : List Packet} {input : Input} {output : Output}
    (hs : Sim level c.members c.node c.network h) (hid : id ∈ c.members)
    (hreg : Cluster.Regular level c (.handle id env input))
    (hconsume : Cluster.consume c.network (Cluster.delivered id input) = some network')
    (hhandle : (c.node id).handle env input = .ok (raft', output)) :
    ∃ h', Grows h h' ∧
      Sim level c.members (update c.node id raft') (network' ++ output.packets) h' := by
  obtain ⟨hvotes, hlogs, hreports, hcommits⟩ := hreg
  have hs : Sim level c.members (update c.node id (c.node id)) c.network h := by
    rwa [update_eq_self]
  cases input with
  | electionTimeout =>
    cases hconsume
    cases hhandle
    exact hs.electionLoop hid (hvotes.fits _ rfl)
  | heartbeat =>
    cases hconsume
    obtain ⟨⟨_, packets⟩, hbeat, hout⟩ := RaftNode.exists_of_map_eq_ok hhandle
    cases hout
    exact ⟨h, Grows.refl, hs.heartbeatLoop hid hbeat⟩
  | deliver src message =>
    obtain ⟨hmem, rfl⟩ := Cluster.consume_some hconsume
    obtain ⟨⟨_, packets⟩, hreceive, hout⟩ := RaftNode.exists_of_map_eq_ok hhandle
    cases hout
    refine hs.receive hid hmem ?_ ?_ ?_ ?_ ?_ hreceive
    · rintro request rfl
      exact hvotes.ownVote _ rfl
    · rintro hlevel request rfl
      exact (hlogs hlevel).once _ rfl
    · rintro hlevel request rfl
      exact (hreports hlevel).verified _ rfl
    · rintro hlevel request rfl
      exact (hcommits hlevel).compares _ rfl
    · rintro hlevel response rfl
      exact (hcommits hlevel).ownTerm _ rfl
  | listDir request =>
    cases hconsume
    cases hhandle
    exact ⟨h, Grows.refl, by rwa [List.append_nil]⟩
  | makeDir request =>
    cases hconsume
    cases hrefusal : (c.node id).refusal env request.token with
    | none =>
      simp only [RaftNode.handle, RaftNode.handleMakeDirRequest, hrefusal] at hhandle
      cases hhandle
      rw [List.append_nil]
      exact hs.appendCommand hid (leader_of_refusal hrefusal) _ _
    | some refusal =>
      simp only [RaftNode.handle, RaftNode.handleMakeDirRequest, hrefusal] at hhandle
      cases hhandle
      exact ⟨h, Grows.refl, by rwa [List.append_nil]⟩
  | prepareUploadFile request =>
    cases hconsume
    obtain ⟨⟨_, response⟩, hprepare, hout⟩ := RaftNode.exists_of_map_eq_ok hhandle
    cases hout
    rw [List.append_nil]
    exact ⟨h, Grows.refl, hs.unchanged hid (handlePrepareUploadFileRequest_unchanged hprepare)⟩
  | uploadFile request =>
    cases hconsume
    cases hrefusal : (c.node id).refusal env request.token with
    | none =>
      simp only [RaftNode.handle, RaftNode.handleUploadFileRequest, hrefusal] at hhandle
      cases hhandle
      rw [List.append_nil]
      exact hs.appendCommand hid (leader_of_refusal hrefusal) _ _
    | some refusal =>
      simp only [RaftNode.handle, RaftNode.handleUploadFileRequest, hrefusal] at hhandle
      cases hhandle
      exact ⟨h, Grows.refl, by rwa [List.append_nil]⟩
  | prepareDownloadFile request =>
    cases hconsume
    cases hhandle
    exact ⟨h, Grows.refl, by rwa [List.append_nil]⟩

omit [Platform] in
/-- A node that is started again with what it had stored follows. -/
theorem Sim.recover (hs : Sim level members node network h) (hid : id ∈ members)
    (hrole : (node id).role ≠ .leader) (disk : Disk Payload) :
    Sim level members (update node id ((RaftNode.assemble (node id).config none
      RaftNode.newSnapshotter (node id).logs.entries (node id).hardState disk).withHistoryOf
        (node id))) network h := by
  have hn := hs.nodes id hid
  refine hs.setNode Grows.refl (fun other _ => SameAt.refl other) hs.election hs.replicated
    hs.numbered hs.inherited ⟨?_, fun hlevel => ?_, fun hlevel => ?_, fun hlevel => ?_⟩
    fun hcand => by cases hcand
  · exact
      { memberId := hn.votes.memberId
        peers := hn.votes.peers
        fromStart := ⟨rfl, rfl⟩
        snapshotData := rfl
        term := hn.votes.term
        leader := fun hlead => by cases hlead
        not_leader := fun _ => hn.votes.not_leader hrole
        voted := fun _ => hn.votes.voted hrole
        candidate := fun hcand => by cases hcand
        led := hn.votes.led }
  · exact ⟨(hn.log hlevel).log, fun hcand => by cases hcand⟩
  · exact ⟨fun peer hpeer => absurd hpeer (AList.notMem_empty peer),
      (fun hlead => by cases hlead), (fun hlead => by cases hlead),
      (fun hlead => by cases hlead)⟩
  · exact ⟨Or.inl rfl, (hn.commit hlevel).applied⟩

omit [Platform] in
theorem Sim.consume {network' : List Packet} {packet : Option Packet}
    (hs : Sim level members node network h)
    (hconsume : Cluster.consume network packet = some network') :
    Sim level members node network' h := by
  cases packet with
  | none => cases hconsume; exact hs
  | some packet =>
    obtain ⟨hmem, rfl⟩ := Cluster.consume_some hconsume
    exact hs.erase hmem

/-- **The step lemma.**  A regular step of the cluster is a step of the history. -/
theorem Sim.step {c c' : Cluster} {action : Action}
    (hs : Sim level c.members c.node c.network h) (hreg : Cluster.Regular level c action)
    (hstep : c.step action = some c') :
    ∃ h', Grows h h' ∧ Sim level c'.members c'.node c'.network h' := by
  cases action with
  | handle id env input =>
    obtain ⟨hid, network', raft', output, hconsume, hhandle, rfl⟩ := Cluster.step_handle hstep
    exact hs.handle hid hreg hconsume hhandle
  | lose packet =>
    obtain ⟨network', hconsume, rfl⟩ := Option.map_eq_some_iff.mp hstep
    obtain ⟨hmem, rfl⟩ := Cluster.consume_some hconsume
    exact ⟨h, Grows.refl, hs.erase hmem⟩
  | restart id env input lost =>
    obtain ⟨hid, network', raft', hconsume, hcreate, rfl⟩ := Cluster.step_restart hstep
    obtain ⟨hrole, hfile, hhard, hentries⟩ := hreg.1.recovers _ rfl
    rw [Cluster.create_of_stored hcreate hfile hentries hhard]
    exact ⟨h, Grows.refl, (hs.recover hid hrole _).consume hconsume⟩

/-- At the start, nothing has happened. -/
theorem Sim.initial {c : Cluster} (hinit : c.Initial) :
    Sim level c.members c.node c.network History.empty where
  election := Election.empty
  replicated _ := Replicated.empty
  numbered _ T k entry hentry := by simp [History.empty] at hentry
  inherited _ := fun {_ _ _ _ _} _ hi => absurd hi (Nat.not_lt_zero _)
  nodes id hid := by
    obtain ⟨env, config, rfl, hpeers, hcreate⟩ := hinit.created id hid
    rw [Cluster.create_empty hcreate]
    refine ⟨?_, fun _ => ?_, fun _ => ?_, fun _ => ?_⟩
    · exact
        { memberId := rfl
          peers := hpeers
          fromStart := ⟨rfl, rfl⟩
          snapshotData := rfl
          term := rfl
          leader := fun hrole => by cases hrole
          not_leader := fun _ hl => by cases hl
          voted := fun _ => rfl
          candidate := fun hrole => by cases hrole
          led := fun T hT => by cases hT }
    · exact ⟨rfl, fun hrole => by cases hrole⟩
    · exact ⟨fun peer hpeer => absurd hpeer (AList.notMem_empty peer),
        (fun hrole => by cases hrole), (fun hrole => by cases hrole),
        (fun hrole => by cases hrole)⟩
    · exact ⟨Or.inl rfl, fun index entry hmem => by cases hmem⟩
  packets packet hpacket := by rw [hinit.network] at hpacket; cases hpacket
  ballots :=
    { tokens_le := fun voter candidate T => by rw [hinit.network]; exact Nat.zero_le _
      votes_le := fun id hid hrole => by
        obtain ⟨env, config, -, -, hcreate⟩ := hinit.created id hid
        rw [Cluster.create_empty hcreate] at hrole
        cases hrole }

variable {c c' : Cluster}

/-- A regular run is described by histories that grow along the run. -/
theorem Sim.run (hs : Sim level c.members c.node c.network h)
    (hrun : Run Cluster.step (Cluster.Regular level) c c') :
    ∃ h', Grows h h' ∧ Sim level c'.members c'.node c'.network h' := by
  induction hrun with
  | refl => exact ⟨h, Grows.refl, hs⟩
  | next _ hreg hstep ih =>
    obtain ⟨h₁, hg₁, hs₁⟩ := ih
    obtain ⟨h₂, hg₂, hs₂⟩ := hs₁.step hreg hstep
    exact ⟨h₂, hg₁.trans hg₂, hs₂⟩

theorem exists_sim_of_run (hinit : c.Initial)
    (hrun : Run Cluster.step (Cluster.Regular level) c c') :
    ∃ h, Sim level c'.members c'.node c'.network h := by
  obtain ⟨h, -, hs⟩ := (Sim.initial hinit).run hrun
  exact ⟨h, hs⟩

end Vosfs.Raft
