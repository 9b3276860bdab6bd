import Vosfs.Raft.Campaign
import Vosfs.Raft.Following
import Vosfs.Raft.LeaderHint
import Vosfs.Raft.MajorityCommits

/-!
# Who can be elected

With nothing on the network and no leader, live members can get a leader exactly when the log of
one of them is trailed by those of more than half of all members, live ones (`electable_tfae`).  One
direction is a campaign.  For the other, no log changes before there is a leader, a vote tells that
the voter's log trails the candidate's (`Conducted`), a follower leads only in a term that is new to
it (`Stood`), and the votes of that term are those of a quorum.

A live majority whose logs agree on the terms where they end can always get a leader
(`majorityElects`).  But logs that end at one index with different terms do not trail each other,
and a live majority with such logs can be left without a leader for good
(`exists_leaderless_majority`).
-/

namespace Vosfs.Raft

open Function

namespace RaftNode

variable {env : Env} {node node' : RaftNode} {input : Input} {term : ℕ}

/-! ## Standing for election -/

theorem role_of_catchUp (hrole : (node.catchUp env term).role ≠ .follower) :
    node.role ≠ .follower :=
  fun hfollower => hrole (role_catchUp_iff.mpr (Or.inr hfollower))

theorem role_of_tryToLead (hrole : node.tryToLead.role ≠ .follower) : node.role ≠ .follower := by
  unfold tryToLead at hrole
  split at hrole
  next hwon =>
    rw [hwon.2]
    exact Role.noConfusion
  next => exact hrole

theorem role_of_handleRequestVoteRequest {request : RequestVoteRequest}
    (hrole : (node.handleRequestVoteRequest env request).1.role ≠ .follower) :
    node.role ≠ .follower := by
  unfold handleRequestVoteRequest at hrole
  split at hrole
  next => exact hrole
  next =>
    simp only at hrole
    split at hrole
    next => exact role_of_catchUp hrole
    next => exact role_of_catchUp hrole

theorem role_of_handleRequestVoteResponse {response : RequestVoteResponse}
    (hrole : (node.handleRequestVoteResponse env response).role ≠ .follower) :
    node.role ≠ .follower := by
  unfold handleRequestVoteResponse at hrole
  split at hrole
  next => exact hrole
  next =>
    split at hrole
    next => exact absurd rfl hrole
    next =>
      split at hrole
      next => exact hrole
      next =>
        split at hrole
        next =>
          have hcandidate := role_of_tryToLead hrole
          exact hcandidate
        next => exact hrole

/-- The request that a voter grants is for a log that its own trails. -/
theorem trails_of_voteGranted {request : RequestVoteRequest}
    (hgranted : (node.handleRequestVoteRequest env request).2.voteGranted = true) :
    Trails node.logs.last request.last := by
  unfold handleRequestVoteRequest at hgranted
  split at hgranted
  next => cases hgranted
  next =>
    simp only at hgranted
    split at hgranted
    next hvote =>
      have htrails := upToDateLog_iff.mp hvote.2
      rwa [catchUp_keepsData.logs] at htrails
    next => cases hgranted

theorem exists_of_mem_grants {grant : Grant} (hgrant : grant ∈ node.grants input) :
    ∃ src response, input = .deliver src (.requestVoteResponse response) ∧
      response.voteGranted = true ∧ grant = ⟨src, node.memberId, response.term⟩ := by
  unfold grants at hgrant
  split at hgrant
  next src response =>
    split at hgrant
    next hgranted => exact ⟨src, response, rfl, hgranted, List.mem_singleton.mp hgrant⟩
    next => cases hgrant
  next => cases hgrant

variable [Platform]

theorem role_of_afterEntries {request : AppendEntriesRequest}
    (hafter : node.afterEntries env request = .ok node') (hrole : node'.role ≠ .follower) :
    node.role ≠ .follower := by
  by_cases hterm : node.currentTerm ≤ request.term
  · rw [(afterEntries_keepsRaft hterm hafter).role] at hrole
    exact role_of_catchUp hrole
  · cases outcome_of_afterEntries hafter with
    | late => exact hrole
    | rejected hterm' => exact absurd hterm' hterm
    | stored haccepts => exact absurd haccepts.1 hterm

theorem role_of_handleAppendEntriesResponse {response : AppendEntriesResponse}
    (hafter : node.handleAppendEntriesResponse env response = .ok node')
    (hrole : node'.role ≠ .follower) : node.role ≠ .follower := by
  cases outcome_of_handleAppendEntriesResponse hafter with
  | ignored => exact hrole
  | deposed => exact absurd rfl hrole
  | rejected => exact hrole
  | confirmed _ hadvance =>
    rw [(movesCommit_of_advanceCommit hadvance).keepsRaft.role] at hrole
    exact hrole

theorem role_of_handleInstallSnapshotRequest {request : InstallSnapshotRequest}
    (hrole : (node.handleInstallSnapshotRequest env request).1.role ≠ .follower) :
    node.role ≠ .follower := by
  by_cases hterm : node.currentTerm ≤ request.term
  · rw [handleInstallSnapshotRequest_keepsRole hterm] at hrole
    exact role_of_catchUp hrole
  · generalize hafter : (node.handleInstallSnapshotRequest env request).1 = node' at hrole
    cases outcome_of_handleInstallSnapshotRequest hafter with
    | late => exact hrole
    | received hterm' => exact absurd hterm' hterm
    | installed hterm' => exact absurd hterm' hterm

/-- **A follower that does not stand for election stays one.** -/
theorem role_of_after (hafter : node.after env input = .ok node') (hrole : node'.role ≠ .follower) :
    StartsElection env node input ∨ node.role ≠ .follower := by
  cases input with
  | electionTimeout =>
    cases hafter
    by_cases hstart : StartsElection env node .electionTimeout
    · exact Or.inl hstart
    · rw [electionLoop_of_not_starts hstart] at hrole
      exact Or.inr hrole
  | heartbeat => exact Or.inr ((moves_of_heartbeat hafter).keepsRaft.role ▸ hrole)
  | deliver src message =>
    refine Or.inr ?_
    cases message with
    | requestVoteRequest request => cases hafter; exact role_of_handleRequestVoteRequest hrole
    | requestVoteResponse response => cases hafter; exact role_of_handleRequestVoteResponse hrole
    | appendEntriesRequest request => exact role_of_afterEntries hafter hrole
    | appendEntriesResponse response => exact role_of_handleAppendEntriesResponse hafter hrole
    | installSnapshotRequest request =>
      cases hafter
      exact role_of_handleInstallSnapshotRequest hrole
    | installSnapshotResponse response =>
      rcases cases_handleInstallSnapshotResponse hafter with ⟨-, rfl⟩ | hmoves
      · exact absurd rfl hrole
      · exact hmoves.keepsRaft.role ▸ hrole
  | listDir request => cases hafter; exact Or.inr hrole
  | makeDir request => cases outcome_of_makeDir hafter <;> exact Or.inr hrole
  | prepareUploadFile request =>
    obtain ⟨_, rfl⟩ := exists_of_prepareUploadFile hafter
    exact Or.inr hrole
  | uploadFile request => cases outcome_of_uploadFile hafter <;> exact Or.inr hrole
  | prepareDownloadFile request => cases hafter; exact Or.inr hrole

/-- A member that followed in a term stands and leads in later terms only. -/
structure Stood (term : ℕ) (node : RaftNode) : Prop where
  later : term ≤ node.currentTerm
  stands : node.role ≠ .follower → term < node.currentTerm
  led : node.role = .leader → node.currentTerm ∈ node.led

omit [Platform] in
theorem Stood.of_follower (hrole : node.role = .follower) : Stood node.currentTerm node :=
  ⟨le_rfl, fun hne => absurd hrole hne, fun hleads => by rw [hrole] at hleads; cases hleads⟩

theorem Stood.after (h : Stood term node) (hstored : node.TermStored)
    (hfits : node.TermFitsFor env input) (hafter : node.after env input = .ok node') :
    Stood term node' := by
  have hge := (termFollows_of_after hstored hafter).ge hfits
  refine ⟨h.later.trans hge, fun hrole => ?_, (hintStep_of_after hafter).leader h.led⟩
  rcases role_of_after hafter hrole with hstart | hstood
  · obtain rfl := hstart.1
    cases hafter
    rw [currentTerm_electionLoop hstart, u64_of_termFits hfits hstart]
    exact Nat.lt_succ_of_le h.later
  · exact (h.stands hstood).trans_le hge

end RaftNode

/-! ## The votes -/

/-- The live members whose logs trail the candidate's. -/
def Cluster.electorate (c : Cluster) (live : Finset ℕ) (candidate : ℕ) : Finset ℕ :=
  live.filter fun voter => Trails (c.node voter).logs.last (c.node candidate).logs.last

/-- The packets of an election: a request names the sender's log, and a vote comes from the
electorate. -/
def Cluster.Fair (c : Cluster) (live : Finset ℕ) (packet : Packet) : Prop :=
  match packet.message with
  | .requestVoteRequest request => request.last = (c.node packet.src).logs.last
  | .requestVoteResponse response =>
    response.voteGranted = true → packet.src ∈ c.electorate live packet.dst
  | _ => False

section Votes

variable [Platform] {c : Cluster} {live : Finset ℕ} {id : ℕ} {env : Env} {node node' : RaftNode}
  {input : Input}

/-- Only a leader changes its log in an election. -/
theorem Cluster.logs_of_after (hrole : node.role ≠ .leader)
    (hdelivered : ∀ src message, input = .deliver src message → c.Fair live ⟨src, id, message⟩)
    (hafter : node.after env input = .ok node') : node'.logs = node.logs := by
  cases RaftNode.effect_of_after hafter with
  | keeps hkeeps => exact hkeeps.logs
  | entries => exact (hdelivered _ _ rfl).elim
  | commits => exact (hdelivered _ _ rfl).elim
  | installs => exact (hdelivered _ _ rfl).elim
  | appends haccepted => exact absurd (RaftNode.role_of_accepted haccepted) hrole
  | prepares => rfl

theorem Cluster.fair_of_sends {packet : Packet} (hmember : node.memberId = id) (hlive : id ∈ live)
    (hrole : node.role ≠ .leader) (hlogs : node.logs = (c.node id).logs)
    (hdelivered : ∀ src message, input = .deliver src message → c.Fair live ⟨src, id, message⟩)
    (hsends : RaftNode.Sends env node input node' packet) : c.Fair live packet := by
  cases hsends with
  | voteRequest =>
    show node.logs.last = (c.node node.memberId).logs.last
    rw [hmember, hlogs]
  | entries hleads => exact absurd hleads hrole
  | @vote _ src request response hhandle =>
    intro hgranted
    have hrequest : request.last = (c.node src).logs.last := hdelivered src _ rfl
    have htrails : Trails node.logs.last request.last := by
      refine @RaftNode.trails_of_voteGranted env _ _ ?_
      rw [hhandle]
      exact hgranted
    rw [hlogs, hrequest] at htrails
    show node.memberId ∈ c.electorate live src
    rw [hmember]
    exact Finset.mem_filter.mpr ⟨hlive, htrails⟩
  | appended => exact (hdelivered _ _ rfl).elim
  | installed => exact (hdelivered _ _ rfl).elim

end Votes

/-- A live member takes a step, whatever it is, but starts no election in the last term. -/
structure Cluster.MovesOfLive (live : Finset ℕ) (c : Cluster) (action : Action) : Prop where
  fits : ∀ t ∈ action.timeout?, (c.node t.1).TermFits t.2
  member : ∃ id ∈ live, ∃ env input, action = .handle id env input

theorem Cluster.OfLive.moves [Platform] {c : Cluster} {live : Finset ℕ} {action : Action}
    (h : c.OfLive live action) : c.MovesOfLive live action :=
  ⟨h.regular.votes.fits, h.member⟩

namespace Poll

variable [Platform] {poll poll' poll'' : Poll} {live : Finset ℕ} {allowed : Cluster → Action → Prop}

theorem cluster_of_step {action : Action} (hstep : poll.step action = some poll') :
    poll.cluster.step action = some poll'.cluster := by
  obtain ⟨c, hcluster, rfl⟩ := Option.map_eq_some_iff.mp hstep
  exact hcluster

theorem cluster_of_run (hrun : Run Poll.step (fun poll action => allowed poll.cluster action)
    poll poll') : Run Cluster.step allowed poll.cluster poll'.cluster := by
  induction hrun with
  | refl => exact .refl
  | next _ hallowed hstep ih => exact ih.next hallowed (cluster_of_step hstep)

/-- The approvals can be recorded along a run. -/
theorem exists_poll_of_run {c : Cluster} (hrun : Run Cluster.step allowed poll.cluster c) :
    ∃ poll', Run Poll.step (fun poll action => allowed poll.cluster action) poll poll' ∧
      poll'.cluster = c := by
  induction hrun with
  | refl => exact ⟨poll, .refl, rfl⟩
  | @next _ c' action _ hallowed hstep ih =>
    obtain ⟨poll', hrun', rfl⟩ := ih
    obtain ⟨next, hnext, rfl⟩ : ∃ next, poll'.step action = some next ∧ next.cluster = c' := by
      unfold step
      rw [hstep]
      exact ⟨_, rfl, rfl⟩
    exact ⟨next, hrun'.next hallowed hnext, rfl⟩

/-- What live members without a leader leave behind. -/
structure Conducted (live : Finset ℕ) (poll poll' : Poll) : Prop where
  logs : ∀ id, (poll'.cluster.node id).logs = (poll.cluster.node id).logs
  network : ∀ packet ∈ poll'.cluster.network, poll.cluster.Fair live packet
  grants : ∀ grant ∈ poll'.grants,
    grant ∈ poll.grants ∨ grant.voter ∈ poll.cluster.electorate live grant.candidate
  stood : ∀ id ∈ live, (poll'.cluster.node id).Stood (poll.cluster.node id).currentTerm

omit [Platform] in
theorem Conducted.refl (hnetwork : poll.cluster.network = [])
    (hfollow : ∀ id ∈ live, (poll.cluster.node id).role = .follower) :
    Conducted live poll poll := by
  refine ⟨fun _ => rfl, fun packet hpacket => ?_, fun _ => Or.inl,
    fun id hid => .of_follower (hfollow id hid)⟩
  rw [hnetwork] at hpacket
  cases hpacket

omit [Platform] in
theorem termFits_of_moves {action : Action} (hallowed : poll.cluster.MovesOfLive live action) :
    poll.TermFits action := by
  obtain ⟨id, -, env, input, rfl⟩ := hallowed.member
  rintro rfl
  exact hallowed.fits (id, env) rfl

theorem Conducted.step {action : Action} (hcounted : poll'.Counted)
    (h : Conducted live poll poll') (hnone : ∀ id ∈ live, (poll'.cluster.node id).role ≠ .leader)
    (hallowed : poll'.cluster.MovesOfLive live action) (hstep : poll'.step action = some poll'') :
    Conducted live poll poll'' := by
  have hfits := termFits_of_moves hallowed
  obtain ⟨id, hlive, env, input, rfl⟩ := hallowed.member
  obtain ⟨c, hcluster, rfl⟩ := Option.map_eq_some_iff.mp hstep
  obtain ⟨hid, network, node, output, hconsume, hhandle, rfl⟩ := Cluster.step_handle hcluster
  have hafter := RaftNode.after_of_handle hhandle
  have hmember := hcounted.memberId id hid
  have hdelivered : ∀ src message, input = .deliver src message →
      poll.cluster.Fair live ⟨src, id, message⟩ := by
    rintro src message rfl
    exact h.network _ (Cluster.consume_some hconsume).1
  refine ⟨fun m => ?_, fun packet hpacket => ?_, fun grant hgrant => ?_, fun m hm => ?_⟩
  · show (update poll'.cluster.node id node m).logs = _
    by_cases heq : m = id
    · rw [heq, update_self, Cluster.logs_of_after (hnone id hlive) hdelivered hafter, h.logs]
    · rw [update_of_ne heq, h.logs]
  · rcases List.mem_append.mp hpacket with hold | hnew
    · exact h.network packet (Cluster.mem_of_consume hconsume hold)
    · exact Cluster.fair_of_sends hmember hlive (hnone id hlive) (h.logs id) hdelivered
        (RaftNode.sends_of_handle hhandle packet hnew)
  · rcases List.mem_append.mp hgrant with hold | hnew
    · exact h.grants grant hold
    · obtain ⟨src, response, rfl, hgranted, rfl⟩ := RaftNode.exists_of_mem_grants hnew
      have hvoted : src ∈ poll.cluster.electorate live id := hdelivered src _ rfl hgranted
      exact Or.inr (hmember.symm ▸ hvoted)
  · show (update poll'.cluster.node id node m).Stood _
    by_cases heq : m = id
    · subst heq
      rw [update_self]
      exact (h.stood m hm).after (hcounted.stored m hid) hfits hafter
    · rw [update_of_ne heq]
      exact h.stood m hm

omit [Platform] in
/-- Whoever leads was elected by the electorate. -/
theorem Conducted.electorate (h : Conducted live poll poll') (hcounted : poll.Counted)
    (hcounted' : poll'.Counted) (hmembers : poll'.cluster.members = poll.cluster.members)
    (hsub : live ⊆ poll.cluster.members) {candidate : ℕ} (hlive : candidate ∈ live)
    (hleads : (poll'.cluster.node candidate).role = .leader) :
    poll.cluster.members.card < 2 * (poll.cluster.electorate live candidate).card := by
  have hstood := h.stood candidate hlive
  have hlater := hstood.stands (by rw [hleads]; exact Role.noConfusion)
  have hquorum := (hcounted'.nodes candidate (hmembers ▸ hsub hlive)).led _ (hstood.led hleads)
  have hself : candidate ∉ poll'.granters candidate (poll'.cluster.node candidate).currentTerm :=
    fun hmem => (Finset.mem_filter.mp hmem).2.1 rfl
  have hvoted : insert candidate
      (poll'.granters candidate (poll'.cluster.node candidate).currentTerm) ⊆
        poll.cluster.electorate live candidate := by
    refine Finset.insert_subset (Finset.mem_filter.mpr ⟨hlive, .refl _⟩) fun voter hvoter => ?_
    rcases h.grants _ (Finset.mem_filter.mp hvoter).2.2 with hold | hnew
    · -- the term is new to the candidate
      have hnone := hcounted.fresh voter candidate (hsub hlive) _ hlater
      have hcount := List.count_pos_iff.mpr hold
      unfold ballots at hnone
      omega
    · exact hnew
  have hcard := Finset.card_le_card hvoted
  rw [Finset.card_insert_of_notMem hself] at hcard
  rw [hmembers] at hquorum
  omega

/-- **The run lemma.**  Where nobody has an electorate of a majority, nobody leads. -/
theorem conducted_of_run (hcounted : poll.Counted) (hsub : live ⊆ poll.cluster.members)
    (hnetwork : poll.cluster.network = [])
    (hfollow : ∀ id ∈ live, (poll.cluster.node id).role = .follower)
    (hfew : ∀ candidate ∈ live,
      ¬ poll.cluster.members.card < 2 * (poll.cluster.electorate live candidate).card)
    (hrun : Run Poll.step (fun poll action => poll.cluster.MovesOfLive live action) poll poll') :
    poll'.Counted ∧ Conducted live poll poll' ∧
      ∀ id ∈ live, (poll'.cluster.node id).role ≠ .leader := by
  induction hrun with
  | refl =>
    refine ⟨hcounted, .refl hnetwork hfollow, fun id hid => ?_⟩
    rw [hfollow id hid]
    exact Role.noConfusion
  | @next before after action hbefore hallowed hstep ih =>
    obtain ⟨hcounted', hconducted, hnone⟩ := ih
    have hcounted'' := hcounted'.step (termFits_of_moves hallowed) hstep
    have hconducted' := hconducted.step hcounted' hnone hallowed hstep
    have hmembers := Cluster.members_of_run
      (@cluster_of_run _ poll after (Cluster.MovesOfLive live) (hbefore.next hallowed hstep))
    exact ⟨hcounted'', hconducted', fun id hid hleads => hfew id hid
      (hconducted'.electorate hcounted hcounted'' hmembers hsub hid hleads)⟩

/-- Whoever can be elected has an electorate of a majority. -/
theorem exists_electorate (hcounted : poll.Counted) (hsub : live ⊆ poll.cluster.members)
    (hnetwork : poll.cluster.network = [])
    (hfollow : ∀ id ∈ live, (poll.cluster.node id).role = .follower) {c : Cluster}
    (hrun : Run Cluster.step (Cluster.MovesOfLive live) poll.cluster c) {id : ℕ} (hid : id ∈ live)
    (hleads : (c.node id).role = .leader) :
    ∃ candidate ∈ live,
      poll.cluster.members.card < 2 * (poll.cluster.electorate live candidate).card := by
  by_contra hfew
  push Not at hfew
  obtain ⟨poll', hrun', rfl⟩ := exists_poll_of_run hrun
  obtain ⟨-, -, hnone⟩ := conducted_of_run hcounted hsub hnetwork hfollow
    (fun candidate hlive => not_lt.mpr (hfew candidate hlive)) hrun'
  exact hnone id hid hleads

end Poll

theorem Cluster.Slotted.formed {c : Cluster} (hslotted : c.Slotted) : c.Formed :=
  ⟨fun id hid => (hslotted.nodes id hid).memberId, fun id hid => (hslotted.nodes id hid).peers⟩

/-- **Who can be elected.**  From a reachable state with an empty network in which the live members
follow, any steps of theirs can lead to a leader if and only if more than half of all members are
live ones whose logs trail the log of one of them; then steps that keep the logs in agreement do. -/
theorem electable_tfae [Platform] {start poll : Poll} (hinitial : start.Initial)
    (hrun : Run Poll.step Poll.TermFits start poll) {live : Finset ℕ}
    (hsub : live ⊆ poll.cluster.members) (hnetwork : poll.cluster.network = [])
    (hfollow : ∀ id ∈ live, (poll.cluster.node id).role = .follower)
    (hfits : ∀ id ∈ live, (poll.cluster.node id).currentTerm + 1 < 2 ^ 64) :
    [∃ c, Run Cluster.step (Cluster.MovesOfLive live) poll.cluster c ∧
        ∃ id ∈ live, (c.node id).role = .leader,
      ∃ candidate ∈ live,
        poll.cluster.members.card < 2 * (poll.cluster.electorate live candidate).card,
      ∃ c, Run Cluster.step (Cluster.OfLive live) poll.cluster c ∧
        ∃ id ∈ live, (c.node id).role = .leader].TFAE := by
  have hcounted := (Poll.Counted.initial hinitial).run hrun
  tfae_have 1 → 2 := by
    rintro ⟨c, hlater, id, hid, hleads⟩
    exact Poll.exists_electorate hcounted hsub hnetwork hfollow hlater hid hleads
  tfae_have 2 → 3 := by
    rintro ⟨candidate, hlive, hmajority⟩
    have hanyway : Run Poll.step (fun _ _ => True) start poll := hrun.mono fun _ => trivial
    have hformed := (Cluster.slotted_of_run hinitial.cluster
      (@Poll.cluster_of_run _ start poll (fun _ _ => True) hanyway)).formed
    have hnotLeader : (poll.cluster.node candidate).role ≠ .leader := by
      rw [hfollow candidate hlive]
      exact Role.noConfusion
    obtain ⟨c, hpolls, hleads, -⟩ := Cluster.exists_leader_of_trails hformed hsub hlive hnotLeader
      (Finset.filter_subset _ _) (Finset.mem_filter.mpr ⟨hlive, .refl _⟩) hmajority
      (fun voter hvoter => (Finset.mem_filter.mp hvoter).2) hfits
    exact ⟨c, hpolls.run, candidate, hlive, hleads⟩
  tfae_have 3 → 1
  | ⟨c, hlater, hleads⟩ => ⟨c, hlater.mono Cluster.OfLive.moves, hleads⟩
  tfae_finish

/-- The two members that are up. -/
def firstTwo : Finset ℕ := {1, 2}

/-- Member 1 leads with the vote of member 3 and puts an entry into its log, and then member 3 makes
it follow in a later term. -/
def leadOnce : List Action :=
  [.handle 1 late .electionTimeout,
    .lose ⟨1, 2, voteRequest 1 1⟩,
    .handle 3 late (.deliver 1 (voteRequest 1 1)),
    .handle 1 late (.deliver 3 (vote 3 1)),
    .handle 1 late (.makeDir (directory "a")),
    .handle 3 latest .electionTimeout,
    .lose ⟨3, 2, voteRequest 3 2⟩,
    .handle 1 latest (.deliver 3 (voteRequest 3 2)),
    .lose ⟨1, 3, .requestVoteResponse { id := 1, term := 2, voteGranted := false }⟩]

/-- Members 1 and 2 elect one of them, where only one of them has an entry. -/
theorem electable_tfae_leadOnce :
    ∃ poll, Run (@Poll.step plainPlatform) Poll.TermFits { cluster := threeNodes } poll ∧
      (poll.cluster.node 1).logs.last = (1, 1) ∧ (poll.cluster.node 2).logs.last = (0, 0) ∧
      ∃ c, Run (@Cluster.step plainPlatform) (@Cluster.OfLive plainPlatform firstTwo)
          poll.cluster c ∧ ∃ id ∈ firstTwo, (c.node id).role = .leader := by
  obtain ⟨poll, hrun, hcheck⟩ := Run.exists_of_exec (@Poll.step plainPlatform)
    Poll.TermFits { cluster := threeNodes } leadOnce
    (fun poll => decide ((poll.cluster.node 1).logs.last = (1, 1) ∧
      (poll.cluster.node 2).logs.last = (0, 0) ∧ poll.cluster.network = [] ∧
      firstTwo ⊆ poll.cluster.members ∧
      (∀ id ∈ firstTwo, (poll.cluster.node id).role = .follower) ∧
      (∀ id ∈ firstTwo, (poll.cluster.node id).currentTerm + 1 < 2 ^ 64) ∧
      poll.cluster.members.card < 2 * (poll.cluster.electorate firstTwo 1).card)) (by decide)
  obtain ⟨hlonger, hshorter, hnetwork, hsub, hfollow, hfits, hmajority⟩ := of_decide_eq_true hcheck
  have htfae := @electable_tfae plainPlatform _ _ initial_pollOfThree hrun firstTwo hsub hnetwork
    hfollow hfits
  have helects := htfae.out 1 2
  exact ⟨poll, hrun, hlonger, hshorter, helects.mp ⟨1, by decide, hmajority⟩⟩

/-- The live members whose logs end at one index agree on its term. -/
def Cluster.EndsAgree (c : Cluster) (live : Finset ℕ) : Prop :=
  ∀ a ∈ live, ∀ b ∈ live, (c.node a).logs.lastLogIndex = (c.node b).logs.lastLogIndex →
    (c.node a).logs.lastLogTerm = (c.node b).logs.lastLogTerm

instance {c : Cluster} {live : Finset ℕ} : Decidable (c.EndsAgree live) :=
  inferInstanceAs (Decidable (∀ _ ∈ _, ∀ _ ∈ _, _ = _ → _ = _))

/-- The longest log is trailed by all. -/
theorem Cluster.EndsAgree.exists_trailed {c : Cluster} {live : Finset ℕ} (hagree : c.EndsAgree live)
    (hlive : live.Nonempty) :
    ∃ candidate ∈ live, ∀ voter ∈ live,
      Trails (c.node voter).logs.last (c.node candidate).logs.last := by
  obtain ⟨candidate, hcandidate, hlongest⟩ :=
    live.exists_max_image (fun m => (c.node m).logs.lastLogIndex) hlive
  refine ⟨candidate, hcandidate, fun voter hvoter => ?_⟩
  rcases (hlongest voter hvoter).lt_or_eq with hlt | heq
  · exact Or.inl hlt
  · exact Or.inr (Prod.ext heq (hagree voter hvoter candidate hcandidate heq))

/-- **A majority elects.**  From any reachable state, whatever is on its way, a live majority
without a leader can get one, if its logs agree on the terms where they end. -/
theorem majorityElects [Platform] {start c : Cluster} (hinit : start.Initial)
    (hrun : Run Cluster.step (fun _ _ => True) start c) {live : Finset ℕ}
    (hsub : live ⊆ c.members) (hmajority : c.members.card < 2 * live.card)
    (hnone : ∀ id ∈ live, (c.node id).role ≠ .leader) (hagree : c.EndsAgree live)
    (hfits : ∀ id ∈ live, (c.node id).currentTerm + 1 < 2 ^ 64) :
    ∃ c', Run Cluster.step (Cluster.OfLive live) c c' ∧
      ∃ candidate ∈ live, c'.Won live candidate := by
  have hformed := (Cluster.slotted_of_run hinit hrun).formed
  have hnonempty : live.Nonempty := Finset.card_pos.mp (by omega)
  obtain ⟨candidate, hlive, htrails⟩ := hagree.exists_trailed hnonempty
  obtain ⟨c', hpolls, hwon⟩ := Cluster.exists_leader_of_trails hformed hsub hlive
    (hnone candidate hlive) (Finset.Subset.refl live) hlive hmajority htrails hfits
  exact ⟨c', hpolls.run, candidate, hlive, hwon⟩

/-- The members that are up while the first one is not. -/
def withoutFirst : Finset ℕ := {2, 3}

/-- Member 1 stands and its requests are on their way; members 2 and 3 go on without it. -/
theorem majorityElects_withoutFirst :
    ∃ c c', Run (@Cluster.step plainPlatform) (fun _ _ => True) threeNodes c ∧ c.network ≠ [] ∧
      Run (@Cluster.step plainPlatform) (@Cluster.OfLive plainPlatform withoutFirst) c c' ∧
      ∃ candidate ∈ withoutFirst, c'.Won withoutFirst candidate := by
  obtain ⟨c, hrun, hcheck⟩ := Run.exists_of_exec (@Cluster.step plainPlatform) (fun _ _ => True)
    threeNodes [.handle 1 late .electionTimeout]
    (fun c => decide (c.network ≠ [] ∧ withoutFirst ⊆ c.members ∧
      c.members.card < 2 * withoutFirst.card ∧ (∀ id ∈ withoutFirst, (c.node id).role ≠ .leader) ∧
      c.EndsAgree withoutFirst ∧ ∀ id ∈ withoutFirst, (c.node id).currentTerm + 1 < 2 ^ 64))
    (by decide)
  obtain ⟨hnetwork, hsub, hmajority, hnone, hagree, hfits⟩ := of_decide_eq_true hcheck
  obtain ⟨c', hlater, hwon⟩ := @majorityElects plainPlatform _ _
    (@Cluster.initial_fresh plainPlatform ..) hrun withoutFirst hsub hmajority hnone hagree hfits
  exact ⟨c, c', hrun, hnetwork, hlater, hwon⟩

/-- Nothing is on its way, and the live members follow without an electorate of a majority. -/
def Poll.Deadlocked (poll : Poll) (live : Finset ℕ) : Prop :=
  poll.cluster.network = [] ∧ ∀ id ∈ live, (poll.cluster.node id).role = .follower ∧
    2 * (poll.cluster.electorate live id).card ≤ poll.cluster.members.card

instance {poll : Poll} {live : Finset ℕ} : Decidable (poll.Deadlocked live) :=
  inferInstanceAs (Decidable (_ ∧ ∀ _ ∈ _, _ = Role.follower ∧ _ ≤ _))

/-- Members 1 and 2 each lead with the vote of member 3, and each put an entry of their own term at
the first index; then both follow, as a later term comes up. -/
def leadInTurn : List Action :=
  [.handle 1 late .electionTimeout,
    .lose ⟨1, 2, voteRequest 1 1⟩,
    .handle 3 late (.deliver 1 (voteRequest 1 1)),
    .handle 1 late (.deliver 3 (vote 3 1)),
    .handle 1 late (.makeDir (directory "a")),
    .handle 2 late .electionTimeout,
    .lose ⟨2, 1, voteRequest 2 1⟩,
    .lose ⟨2, 3, voteRequest 2 1⟩,
    .handle 2 later .electionTimeout,
    .handle 1 later (.deliver 2 (voteRequest 2 2)),
    .lose ⟨1, 2, .requestVoteResponse { id := 1, term := 2, voteGranted := false }⟩,
    .handle 3 later (.deliver 2 (voteRequest 2 2)),
    .handle 2 later (.deliver 3 (vote 3 2)),
    .handle 2 later (.makeDir (directory "c")),
    .handle 3 latest .electionTimeout,
    .lose ⟨3, 1, voteRequest 3 3⟩,
    .handle 2 latest (.deliver 3 (voteRequest 3 3)),
    .lose ⟨2, 3, .requestVoteResponse { id := 2, term := 3, voteGranted := false }⟩]

/-- **A majority that cannot elect a leader.**  Two of three members go on for good without one:
their logs end at one index with different terms. -/
theorem exists_leaderless_majority :
    ∃ poll, Run (@Poll.step plainPlatform) Poll.TermFits { cluster := threeNodes } poll ∧
      poll.cluster.members.card < 2 * ({1, 2} : Finset ℕ).card ∧
      ∀ c, Run (@Cluster.step plainPlatform) (Cluster.MovesOfLive {1, 2}) poll.cluster c →
        ∀ id ∈ ({1, 2} : Finset ℕ), (c.node id).role ≠ .leader := by
  obtain ⟨poll, hrun, hcheck⟩ := Run.exists_of_exec (@Poll.step plainPlatform)
    Poll.TermFits { cluster := threeNodes } leadInTurn
    (fun poll => decide (poll.cluster.members = {1, 2, 3} ∧ poll.Deadlocked {1, 2})) (by decide)
  obtain ⟨hmembers, hnetwork, hlive⟩ := of_decide_eq_true hcheck
  have hcounted := @Poll.Counted.run plainPlatform _ _
    (@Poll.Counted.initial plainPlatform _ initial_pollOfThree) hrun
  refine ⟨poll, hrun, by rw [hmembers]; decide, fun c hlater id hid hleads => ?_⟩
  obtain ⟨candidate, hcandidate, hmajority⟩ := @Poll.exists_electorate plainPlatform poll {1, 2}
    hcounted (by rw [hmembers]; decide) hnetwork (fun id hid => (hlive id hid).1) c hlater id hid
    hleads
  exact absurd hmajority (hlive candidate hcandidate).2.not_gt

end Vosfs.Raft
