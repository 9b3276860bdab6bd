import Vosfs.Raft.CommitSafety
import Vosfs.Raft.Sending
import Vosfs.Raft.Terms

/-!
# The leader hint

A node that is no leader answers clients with the member in `leader_id_`.  The hint is set when
a node becomes leader and when it hears from one, and nothing ever clears it: a node that moves
to a later term without hearing from a leader takes the old hint along (`RaftNode.HintStep`),
its own name included if it was the leader.

As long as no node with a hint moves on in this way, unless the member it names leads the later
term already (`Cluster.HintHolds`), every hint names a leader of the node's term, and no node
sends clients to itself (`hintsCurrent`).
-/

namespace Vosfs.Raft

open Function

/-- The status and the message of a reply. -/
def Reply.status : Reply → StatusCode × String
  | .listDir response => (response.statusCode, response.message)
  | .makeDir response => (response.statusCode, response.message)
  | .prepareUploadFile response => (response.statusCode, response.message)
  | .uploadFile response => (response.statusCode, response.message)
  | .prepareDownloadFile response => (response.statusCode, response.message)

/-- The leader that a request comes from, and its term. -/
def Message.leader? : Message → Option (ℕ × ℕ)
  | .appendEntriesRequest request => some (request.leaderId, request.term)
  | .installSnapshotRequest request => some (request.leaderId, request.term)
  | _ => none

namespace RaftNode

variable {env : Env} {node node' : RaftNode}

/-! ## Answers that name a leader -/

theorem refusal_notLeader {token message : String}
    (hrefusal : node.refusal env token = some (.notLeader, message)) :
    node.role ≠ .leader ∧ message = (node.leaderId.map toString).getD "" := by
  unfold refusal at hrefusal
  split at hrefusal
  next => cases hrefusal
  next =>
    split at hrefusal
    next hrole => cases hrefusal; exact ⟨hrole, rfl⟩
    next => cases hrefusal

theorem ls_ne_notLeader (sm : StateMachine) (request : ListDirRequest) :
    (sm.ls request).statusCode ≠ .notLeader := by
  unfold StateMachine.ls
  repeat' split
  all_goals exact StatusCode.noConfusion

theorem prepareDownloadFile_ne_notLeader (sm : StateMachine)
    (request : PrepareDownloadFileRequest) :
    (sm.prepareDownloadFile request).statusCode ≠ .notLeader := by
  unfold StateMachine.prepareDownloadFile
  simp only
  repeat' split
  all_goals exact StatusCode.noConfusion

theorem prepareUploadFile_ne_notLeader [Platform] {sm sm' : StateMachine}
    {request : PrepareUploadFileRequest} {response : PrepareUploadFileResponse}
    (hprepare : sm.prepareUploadFile request = some (sm', response)) :
    response.statusCode ≠ .notLeader := by
  unfold StateMachine.prepareUploadFile at hprepare
  split_ifs at hprepare <;> cases hprepare <;> exact StatusCode.noConfusion

/-- **Who is named as the leader.** -/
theorem message_of_notLeader [Platform] {input : Input} {output : Output} {reply : Reply}
    (hhandle : node.handle env input = .ok (node', output)) (hreply : output.reply = some reply)
    (hstatus : reply.status.1 = .notLeader) :
    node.role ≠ .leader ∧ reply.status.2 = (node.leaderId.map toString).getD "" := by
  -- either the reply is a refusal, or it is made by the state machine
  have hrefused : ∀ {token : String} {statusCode : StatusCode} {message : String},
      node.refusal env token = some (statusCode, message) → statusCode = .notLeader →
        node.role ≠ .leader ∧ message = (node.leaderId.map toString).getD "" := by
    rintro token statusCode message hrefusal rfl
    exact refusal_notLeader hrefusal
  cases input with
  | electionTimeout => cases hhandle; cases hreply
  | heartbeat =>
    obtain ⟨_, -, heq⟩ := exists_of_map_eq_ok hhandle
    cases heq
    cases hreply
  | deliver src message =>
    obtain ⟨_, -, heq⟩ := exists_of_map_eq_ok hhandle
    cases heq
    cases hreply
  | listDir request =>
    cases hhandle
    cases hreply
    simp only [Reply.status, handleListDirRequest] at hstatus ⊢
    cases hrefusal : node.refusal env request.token with
    | none =>
      rw [hrefusal] at hstatus
      exact absurd hstatus (ls_ne_notLeader _ _)
    | some refused =>
      rw [hrefusal] at hstatus
      exact hrefused hrefusal hstatus
  | makeDir request =>
    simp only [handle] at hhandle
    cases hhandle
    simp only [handleMakeDirRequest] at hreply
    cases hrefusal : node.refusal env request.token with
    | none => rw [hrefusal] at hreply; cases hreply
    | some refused =>
      rw [hrefusal] at hreply
      cases hreply
      exact hrefused hrefusal hstatus
  | prepareUploadFile request =>
    obtain ⟨⟨_, response⟩, hserve, heq⟩ := exists_of_map_eq_ok hhandle
    cases heq
    cases hreply
    simp only [handlePrepareUploadFileRequest] at hserve
    split at hserve
    next hrefusal => cases hserve; exact hrefused hrefusal hstatus
    next =>
      split at hserve
      next => cases hserve
      next hprepare =>
        cases hserve
        exact absurd hstatus (prepareUploadFile_ne_notLeader hprepare)
  | uploadFile request =>
    simp only [handle] at hhandle
    cases hhandle
    simp only [handleUploadFileRequest] at hreply
    cases hrefusal : node.refusal env request.token with
    | none => rw [hrefusal] at hreply; cases hreply
    | some refused =>
      rw [hrefusal] at hreply
      cases hreply
      exact hrefused hrefusal hstatus
  | prepareDownloadFile request =>
    cases hhandle
    cases hreply
    simp only [Reply.status, handlePrepareDownloadFileRequest] at hstatus ⊢
    cases hrefusal : node.refusal env request.token with
    | none =>
      rw [hrefusal] at hstatus
      exact absurd hstatus (prepareDownloadFile_ne_notLeader _ _)
    | some refused =>
      rw [hrefusal] at hstatus
      exact hrefused hrefusal hstatus

/-! ## Steps of a node -/

/-- The term that a node moves to without hearing from a leader or becoming one. -/
def silentTerm (env : Env) (node : RaftNode) : Input → Option ℕ
  | .electionTimeout =>
    if StartsElection env node .electionTimeout ∧ 1 ≤ node.transport.clusterSize / 2 then
      some (u64 (node.currentTerm + 1))
    else
      none
  | .deliver _ (.requestVoteRequest request) =>
    if node.currentTerm < request.term then some request.term else none
  | .deliver _ (.requestVoteResponse response) =>
    if node.currentTerm < response.term then some response.term else none
  | .deliver _ (.appendEntriesResponse response) =>
    if node.role = .leader ∧ node.currentTerm < response.term then some response.term else none
  | .deliver _ (.installSnapshotResponse response) =>
    if node.currentTerm < response.term then some response.term else none
  | _ => none

/-- What a step does to the hint, the term and the role. -/
inductive HintStep (env : Env) (node node' : RaftNode) : Input → Prop
  | keeps {input : Input} (hint : node'.leaderId = node.leaderId)
      (term : node'.currentTerm = node.currentTerm) (role : node'.role = node.role)
      (led : node'.led = node.led) : HintStep env node node' input
  | silent {input : Input} (moved : node.silentTerm env input = some node'.currentTerm)
      (hint : node'.leaderId = node.leaderId) (role : node'.role ≠ .leader)
      (led : node'.led = node.led) : HintStep env node node' input
  | hears {src leaderId : ℕ} {message : Message}
      (leader : message.leader? = some (leaderId, node'.currentTerm))
      (hint : node'.leaderId = some leaderId)
      (role : node'.role = .leader → node.role = .leader ∧ node'.currentTerm = node.currentTerm)
      (led : node'.led = node.led) : HintStep env node node' (.deliver src message)
  | leads {input : Input} (hint : node'.leaderId = some node.memberId)
      (role : node'.role = .leader) (led : node'.led = node.led ++ [node'.currentTerm]) :
      HintStep env node node' input

theorem HintStep.refl {input : Input} : HintStep env node node input := .keeps rfl rfl rfl rfl

theorem HintStep.led_subset {input : Input} (h : HintStep env node node' input) :
    node.led ⊆ node'.led := by
  cases h with
  | keeps _ _ _ led => rw [led]; exact List.Subset.refl _
  | silent _ _ _ led => rw [led]; exact List.Subset.refl _
  | hears _ _ _ led => rw [led]; exact List.Subset.refl _
  | leads _ _ led => rw [led]; exact List.subset_append_left _ _

/-- A leader has led its term. -/
theorem HintStep.leader {input : Input} (h : HintStep env node node' input)
    (hled : node.role = .leader → node.currentTerm ∈ node.led) (hrole : node'.role = .leader) :
    node'.currentTerm ∈ node'.led := by
  cases h with
  | keeps _ term role led =>
    rw [term, led]
    exact hled (role ▸ hrole)
  | silent _ _ role => exact absurd hrole role
  | hears _ _ role led =>
    obtain ⟨hleads, hterm⟩ := role hrole
    rw [hterm, led]
    exact hled hleads
  | leads _ _ led =>
    rw [led]
    exact List.mem_append_right _ (List.mem_singleton_self _)

theorem electionLoop_hint : HintStep env node (node.electionLoop env).1 .electionTimeout := by
  by_cases hstart : StartsElection env node .electionTimeout
  · rw [electionLoop_of_starts hstart]
    unfold tryToLead
    have hvotes : node.startElection.voteForSelf.votes = 1 := rfl
    have hsize : node.startElection.voteForSelf.transport.clusterSize =
        node.transport.clusterSize := rfl
    rw [hvotes, hsize]
    split
    next => exact .leads rfl rfl rfl
    next halone =>
      have hothers : 1 ≤ node.transport.clusterSize / 2 := by
        by_contra hless
        exact halone ⟨by omega, rfl⟩
      refine .silent (if_pos ⟨hstart, hothers⟩) rfl ?_ rfl
      exact Role.noConfusion
  · rw [electionLoop_of_not_starts hstart]
    exact .refl

theorem handleRequestVoteRequest_hint {src : ℕ} {request : RequestVoteRequest} :
    HintStep env node (node.handleRequestVoteRequest env request).1
      (.deliver src (.requestVoteRequest request)) := by
  unfold handleRequestVoteRequest catchUp
  split
  next => exact .refl
  next =>
    split
    next hlt =>
      simp only
      split <;> exact .silent (if_pos hlt) rfl Role.noConfusion rfl
    next =>
      simp only
      split <;> exact .keeps rfl rfl rfl rfl

theorem handleRequestVoteResponse_hint {src : ℕ} {response : RequestVoteResponse} :
    HintStep env node (node.handleRequestVoteResponse env response)
      (.deliver src (.requestVoteResponse response)) := by
  unfold handleRequestVoteResponse
  split
  next => exact .refl
  next =>
    split
    next hlt => exact .silent (if_pos hlt) rfl Role.noConfusion rfl
    next =>
      split
      next => exact .refl
      next =>
        split
        next =>
          unfold tryToLead
          split
          next => exact .leads rfl rfl rfl
          next => exact .keeps rfl rfl rfl rfl
        next => exact .refl

/-- A leader that hears from another leader of its term takes the hint, and stays leader. -/
theorem hintStep_of_heard {src leaderId term : ℕ} {message : Message}
    (hleader : message.leader? = some (leaderId, term)) (hterm : node.currentTerm ≤ term)
    (hhint : node'.leaderId = some leaderId)
    (hraft : node'.hardState = (node.catchUp env term).hardState)
    (hrole : node'.role = (node.catchUp env term).role)
    (hled : node'.led = (node.catchUp env term).led) :
    HintStep env node node' (.deliver src message) := by
  have hcurrent : node'.currentTerm = term :=
    (congrArg HardState.currentTerm hraft).trans (currentTerm_catchUp hterm)
  refine .hears (hcurrent ▸ hleader) hhint (fun hleads => ?_) (hled.trans ?_)
  · rw [hrole] at hleads
    unfold catchUp at hleads
    split at hleads
    next => cases hleads
    next hge => exact ⟨hleads, hcurrent.trans (le_antisymm (not_lt.mp hge) hterm)⟩
  · unfold catchUp
    split <;> rfl

section Handling

variable [Platform]

theorem leaderId_applyNext (happly : node.applyNext env = .ok node') :
    node'.leaderId = node.leaderId := by
  obtain ⟨entry, -, hround⟩ := round_of_applyNext happly
  cases hround <;> rfl

theorem leaderId_applyRounds {rounds : ℕ} (happly : applyRounds env rounds node = .ok node') :
    node'.leaderId = node.leaderId := by
  induction rounds generalizing node with
  | zero => cases happly; rfl
  | succ rounds ih =>
    obtain ⟨next, hnext, happly⟩ := exists_of_applyRounds happly
    exact (ih happly).trans (leaderId_applyNext hnext)

theorem leaderId_applyEntry {commitIndex : ℕ}
    (happly : ({ node with commitIndex := commitIndex } : RaftNode).applyEntry env = .ok node') :
    node'.leaderId = node.leaderId := by
  have hsame := leaderId_applyRounds happly
  exact hsame

theorem MovesCommit.leaderId (hmoves : MovesCommit env node node') :
    node'.leaderId = node.leaderId := by
  cases hmoves with
  | stays same => rw [same]
  | moves _ happly => exact leaderId_applyEntry happly

theorem afterEntries_hint {src : ℕ} {request : AppendEntriesRequest}
    (hafter : node.afterEntries env request = .ok node') :
    HintStep env node node' (.deliver src (.appendEntriesRequest request)) := by
  cases outcome_of_afterEntries hafter with
  | late => exact .refl
  | rejected hterm => exact hintStep_of_heard rfl hterm rfl rfl rfl rfl
  | stored haccepts hstore hfollow =>
    have hraft := afterEntries_keepsRaft haccepts.1 hafter
    refine hintStep_of_heard rfl haccepts.1 ?_ hraft.hardState hraft.role hraft.led
    rw [(movesCommit_of_followCommit hfollow).leaderId]
    obtain ⟨_, _, rfl⟩ := storeEntries_shape hstore
    rfl

theorem handleAppendEntriesResponse_hint {src : ℕ} {response : AppendEntriesResponse}
    (hafter : node.handleAppendEntriesResponse env response = .ok node') :
    HintStep env node node' (.deliver src (.appendEntriesResponse response)) := by
  by_cases hrole : node.role = .leader
  · cases outcome_of_handleAppendEntriesResponse hafter with
    | ignored => exact .refl
    | deposed hlt => exact .silent (if_pos ⟨hrole, hlt⟩) rfl Role.noConfusion rfl
    | rejected => exact .keeps rfl rfl rfl rfl
    | confirmed _ hadvance =>
      have hmoves := movesCommit_of_advanceCommit hadvance
      have hraft := hmoves.keepsRaft
      have hhint := hmoves.leaderId
      have hterm := congrArg HardState.currentTerm hraft.hardState
      exact .keeps hhint hterm hraft.role hraft.led
  · unfold handleAppendEntriesResponse at hafter
    rw [if_pos (Or.inr hrole)] at hafter
    cases hafter
    exact .refl

theorem handleInstallSnapshotRequest_hint {src : ℕ} {request : InstallSnapshotRequest} :
    HintStep env node (node.handleInstallSnapshotRequest env request).1
      (.deliver src (.installSnapshotRequest request)) := by
  generalize hafter : (node.handleInstallSnapshotRequest env request).1 = node'
  cases outcome_of_handleInstallSnapshotRequest hafter with
  | late => exact .refl
  | received hterm => exact hintStep_of_heard rfl hterm rfl rfl rfl rfl
  | installed hterm => exact hintStep_of_heard rfl hterm rfl rfl rfl rfl

omit [Platform] in
theorem MovesSnapshotter.hint {input : Input} (hmoves : MovesSnapshotter node node') :
    HintStep env node node' input := by
  obtain ⟨snapshotter, rfl⟩ := hmoves
  exact .keeps rfl rfl rfl rfl

omit [Platform] in
theorem handleInstallSnapshotResponse_hint {src : ℕ} {response : InstallSnapshotResponse}
    (hafter : (node.handleInstallSnapshotResponse env response).map Prod.fst = .ok node') :
    HintStep env node node' (.deliver src (.installSnapshotResponse response)) := by
  rcases cases_handleInstallSnapshotResponse hafter with ⟨hlt, rfl⟩ | hmoves
  · exact .silent (if_pos hlt) rfl Role.noConfusion rfl
  · exact hmoves.hint

/-- **What a step does to the hint.** -/
theorem hintStep_of_after {input : Input} (hafter : node.after env input = .ok node') :
    HintStep env node node' input := by
  cases input with
  | electionTimeout => cases hafter; exact electionLoop_hint
  | heartbeat => exact (moves_of_heartbeat hafter).hint
  | deliver src message =>
    cases message with
    | requestVoteRequest request => cases hafter; exact handleRequestVoteRequest_hint
    | requestVoteResponse response => cases hafter; exact handleRequestVoteResponse_hint
    | appendEntriesRequest request => exact afterEntries_hint hafter
    | appendEntriesResponse response => exact handleAppendEntriesResponse_hint hafter
    | installSnapshotRequest request => cases hafter; exact handleInstallSnapshotRequest_hint
    | installSnapshotResponse response => exact handleInstallSnapshotResponse_hint hafter
  | listDir request => cases hafter; exact .refl
  | makeDir request =>
    cases outcome_of_makeDir hafter with
    | refused => exact .refl
    | appended => exact .keeps rfl rfl rfl rfl
  | prepareUploadFile request =>
    obtain ⟨_, rfl⟩ := exists_of_prepareUploadFile hafter
    exact .keeps rfl rfl rfl rfl
  | uploadFile request =>
    cases outcome_of_uploadFile hafter with
    | refused => exact .refl
    | appended => exact .keeps rfl rfl rfl rfl
  | prepareDownloadFile request => cases hafter; exact .refl

end Handling

end RaftNode

/-! ## The cluster -/

variable {c c' : Cluster}

namespace Cluster

/-- Hints name leaders of the node's term, and nobody is sent back to the node that answers. -/
structure HintsCurrent (c : Cluster) : Prop where
  led : ∀ id ∈ c.members, ∀ m ∈ (c.node id).leaderId,
    m ∈ c.members ∧ (c.node id).currentTerm ∈ (c.node m).led
  other : ∀ answer ∈ c.replies, answer.2.status.1 = .notLeader →
    answer.2.status.2 ≠ toString answer.1

/-- A node that moves on without hearing from a leader has no hint, or the hint names another
member that leads the new term already. -/
def HintHolds (c : Cluster) : Action → Prop
  | .handle id env input =>
    ∀ term ∈ (c.node id).silentTerm env input, ∀ m ∈ (c.node id).leaderId,
      m ≠ id ∧ term ∈ (c.node m).led
  | _ => True

instance : ∀ {action : Action}, Decidable (c.HintHolds action)
  | .handle _ _ _ => inferInstanceAs (Decidable (∀ _ ∈ _, ∀ _ ∈ _, _ ≠ _ ∧ _ ∈ _))
  | .lose _ | .restart _ _ _ _ => inferInstanceAs (Decidable True)

/-- What the hints rest on: leaders have led their term, and so have the senders of the
requests that name one. -/
structure HintsKnown (c : Cluster) : Prop where
  memberId : ∀ id ∈ c.members, (c.node id).memberId = id
  leaders : ∀ id ∈ c.members, (c.node id).role = .leader →
    (c.node id).currentTerm ∈ (c.node id).led
  hints : ∀ id ∈ c.members, ∀ m ∈ (c.node id).leaderId,
    m ∈ c.members ∧ (c.node id).currentTerm ∈ (c.node m).led ∧
      (m = id → (c.node id).role = .leader)
  network : ∀ packet ∈ c.network, ∀ sender ∈ packet.message.leader?,
    sender.1 ∈ c.members ∧ sender.1 ≠ packet.dst ∧ sender.2 ∈ (c.node sender.1).led
  other : ∀ answer ∈ c.replies, answer.2.status.1 = .notLeader →
    answer.2.status.2 ≠ toString answer.1

theorem HintsKnown.current (h : c.HintsKnown) : c.HintsCurrent :=
  ⟨fun id hid m hm => ⟨(h.hints id hid m hm).1, (h.hints id hid m hm).2.1⟩, h.other⟩

variable [Platform]

theorem HintsKnown.initial (hinit : c.Initial) : c.HintsKnown := by
  have hfresh : ∀ id ∈ c.members, ∃ config : Config, config.memberId = id ∧
      c.node id = Cluster.freshNode config := by
    intro id hid
    obtain ⟨env, config, hmember, -, hcreate⟩ := hinit.created id hid
    exact ⟨config, hmember, Cluster.create_empty hcreate⟩
  refine ⟨fun id hid => ?_, fun id hid hrole => ?_, fun id hid m hm => ?_, ?_, ?_⟩
  · obtain ⟨config, hmember, hnode⟩ := hfresh id hid
    rw [hnode]
    exact hmember
  · obtain ⟨config, -, hnode⟩ := hfresh id hid
    rw [hnode] at hrole
    cases hrole
  · obtain ⟨config, -, hnode⟩ := hfresh id hid
    rw [hnode] at hm
    cases hm
  · rw [hinit.network]
    exact fun packet hpacket => absurd hpacket List.not_mem_nil
  · rw [hinit.replies]
    exact fun answer hanswer => absurd hanswer List.not_mem_nil

/-- A request that names a leader is sent by a leader, to another member. -/
theorem leader?_of_sends {env : Env} {node node' : RaftNode} {input : Input} {packet : Packet}
    {sender : ℕ × ℕ} (hsends : RaftNode.Sends env node input node' packet)
    (hsender : packet.message.leader? = some sender) :
    sender = (node.memberId, node.currentTerm) ∧ node.role = .leader ∧
      packet.dst ≠ node.memberId := by
  cases hsends with
  | voteRequest => cases hsender
  | entries role _ _ other => exact ⟨(Option.some.inj hsender).symm, role, other⟩
  | vote => cases hsender
  | appended => cases hsender
  | installed => cases hsender

omit [Platform] in
/-- Nothing that was led is forgotten. -/
theorem led_update {id m : ℕ} {node : RaftNode} (hled : (c.node id).led ⊆ node.led) :
    (c.node m).led ⊆ (update c.node id node m).led := by
  by_cases hm : m = id
  · subst hm
    rwa [update_self]
  · rw [update_of_ne hm]
    exact List.Subset.refl _

omit [Platform] in
/-- One node, the network and the answers change. -/
theorem HintsKnown.update {id : ℕ} {node : RaftNode} {network : List Packet}
    {replies : List (ℕ × Reply)} (h : c.HintsKnown) (hled : (c.node id).led ⊆ node.led)
    (hmember : node.memberId = id)
    (hleader : node.role = .leader → node.currentTerm ∈ node.led)
    (hhint : ∀ m ∈ node.leaderId, m ∈ c.members ∧
      node.currentTerm ∈ (Function.update c.node id node m).led ∧ (m = id → node.role = .leader))
    (hnetwork : ∀ packet ∈ network, packet ∈ c.network ∨ ∀ sender ∈ packet.message.leader?,
      sender.1 ∈ c.members ∧ sender.1 ≠ packet.dst ∧
        sender.2 ∈ (Function.update c.node id node sender.1).led)
    (hother : ∀ answer ∈ replies, answer.2.status.1 = .notLeader →
      answer.2.status.2 ≠ toString answer.1) :
    HintsKnown { c with node := Function.update c.node id node, network := network,
                        replies := replies } := by
  have hgrows : ∀ m, (c.node m).led ⊆ (Function.update c.node id node m).led :=
    fun m => led_update hled
  constructor
  case memberId =>
    exact forall_update (fun other node' => node'.memberId = other) h.memberId hmember
  case leaders =>
    exact forall_update (fun _ node' => node'.role = .leader → node'.currentTerm ∈ node'.led)
      h.leaders hleader
  case hints =>
    refine forall_update (fun other node' => ∀ m ∈ node'.leaderId, m ∈ c.members ∧
      node'.currentTerm ∈ (Function.update c.node id node m).led ∧
      (m = other → node'.role = .leader)) (fun other hmem m hm => ?_) hhint
    obtain ⟨hmem', hterm, hlead⟩ := h.hints other hmem m hm
    exact ⟨hmem', hgrows m hterm, hlead⟩
  case network =>
    intro packet hpacket sender hsender
    rcases hnetwork packet hpacket with hold | hnew
    · obtain ⟨hmem, hne, hterm⟩ := h.network packet hold sender hsender
      exact ⟨hmem, hne, hgrows _ hterm⟩
    · exact hnew sender hsender
  case other => exact hother

omit [Platform] in
/-- What a step of a node needs for its new hint. -/
theorem HintsKnown.hint {id : ℕ} {env : Env} {input : Input} {network : List Packet}
    {node : RaftNode} (h : c.HintsKnown) (hid : id ∈ c.members)
    (hholds : c.HintHolds (.handle id env input))
    (hconsume : consume c.network (delivered id input) = some network)
    (hled : (c.node id).led ⊆ node.led) (hstep : RaftNode.HintStep env (c.node id) node input) :
    ∀ m ∈ node.leaderId, m ∈ c.members ∧
      node.currentTerm ∈ (Function.update c.node id node m).led ∧
        (m = id → node.role = .leader) := by
  have hgrows : ∀ m, (c.node m).led ⊆ (Function.update c.node id node m).led :=
    fun m => led_update hled
  intro m hm
  cases hstep with
  | keeps hint term role =>
    obtain ⟨hmem, hterm, hlead⟩ := h.hints id hid m (hint ▸ hm)
    rw [term, role]
    exact ⟨hmem, hgrows m hterm, hlead⟩
  | silent moved hint =>
    obtain ⟨hne, hterm⟩ := hholds _ moved m (hint ▸ hm)
    exact ⟨(h.hints id hid m (hint ▸ hm)).1, hgrows m hterm, fun heq => absurd heq hne⟩
  | hears leader hint =>
    obtain rfl : _ = m := Option.some.inj (hint.symm.trans hm)
    obtain ⟨hmem, hne, hterm⟩ := h.network _ (consume_some hconsume).1 _ leader
    exact ⟨hmem, hgrows _ hterm, fun heq => absurd heq hne⟩
  | leads hint role led =>
    have hself : m = id := (Option.some.inj (hint.symm.trans hm)).symm.trans (h.memberId id hid)
    subst hself
    refine ⟨hid, ?_, fun _ => role⟩
    rw [update_self, led]
    exact List.mem_append_right _ (List.mem_singleton_self _)

omit [Platform] in
theorem HintsKnown.leader {id : ℕ} {env : Env} {input : Input} {node : RaftNode}
    (h : c.HintsKnown) (hid : id ∈ c.members)
    (hstep : RaftNode.HintStep env (c.node id) node input) (hrole : node.role = .leader) :
    node.currentTerm ∈ node.led :=
  hstep.leader (h.leaders id hid) hrole

/-- A node does not name itself. -/
theorem HintsKnown.status_ne {id : ℕ} {env : Env} {input : Input} {node : RaftNode}
    {output : Output} {reply : Reply} (h : c.HintsKnown) (hid : id ∈ c.members)
    (hhandle : (c.node id).handle env input = .ok (node, output))
    (hreply : output.reply = some reply) (hstatus : reply.status.1 = .notLeader) :
    reply.status.2 ≠ toString id := by
  obtain ⟨hrole, hmessage⟩ := RaftNode.message_of_notLeader hhandle hreply hstatus
  rw [hmessage]
  cases hleader : (c.node id).leaderId with
  | none => exact Nat.repr_ne_empty.symm
  | some m =>
    intro hsame
    exact hrole ((h.hints id hid m hleader).2.2 (toString_injective hsame))

/-- **The step lemma.** -/
theorem HintsKnown.step {action : Action} (h : c.HintsKnown) (hholds : c.HintHolds action)
    (hstep : c.step action = some c') : c'.HintsKnown := by
  cases action with
  | handle id env input =>
    obtain ⟨hid, network, node, output, hconsume, hhandle, rfl⟩ := step_handle hstep
    have hafter := RaftNode.after_of_handle hhandle
    have hchange := RaftNode.hintStep_of_after hafter
    have hled := hchange.led_subset
    have hmember : node.memberId = id :=
      (RaftNode.memberId_of_transport (RaftNode.transport_of_after hafter)).trans
        (h.memberId id hid)
    refine h.update hled hmember (h.leader hid hchange) (h.hint hid hholds hconsume hled hchange)
      (fun packet hpacket => ?_) (fun answer hanswer hstatus => ?_)
    · refine (List.mem_append.mp hpacket).imp (mem_of_consume hconsume) fun hnew sender hsender => ?_
      obtain ⟨rfl, hrole, hdst⟩ :=
        leader?_of_sends (RaftNode.sends_of_handle hhandle packet hnew) hsender
      simp only [h.memberId id hid] at hdst ⊢
      exact ⟨hid, hdst.symm, led_update hled (h.leaders id hid hrole)⟩
    · rcases List.mem_append.mp hanswer with hold | hnew
      · exact h.other answer hold hstatus
      · obtain ⟨reply, hreply, rfl⟩ : ∃ reply, output.reply = some reply ∧ (id, reply) = answer := by
          simpa using hnew
        exact h.status_ne hid hhandle hreply hstatus
  | lose packet =>
    obtain ⟨network, hconsume, rfl⟩ := Option.map_eq_some_iff.mp hstep
    exact ⟨h.memberId, h.leaders, h.hints,
      fun packet' hpacket' => h.network packet' (mem_of_consume hconsume hpacket'), h.other⟩
  | restart id env input lost =>
    obtain ⟨hid, network, node, hconsume, hcreate, rfl⟩ := step_restart hstep
    obtain ⟨_, _, _, _, _, -, -, -, rfl⟩ := RaftNode.create_spec hcreate
    -- a node starts as a follower without a hint
    exact h.update (List.Subset.refl _) (h.memberId id hid) (fun hrole => nomatch hrole)
      (fun m hm => nomatch hm) (fun packet hpacket => Or.inl (mem_of_consume hconsume hpacket)) h.other

end Cluster

/-- **Hints are current.** -/
theorem hintsCurrent [Platform] (hinit : c.Initial)
    (hrun : Run Cluster.step Cluster.HintHolds c c') : c'.HintsCurrent :=
  (hrun.invariant Cluster.HintsKnown (.initial hinit) fun h hholds hstep =>
    h.step hholds hstep).current

/-! ## Hints name members

Hints may be out of date, but in every run they name members. -/

namespace Cluster

/-- Whoever a member takes for the leader is a member, and so is a sender that claims to lead. -/
structure HintsAreMembers (c : Cluster) : Prop where
  memberId : ∀ id ∈ c.members, (c.node id).memberId = id
  hints : ∀ id ∈ c.members, ∀ m ∈ (c.node id).leaderId, m ∈ c.members
  network : ∀ packet ∈ c.network, ∀ sender ∈ packet.message.leader?, sender.1 ∈ c.members

/-- One node and the network change. -/
theorem HintsAreMembers.update {id : ℕ} {node : RaftNode} {network : List Packet}
    {replies : List (ℕ × Reply)} (h : c.HintsAreMembers) (hmember : node.memberId = id)
    (hhint : ∀ m ∈ node.leaderId, m ∈ c.members)
    (hnetwork : ∀ packet ∈ network, packet ∈ c.network ∨
      ∀ sender ∈ packet.message.leader?, sender.1 ∈ c.members) :
    HintsAreMembers { c with node := Function.update c.node id node, network := network,
                             replies := replies } := by
  constructor
  case memberId =>
    exact forall_update (fun other node' => node'.memberId = other) h.memberId hmember
  case hints =>
    exact forall_update (fun _ node' => ∀ m ∈ node'.leaderId, m ∈ c.members) h.hints hhint
  case network =>
    exact fun packet hpacket => (hnetwork packet hpacket).elim (h.network packet)
      fun hnew => hnew

variable [Platform]

theorem HintsAreMembers.initial (hinit : c.Initial) : c.HintsAreMembers where
  memberId := (HintsKnown.initial hinit).memberId
  hints id hid m hm := ((HintsKnown.initial hinit).hints id hid m hm).1
  network packet hpacket sender hsender :=
    ((HintsKnown.initial hinit).network packet hpacket sender hsender).1

theorem HintsAreMembers.step {action : Action} (h : c.HintsAreMembers)
    (hstep : c.step action = some c') : c'.HintsAreMembers := by
  cases action with
  | handle id env input =>
    obtain ⟨hid, network, node, output, hconsume, hhandle, rfl⟩ := step_handle hstep
    have hafter := RaftNode.after_of_handle hhandle
    have hmember : node.memberId = id :=
      (RaftNode.memberId_of_transport (RaftNode.transport_of_after hafter)).trans
        (h.memberId id hid)
    refine h.update hmember (fun m hm => ?_) (fun packet hpacket => ?_)
    · cases RaftNode.hintStep_of_after hafter with
      | keeps hint => exact h.hints id hid m (hint ▸ hm)
      | silent _ hint => exact h.hints id hid m (hint ▸ hm)
      | hears leader hint =>
        obtain rfl : _ = m := Option.some.inj (hint.symm.trans hm)
        exact h.network _ (consume_some hconsume).1 _ leader
      | leads hint =>
        obtain rfl : _ = m := Option.some.inj (hint.symm.trans hm)
        exact (h.memberId id hid).symm ▸ hid
    · refine (List.mem_append.mp hpacket).imp (mem_of_consume hconsume) fun hnew sender hsender => ?_
      obtain ⟨rfl, -, -⟩ := leader?_of_sends (RaftNode.sends_of_handle hhandle packet hnew) hsender
      exact (h.memberId id hid).symm ▸ hid
  | lose packet =>
    obtain ⟨network, hconsume, rfl⟩ := Option.map_eq_some_iff.mp hstep
    exact ⟨h.memberId, h.hints,
      fun packet' hpacket' => h.network packet' (mem_of_consume hconsume hpacket')⟩
  | restart id env input lost =>
    obtain ⟨hid, network, node, hconsume, hcreate, rfl⟩ := step_restart hstep
    obtain ⟨_, _, _, _, _, -, -, -, rfl⟩ := RaftNode.create_spec hcreate
    exact h.update (h.memberId id hid) (fun m hm => nomatch hm)
      (fun packet hpacket => Or.inl (mem_of_consume hconsume hpacket))

theorem hintsAreMembers {allowed : Cluster → Action → Prop} (hinit : c.Initial)
    (hrun : Run Cluster.step allowed c c') : c'.HintsAreMembers :=
  hrun.invariant Cluster.HintsAreMembers (.initial hinit) fun h _ hstep => h.step hstep

end Cluster

/-! ## A first election, and a second one -/

/-- The new leader of term 1 tells member 3. -/
def tellThird : List Action :=
  electFirst ++ [.handle 1 late .heartbeat,
    .handle 3 late (.deliver 1 (.appendEntriesRequest { term := 1, leaderId := 1 })),
    .handle 3 late (.listDir { path := "/" })]

theorem hintsCurrent_tellThird :
    ∃ c', Run (@Cluster.step plainPlatform) Cluster.HintHolds threeNodes c' ∧
      (c'.node 3).leaderId = some 1 ∧ c'.HintsCurrent := by
  obtain ⟨c', hrun, hleader⟩ := Run.exists_of_exec (@Cluster.step plainPlatform) Cluster.HintHolds
    threeNodes tellThird (fun c' => decide ((c'.node 3).leaderId = some 1)) (by decide)
  exact ⟨c', hrun, of_decide_eq_true hleader,
    @hintsCurrent _ _ plainPlatform (@Cluster.initial_fresh plainPlatform ..) hrun⟩

/-- Member 2 stands in term 2, and the leader of term 1 gives way and answers a client. -/
def deposeFirst : List Action :=
  electFirst ++ [.handle 2 late .electionTimeout, .handle 2 later .electionTimeout,
    .handle 1 later (.deliver 2 (voteRequest 2 2)), .handle 1 later (.listDir { path := "/" })]

/-- It sends the client to itself. -/
theorem exists_own_hint :
    ∃ c', Run (@Cluster.step plainPlatform) (fun _ _ => True) threeNodes c' ∧
      (1, .listDir { statusCode := .notLeader, message := "1" }) ∈ c'.replies ∧
      (c'.node 1).leaderId = some 1 ∧ (c'.node 1).currentTerm = 2 ∧ 2 ∉ (c'.node 1).led ∧
      ¬ c'.HintsCurrent := by
  obtain ⟨c', hrun, hcheck⟩ := Run.exists_of_exec (@Cluster.step plainPlatform) (fun _ _ => True)
    threeNodes deposeFirst
    (fun c' => decide ((1, .listDir { statusCode := .notLeader, message := "1" }) ∈ c'.replies ∧
      (c'.node 1).leaderId = some 1 ∧ (c'.node 1).currentTerm = 2 ∧ 2 ∉ (c'.node 1).led)) (by decide)
  obtain ⟨hreply, hhint, hterm, hled⟩ := of_decide_eq_true hcheck
  refine ⟨c', hrun, hreply, hhint, hterm, hled, fun hcurrent => ?_⟩
  exact hcurrent.other _ hreply rfl rfl

end Vosfs.Raft
