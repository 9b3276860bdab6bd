import Vosfs.Raft.Writes

/-!
# What a step can do

All that a step can do to the log and to the state machine of a node, by kinds of
steps (`effect_of_after`).  Elections, heartbeats and reading requests change neither
(`KeepsState`).

A request of the leader, an answer to one and a chunk of a snapshot leave one of a few
nodes each (`EntriesOutcome`, `AnswerOutcome`, `ChunkOutcome`); what such a step keeps is
shown case by case from these.
-/

namespace Vosfs.Raft

namespace RaftNode

variable {env : Env} {node node' : RaftNode}

/-- The log and the state machine stay as they are. -/
structure KeepsState (node node' : RaftNode) : Prop where
  logs : node'.logs = node.logs
  stateMachine : node'.stateMachine = node.stateMachine
  lastApplied : node'.lastApplied = node.lastApplied

theorem KeepsState.refl : KeepsState node node := ⟨rfl, rfl, rfl⟩

theorem KeepsState.trans {node'' : RaftNode} (hfirst : KeepsState node node')
    (hsecond : KeepsState node' node'') : KeepsState node node'' :=
  ⟨hsecond.logs.trans hfirst.logs, hsecond.stateMachine.trans hfirst.stateMachine,
    hsecond.lastApplied.trans hfirst.lastApplied⟩

/-- All but what elections and replication change. -/
structure KeepsData (node node' : RaftNode) : Prop where
  logs : node'.logs = node.logs
  stateMachine : node'.stateMachine = node.stateMachine
  commitIndex : node'.commitIndex = node.commitIndex
  lastApplied : node'.lastApplied = node.lastApplied
  applied : node'.applied = node.applied
  transport : node'.transport = node.transport
  snapshotData : node'.snapshotData = node.snapshotData

theorem KeepsData.refl : KeepsData node node := by constructor <;> rfl

theorem KeepsData.trans {node'' : RaftNode} (hfirst : KeepsData node node')
    (hsecond : KeepsData node' node'') : KeepsData node node'' :=
  ⟨hsecond.logs.trans hfirst.logs, hsecond.stateMachine.trans hfirst.stateMachine,
    hsecond.commitIndex.trans hfirst.commitIndex, hsecond.lastApplied.trans hfirst.lastApplied,
    hsecond.applied.trans hfirst.applied, hsecond.transport.trans hfirst.transport,
    hsecond.snapshotData.trans hfirst.snapshotData⟩

theorem KeepsData.keepsState (hkeeps : KeepsData node node') : KeepsState node node' :=
  ⟨hkeeps.logs, hkeeps.stateMachine, hkeeps.lastApplied⟩

theorem MovesSnapshotter.keepsData (hmoves : MovesSnapshotter node node') :
    KeepsData node node' := by
  obtain ⟨_, rfl⟩ := hmoves
  constructor <;> rfl

theorem catchUp_keepsData {term : ℕ} : KeepsData node (node.catchUp env term) := by
  unfold catchUp
  split <;> constructor <;> rfl

theorem heardFrom_keepsData {leaderId : ℕ} : KeepsData node (node.heardFrom env leaderId) := by
  constructor <;> rfl

theorem followed_keepsData {request : AppendEntriesRequest} :
    KeepsData node (node.followed env request) :=
  catchUp_keepsData.trans heardFrom_keepsData

/-- The check reads the log only. -/
theorem logOk_followed {request : AppendEntriesRequest} :
    LogOk (node.followed env request) request ↔ LogOk node request := by
  unfold LogOk
  rw [followed_keepsData.logs]

theorem tryToLead_keepsData : KeepsData node node.tryToLead := by
  unfold tryToLead
  split <;> constructor <;> rfl

theorem electionLoop_keepsData : KeepsData node (node.electionLoop env).1 := by
  unfold electionLoop
  split
  next => exact KeepsData.refl
  next =>
    have hvoted : KeepsData node node.startElection.voteForSelf := by constructor <;> rfl
    have hled : KeepsData _ node.startElection.voteForSelf.tryToLead := tryToLead_keepsData
    exact hvoted.trans (hled.trans ⟨rfl, rfl, rfl, rfl, rfl, rfl, rfl⟩)

theorem handleRequestVoteRequest_keepsData {request : RequestVoteRequest} :
    KeepsData node (node.handleRequestVoteRequest env request).1 := by
  unfold handleRequestVoteRequest
  split
  next => exact KeepsData.refl
  next =>
    simp only
    split
    next => exact catchUp_keepsData.trans ⟨rfl, rfl, rfl, rfl, rfl, rfl, rfl⟩
    next => exact catchUp_keepsData

theorem handleRequestVoteResponse_keepsData {response : RequestVoteResponse} :
    KeepsData node (node.handleRequestVoteResponse env response) := by
  unfold handleRequestVoteResponse
  split
  next => exact KeepsData.refl
  next =>
    split
    next => constructor <;> rfl
    next =>
      split
      next => exact KeepsData.refl
      next =>
        split
        next =>
          have hcounted : KeepsData node { node with votes := node.votes + 1 } := by
            constructor <;> rfl
          exact hcounted.trans tryToLead_keepsData
        next => exact KeepsData.refl

theorem cases_handleInstallSnapshotResponse {response : InstallSnapshotResponse}
    (hafter : (node.handleInstallSnapshotResponse env response).map Prod.fst = .ok node') :
    node.currentTerm < response.term ∧ node' = node.increaseTermTo env response.term ∨
      MovesSnapshotter node node' := by
  unfold handleInstallSnapshotResponse at hafter
  split at hafter
  next hlt => cases hafter; exact Or.inl ⟨hlt, rfl⟩
  next =>
    have hmoves := @sendSnapshot_moves env node response.id
    rw [hafter] at hmoves
    exact Or.inr hmoves

theorem handleInstallSnapshotResponse_keepsData {response : InstallSnapshotResponse}
    (hafter : (node.handleInstallSnapshotResponse env response).map Prod.fst = .ok node') :
    KeepsData node node' := by
  rcases cases_handleInstallSnapshotResponse hafter with ⟨-, rfl⟩ | hmoves
  · constructor <;> rfl
  · exact hmoves.keepsData

/-- All that elections and replication read, apart from the log and the commit index. -/
structure KeepsRaft (node node' : RaftNode) : Prop where
  transport : node'.transport = node.transport
  hardState : node'.hardState = node.hardState
  votes : node'.votes = node.votes
  role : node'.role = node.role
  nextIndex : node'.nextIndex = node.nextIndex
  matchIndex : node'.matchIndex = node.matchIndex
  snapshotData : node'.snapshotData = node.snapshotData
  led : node'.led = node.led

theorem KeepsRaft.refl : KeepsRaft node node := ⟨rfl, rfl, rfl, rfl, rfl, rfl, rfl, rfl⟩

theorem KeepsRaft.trans {node'' : RaftNode} (hfirst : KeepsRaft node node')
    (hsecond : KeepsRaft node' node'') : KeepsRaft node node'' :=
  ⟨hsecond.transport.trans hfirst.transport, hsecond.hardState.trans hfirst.hardState,
    hsecond.votes.trans hfirst.votes, hsecond.role.trans hfirst.role,
    hsecond.nextIndex.trans hfirst.nextIndex, hsecond.matchIndex.trans hfirst.matchIndex,
    hsecond.snapshotData.trans hfirst.snapshotData, hsecond.led.trans hfirst.led⟩

theorem MovesSnapshotter.keepsRaft (hmoves : MovesSnapshotter node node') :
    KeepsRaft node node' := by
  obtain ⟨_, rfl⟩ := hmoves
  constructor <;> rfl

theorem heardFrom_keepsRaft {leaderId : ℕ} : KeepsRaft node (node.heardFrom env leaderId) := by
  constructor <;> rfl

theorem storeEntries_keepsRaft {entries : List LogEntry}
    (hstore : node.storeEntries entries = .ok node') : KeepsRaft node node' := by
  obtain ⟨_, _, rfl⟩ := storeEntries_shape hstore
  constructor <;> rfl

theorem appendCommand_keepsRaft {command : EntryCommand} {response : PendingResponse} :
    KeepsRaft node (node.appendCommand command response) := by
  constructor <;> rfl

/-! ## Outcomes of the handlers -/

/-- What a step with entries of the leader leaves. -/
inductive EntriesOutcome [Platform] (env : Env) (node : RaftNode) (request : AppendEntriesRequest) :
    RaftNode → Prop
  | late (hlate : request.term < node.currentTerm) : EntriesOutcome env node request node
  | rejected (hterm : node.currentTerm ≤ request.term) (hreject : ¬ LogOk node request) :
      EntriesOutcome env node request (node.followed env request)
  | stored {stored node' : RaftNode} (haccepts : node.Accepts request)
      (hstore : (node.followed env request).storeEntries request.entries = .ok stored)
      (hfollow : stored.followCommit env request.leaderCommit = .ok node') :
      EntriesOutcome env node request node'

theorem outcome_of_afterEntries [Platform] {request : AppendEntriesRequest}
    (hafter : node.afterEntries env request = .ok node') :
    EntriesOutcome env node request node' := by
  unfold afterEntries at hafter
  split at hafter
  next hlate => cases hafter; exact .late hlate
  next hterm =>
    split at hafter
    next hreject =>
      cases hafter
      exact .rejected (not_lt.mp hterm) fun hok => hreject (logOk_followed.mpr hok)
    next hok =>
      cases hstore : (node.followed env request).storeEntries request.entries with
      | error stopped => rw [hstore] at hafter; cases hafter
      | ok stored =>
        rw [hstore] at hafter
        exact .stored ⟨not_lt.mp hterm, logOk_followed.mp (not_not.mp hok)⟩ hstore hafter

/-- What a step with an answer to such a request leaves. -/
inductive AnswerOutcome [Platform] (env : Env) (node : RaftNode)
    (response : AppendEntriesResponse) :
    RaftNode → Prop
  | ignored (hnot : ¬ node.Confirms response) : AnswerOutcome env node response node
  | deposed (hlt : node.currentTerm < response.term) :
      AnswerOutcome env node response (node.increaseTermTo env response.term)
  | rejected {conflictIndex : ℕ} (hrole : node.role = .leader)
      (hterm : response.term = node.currentTerm) (hfailed : response.success = false)
      (hconflict : response.conflictIndex = some conflictIndex) :
      AnswerOutcome env node response
        { node with nextIndex := node.nextIndex.insert response.id conflictIndex }
  | confirmed {node' : RaftNode} (hconfirms : node.Confirms response)
      (hadvance : (node.recordMatch response.id response.lastLogIndex).advanceCommit env =
        .ok node') : AnswerOutcome env node response node'

theorem outcome_of_handleAppendEntriesResponse [Platform] {response : AppendEntriesResponse}
    (hafter : node.handleAppendEntriesResponse env response = .ok node') :
    AnswerOutcome env node response node' := by
  unfold handleAppendEntriesResponse at hafter
  split at hafter
  next hignored =>
    cases hafter
    refine .ignored fun h => ?_
    rcases hignored with hterm | hrole
    · exact absurd h.2.1 hterm.ne
    · exact absurd h.1 hrole
  next hleads =>
    rw [not_or, not_lt, not_not] at hleads
    split at hafter
    next hlt => cases hafter; exact .deposed hlt
    next hle =>
      have hterm := le_antisymm (not_lt.mp hle) hleads.1
      cases hsuccess : response.success with
      | false =>
        simp only [hsuccess, Bool.not_false, if_true] at hafter
        split at hafter
        next => cases hafter; exact .ignored fun h => Bool.false_ne_true (hsuccess.symm.trans h.2.2)
        next conflictIndex hconflict =>
          cases hafter
          exact .rejected hleads.2 hterm hsuccess hconflict
      | true =>
        simp only [hsuccess, Bool.not_true, Bool.false_eq_true, if_false] at hafter
        exact .confirmed ⟨hleads.2, hterm, hsuccess⟩ hafter

/-- The snapshot that the last chunk completes. -/
def installed [Platform] (node : RaftNode) (request : InstallSnapshotRequest) : Option Snapshot :=
  if request.term < node.currentTerm ∨ request.done = false then
    none
  else
    Platform.parseFromString
      ((if request.offset = 0 then [] else node.snapshotData) ++ request.data)

/-- What a step with a chunk of a snapshot leaves. -/
inductive ChunkOutcome [Platform] (env : Env) (node : RaftNode) (request : InstallSnapshotRequest) :
    RaftNode → Prop
  | late (hlate : request.term < node.currentTerm) (hnone : node.installed request = none) :
      ChunkOutcome env node request node
  | received (hterm : node.currentTerm ≤ request.term) (hnone : node.installed request = none)
      (data : List UInt8) : ChunkOutcome env node request
        { (node.catchUp env request.term).heardFrom env request.leaderId with snapshotData := data }
  | installed {snapshot : Snapshot} (hterm : node.currentTerm ≤ request.term)
      (hinstalled : node.installed request = some snapshot) (data : List UInt8) :
      ChunkOutcome env node request
        { (node.catchUp env request.term).heardFrom env request.leaderId with
          snapshotData := data
          logs := node.logs.loadSnapshot snapshot
          stateMachine := node.stateMachine.loadSnapshot snapshot }

theorem outcome_of_handleInstallSnapshotRequest [Platform] {request : InstallSnapshotRequest}
    (hafter : (node.handleInstallSnapshotRequest env request).1 = node') :
    ChunkOutcome env node request node' := by
  have hheard : KeepsData node ((node.catchUp env request.term).heardFrom env request.leaderId) :=
    catchUp_keepsData.trans heardFrom_keepsData
  subst hafter
  unfold handleInstallSnapshotRequest
  split
  next hlate => exact .late hlate (if_pos (Or.inl hlate))
  next hterm =>
    have hge := not_lt.mp hterm
    simp only [hheard.snapshotData]
    cases hdone : request.done with
    | false => exact .received hge (if_pos (Or.inr hdone)) _
    | true =>
      have hparsed : node.installed request = Platform.parseFromString
          ((if request.offset = 0 then [] else node.snapshotData) ++ request.data) :=
        if_neg (by simp [hterm, hdone])
      simp only [Bool.not_true, Bool.false_eq_true, if_false]
      split
      next hnone => exact .received hge (hparsed.trans hnone) _
      next snapshot hsome =>
        rw [hheard.logs, hheard.stateMachine]
        exact .installed hge (hparsed.trans hsome) _

/-! ## The kinds of steps -/

/-- The command of a client that a leader appends to its log. -/
def accepted (env : Env) (node : RaftNode) : Input → Option EntryCommand
  | .makeDir request =>
    if node.refusal env request.token = none then
      some (.mkdir { request with timestamp := env.requestMs })
    else
      none
  | .uploadFile request =>
    if node.refusal env request.token = none then some (.uploadFile request) else none
  | _ => none

/-- What a step with a command of a client leaves. -/
inductive CommandOutcome (env : Env) (node : RaftNode) (input : Input) : RaftNode → Prop
  | refused (hnone : node.accepted env input = none) : CommandOutcome env node input node
  | appended {command : EntryCommand} (haccepted : node.accepted env input = some command)
      (response : PendingResponse) :
      CommandOutcome env node input (node.appendCommand command response)

variable [Platform]

theorem outcome_of_makeDir {request : MakeDirRequest}
    (hafter : node.after env (.makeDir request) = .ok node') :
    CommandOutcome env node (.makeDir request) node' := by
  cases hafter
  unfold handleMakeDirRequest
  split
  next hrefusal => exact .refused (if_neg (by rw [hrefusal]; nofun))
  next hserved =>
    have haccepted : node.accepted env (.makeDir request) =
        some (.mkdir { request with timestamp := env.requestMs }) := if_pos hserved
    exact .appended haccepted _

theorem outcome_of_uploadFile {request : UploadFileRequest}
    (hafter : node.after env (.uploadFile request) = .ok node') :
    CommandOutcome env node (.uploadFile request) node' := by
  cases hafter
  unfold handleUploadFileRequest
  split
  next hrefusal => exact .refused (if_neg (by rw [hrefusal]; nofun))
  next hserved =>
    have haccepted : node.accepted env (.uploadFile request) = some (.uploadFile request) :=
      if_pos hserved
    exact .appended haccepted _

/-- Preparing an upload changes the state machine only. -/
theorem exists_of_prepareUploadFile {request : PrepareUploadFileRequest}
    (hafter : node.after env (.prepareUploadFile request) = .ok node') :
    ∃ stateMachine, node' = { node with stateMachine := stateMachine } := by
  obtain ⟨stateMachine, hshape⟩ := @handlePrepareUploadFileRequest_shape env node _ request
  simp only [after] at hafter
  rw [hafter] at hshape
  exact ⟨stateMachine, hshape⟩

/-- Heartbeats only read from snapshots. -/
theorem moves_of_heartbeat (hafter : node.after env .heartbeat = .ok node') :
    MovesSnapshotter node node' := by
  have hmoves := @heartbeatLoop_moves env node
  simp only [after] at hafter
  rwa [hafter] at hmoves

theorem applyNext_keepsRaft (happly : node.applyNext env = .ok node') : KeepsRaft node node' := by
  obtain ⟨entry, -, hround⟩ := round_of_applyNext happly
  cases hround <;> constructor <;> rfl

theorem applyRounds_keepsRaft {rounds : ℕ} (happly : applyRounds env rounds node = .ok node') :
    KeepsRaft node node' := by
  induction rounds generalizing node with
  | zero => cases happly; exact KeepsRaft.refl
  | succ rounds ih =>
    obtain ⟨next, hnext, happly⟩ := exists_of_applyRounds happly
    exact (applyNext_keepsRaft hnext).trans (ih happly)

theorem applyEntry_keepsRaft {commitIndex : ℕ}
    (happly : ({ node with commitIndex := commitIndex } : RaftNode).applyEntry env = .ok node') :
    KeepsRaft node node' := by
  have hcommitted : KeepsRaft node { node with commitIndex := commitIndex } := by
    constructor <;> rfl
  exact hcommitted.trans (applyRounds_keepsRaft happly)

theorem MovesCommit.keepsRaft (hmoves : MovesCommit env node node') : KeepsRaft node node' := by
  cases hmoves with
  | stays same => rw [same]; exact KeepsRaft.refl
  | moves _ happly => exact applyEntry_keepsRaft happly

/-- A request that is not rejected for its term has the node catch up, and no more. -/
theorem afterEntries_keepsRaft {request : AppendEntriesRequest}
    (hterm : node.currentTerm ≤ request.term)
    (hafter : node.afterEntries env request = .ok node') :
    KeepsRaft (node.catchUp env request.term) node' := by
  have hfollowed : KeepsRaft (node.catchUp env request.term) (node.followed env request) :=
    heardFrom_keepsRaft
  cases outcome_of_afterEntries hafter with
  | late hlate => exact absurd hterm (not_le.mpr hlate)
  | rejected => exact hfollowed
  | stored _ hstore hfollow =>
    exact (hfollowed.trans (storeEntries_keepsRaft hstore)).trans
      (movesCommit_of_followCommit hfollow).keepsRaft

/-- What a step does to the terms, the log and the indexes of a node. -/
inductive Effect (env : Env) (node : RaftNode) : Input → RaftNode → Prop
  | keeps {input : Input} {node' : RaftNode} (hkeeps : KeepsState node node') :
      Effect env node input node'
  | entries {src : ℕ} {request : AppendEntriesRequest} {node' : RaftNode}
      (hafter : node.afterEntries env request = .ok node') :
      Effect env node (.deliver src (.appendEntriesRequest request)) node'
  | commits {src : ℕ} {response : AppendEntriesResponse} {node' : RaftNode}
      (hadvance : (node.recordMatch response.id response.lastLogIndex).advanceCommit env =
        .ok node') :
      Effect env node (.deliver src (.appendEntriesResponse response)) node'
  | installs {src : ℕ} {request : InstallSnapshotRequest} {snapshot : Snapshot}
      {node' : RaftNode} (hinstalled : node.installed request = some snapshot)
      (hlogs : node'.logs = node.logs.loadSnapshot snapshot)
      (hstateMachine : node'.stateMachine = node.stateMachine.loadSnapshot snapshot) :
      Effect env node (.deliver src (.installSnapshotRequest request)) node'
  | appends {input : Input} {command : EntryCommand} {response : PendingResponse}
      (haccepted : node.accepted env input = some command) :
      Effect env node input (node.appendCommand command response)
  | prepares {request : PrepareUploadFileRequest} {stateMachine : StateMachine}
      {response : PrepareUploadFileResponse} (hserved : node.refusal env request.token = none)
      (hprepare : node.stateMachine.prepareUploadFile request = some (stateMachine, response)) :
      Effect env node (.prepareUploadFile request) { node with stateMachine := stateMachine }

theorem handleAppendEntriesResponse_effect {src : ℕ} {response : AppendEntriesResponse}
    (hafter : node.handleAppendEntriesResponse env response = .ok node') :
    Effect env node (.deliver src (.appendEntriesResponse response)) node' := by
  cases outcome_of_handleAppendEntriesResponse hafter with
  | ignored => exact .keeps KeepsState.refl
  | deposed => exact .keeps ⟨rfl, rfl, rfl⟩
  | rejected => exact .keeps ⟨rfl, rfl, rfl⟩
  | confirmed _ hadvance => exact .commits hadvance

theorem handleInstallSnapshotRequest_effect {src : ℕ} {request : InstallSnapshotRequest} :
    Effect env node (.deliver src (.installSnapshotRequest request))
      (node.handleInstallSnapshotRequest env request).1 := by
  have hheard : KeepsState node ((node.catchUp env request.term).heardFrom env request.leaderId) :=
    (catchUp_keepsData.trans heardFrom_keepsData).keepsState
  generalize hafter : (node.handleInstallSnapshotRequest env request).1 = node'
  cases outcome_of_handleInstallSnapshotRequest hafter with
  | late => exact .keeps KeepsState.refl
  | received => exact .keeps (hheard.trans ⟨rfl, rfl, rfl⟩)
  | installed _ hinstalled => exact .installs hinstalled rfl rfl

/-- **What a step can do.** -/
theorem effect_of_after {input : Input} (hafter : node.after env input = .ok node') :
    Effect env node input node' := by
  cases input with
  | electionTimeout => cases hafter; exact .keeps electionLoop_keepsData.keepsState
  | heartbeat => exact .keeps (moves_of_heartbeat hafter).keepsData.keepsState
  | deliver src message =>
    cases message with
    | requestVoteRequest request =>
    cases hafter
    exact .keeps handleRequestVoteRequest_keepsData.keepsState
    | requestVoteResponse response =>
      cases hafter
      exact .keeps handleRequestVoteResponse_keepsData.keepsState
    | appendEntriesRequest request => exact .entries hafter
    | appendEntriesResponse response => exact handleAppendEntriesResponse_effect hafter
    | installSnapshotRequest request => cases hafter; exact handleInstallSnapshotRequest_effect
    | installSnapshotResponse response =>
    exact .keeps (handleInstallSnapshotResponse_keepsData hafter).keepsState
  | listDir request => cases hafter; exact .keeps KeepsState.refl
  | makeDir request =>
    cases outcome_of_makeDir hafter with
    | refused => exact .keeps KeepsState.refl
    | appended haccepted => exact .appends haccepted
  | prepareUploadFile request =>
    simp only [after, handlePrepareUploadFileRequest] at hafter
    split at hafter
    next => cases hafter; exact .keeps KeepsState.refl
    next hnone =>
      split at hafter
      next => cases hafter
      next stateMachine response hprepare => cases hafter; exact .prepares hnone hprepare
  | uploadFile request =>
    cases outcome_of_uploadFile hafter with
    | refused => exact .keeps KeepsState.refl
    | appended haccepted => exact .appends haccepted
  | prepareDownloadFile request => cases hafter; exact .keeps KeepsState.refl

/-! ## The place of a node in the cluster -/

theorem transport_of_afterEntries {request : AppendEntriesRequest}
    (hafter : node.afterEntries env request = .ok node') : node'.transport = node.transport := by
  cases outcome_of_afterEntries hafter with
  | late => rfl
  | rejected => exact followed_keepsData.transport
  | stored _ hstore hfollow =>
    rw [(movesCommit_of_followCommit hfollow).keepsRaft.transport,
      (storeEntries_keepsRaft hstore).transport]
    exact followed_keepsData.transport

theorem transport_handleAppendEntriesResponse {response : AppendEntriesResponse}
    (hafter : node.handleAppendEntriesResponse env response = .ok node') :
    node'.transport = node.transport := by
  cases outcome_of_handleAppendEntriesResponse hafter with
  | ignored => rfl
  | deposed => rfl
  | rejected => rfl
  | confirmed _ hadvance => exact (movesCommit_of_advanceCommit hadvance).keepsRaft.transport

theorem transport_handleInstallSnapshotRequest {request : InstallSnapshotRequest} :
    (node.handleInstallSnapshotRequest env request).1.transport = node.transport := by
  generalize hafter : (node.handleInstallSnapshotRequest env request).1 = node'
  cases outcome_of_handleInstallSnapshotRequest hafter with
  | late => rfl
  | received => exact catchUp_keepsData.transport
  | installed => exact catchUp_keepsData.transport

theorem transport_of_after {input : Input} (hafter : node.after env input = .ok node') :
    node'.transport = node.transport := by
  cases input with
  | electionTimeout => cases hafter; exact electionLoop_keepsData.transport
  | heartbeat => exact (moves_of_heartbeat hafter).keepsRaft.transport
  | deliver src message =>
    cases message with
    | requestVoteRequest request => cases hafter; exact handleRequestVoteRequest_keepsData.transport
    | requestVoteResponse response =>
    cases hafter
    exact handleRequestVoteResponse_keepsData.transport
    | appendEntriesRequest request => exact transport_of_afterEntries hafter
    | appendEntriesResponse response => exact transport_handleAppendEntriesResponse hafter
    | installSnapshotRequest request => cases hafter; exact transport_handleInstallSnapshotRequest
    | installSnapshotResponse response =>
      exact (handleInstallSnapshotResponse_keepsData hafter).transport
  | listDir request => cases hafter; rfl
  | makeDir request => cases outcome_of_makeDir hafter <;> rfl
  | prepareUploadFile request => obtain ⟨_, rfl⟩ := exists_of_prepareUploadFile hafter; rfl
  | uploadFile request => cases outcome_of_uploadFile hafter <;> rfl
  | prepareDownloadFile request => cases hafter; rfl

omit [Platform] in
/-- The member id is a part of the transport. -/
theorem memberId_of_transport (htransport : node'.transport = node.transport) :
    node'.memberId = node.memberId := by
  unfold memberId
  rw [htransport]

end RaftNode

end Vosfs.Raft
