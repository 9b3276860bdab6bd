import Mathlib.Data.List.Sort
import Vosfs.Raft.Snapshotter
import Vosfs.Raft.StateMachine

/-!
# The metadata node

`RaftNode` with its two loops, its message handlers and its client handlers.  Each
runs under the node's mutex from the moment it reads the state until it is done, so
one iteration or one call is one step; what is sent is sent when the mutex is
released, and may arrive at any later time.

A step returns `.error node` when it does not return in the source: an assertion
failed, or a lock is never released.  `node` is the state reached by then; only its
disk matters, for a restart.

Clocks, random timeouts, tokens and the outcome of file operations come from `Env`.
Dropped are the atomics' memory orders, the log output, and the shutdown of the
loops.
-/

namespace Vosfs.Raft

/-- The number of entries in a request. -/
def maxAppendEntriesSize : ℕ :=
  64

/-- A snapshot is saved at the multiples of this index. -/
def snapshotInterval : ℕ :=
  10

/-- What a node is configured with. -/
structure Config where
  memberId : ℕ
  /-- The ids of all members, this one included. -/
  raftNodes : List ℕ
  nodup : raftNodes.Nodup
  dataNodes : List ℕ := []

/-! The members of small clusters. -/

theorem nodup_twoMembers : [1, 2].Nodup := by decide

theorem nodup_threeMembers : [1, 2, 3].Nodup := by decide

theorem nodup_fourMembers : [1, 2, 3, 4].Nodup := by decide

/-- The members as a node knows them. -/
structure Transport where
  memberId : ℕ
  peers : List ℕ
  nodup : peers.Nodup

/-- The transport of a configured node. -/
def Transport.ofConfig (config : Config) : Transport :=
  ⟨config.memberId, config.raftNodes, config.nodup⟩

/-- The number of members. -/
def Transport.clusterSize (transport : Transport) : ℕ :=
  transport.peers.length

/-- What nodes send each other. -/
inductive Message
  | requestVoteRequest (request : RequestVoteRequest)
  | requestVoteResponse (response : RequestVoteResponse)
  | appendEntriesRequest (request : AppendEntriesRequest)
  | appendEntriesResponse (response : AppendEntriesResponse)
  | installSnapshotRequest (request : InstallSnapshotRequest)
  | installSnapshotResponse (response : InstallSnapshotResponse)
  deriving DecidableEq, Repr

/-- A message on its way. -/
structure Packet where
  src : ℕ
  dst : ℕ
  message : Message
  deriving DecidableEq, Repr

/-- What a client is answered. -/
inductive Reply
  | listDir (response : ListDirResponse)
  | makeDir (response : MakeDirResponse)
  | prepareUploadFile (response : PrepareUploadFileResponse)
  | uploadFile (response : UploadFileResponse)
  | prepareDownloadFile (response : PrepareDownloadFileResponse)
  deriving DecidableEq, Repr

/-- What leaves a node in one step.  A suspended client gets no reply yet. -/
structure Output where
  packets : List Packet := []
  reply : Option Reply := none
  deriving DecidableEq, Repr

/-- What a step reads from its surroundings. -/
structure Env where
  /-- `util::current_ms()`. -/
  monotonicMs : ℕ := 0
  electionTimeout : ℕ := 150
  /-- `kosio::util::current_ms()` when a request comes in. -/
  requestMs : ℕ := 0
  /-- `kosio::util::current_ms()` while the entry at an index is applied. -/
  applyMs : ℕ → ℕ := fun _ => 0
  vertifyToken : String → Bool := fun _ => true
  /-- How the file operations for a snapshot end, by index or by member. -/
  fileOutcome : ℕ → FileOutcome := fun _ => .done
  statxFails : Bool := false

/-- What a node is in its term. -/
inductive Role
  | leader
  | follower
  | candidate
  deriving DecidableEq, Repr

/-- The fields of `RaftNode`, with the disk. -/
structure RaftNode where
  lastResetTime : ℕ := 0
  snapshotter : Snapshotter
  snapshotData : List UInt8 := []
  stateMachine : StateMachine
  /-- The database of the persister, and the snapshot files. -/
  disk : Disk Payload
  logs : RaftLog
  transport : Transport
  hardState : HardState
  votes : ℕ := 0
  role : Role := .follower
  commitIndex : ℕ := 0
  lastApplied : ℕ := 0
  leaderId : Option ℕ := none
  nextIndex : UnorderedMap ℕ ℕ := ∅
  matchIndex : UnorderedMap ℕ ℕ := ∅
  /-- History: the terms in which `becomeLeader` ran. -/
  led : List ℕ := []
  /-- History: what was applied, and at which position. -/
  applied : List (ℕ × LogEntry) := []

namespace RaftNode

/-- The id of the node itself. -/
def memberId (node : RaftNode) : ℕ :=
  node.transport.memberId

/-- The term of the hard state. -/
def currentTerm (node : RaftNode) : ℕ :=
  node.hardState.currentTerm

/-- A message to another member. -/
def send (node : RaftNode) (dst : ℕ) (message : Message) : Packet :=
  ⟨node.memberId, dst, message⟩

/-- The hard state is written to the disk. -/
def saveHardState (node : RaftNode) : RaftNode :=
  { node with disk := Persister.saveHardState node.disk node.hardState }

/-! ## Terms and leadership -/

/-- A follower of the term that has not voted; the leader it knew stays recorded. -/
def increaseTermTo (env : Env) (node : RaftNode) (term : ℕ) : RaftNode :=
  { node with
    votes := 0
    hardState := { currentTerm := term, votedFor := none }
    role := .follower
    lastResetTime := env.monotonicMs }.saveHardState

/-- A leader clears its own vote, and starts at the end of its log with every member. -/
def becomeLeader (node : RaftNode) : RaftNode :=
  let node := { node with
    votes := 0
    hardState := { node.hardState with votedFor := none }
    role := .leader }.saveHardState
  { node with
    leaderId := some node.memberId
    nextIndex := node.transport.peers.foldl
      (fun nextIndex id => nextIndex.insert id (node.logs.lastLogIndex + 1)) node.nextIndex
    matchIndex := node.transport.peers.foldl
      (fun matchIndex id => matchIndex.insert id 0) node.matchIndex
    snapshotter := node.snapshotter.resetOffsets
    led := node.led ++ [node.currentTerm] }

/-- Leads if the votes are more than half of the cluster. -/
def tryToLead (node : RaftNode) : RaftNode :=
  if node.transport.clusterSize / 2 < node.votes ∧ node.role = .candidate then
    node.becomeLeader
  else
    node

theorem currentTerm_tryToLead {node : RaftNode} :
    node.tryToLead.currentTerm = node.currentTerm := by
  unfold tryToLead
  split <;> rfl

/-- The next term, in which the node votes for itself; the vote is counted later. -/
def startElection (node : RaftNode) : RaftNode :=
  let currentTerm := u64 (node.currentTerm + 1)
  { node with
    votes := 0
    hardState := { currentTerm := currentTerm, votedFor := some node.memberId }
    role := .candidate }.saveHardState

/-- The own vote is counted. -/
def voteForSelf (node : RaftNode) : RaftNode :=
  { node with votes := node.votes + 1 }

/-- Whether the timeout passed since the last reset, in wrapping arithmetic. -/
def TimedOut (env : Env) (node : RaftNode) : Prop :=
  env.electionTimeout ≤ u64 (env.monotonicMs + 2 ^ 64 - node.lastResetTime)

instance (env : Env) (node : RaftNode) : Decidable (TimedOut env node) :=
  inferInstanceAs (Decidable (_ ≤ _))

/-- One iteration of `election_loop`. -/
def electionLoop (env : Env) (node : RaftNode) : RaftNode × List Packet :=
  if ¬ TimedOut env node ∨ node.role = .leader then
    (node, [])
  else
    let node := node.startElection
    let request : RequestVoteRequest :=
      { term := node.currentTerm
        candidateId := node.memberId
        lastLogIndex := node.logs.lastLogIndex
        lastLogTerm := node.logs.lastLogTerm }
    let node := node.voteForSelf.tryToLead
    ({ node with lastResetTime := env.monotonicMs },
      (node.transport.peers.filter (· ≠ node.memberId)).map fun id =>
        node.send id (.requestVoteRequest request))

/-- The voter's test of the candidate's log. -/
def UpToDateLog (node : RaftNode) (request : RequestVoteRequest) : Prop :=
  node.logs.lastLogIndex < request.lastLogIndex ∨
    (request.lastLogIndex = node.logs.lastLogIndex ∧ request.lastLogTerm = node.logs.lastLogTerm)

instance (node : RaftNode) (request : RequestVoteRequest) :
    Decidable (UpToDateLog node request) :=
  inferInstanceAs (Decidable (_ ∨ _))

/-- The vote of the term is free or was given to the candidate, whose log is good enough. -/
def CanVote (node : RaftNode) (request : RequestVoteRequest) : Prop :=
  (node.hardState.votedFor = none ∨ node.hardState.votedFor = some request.candidateId) ∧
    UpToDateLog node request

instance (node : RaftNode) (request : RequestVoteRequest) : Decidable (CanVote node request) :=
  inferInstanceAs (Decidable (_ ∧ _))

/-- Moves to a later term seen in a message. -/
def catchUp (env : Env) (node : RaftNode) (term : ℕ) : RaftNode :=
  if node.currentTerm < term then node.increaseTermTo env term else node

theorem currentTerm_catchUp {env : Env} {node : RaftNode} {term : ℕ}
    (hle : node.currentTerm ≤ term) : (node.catchUp env term).currentTerm = term := by
  unfold catchUp
  split
  next => rfl
  next hge => exact le_antisymm hle (not_lt.mp hge)

theorem logs_catchUp {env : Env} {node : RaftNode} {term : ℕ} :
    (node.catchUp env term).logs = node.logs := by
  unfold catchUp
  split <;> rfl

theorem snapshotter_catchUp {env : Env} {node : RaftNode} {term : ℕ} :
    (node.catchUp env term).snapshotter = node.snapshotter := by
  unfold catchUp
  split <;> rfl

/-- The vote is given in memory; no caller saves it. -/
def grantVote (env : Env) (node : RaftNode) (candidateId : ℕ) : RaftNode :=
  { node with
    hardState := { node.hardState with votedFor := some candidateId }
    lastResetTime := env.monotonicMs }

/-- The term is saved where it grows, and the vote is not. -/
def handleRequestVoteRequest (env : Env) (node : RaftNode) (request : RequestVoteRequest) :
    RaftNode × RequestVoteResponse :=
  if request.term < node.currentTerm then
    (node, { id := node.memberId, term := node.currentTerm, voteGranted := false })
  else
    let node := node.catchUp env request.term
    if CanVote node request then
      (node.grantVote env request.candidateId,
        { id := node.memberId, term := node.currentTerm, voteGranted := true })
    else
      (node, { id := node.memberId, term := node.currentTerm, voteGranted := false })

/-- A vote of the current term counts, and with more than half of them the candidate leads. -/
def handleRequestVoteResponse (env : Env) (node : RaftNode) (response : RequestVoteResponse) :
    RaftNode :=
  if response.term < node.currentTerm then
    node
  else if node.currentTerm < response.term then
    node.increaseTermTo env response.term
  else if node.role = .leader then
    node
  else if response.voteGranted then
    { node with votes := node.votes + 1 }.tryToLead
  else
    node

/-! ## Applying committed entries -/

section Apply

variable [Platform]

/-- Saves a snapshot.  `save_snapshot` takes it by value and `load_snapshot` is then
called on the moved-from message, which is empty. -/
def snapshotAt (env : Env) (node : RaftNode) (index : ℕ) : Except RaftNode RaftNode :=
  match node.logs.getTerm index with
  | none => .error node
  | some term =>
    let snapshot := node.stateMachine.takeSnapshot
      { lastIncludedIndex := index, lastIncludedTerm := term }
    match node.snapshotter.saveSnapshot (env.fileOutcome index) node.disk snapshot with
    | none => .error node
    | some (.error _, disk) => .ok { node with disk := disk }
    | some (.ok snapshotter, disk) =>
      .ok { node with
        disk := disk
        snapshotter := snapshotter
        logs := node.logs.loadSnapshot {} }

/-- The state machine's part of a round. -/
def applyToStateMachine (env : Env) (node : RaftNode) (entry : LogEntry) : RaftNode :=
  { node with
    stateMachine :=
      if node.role = .leader then
        node.stateMachine.applyEntry (env.applyMs node.lastApplied) entry
      else
        node.stateMachine.applyEntryNoResponse (env.applyMs node.lastApplied) entry
    applied := node.applied ++ [(node.lastApplied, entry)] }

/-- One round of the loop. -/
def applyNext (env : Env) (node : RaftNode) : Except RaftNode RaftNode :=
  let node := { node with lastApplied := node.lastApplied + 1 }
  match node.logs.getEntry node.lastApplied with
  | none => .error node
  | some entry =>
    let node := node.applyToStateMachine env entry
    if node.lastApplied % snapshotInterval = 0 then
      node.snapshotAt env node.lastApplied
    else
      .ok node

/-- The loop of `apply_entry`, for a number of rounds. -/
def applyRounds (env : Env) : ℕ → RaftNode → Except RaftNode RaftNode
  | 0, node => .ok node
  | rounds + 1, node =>
    match node.applyNext env with
    | .error node => .error node
    | .ok node => applyRounds env rounds node

/-- The loop runs until `lastApplied` reaches `commitIndex`, one position a round. -/
def applyEntry (env : Env) (node : RaftNode) : Except RaftNode RaftNode :=
  applyRounds env (node.commitIndex - node.lastApplied) node

/-! ## Replication -/

/-- The request continues the log: the preceding entry is there, with its term. -/
def LogOk (node : RaftNode) (request : AppendEntriesRequest) : Prop :=
  request.prevLogIndex ≤ node.logs.lastLogIndex ∧
    node.logs.lastIncludedIndex ≤ request.prevLogIndex ∧
    node.logs.getTerm request.prevLogIndex = some request.prevLogTerm

instance (node : RaftNode) (request : AppendEntriesRequest) : Decidable (LogOk node request) :=
  inferInstanceAs (Decidable (_ ∧ _))

/-- Looks for the first entry that conflicts with the log, and drops the log from
there on. -/
def dropConflicts : List LogEntry → RaftNode → Except RaftNode RaftNode
  | [], node => .ok node
  | entry :: rest, node =>
    if node.logs.lastLogIndex < entry.index then
      .ok node
    else
      match node.logs.getTerm entry.index with
      | none => .error node
      | some term =>
        if term ≠ entry.term then
          let node := { node with
            disk := Persister.truncateEntries node.disk entry.index node.logs.lastLogIndex }
          match node.logs.truncateEntriesBefore entry.index with
          | none => .error node
          | some logs => .ok { node with logs := logs }
        else
          dropConflicts rest node

/-- Conflicting entries are dropped, and the whole batch is appended behind what is left. -/
def storeEntries (node : RaftNode) (entries : List LogEntry) : Except RaftNode RaftNode :=
  if entries.isEmpty then
    .ok node
  else
    match dropConflicts entries node with
    | .error node => .error node
    | .ok node =>
      .ok { node with
        disk := Persister.saveEntries node.disk entries
        logs := node.logs.appendEntries entries }

/-- Follows the leader's commit index as far as the own log goes. -/
def followCommit (env : Env) (node : RaftNode) (leaderCommit : ℕ) : Except RaftNode RaftNode :=
  if node.commitIndex < leaderCommit then
    { node with commitIndex := min node.logs.lastLogIndex leaderCommit }.applyEntry env
  else
    .ok node

/-- The node takes the sender for the leader, and waits again. -/
def heardFrom (env : Env) (node : RaftNode) (leaderId : ℕ) : RaftNode :=
  { node with leaderId := some leaderId, lastResetTime := env.monotonicMs }

/-- Entries are stored where they continue the log, and the commit index follows the leader's. -/
def handleAppendEntriesRequest (env : Env) (node : RaftNode) (request : AppendEntriesRequest) :
    Except RaftNode (RaftNode × AppendEntriesResponse) :=
  if request.term < node.currentTerm then
    .ok (node, { id := node.memberId, term := node.currentTerm, success := false,
                 lastLogIndex := node.logs.lastLogIndex })
  else
    let node := (node.catchUp env request.term).heardFrom env request.leaderId
    if ¬ LogOk node request then
      .ok (node, { id := node.memberId, term := node.currentTerm, success := false,
                   lastLogIndex := node.logs.lastLogIndex,
                   conflictIndex := some request.prevLogIndex })
    else
      match node.storeEntries request.entries with
      | .error node => .error node
      | .ok node =>
        match node.followCommit env request.leaderCommit with
        | .error node => .error node
        | .ok node =>
          .ok (node, { id := node.memberId, term := node.currentTerm, success := true,
                       lastLogIndex := node.logs.lastLogIndex })

/-- `idxs[idxs.size() / 2]` of the sorted match indices; there is at least one. -/
def quorumIndex (matchIndex : UnorderedMap ℕ ℕ) : ℕ :=
  let idxs := matchIndex.values.insertionSort (· ≤ ·)
  idxs.getD (idxs.length / 2) 0

/-- Takes over the index a member reports. -/
def recordMatch (node : RaftNode) (id lastLogIndex : ℕ) : RaftNode :=
  { node with
    matchIndex := node.matchIndex.insert id lastLogIndex
    nextIndex := node.nextIndex.insert id (lastLogIndex + 1) }

/-- Commits what the quorum index covers. -/
def advanceCommit (env : Env) (node : RaftNode) : Except RaftNode RaftNode :=
  if node.commitIndex < quorumIndex node.matchIndex then
    { node with commitIndex := quorumIndex node.matchIndex }.applyEntry env
  else
    .ok node

/-- A leader records the match, or goes back to the conflict. -/
def handleAppendEntriesResponse (env : Env) (node : RaftNode) (response : AppendEntriesResponse) :
    Except RaftNode RaftNode :=
  if response.term < node.currentTerm ∨ node.role ≠ .leader then
    .ok node
  else if node.currentTerm < response.term then
    .ok (node.increaseTermTo env response.term)
  else if !response.success then
    match response.conflictIndex with
    | none => .ok node
    | some conflictIndex =>
      .ok { node with nextIndex := node.nextIndex.insert response.id conflictIndex }
  else
    (node.recordMatch response.id response.lastLogIndex).advanceCommit env

/-! ## Snapshots -/

/-- Nothing is sent without received snapshot data; otherwise the snapshotter stays locked by
`offset_at`. -/
def sendSnapshot (env : Env) (node : RaftNode) (memberId : ℕ) :
    Except RaftNode (RaftNode × List Packet) :=
  if node.snapshotData.isEmpty then
    .ok (node, [])
  else
    match node.snapshotter.offsetAt memberId with
    | none => .error node
    | some (offset, snapshotter) =>
      let node := { node with snapshotter := snapshotter }
      if offset ≠ 0 then
        .ok (node, [])
      else
        let request : InstallSnapshotRequest :=
          { term := node.currentTerm
            leaderId := node.memberId
            lastIncludedIndex := node.logs.lastIncludedIndex
            lastIncludedTerm := node.logs.lastIncludedTerm }
        match snapshotter.loadSnapshotData (env.fileOutcome memberId) node.disk memberId request with
        | none => .error node
        | some (.error _, snapshotter) => .ok ({ node with snapshotter := snapshotter }, [])
        | some (.ok request, snapshotter) =>
          .ok ({ node with snapshotter := snapshotter },
            [node.send memberId (.installSnapshotRequest request)])

/-- A chunk is appended to the buffer, which is parsed and installed with the last one. -/
def handleInstallSnapshotRequest (env : Env) (node : RaftNode) (request : InstallSnapshotRequest) :
    RaftNode × InstallSnapshotResponse :=
  if request.term < node.currentTerm then
    (node, { id := node.memberId, term := node.currentTerm })
  else
    let node := (node.catchUp env request.term).heardFrom env request.leaderId
    let response : InstallSnapshotResponse := { id := node.memberId, term := node.currentTerm }
    let received := (if request.offset = 0 then [] else node.snapshotData) ++ request.data
    if !request.done then
      ({ node with snapshotData := received }, response)
    else
      match Platform.parseFromString received with
      | none => ({ node with snapshotData := [] }, response)
      | some snapshot =>
        ({ node with
            snapshotData := received
            logs := node.logs.loadSnapshot snapshot
            stateMachine := node.stateMachine.loadSnapshot snapshot }, response)

/-- A node that hears of a later term steps down, and goes on sending otherwise. -/
def handleInstallSnapshotResponse (env : Env) (node : RaftNode)
    (response : InstallSnapshotResponse) : Except RaftNode (RaftNode × List Packet) :=
  if node.currentTerm < response.term then
    .ok (node.increaseTermTo env response.term, [])
  else
    node.sendSnapshot env response.id

/-! ## Heartbeats -/

/-- The request to one member; past the first branch `nextIndex` is positive. -/
def heartbeatTo (env : Env) (node : RaftNode) (memberId nextIndex : ℕ) :
    Except RaftNode (RaftNode × List Packet) :=
  if memberId = node.memberId then
    .ok (node, [])
  else if nextIndex ≤ node.logs.lastLogIndex ∧ nextIndex ≤ node.logs.lastIncludedIndex then
    node.sendSnapshot env memberId
  else
    let entries :=
      if nextIndex ≤ node.logs.lastLogIndex then
        node.logs.getEntries nextIndex
          (min maxAppendEntriesSize (node.logs.lastLogIndex - nextIndex + 1))
      else
        some []
    match entries, node.logs.getTerm (nextIndex - 1) with
    | some entries, some prevLogTerm =>
      .ok (node, [node.send memberId (.appendEntriesRequest
        { term := node.currentTerm
          leaderId := node.memberId
          prevLogIndex := nextIndex - 1
          prevLogTerm := prevLogTerm
          entries := entries
          leaderCommit := node.commitIndex })])
    | _, _ => .error node

/-- What `heartbeat_loop` sends to one member after another. -/
def heartbeats (env : Env) : List (ℕ × ℕ) → RaftNode → Except RaftNode (RaftNode × List Packet)
  | [], node => .ok (node, [])
  | (memberId, nextIndex) :: rest, node =>
    match node.heartbeatTo env memberId nextIndex with
    | .error node => .error node
    | .ok (node, packets) =>
      match heartbeats env rest node with
      | .error node => .error node
      | .ok (node, more) => .ok (node, packets ++ more)

/-- One iteration of `heartbeat_loop`. -/
def heartbeatLoop (env : Env) (node : RaftNode) : Except RaftNode (RaftNode × List Packet) :=
  if node.role ≠ .leader then
    .ok (node, [])
  else
    heartbeats env node.nextIndex.pairs node

/-! ## Clients -/

/-- What a handler reports when it cannot serve a request, if anything. -/
def refusal (env : Env) (node : RaftNode) (token : String) : Option (StatusCode × String) :=
  if !env.vertifyToken token then
    some (.permissionDenied, "无效 Token")
  else if node.role ≠ .leader then
    some (.notLeader, (node.leaderId.map toString).getD "")
  else
    none

/-- A leader answers from its own state machine. -/
def handleListDirRequest (env : Env) (node : RaftNode) (request : ListDirRequest) :
    ListDirResponse :=
  match node.refusal env request.token with
  | some (statusCode, message) => { statusCode := statusCode, message := message }
  | none => node.stateMachine.ls request

/-- Appends a client's command to the leader's log and suspends the client. -/
def appendCommand (node : RaftNode) (command : EntryCommand) (response : PendingResponse) :
    RaftNode :=
  let logIndex := node.logs.lastLogIndex + 1
  { node with
    logs := node.logs.appendEntry
      { term := node.currentTerm, index := logIndex, command := some command }
    stateMachine := node.stateMachine.appendRequest logIndex
      { handle := true, response := response } }

/-- A leader stamps the request and appends it; the client waits for the entry. -/
def handleMakeDirRequest (env : Env) (node : RaftNode) (request : MakeDirRequest) :
    RaftNode × Option MakeDirResponse :=
  match node.refusal env request.token with
  | some (statusCode, message) => (node, some { statusCode := statusCode, message := message })
  | none =>
    (node.appendCommand (.mkdir { request with timestamp := env.requestMs })
      (.mkdir { statusCode := .failed, message := "创建文件夹失败：未知错误" }), none)

/-- A leader appends the request; the client waits for the entry. -/
def handleUploadFileRequest (env : Env) (node : RaftNode) (request : UploadFileRequest) :
    RaftNode × Option UploadFileResponse :=
  match node.refusal env request.token with
  | some (statusCode, message) =>
    (node, some { statusCode := statusCode, message := message, ino := request.ino })
  | none =>
    (node.appendCommand (.uploadFile request)
      (.uploadFile { statusCode := .failed, message := "文件上传失败，未知错误" }), none)

/-- A leader prepares the upload at once, without an entry. -/
def handlePrepareUploadFileRequest (env : Env) (node : RaftNode)
    (request : PrepareUploadFileRequest) : Except RaftNode (RaftNode × PrepareUploadFileResponse) :=
  match node.refusal env request.token with
  | some (statusCode, message) => .ok (node, { statusCode := statusCode, message := message })
  | none =>
    match node.stateMachine.prepareUploadFile request with
    | none => .error node
    | some (stateMachine, response) => .ok ({ node with stateMachine := stateMachine }, response)

/-- A leader answers from its own state machine. -/
def handlePrepareDownloadFileRequest (env : Env) (node : RaftNode)
    (request : PrepareDownloadFileRequest) : PrepareDownloadFileResponse :=
  match node.refusal env request.token with
  | some (statusCode, message) => { statusCode := statusCode, message := message }
  | none => node.stateMachine.prepareDownloadFile request

end Apply

end RaftNode

/-! ## Steps -/

/-- What a node reacts to. -/
inductive Input
  | electionTimeout
  | heartbeat
  | deliver (src : ℕ) (message : Message)
  | listDir (request : ListDirRequest)
  | makeDir (request : MakeDirRequest)
  | prepareUploadFile (request : PrepareUploadFileRequest)
  | uploadFile (request : UploadFileRequest)
  | prepareDownloadFile (request : PrepareDownloadFileRequest)
  deriving DecidableEq, Repr

namespace RaftNode

variable [Platform]

/-- A delivered message, with what is sent in return. -/
def receive (env : Env) (node : RaftNode) (src : ℕ) :
    Message → Except RaftNode (RaftNode × List Packet)
  | .requestVoteRequest request =>
    let (node, response) := node.handleRequestVoteRequest env request
    .ok (node, [node.send src (.requestVoteResponse response)])
  | .requestVoteResponse response => .ok (node.handleRequestVoteResponse env response, [])
  | .appendEntriesRequest request =>
    (node.handleAppendEntriesRequest env request).map fun (node, response) =>
      (node, [node.send src (.appendEntriesResponse response)])
  | .appendEntriesResponse response =>
    (node.handleAppendEntriesResponse env response).map fun node => (node, [])
  | .installSnapshotRequest request =>
    let (node, response) := node.handleInstallSnapshotRequest env request
    .ok (node, [node.send src (.installSnapshotResponse response)])
  | .installSnapshotResponse response => node.handleInstallSnapshotResponse env response

/-- An iteration of a loop, a message or a client, with all that is sent in return. -/
def handle (env : Env) (node : RaftNode) : Input → Except RaftNode (RaftNode × Output)
  | .electionTimeout =>
    let (node, packets) := node.electionLoop env
    .ok (node, { packets := packets })
  | .heartbeat =>
    (node.heartbeatLoop env).map fun (node, packets) => (node, { packets := packets })
  | .deliver src message =>
    (node.receive env src message).map fun (node, packets) => (node, { packets := packets })
  | .listDir request =>
    .ok (node, { reply := some (.listDir (node.handleListDirRequest env request)) })
  | .makeDir request =>
    let (node, response) := node.handleMakeDirRequest env request
    .ok (node, { reply := response.map .makeDir })
  | .prepareUploadFile request =>
    (node.handlePrepareUploadFileRequest env request).map fun (node, response) =>
      (node, { reply := some (.prepareUploadFile response) })
  | .uploadFile request =>
    let (node, response) := node.handleUploadFileRequest env request
    .ok (node, { reply := response.map .uploadFile })
  | .prepareDownloadFile request =>
    .ok (node, { reply := some (.prepareDownloadFile
      (node.handlePrepareDownloadFileRequest env request)) })

omit [Platform] in
theorem exists_of_map_eq_ok {ε α β : Type*} {f : α → β} {result : Except ε α} {b : β}
    (hmap : result.map f = .ok b) : ∃ a, result = .ok a ∧ f a = b := by
  cases result with
  | error err => cases hmap
  | ok a => exact ⟨a, rfl, Except.ok.inj hmap⟩

/-! ## Starting and restarting -/

/-- Where `create` looks for a snapshot. -/
def snapshotFileName : String :=
  "raft/snapshot/snapshot.bin"

/-- Where a snapshot is written before it is renamed. -/
def snapshotTempFileName : String :=
  "raft/snapshot/snapshot.tmp"

/-- The file named first is the snapshotter's temporary file. -/
def newSnapshotter : Snapshotter :=
  { tmpPath := snapshotFileName, snapshotPath := snapshotTempFileName }

/-- The conversion from `uint64_t` to `int`. -/
def narrow (n : ℕ) : ℤ :=
  if n % 2 ^ 32 < 2 ^ 31 then (n % 2 ^ 32 : ℕ) else (n % 2 ^ 32 : ℕ) - 2 ^ 32

/-- 0 for a missing file, and -1 if `statx` fails for another reason. -/
def getFileSize (env : Env) (disk : Disk Payload) (path : String) : ℤ :=
  if env.statxFails then -1 else narrow ((disk.file path).getD []).length

/-- The snapshot found at the start, and what it leaves of the snapshotter. -/
def findSnapshot (env : Env) (disk : Disk Payload) :
    Except Error (Option Snapshot × Snapshotter) :=
  if getFileSize env disk snapshotFileName = -1 then
    .error .fileError
  else if 0 < getFileSize env disk snapshotFileName then
    (newSnapshotter.loadSnapshot disk).map fun (snapshot, snapshotter) =>
      (some snapshot, snapshotter)
  else
    .ok (none, newSnapshotter)

omit [Platform] in
theorem getFileSize_of_empty {env : Env} {disk : Disk Payload} {path : String}
    (hfile : (disk.file path).getD [] = []) (hstatx : env.statxFails = false) :
    getFileSize env disk path = 0 := by
  simp [getFileSize, narrow, hfile, hstatx]

/-- An empty file, or none, holds no snapshot. -/
theorem findSnapshot_of_empty {env : Env} {disk : Disk Payload} {snapshot : Option Snapshot}
    {snapshotter : Snapshotter} (hfile : (disk.file snapshotFileName).getD [] = [])
    (hfind : findSnapshot env disk = .ok (snapshot, snapshotter)) :
    snapshot = none ∧ snapshotter = newSnapshotter := by
  unfold findSnapshot at hfind
  cases hstatx : env.statxFails with
  | true => simp [getFileSize, hstatx] at hfind
  | false =>
    rw [getFileSize_of_empty hfile hstatx] at hfind
    cases hfind
    exact ⟨rfl, rfl⟩

/-- The node as `create` leaves it, on what is found on the disk. -/
def assemble (config : Config) (snapshot : Option Snapshot) (snapshotter : Snapshotter)
    (entries : List LogEntry) (hardState : HardState) (disk : Disk Payload) : RaftNode :=
  { snapshotter := snapshotter
    stateMachine :=
      match snapshot with
      | none => StateMachine.create config.dataNodes
      | some snapshot => (StateMachine.create config.dataNodes).loadSnapshot snapshot
    disk := disk
    logs :=
      { lastIncludedIndex := (snapshot.getD {}).lastIncludedIndex
        lastIncludedTerm := (snapshot.getD {}).lastIncludedTerm
        entries := entries }
    transport := Transport.ofConfig config
    hardState := hardState }

/-- Reads the snapshot, the log behind it and the hard state. -/
def create (env : Env) (config : Config) (disk : Disk Payload) : Except Error RaftNode := do
  let (snapshot, snapshotter) ← findSnapshot env disk
  let entries ← Persister.loadEntries disk (snapshot.getD {}).lastIncludedIndex
  let (hardState, disk) ← Persister.loadHardState disk
  return assemble config snapshot snapshotter entries hardState disk

/-- What `create` reads from the disk. -/
theorem create_spec {env : Env} {config : Config} {disk : Disk Payload} {node : RaftNode}
    (hcreate : create env config disk = .ok node) :
    ∃ snapshot snapshotter entries hardState disk',
      findSnapshot env disk = .ok (snapshot, snapshotter) ∧
      Persister.loadEntries disk (snapshot.getD {}).lastIncludedIndex = .ok entries ∧
      Persister.loadHardState disk = .ok (hardState, disk') ∧
      node = assemble config snapshot snapshotter entries hardState disk' := by
  unfold create at hcreate
  cases hfind : findSnapshot env disk with
  | error err => rw [hfind] at hcreate; cases hcreate
  | ok found =>
    obtain ⟨snapshot, snapshotter⟩ := found
    rw [hfind] at hcreate
    change (do
      let entries ← Persister.loadEntries disk (snapshot.getD {}).lastIncludedIndex
      let (hardState, disk) ← Persister.loadHardState disk
      return assemble config snapshot snapshotter entries hardState disk) =
        Except.ok node at hcreate
    cases hload : Persister.loadEntries disk (snapshot.getD {}).lastIncludedIndex with
    | error err => rw [hload] at hcreate; cases hcreate
    | ok entries =>
      rw [hload] at hcreate
      cases hhard : Persister.loadHardState disk with
      | error err => rw [hhard] at hcreate; cases hcreate
      | ok loaded =>
        rw [hhard] at hcreate
        exact ⟨snapshot, snapshotter, entries, loaded.1, loaded.2, rfl, hload, rfl,
          (Except.ok.inj hcreate).symm⟩

/-- The configuration a node runs with. -/
def config (node : RaftNode) : Config :=
  { memberId := node.transport.memberId
    raftNodes := node.transport.peers
    nodup := node.transport.nodup
    dataNodes := node.stateMachine.dataNodes }

/-- The disk as far as it was written when the node stopped or finished. -/
def diskAfter (env : Env) (node : RaftNode) (input : Input) : Disk Payload :=
  match node.handle env input with
  | .error node => node.disk
  | .ok (node, _) => node.disk

/-- What is on the disk when the node dies while it reacts to `input`, with `lost` of
the writes of that step still to come. -/
def diskLeft (env : Env) (node : RaftNode) (input : Input) (lost : ℕ) : Disk Payload :=
  let writes := (node.diskAfter env input).writes
  ⟨writes.take (max node.disk.writes.length (writes.length - lost))⟩

/-- The node dies while it reacts to `input` and is started again. -/
def restart (env : Env) (node : RaftNode) (input : Input) (lost : ℕ) : Option RaftNode :=
  (create env node.config (node.diskLeft env input lost)).toOption

theorem create_of_restart {env : Env} {node node' : RaftNode} {input : Input} {lost : ℕ}
    (hrestart : node.restart env input lost = some node') :
    create env node.config (node.diskLeft env input lost) = .ok node' := by
  unfold restart at hrestart
  cases hcreate : create env node.config (node.diskLeft env input lost) with
  | error err => rw [hcreate] at hrestart; cases hrestart
  | ok created => rw [hcreate] at hrestart; cases hrestart; rfl

omit [Platform] in
/-- The history goes on when a node is started again. -/
def withHistoryOf (node before : RaftNode) : RaftNode :=
  { node with led := before.led, applied := before.applied }

end RaftNode

end Vosfs.Raft
