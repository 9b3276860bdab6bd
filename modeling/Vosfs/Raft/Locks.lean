import Vosfs.Library.Mutexes
import Vosfs.Library.Run
import Vosfs.Raft.Chunks
import Vosfs.Raft.Sending

/-!
# The mutexes

The node has a mutex, and so has its snapshotter.  The functions of both are written down again
as calls that lock and unlock: most lock a mutex and leave the unlocking to a guard, some unlock
by hand where they return or suspend a client, and the steps between are those of the model
without mutexes.  A call that returns does what that model says (`returned?_handle`).
-/

namespace Vosfs.Raft

open Call HasMutexes

/-- `mutex_` of the node and of its snapshotter. -/
inductive Mutex
  | node
  | snapshotter
  deriving DecidableEq, Repr

/-- A node with its own mutex.  The mutex of the snapshotter is `node.snapshotter.locked`. -/
structure SharedNode where
  node : RaftNode
  locked : Bool := false

instance : HasMutexes SharedNode Mutex where
  locked s
    | .node => s.locked
    | .snapshotter => s.node.snapshotter.locked
  setLocked s mutex value :=
    match mutex with
    | .node => { s with locked := value }
    | .snapshotter =>
      { s with node := { s.node with
          snapshotter := { s.node.snapshotter with locked := value } } }
  locked_setLocked_self _ mutex _ := by cases mutex <;> rfl
  locked_setLocked_ne _ mutex other _ hne := by
    cases mutex <;> cases other <;> first | rfl | exact absurd rfl hne

/-- A function of the node, with what it locks. -/
abbrev NodeCall :=
  Call Mutex SharedNode

namespace NodeCall

/-! ## Steps on the node -/

/-- Reads the node. -/
def getNode : NodeCall RaftNode := do
  return (← get).node

/-- A step of the model without mutexes. -/
def attempt {α : Type} (step : RaftNode → Except RaftNode (RaftNode × α)) : NodeCall α :=
  Call.attempt fun s =>
    match step s.node with
    | .error node => .error { s with node := node }
    | .ok (node, value) => .ok ({ s with node := node }, value)

/-- A step that does not fail. -/
def perform {α : Type} (step : RaftNode → RaftNode × α) : NodeCall α :=
  attempt fun node => .ok (step node)

/-- A step without a value. -/
def change (step : RaftNode → RaftNode) : NodeCall Unit :=
  perform fun node => (step node, ())

/-! ## The snapshotter -/

/-- A write to one of the snapshotter's files. -/
def write (w : Snapshotter → DiskWrite Payload) : NodeCall Unit :=
  change fun node => { node with disk := node.disk.write (w node.snapshotter) }

/-- The cursor of a member. -/
def setOffset (memberId offset : ℕ) : NodeCall Unit :=
  change fun node => { node with snapshotter := node.snapshotter.setCursor memberId offset }

/-- It returns with the mutex locked: the `unlock` comes after the `co_return`. -/
def offsetAt (memberId : ℕ) : NodeCall ℕ := do
  lock .snapshotter
  perform fun node =>
    ({ node with snapshotter := { node.snapshotter with
        offsets := node.snapshotter.offsets.emplace memberId 0 } },
      node.snapshotter.cursor memberId)

/-- `Snapshotter::save_snapshot`. -/
def saveSnapshot [Platform] (outcome : FileOutcome) (snapshot : Snapshot) :
    NodeCall (Except Error Unit) := do
  let buf := Platform.serializeAsString snapshot
  lock .snapshotter
  guarded .snapshotter <|
    if outcome = .openFailed then
      return .error .fileOpenFailed
    else do
      write fun snapshotter => .openTruncated snapshotter.tmpPath
      if outcome = .writeFailed then
        return .error .fileWriteFailed
      else do
        write fun snapshotter => .writeAll snapshotter.tmpPath buf
        if outcome = .renameFailed then
          return .error .fileRenameFailed
        else do
          write fun snapshotter => .rename snapshotter.tmpPath snapshotter.snapshotPath
          change fun node => { node with snapshotter := { node.snapshotter with
            snapshotSize := buf.length } }
          return .ok ()

/-- `Snapshotter::load_snapshot_data`. -/
def loadSnapshotData (outcome : FileOutcome) (memberId : ℕ) (request : InstallSnapshotRequest) :
    NodeCall (Except Error InstallSnapshotRequest) := do
  lock .snapshotter
  guarded .snapshotter do
    let node ← getNode
    let offset := node.snapshotter.cursor memberId
    let size := node.snapshotter.chunkSize memberId
    match node.disk.file node.snapshotter.snapshotPath with
    | none =>
      setOffset memberId 0
      return .error .fileOpenFailed
    | some contents =>
      let data := (contents.drop offset).take size
      if outcome = .openFailed then do
        setOffset memberId 0
        return .error .fileOpenFailed
      else if outcome = .seekFailed then do
        setOffset memberId 0
        return .error .fileSeekFailed
      else if outcome = .readFailed ∨ data.length < size then do
        setOffset memberId 0
        return .error .fileReadFailed
      else do
        let done := decide (offset + size = node.snapshotter.snapshotSize)
        setOffset memberId (if done then 0 else offset + size)
        return .ok { request with offset := offset, done := done, data := data }

/-- `writeAll` is what the write leaves of the disk: the file is open as `File::open` opens it. -/
def saveSnapshotData (outcome : FileOutcome)
    (writeAll : Disk Payload → String → List UInt8 → Disk Payload) (data : List UInt8) :
    NodeCall (Except Error Unit) := do
  lock .snapshotter
  guarded .snapshotter do
    let node ← getNode
    if (node.disk.file node.snapshotter.snapshotPath).isNone ∨ outcome = .openFailed then
      return .error .fileOpenFailed
    else if outcome = .writeFailed then
      return .error .fileWriteFailed
    else do
      change fun node => { node with disk := writeAll node.disk node.snapshotter.snapshotPath data }
      if outcome = .renameFailed then
        return .error .fileRenameFailed
      else do
        write fun snapshotter => .rename snapshotter.tmpPath snapshotter.snapshotPath
        return .ok ()

/-- `RaftNode::send_snapshot`, whose caller holds the mutex of the node. -/
def sendSnapshot (env : Env) (memberId : ℕ) : NodeCall (List Packet) := do
  let node ← getNode
  if node.snapshotData.isEmpty then
    return []
  else do
    let offset ← offsetAt memberId
    if offset ≠ 0 then
      return []
    else do
      let request : InstallSnapshotRequest :=
        { term := node.currentTerm
          leaderId := node.memberId
          lastIncludedIndex := node.logs.lastIncludedIndex
          lastIncludedTerm := node.logs.lastIncludedTerm }
      match ← loadSnapshotData (env.fileOutcome memberId) memberId request with
      | .error _ => return []
      | .ok request => return [node.send memberId (.installSnapshotRequest request)]

/-! ## Applying committed entries -/

section Apply

variable [Platform]

/-- The snapshot that `apply_entry` takes at an index. -/
def snapshotAt (env : Env) (index : ℕ) : NodeCall Unit := do
  let snapshot ← attempt fun node =>
    match node.logs.getTerm index with
    | none => .error node
    | some term => .ok (node, node.stateMachine.takeSnapshot
        { lastIncludedIndex := index, lastIncludedTerm := term })
  match ← saveSnapshot (env.fileOutcome index) snapshot with
  | .error _ => return ()
  | .ok _ => change fun node => { node with logs := node.logs.loadSnapshot {} }

/-- One round of `apply_entry`. -/
def applyNext (env : Env) : NodeCall Unit := do
  attempt fun node =>
    let node := { node with lastApplied := node.lastApplied + 1 }
    match node.logs.getEntry node.lastApplied with
    | none => .error node
    | some entry => .ok (node.applyToStateMachine env entry, ())
  let node ← getNode
  if node.lastApplied % snapshotInterval = 0 then
    snapshotAt env node.lastApplied
  else
    return ()

/-- Its loop, for the number of entries that are committed and not applied. -/
def applyRounds (env : Env) : ℕ → NodeCall Unit
  | 0 => return ()
  | rounds + 1 => do
    applyNext env
    applyRounds env rounds

/-- `RaftNode::apply_entry`. -/
def applyEntry (env : Env) : NodeCall Unit := do
  let node ← getNode
  applyRounds env (node.commitIndex - node.lastApplied)

/-! ## The loops -/

/-- One iteration of `RaftNode::election_loop`, which unlocks by hand. -/
def electionLoop (env : Env) : NodeCall (List Packet) := do
  let node ← getNode
  if ¬ node.TimedOut env ∨ node.role = .leader then
    return []
  else do
    lock .node
    let node ← getNode
    if node.role = .leader then do
      unlock .node
      return []
    else do
      change RaftNode.startElection
      let node ← getNode
      let request : RequestVoteRequest :=
        { term := node.currentTerm
          candidateId := node.memberId
          lastLogIndex := node.logs.lastLogIndex
          lastLogTerm := node.logs.lastLogTerm }
      change fun node => node.voteForSelf.tryToLead
      unlock .node
      change fun node => { node with lastResetTime := env.monotonicMs }
      let node ← getNode
      return (node.transport.peers.filter (· ≠ node.memberId)).map fun id =>
        node.send id (.requestVoteRequest request)

/-- What one iteration of `heartbeat_loop` sends to one member. -/
def heartbeatTo (env : Env) (memberId nextIndex : ℕ) : NodeCall (List Packet) := do
  let node ← getNode
  if memberId = node.memberId then
    return []
  else if nextIndex ≤ node.logs.lastLogIndex ∧ nextIndex ≤ node.logs.lastIncludedIndex then
    sendSnapshot env memberId
  else
    attempt fun node => node.heartbeatTo env memberId nextIndex

/-- The same for each member in turn. -/
def heartbeats (env : Env) : List (ℕ × ℕ) → NodeCall (List Packet)
  | [] => return []
  | (memberId, nextIndex) :: rest => do
    let packets ← heartbeatTo env memberId nextIndex
    let more ← heartbeats env rest
    return packets ++ more

/-- One iteration of `RaftNode::heartbeat_loop`. -/
def heartbeatLoop (env : Env) : NodeCall (List Packet) := do
  let node ← getNode
  if node.role ≠ .leader then
    return []
  else do
    lock .node
    guarded .node do
      let node ← getNode
      if node.role ≠ .leader then
        return []
      else
        heartbeats env node.nextIndex.pairs

/-! ## Messages of other nodes -/

/-- `RaftNode::handle_request_vote_request`. -/
def handleRequestVoteRequest (env : Env) (request : RequestVoteRequest) :
    NodeCall RequestVoteResponse := do
  lock .node
  guarded .node <| perform fun node => node.handleRequestVoteRequest env request

/-- `RaftNode::handle_request_vote_response`, which looks at the term before it locks. -/
def handleRequestVoteResponse (env : Env) (response : RequestVoteResponse) : NodeCall Unit := do
  let node ← getNode
  if response.term < node.currentTerm then
    return ()
  else do
    lock .node
    guarded .node <| change fun node => node.handleRequestVoteResponse env response

/-- The commit index of a follower, after the entries were stored. -/
def followCommit (env : Env) (leaderCommit : ℕ) : NodeCall Unit := do
  let node ← getNode
  if node.commitIndex < leaderCommit then do
    change fun node => { node with commitIndex := min node.logs.lastLogIndex leaderCommit }
    applyEntry env
  else
    return ()

/-- `RaftNode::handle_append_entries_request`. -/
def handleAppendEntriesRequest (env : Env) (request : AppendEntriesRequest) :
    NodeCall AppendEntriesResponse := do
  lock .node
  guarded .node do
    let node ← getNode
    if request.term < node.currentTerm then
      return { id := node.memberId, term := node.currentTerm, success := false,
               lastLogIndex := node.logs.lastLogIndex }
    else do
      change fun node => (node.catchUp env request.term).heardFrom env request.leaderId
      let node ← getNode
      if ¬ node.LogOk request then
        return { id := node.memberId, term := node.currentTerm, success := false,
                 lastLogIndex := node.logs.lastLogIndex,
                 conflictIndex := some request.prevLogIndex }
      else do
        attempt fun node => (node.storeEntries request.entries).map fun node => (node, ())
        followCommit env request.leaderCommit
        let node ← getNode
        return { id := node.memberId, term := node.currentTerm, success := true,
                 lastLogIndex := node.logs.lastLogIndex }

/-- The commit index of a leader, after a match was recorded. -/
def advanceCommit (env : Env) : NodeCall Unit := do
  let node ← getNode
  if node.commitIndex < RaftNode.quorumIndex node.matchIndex then do
    change fun node => { node with commitIndex := RaftNode.quorumIndex node.matchIndex }
    applyEntry env
  else
    return ()

/-- `RaftNode::handle_append_entries_response`, which checks before it locks and again after. -/
def handleAppendEntriesResponse (env : Env) (response : AppendEntriesResponse) :
    NodeCall Unit := do
  let node ← getNode
  if response.term < node.currentTerm ∨ node.role ≠ .leader then
    return ()
  else do
    lock .node
    guarded .node do
      let node ← getNode
      if response.term < node.currentTerm ∨ node.role ≠ .leader then
        return ()
      else if node.currentTerm < response.term then
        change fun node => node.increaseTermTo env response.term
      else if !response.success then
        match response.conflictIndex with
        | none => return ()
        | some conflictIndex =>
          change fun node =>
            { node with nextIndex := node.nextIndex.insert response.id conflictIndex }
      else do
        change fun node => node.recordMatch response.id response.lastLogIndex
        advanceCommit env

/-- `RaftNode::handle_install_snapshot_request`. -/
def handleInstallSnapshotRequest (env : Env) (request : InstallSnapshotRequest) :
    NodeCall InstallSnapshotResponse := do
  lock .node
  guarded .node <| perform fun node => node.handleInstallSnapshotRequest env request

/-- `RaftNode::handle_install_snapshot_response`. -/
def handleInstallSnapshotResponse (env : Env) (response : InstallSnapshotResponse) :
    NodeCall (List Packet) := do
  lock .node
  guarded .node do
    let node ← getNode
    if node.currentTerm < response.term then do
      change fun node => node.increaseTermTo env response.term
      return []
    else
      sendSnapshot env response.id

/-! ## Clients -/

/-- A client whose token is invalid is answered before the mutex is locked. -/
def serve {α : Type} (env : Env) (token : String) (handler : NodeCall α)
    (locked : NodeCall α) : NodeCall α :=
  if !env.vertifyToken token then
    handler
  else do
    lock .node
    locked

/-- `handle_list_dir_request`, `handle_prepare_upload_file_request` and
`handle_prepare_download_file_request`: with a guard. -/
def serveGuarded {α : Type} (env : Env) (token : String) (handler : NodeCall α) : NodeCall α :=
  serve env token handler (guarded .node handler)

/-- `handle_make_dir_request` and `handle_upload_file_request`: the mutex is unlocked when the
request is refused, and before the client is suspended. -/
def serveUnguarded {α : Type} (env : Env) (token : String) (handler : NodeCall α) : NodeCall α :=
  serve env token handler do
    let node ← getNode
    if node.role ≠ .leader then do
      let response ← handler
      unlock .node
      return response
    else do
      let response ← handler
      unlock .node
      return response

/-- `RaftNode::handle_list_dir_request`. -/
def handleListDirRequest (env : Env) (request : ListDirRequest) : NodeCall ListDirResponse :=
  serveGuarded env request.token <|
    perform fun node => (node, node.handleListDirRequest env request)

/-- `RaftNode::handle_make_dir_request`. -/
def handleMakeDirRequest (env : Env) (request : MakeDirRequest) :
    NodeCall (Option MakeDirResponse) :=
  serveUnguarded env request.token <| perform fun node => node.handleMakeDirRequest env request

/-- `RaftNode::handle_prepare_upload_file_request`. -/
def handlePrepareUploadFileRequest (env : Env) (request : PrepareUploadFileRequest) :
    NodeCall PrepareUploadFileResponse :=
  serveGuarded env request.token <|
    attempt fun node => node.handlePrepareUploadFileRequest env request

/-- `RaftNode::handle_upload_file_request`. -/
def handleUploadFileRequest (env : Env) (request : UploadFileRequest) :
    NodeCall (Option UploadFileResponse) :=
  serveUnguarded env request.token <|
    perform fun node => node.handleUploadFileRequest env request

/-- `RaftNode::handle_prepare_download_file_request`. -/
def handlePrepareDownloadFileRequest (env : Env) (request : PrepareDownloadFileRequest) :
    NodeCall PrepareDownloadFileResponse :=
  serveGuarded env request.token <|
    perform fun node => (node, node.handlePrepareDownloadFileRequest env request)

/-! ## All calls of a node -/

/-- The handler of a message, and the answer that is sent back. -/
def receive (env : Env) (src : ℕ) : Message → NodeCall (List Packet)
  | .requestVoteRequest request => do
    let response ← handleRequestVoteRequest env request
    return [(← getNode).send src (.requestVoteResponse response)]
  | .requestVoteResponse response => do
    handleRequestVoteResponse env response
    return []
  | .appendEntriesRequest request => do
    let response ← handleAppendEntriesRequest env request
    return [(← getNode).send src (.appendEntriesResponse response)]
  | .appendEntriesResponse response => do
    handleAppendEntriesResponse env response
    return []
  | .installSnapshotRequest request => do
    let response ← handleInstallSnapshotRequest env request
    return [(← getNode).send src (.installSnapshotResponse response)]
  | .installSnapshotResponse response => handleInstallSnapshotResponse env response

/-- A loop's next iteration, or a handler.  A suspended client gets no reply yet. -/
def handle (env : Env) : Input → NodeCall Output
  | .electionTimeout => do
    let packets ← electionLoop env
    return { packets := packets }
  | .heartbeat => do
    let packets ← heartbeatLoop env
    return { packets := packets }
  | .deliver src message => do
    let packets ← receive env src message
    return { packets := packets }
  | .listDir request => do
    let response ← handleListDirRequest env request
    return { reply := some (.listDir response) }
  | .makeDir request => do
    let response ← handleMakeDirRequest env request
    return { reply := response.map .makeDir }
  | .prepareUploadFile request => do
    let response ← handlePrepareUploadFileRequest env request
    return { reply := some (.prepareUploadFile response) }
  | .uploadFile request => do
    let response ← handleUploadFileRequest env request
    return { reply := response.map .uploadFile }
  | .prepareDownloadFile request => do
    let response ← handlePrepareDownloadFileRequest env request
    return { reply := some (.prepareDownloadFile response) }

end Apply

/-! ## What the calls return -/

section Returned

variable {node : RaftNode} {held value : Bool} {α : Type}

@[simp] theorem locked_node : locked (⟨node, held⟩ : SharedNode) Mutex.node = held := rfl

@[simp] theorem locked_snapshotter :
    locked (⟨node, held⟩ : SharedNode) Mutex.snapshotter = node.snapshotter.locked := rfl

@[simp] theorem setLocked_node :
    setLocked (⟨node, held⟩ : SharedNode) Mutex.node value = ⟨node, value⟩ := rfl

@[simp] theorem setLocked_snapshotter :
    setLocked (⟨node, held⟩ : SharedNode) Mutex.snapshotter value =
      ⟨{ node with snapshotter := { node.snapshotter with locked := value } }, held⟩ := rfl

@[simp] theorem returned?_getNode :
    getNode.returned? ⟨node, held⟩ = some (⟨node, held⟩, node) := rfl

@[simp] theorem returned?_attempt {step : RaftNode → Except RaftNode (RaftNode × α)} :
    (attempt step).returned? ⟨node, held⟩ =
      (step node).toOption.map fun result => (⟨result.1, held⟩, result.2) := by
  rw [attempt, Call.returned?_attempt]
  dsimp only
  cases step node <;> rfl

@[simp] theorem returned?_perform {step : RaftNode → RaftNode × α} :
    (perform step).returned? ⟨node, held⟩ = some (⟨(step node).1, held⟩, (step node).2) := rfl

@[simp] theorem returned?_change {step : RaftNode → RaftNode} :
    (change step).returned? ⟨node, held⟩ = some (⟨step node, held⟩, ()) := rfl

theorem returned?_offsetAt {memberId : ℕ} : (offsetAt memberId).returned? ⟨node, held⟩ =
    (node.snapshotter.offsetAt memberId).map fun found =>
      (⟨{ node with snapshotter := found.2 }, held⟩, found.1) := by
  unfold offsetAt Snapshotter.offsetAt
  simp only [returned?_bind, returned?_lock, locked_snapshotter]
  split <;> rfl

theorem unlocked_eq {snapshotter : Snapshotter} (hlocked : snapshotter.locked = false) :
    { snapshotter with locked := false } = snapshotter := by
  cases snapshotter
  cases hlocked
  rfl

theorem returned?_saveSnapshot [Platform] {outcome : FileOutcome} {snapshot : Snapshot} :
    (saveSnapshot outcome snapshot).returned? ⟨node, held⟩ =
      (node.snapshotter.saveSnapshot outcome node.disk snapshot).map fun found =>
        match found.1 with
        | .error error => (⟨{ node with disk := found.2 }, held⟩, .error error)
        | .ok snapshotter =>
          (⟨{ node with disk := found.2, snapshotter := snapshotter }, held⟩, .ok ()) := by
  unfold saveSnapshot Snapshotter.saveSnapshot
  cases hlocked : node.snapshotter.locked with
  | true => simp [hlocked]
  | false => cases outcome <;> simp [hlocked, write, unlocked_eq hlocked]

/-- The reading of a chunk as the call makes it. -/
theorem loadSnapshotData_eq {snapshotter : Snapshotter} {outcome : FileOutcome}
    {disk : Disk Payload} {memberId : ℕ} {request : InstallSnapshotRequest} :
    snapshotter.loadSnapshotData outcome disk memberId request =
      if snapshotter.locked then
        none
      else
        match disk.file snapshotter.snapshotPath with
        | none => some (.error .fileOpenFailed, snapshotter.setCursor memberId 0)
        | some contents =>
          let offset := snapshotter.cursor memberId
          let size := snapshotter.chunkSize memberId
          let data := (contents.drop offset).take size
          if outcome = .openFailed then
            some (.error .fileOpenFailed, snapshotter.setCursor memberId 0)
          else if outcome = .seekFailed then
            some (.error .fileSeekFailed, snapshotter.setCursor memberId 0)
          else if outcome = .readFailed ∨ data.length < size then
            some (.error .fileReadFailed, snapshotter.setCursor memberId 0)
          else
            let done := decide (offset + size = snapshotter.snapshotSize)
            some (.ok { request with offset := offset, done := done, data := data },
              snapshotter.setCursor memberId (if done then 0 else offset + size)) := by
  simp only [Snapshotter.loadSnapshotData, Snapshotter.cursor, Snapshotter.chunkSize,
    Snapshotter.setCursor]
  cases disk.file snapshotter.snapshotPath with
  | none => rfl
  | some contents =>
    cases outcome <;> simp only [reduceCtorEq, if_true, if_false, true_or, false_or]
    all_goals exact if_congr Iff.rfl rfl (if_congr Iff.rfl rfl rfl)

theorem returned?_loadSnapshotData {outcome : FileOutcome} {memberId : ℕ}
    {request : InstallSnapshotRequest} :
    (loadSnapshotData outcome memberId request).returned? ⟨node, held⟩ =
      (node.snapshotter.loadSnapshotData outcome node.disk memberId request).map fun found =>
        (⟨{ node with snapshotter := found.2 }, held⟩, found.1) := by
  have hcursor : ({ node.snapshotter with locked := true } : Snapshotter).cursor memberId =
    node.snapshotter.cursor memberId := rfl
  have hchunk : ({ node.snapshotter with locked := true } : Snapshotter).chunkSize memberId =
    node.snapshotter.chunkSize memberId := rfl
  rw [loadSnapshotData_eq]
  unfold loadSnapshotData
  cases hlocked : node.snapshotter.locked with
  | true => simp [hlocked]
  | false =>
    cases hfile : node.disk.file node.snapshotter.snapshotPath with
    | none => simp [hlocked, hfile, setOffset, Snapshotter.setCursor]
    | some contents =>
      simp only [returned?_bind, returned?_lock, returned?_guarded, returned?_ite, returned?_pure,
        returned?_getNode, returned?_change, locked_snapshotter, setLocked_snapshotter, setOffset,
        hlocked, hfile, Bool.false_eq_true, if_false, Option.bind_some, hcursor, hchunk]
      split_ifs <;> simp [Snapshotter.setCursor, hlocked]

/-- A result of the model, with the mutex of the node as it is. -/
def ofResult (held : Bool) (result : Except RaftNode (RaftNode × α)) :
    Option (SharedNode × α) :=
  result.toOption.map fun found => (⟨found.1, held⟩, found.2)

@[simp] theorem ofResult_ok {found : RaftNode × α} :
    ofResult held (.ok found) = some (⟨found.1, held⟩, found.2) := rfl

@[simp] theorem ofResult_error : ofResult held (.error node : Except RaftNode (RaftNode × α)) =
    none := rfl

/-- The same for a step without an answer. -/
def ofNode (held : Bool) (result : Except RaftNode RaftNode) : Option (SharedNode × Unit) :=
  result.toOption.map fun node => (⟨node, held⟩, ())

@[simp] theorem ofNode_ok : ofNode held (.ok node) = some (⟨node, held⟩, ()) := rfl

@[simp] theorem ofNode_error : ofNode held (.error node) = none := rfl

theorem returned?_sendSnapshot {env : Env} {memberId : ℕ} :
    (sendSnapshot env memberId).returned? ⟨node, held⟩ =
      ofResult held (node.sendSnapshot env memberId) := by
  unfold sendSnapshot RaftNode.sendSnapshot
  simp only [returned?_bind, returned?_getNode, returned?_ite, returned?_offsetAt,
    returned?_pure, Option.bind_some]
  split
  next => rfl
  next =>
    cases node.snapshotter.offsetAt memberId with
    | none => rfl
    | some found =>
      simp only [Option.map_some, Option.bind_some, returned?_loadSnapshotData,
        RaftNode.currentTerm, RaftNode.memberId]
      split
      next => rfl
      next =>
        cases found.2.loadSnapshotData (env.fileOutcome memberId) node.disk memberId
          { term := node.hardState.currentTerm
            leaderId := node.transport.memberId
            lastIncludedIndex := node.logs.lastIncludedIndex
            lastIncludedTerm := node.logs.lastIncludedTerm } with
        | none => rfl
        | some loaded =>
          obtain ⟨result, snapshotter⟩ := loaded
          cases result <;> rfl

section Apply

variable [Platform] {env : Env}

theorem returned?_snapshotAt {index : ℕ} :
    (snapshotAt env index).returned? ⟨node, held⟩ = ofNode held (node.snapshotAt env index) := by
  unfold snapshotAt RaftNode.snapshotAt
  simp only [returned?_bind, returned?_attempt]
  cases node.logs.getTerm index with
  | none => rfl
  | some term =>
    simp only [Except.toOption, Option.map_some, Option.bind_some, returned?_saveSnapshot]
    cases node.snapshotter.saveSnapshot (env.fileOutcome index) node.disk
      (node.stateMachine.takeSnapshot { lastIncludedIndex := index, lastIncludedTerm := term }) with
    | none => rfl
    | some found =>
      obtain ⟨result, disk⟩ := found
      cases result <;> rfl

theorem returned?_applyNext :
    (applyNext env).returned? ⟨node, held⟩ = ofNode held (node.applyNext env) := by
  unfold applyNext RaftNode.applyNext
  simp only [returned?_bind, returned?_attempt]
  cases node.logs.getEntry (node.lastApplied + 1) with
  | none => rfl
  | some entry =>
    simp only [Except.toOption, Option.map_some, Option.bind_some, returned?_getNode,
      returned?_ite, returned?_snapshotAt, returned?_pure]
    split <;> rfl

theorem returned?_applyRounds {rounds : ℕ} : (applyRounds env rounds).returned? ⟨node, held⟩ =
    ofNode held (RaftNode.applyRounds env rounds node) := by
  induction rounds generalizing node with
  | zero => rfl
  | succ rounds ih =>
    simp only [applyRounds, RaftNode.applyRounds, returned?_bind, returned?_applyNext]
    cases node.applyNext env with
    | error node => rfl
    | ok node => exact ih

theorem returned?_applyEntry :
    (applyEntry env).returned? ⟨node, held⟩ = ofNode held (node.applyEntry env) := by
  simp only [applyEntry, RaftNode.applyEntry, returned?_bind, returned?_getNode, Option.bind_some,
    returned?_applyRounds]

theorem returned?_followCommit {leaderCommit : ℕ} :
    (followCommit env leaderCommit).returned? ⟨node, held⟩ =
      ofNode held (node.followCommit env leaderCommit) := by
  simp only [followCommit, RaftNode.followCommit, returned?_bind, returned?_getNode,
    Option.bind_some, returned?_ite, returned?_change, returned?_applyEntry, returned?_pure]
  split <;> rfl

theorem returned?_advanceCommit :
    (advanceCommit env).returned? ⟨node, held⟩ = ofNode held (node.advanceCommit env) := by
  simp only [advanceCommit, RaftNode.advanceCommit, returned?_bind, returned?_getNode,
    Option.bind_some, returned?_ite, returned?_change, returned?_applyEntry, returned?_pure]
  split <;> rfl

/-! ### The loops -/

omit [Platform] in
theorem returned?_electionLoop : (electionLoop env).returned? ⟨node, false⟩ =
    some (⟨(node.electionLoop env).1, false⟩, (node.electionLoop env).2) := by
  unfold electionLoop RaftNode.electionLoop
  simp only [returned?_bind, returned?_getNode, Option.bind_some, returned?_ite, returned?_lock,
    returned?_unlock, returned?_change, returned?_pure, locked_node, setLocked_node,
    Bool.false_eq_true, if_false]
  split
  next => rfl
  next hgoes =>
    rw [if_neg (not_or.mp hgoes).2]
    rfl

omit [Platform] in
theorem returned?_heartbeatTo {memberId nextIndex : ℕ} :
    (heartbeatTo env memberId nextIndex).returned? ⟨node, held⟩ =
      ofResult held (node.heartbeatTo env memberId nextIndex) := by
  simp only [heartbeatTo, returned?_bind, returned?_getNode, Option.bind_some, returned?_ite,
    returned?_pure, returned?_sendSnapshot, returned?_attempt]
  unfold RaftNode.heartbeatTo
  split
  next => rfl
  next =>
    split
    next => rfl
    next => rfl

omit [Platform] in
theorem returned?_heartbeats {pairs : List (ℕ × ℕ)} :
    (heartbeats env pairs).returned? ⟨node, held⟩ =
      ofResult held (RaftNode.heartbeats env pairs node) := by
  induction pairs generalizing node with
  | nil => rfl
  | cons pair pairs ih =>
    simp only [heartbeats, RaftNode.heartbeats, returned?_bind, returned?_heartbeatTo]
    cases node.heartbeatTo env pair.1 pair.2 with
    | error node => rfl
    | ok found =>
      simp only [ofResult_ok, Option.bind_some, ih]
      cases RaftNode.heartbeats env pairs found.1 <;> rfl

omit [Platform] in
theorem returned?_heartbeatLoop : (heartbeatLoop env).returned? ⟨node, false⟩ =
    ofResult false (node.heartbeatLoop env) := by
  unfold heartbeatLoop RaftNode.heartbeatLoop
  simp only [returned?_bind, returned?_getNode, Option.bind_some, returned?_ite, returned?_lock,
    returned?_guarded, returned?_pure, returned?_heartbeats, locked_node, setLocked_node,
    Bool.false_eq_true, if_false]
  split
  next => rfl
  next => cases RaftNode.heartbeats env node.nextIndex.pairs node <;> rfl

/-! ### The handlers -/

omit [Platform] in
theorem returned?_handleRequestVoteRequest {request : RequestVoteRequest} :
    (handleRequestVoteRequest env request).returned? ⟨node, false⟩ =
      some (⟨(node.handleRequestVoteRequest env request).1, false⟩,
        (node.handleRequestVoteRequest env request).2) := by
  simp [handleRequestVoteRequest]

omit [Platform] in
theorem returned?_handleRequestVoteResponse {response : RequestVoteResponse} :
    (handleRequestVoteResponse env response).returned? ⟨node, false⟩ =
      some (⟨node.handleRequestVoteResponse env response, false⟩, ()) := by
  simp only [handleRequestVoteResponse, returned?_bind, returned?_getNode, Option.bind_some,
    returned?_ite, returned?_pure]
  split
  next hold => rw [RaftNode.handleRequestVoteResponse, if_pos hold]
  next => simp

theorem returned?_handleAppendEntriesRequest {request : AppendEntriesRequest} :
    (handleAppendEntriesRequest env request).returned? ⟨node, false⟩ =
      ofResult false (node.handleAppendEntriesRequest env request) := by
  unfold handleAppendEntriesRequest RaftNode.handleAppendEntriesRequest
  simp only [returned?_bind, returned?_getNode, Option.bind_some, returned?_ite, returned?_lock,
    returned?_guarded, returned?_pure, returned?_change, returned?_attempt, locked_node,
    setLocked_node, Bool.false_eq_true, if_false]
  split
  next => rfl
  next =>
    split
    next => rfl
    next =>
      cases ((node.catchUp env request.term).heardFrom env request.leaderId).storeEntries
        request.entries with
      | error node => rfl
      | ok stored =>
        simp only [Except.map, Except.toOption, Option.map_some, Option.bind_some,
          returned?_followCommit]
        cases stored.followCommit env request.leaderCommit <;> rfl

theorem returned?_handleAppendEntriesResponse {response : AppendEntriesResponse} :
    (handleAppendEntriesResponse env response).returned? ⟨node, false⟩ =
      ofNode false (node.handleAppendEntriesResponse env response) := by
  unfold handleAppendEntriesResponse RaftNode.handleAppendEntriesResponse
  simp only [returned?_bind, returned?_getNode, Option.bind_some, returned?_ite, returned?_lock,
    returned?_guarded, returned?_pure, returned?_change, returned?_advanceCommit, locked_node,
    setLocked_node, Bool.false_eq_true, if_false]
  split
  next => rfl
  next =>
    split
    next => rfl
    next =>
      split
      next => cases response.conflictIndex <;> rfl
      next =>
        cases (node.recordMatch response.id response.lastLogIndex).advanceCommit env <;> rfl

theorem returned?_handleInstallSnapshotRequest {request : InstallSnapshotRequest} :
    (handleInstallSnapshotRequest env request).returned? ⟨node, false⟩ =
      some (⟨(node.handleInstallSnapshotRequest env request).1, false⟩,
        (node.handleInstallSnapshotRequest env request).2) := by
  simp [handleInstallSnapshotRequest]

omit [Platform] in
theorem returned?_handleInstallSnapshotResponse {response : InstallSnapshotResponse} :
    (handleInstallSnapshotResponse env response).returned? ⟨node, false⟩ =
      ofResult false (node.handleInstallSnapshotResponse env response) := by
  unfold handleInstallSnapshotResponse RaftNode.handleInstallSnapshotResponse
  simp only [returned?_bind, returned?_getNode, Option.bind_some, returned?_ite, returned?_lock,
    returned?_guarded, returned?_pure, returned?_change, returned?_sendSnapshot, locked_node,
    setLocked_node, Bool.false_eq_true, if_false]
  split
  next => rfl
  next => cases node.sendSnapshot env response.id <;> rfl

omit [Platform] in
/-- However a client is served, the handler does its step and the mutex is free. -/
theorem returned?_serveGuarded {token : String} {step : RaftNode → Except RaftNode (RaftNode × α)} :
    (serveGuarded env token (attempt step)).returned? ⟨node, false⟩ =
      ofResult false (step node) := by
  unfold serveGuarded serve
  simp only [returned?_bind, returned?_ite, returned?_lock, returned?_guarded, returned?_attempt,
    locked_node, setLocked_node, Bool.false_eq_true, if_false, Option.bind_some]
  split
  next => rfl
  next => cases step node <;> rfl

omit [Platform] in
theorem returned?_serveUnguarded {token : String}
    {step : RaftNode → Except RaftNode (RaftNode × α)} :
    (serveUnguarded env token (attempt step)).returned? ⟨node, false⟩ =
      ofResult false (step node) := by
  unfold serveUnguarded serve
  simp only [returned?_bind, returned?_ite, returned?_getNode, returned?_lock, returned?_unlock,
    returned?_pure, returned?_attempt, locked_node, setLocked_node, Bool.false_eq_true, if_false,
    Option.bind_some, ite_self]
  split
  next => rfl
  next => cases step node <;> rfl

theorem returned?_receive {src : ℕ} {message : Message} :
    (receive env src message).returned? ⟨node, false⟩ =
      ofResult false (node.receive env src message) := by
  cases message with
  | requestVoteRequest request =>
    simp only [receive, RaftNode.receive, returned?_bind, returned?_handleRequestVoteRequest]
    rfl
  | requestVoteResponse response =>
    simp only [receive, RaftNode.receive, returned?_bind, returned?_handleRequestVoteResponse]
    rfl
  | appendEntriesRequest request =>
    simp only [receive, RaftNode.receive, returned?_bind, returned?_handleAppendEntriesRequest]
    cases node.handleAppendEntriesRequest env request <;> rfl
  | appendEntriesResponse response =>
    simp only [receive, RaftNode.receive, returned?_bind, returned?_handleAppendEntriesResponse]
    cases node.handleAppendEntriesResponse env response <;> rfl
  | installSnapshotRequest request =>
    simp only [receive, RaftNode.receive, returned?_bind, returned?_handleInstallSnapshotRequest]
    rfl
  | installSnapshotResponse response => exact returned?_handleInstallSnapshotResponse

/-- **The calls do what the model without mutexes does.** -/
theorem returned?_handle {input : Input} : (handle env input).returned? ⟨node, false⟩ =
    ofResult false (node.handle env input) := by
  cases input with
  | electionTimeout =>
    simp only [handle, RaftNode.handle, returned?_bind, returned?_electionLoop]
    rfl
  | heartbeat =>
    simp only [handle, RaftNode.handle, returned?_bind, returned?_heartbeatLoop]
    cases node.heartbeatLoop env <;> rfl
  | deliver src message =>
    simp only [handle, RaftNode.handle, returned?_bind, returned?_receive]
    cases node.receive env src message <;> rfl
  | listDir request =>
    simp only [handle, RaftNode.handle, returned?_bind, handleListDirRequest, perform,
      returned?_serveGuarded]
    rfl
  | makeDir request =>
    simp only [handle, RaftNode.handle, returned?_bind, handleMakeDirRequest, perform,
      returned?_serveUnguarded]
    rfl
  | prepareUploadFile request =>
    simp only [handle, RaftNode.handle, returned?_bind, handlePrepareUploadFileRequest,
      returned?_serveGuarded]
    cases node.handlePrepareUploadFileRequest env request <;> rfl
  | uploadFile request =>
    simp only [handle, RaftNode.handle, returned?_bind, handleUploadFileRequest, perform,
      returned?_serveUnguarded]
    rfl
  | prepareDownloadFile request =>
    simp only [handle, RaftNode.handle, returned?_bind, handlePrepareDownloadFileRequest, perform,
      returned?_serveGuarded]
    rfl

end Apply

end Returned

end NodeCall

end Vosfs.Raft
