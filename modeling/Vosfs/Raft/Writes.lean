import Vosfs.Raft.Conditions
import Vosfs.Raft.Effects

/-!
# What a step writes to the disk

A step appends to the writes on the disk, also when it does not return.  Except for
the handler that stores entries, it only saves hard states, each later than the one
before, and the files of snapshots (`SideWrite`).  A crash leaves a part of these
writes, so what every one of them keeps survives it.
-/

namespace Vosfs.Raft

/-- The term moved on, or the vote was cleared. -/
def Later (hardState hardState' : HardState) : Prop :=
  hardState.currentTerm < hardState'.currentTerm ∨
    (hardState'.currentTerm = hardState.currentTerm ∧
      (hardState'.votedFor = hardState.votedFor ∨ hardState'.votedFor = none))

theorem Later.refl {hardState : HardState} : Later hardState hardState :=
  Or.inr ⟨rfl, Or.inl rfl⟩

theorem Later.trans {first second third : HardState} (hfirst : Later first second)
    (hsecond : Later second third) : Later first third := by
  unfold Later at *
  rcases hfirst with hlt | ⟨heq, hvote⟩
  · left
    omega
  · rcases hsecond with hlt | ⟨heq', hvote'⟩
    · left
      omega
    · right
      refine ⟨heq'.trans heq, ?_⟩
      rcases hvote' with hsame | hnone
      · rwa [hsame]
      · exact Or.inr hnone

/-- The write of a snapshot file. -/
def FileWrite (w : DiskWrite Payload) : Prop :=
  ∀ db, Disk.applyToDb db w = db

/-- The write of some entries, or the deletion of entries. -/
def EntryWrite (entries : List LogEntry) (w : DiskWrite Payload) : Prop :=
  ∃ ops, w = .batch ops ∧ ∀ op ∈ ops, ∃ index, op.1 = Persister.getEntryKey index ∧
    ∀ payload ∈ op.2, ∃ entry ∈ entries, payload = .entry entry

/-- The entries a leader sends with an input. -/
def Input.entries? : Input → Option AppendEntriesRequest
  | .deliver _ (.appendEntriesRequest request) => some request
  | _ => none

theorem Input.eq_of_entries? {input : Input} {request : AppendEntriesRequest}
    (hentries : input.entries? = some request) :
    ∃ src, input = .deliver src (.appendEntriesRequest request) := by
  unfold Input.entries? at hentries
  split at hentries
  next src request' => cases hentries; exact ⟨src, rfl⟩
  next => cases hentries

/-- The entries of a request to append. -/
def Input.carried (input : Input) : List LogEntry :=
  (input.entries?.map AppendEntriesRequest.entries).getD []

namespace RaftNode

variable {env : Env} {node node' : RaftNode} {fits : Prop}

/-- The node a handler was left with, whether or not it returned. -/
def lastNode : Except RaftNode RaftNode → RaftNode
  | .ok node => node
  | .error node => node

/-- Entries can be applied.  They cannot after a start from a snapshot, as
`last_applied_` starts at 0 then too. -/
def CanApply (node : RaftNode) : Prop :=
  node.logs.lastIncludedIndex = 0 ∨ 0 < node.lastApplied

/-- A write that stores no entries.  `fits` is that no election wraps the term. -/
inductive SideWrite (fits : Prop) (node : RaftNode) : DiskWrite Payload → Prop
  | hardState {hardState : HardState} (hlater : fits → Later node.hardState hardState) :
      SideWrite fits node (.batch [(Persister.hardStateKey, some (.hardState hardState))])
  | file {w : DiskWrite Payload} (hfile : FileWrite w) (happly : node.CanApply) :
      SideWrite fits node w

/-- What comes after some part of a step also belongs to the step. -/
theorem SideWrite.after {w : DiskWrite Payload} (hside : SideWrite fits node' w)
    (hlater : fits → Later node.hardState node'.hardState)
    (happly : node'.CanApply → node.CanApply) : SideWrite fits node w := by
  cases hside with
  | hardState hlater' => exact .hardState fun hfits => (hlater hfits).trans (hlater' hfits)
  | file hfile happly' => exact .file hfile (happly happly')

theorem wrote_saveHardState (hlater : fits → Later node.hardState node'.hardState)
    (hdisk : node'.disk = node.disk) :
    Disk.Wrote (SideWrite fits node) node.disk node'.saveHardState.disk := by
  rw [← hdisk]
  exact Disk.Wrote.write (SideWrite.hardState hlater)

/-! ## Elections -/

theorem wrote_catchUp {term : ℕ} :
    Disk.Wrote (SideWrite fits node) node.disk (node.catchUp env term).disk := by
  unfold catchUp
  split
  next hlt => exact wrote_saveHardState (fun _ => Or.inl hlt) rfl
  next => exact Disk.Wrote.refl

theorem later_catchUp {term : ℕ} : Later node.hardState (node.catchUp env term).hardState := by
  unfold catchUp
  split
  next hlt => exact Or.inl hlt
  next => exact Later.refl

theorem canApply_catchUp {term : ℕ} : (node.catchUp env term).CanApply ↔ node.CanApply := by
  unfold catchUp
  split <;> exact Iff.rfl

theorem wrote_tryToLead :
    Disk.Wrote (SideWrite fits node) node.disk node.tryToLead.disk := by
  unfold tryToLead
  split
  next => exact wrote_saveHardState (fun _ => Or.inr ⟨rfl, Or.inr rfl⟩) rfl
  next => exact Disk.Wrote.refl

theorem wrote_electionLoop
    (hfits : fits → TimedOut env node → node.role ≠ .leader → node.currentTerm + 1 < 2 ^ 64) :
    Disk.Wrote (SideWrite fits node) node.disk (node.electionLoop env).1.disk := by
  unfold electionLoop
  split
  next => exact Disk.Wrote.refl
  next hstart =>
    simp only [not_or, not_not] at hstart
    have hlater : fits → Later node.hardState node.startElection.hardState := by
      intro h
      left
      have hterm : node.startElection.currentTerm = node.currentTerm + 1 :=
        Nat.mod_eq_of_lt (hfits h hstart.1 hstart.2)
      exact Nat.lt_of_lt_of_eq (Nat.lt_succ_self _) hterm.symm
    have hfirst : Disk.Wrote (SideWrite fits node) node.disk node.startElection.voteForSelf.disk :=
      Disk.Wrote.write (SideWrite.hardState hlater)
    have hsecond : Disk.Wrote (SideWrite fits node.startElection.voteForSelf)
        node.startElection.voteForSelf.disk node.startElection.voteForSelf.tryToLead.disk :=
      wrote_tryToLead
    exact hfirst.trans (hsecond.mono fun w hw => hw.after hlater id)

theorem wrote_handleRequestVoteRequest {request : RequestVoteRequest} :
    Disk.Wrote (SideWrite fits node) node.disk
      (node.handleRequestVoteRequest env request).1.disk := by
  unfold handleRequestVoteRequest
  split
  next => exact Disk.Wrote.refl
  next =>
    simp only
    split
    next => exact wrote_catchUp
    next => exact wrote_catchUp

theorem wrote_handleRequestVoteResponse {response : RequestVoteResponse} :
    Disk.Wrote (SideWrite fits node) node.disk
      (node.handleRequestVoteResponse env response).disk := by
  unfold handleRequestVoteResponse
  split
  next => exact Disk.Wrote.refl
  next =>
    split
    next hlt => exact wrote_saveHardState (fun _ => Or.inl hlt) rfl
    next =>
      split
      next => exact Disk.Wrote.refl
      next =>
        split
        next =>
          have hwrote : Disk.Wrote (SideWrite fits { node with votes := node.votes + 1 }) node.disk
              ({ node with votes := node.votes + 1 } : RaftNode).tryToLead.disk := wrote_tryToLead
          exact hwrote.mono fun w hw => hw.after (fun _ => Later.refl) id
        next => exact Disk.Wrote.refl

/-! ## Applying entries -/

section Apply

variable [Platform]

theorem wrote_saveSnapshot {snapshotter : Snapshotter} {outcome : FileOutcome}
    {disk disk' : Disk Payload} {snapshot : Snapshot} {result : Except Error Snapshotter}
    (hsave : snapshotter.saveSnapshot outcome disk snapshot = some (result, disk')) :
    Disk.Wrote FileWrite disk disk' := by
  have hopen : ∀ {path}, FileWrite (.openTruncated path) := fun _ => rfl
  have hwrite : ∀ {path data}, FileWrite (.writeAll path data) := fun _ => rfl
  have hrename : ∀ {source target}, FileWrite (.rename source target) := fun _ => rfl
  unfold Snapshotter.saveSnapshot at hsave
  split at hsave
  next => cases hsave
  next =>
    simp only at hsave
    split at hsave <;> cases hsave
    · exact Disk.Wrote.refl
    · exact .write hopen
    · exact (Disk.Wrote.write hopen).trans (.write hwrite)
    · exact ((Disk.Wrote.write hopen).trans (.write hwrite)).trans (.write hrename)

theorem disk_of_snapshotAt_error {index : ℕ}
    (hsnapshot : node.snapshotAt env index = .error node') :
    node'.disk = node.disk := by
  unfold snapshotAt at hsnapshot
  split at hsnapshot
  next => cases hsnapshot; rfl
  next =>
    simp only at hsnapshot
    split at hsnapshot
    next => cases hsnapshot; rfl
    next => cases hsnapshot
    next => cases hsnapshot

/-- What a round of applying keeps. -/
structure Applies (node node' : RaftNode) : Prop where
  wrote : Disk.Wrote FileWrite node.disk node'.disk
  hardState : node'.hardState = node.hardState
  entries : node'.logs.entries = node.logs.entries
  base : node.logs.lastIncludedIndex = 0 → node'.logs.lastIncludedIndex = 0

omit [Platform] in
theorem Applies.refl : Applies node node :=
  ⟨Disk.Wrote.refl, rfl, rfl, id⟩

omit [Platform] in
theorem Applies.trans {node'' : RaftNode} (hfirst : Applies node node')
    (hsecond : Applies node' node'') : Applies node node'' :=
  ⟨hfirst.wrote.trans hsecond.wrote, hsecond.hardState.trans hfirst.hardState,
    hsecond.entries.trans hfirst.entries, hsecond.base ∘ hfirst.base⟩

theorem applyNext_applies (happly : node.applyNext env = .ok node') : Applies node node' := by
  obtain ⟨entry, -, hround⟩ := round_of_applyNext happly
  cases hround with
  | plain => exact ⟨Disk.Wrote.refl, rfl, rfl, id⟩
  | failed _ saves => exact ⟨wrote_saveSnapshot saves, rfl, rfl, id⟩
  | saved _ saves => exact ⟨wrote_saveSnapshot saves, rfl, rfl, fun _ => rfl⟩

theorem disk_of_applyNext_error (happly : node.applyNext env = .error node') :
    node'.disk = node.disk := by
  unfold applyNext at happly
  simp only at happly
  split at happly
  next => cases happly; rfl
  next =>
    split at happly
    next =>
      have hdisk := disk_of_snapshotAt_error happly
      exact hdisk
    next => cases happly

theorem applyRounds_applies {rounds : ℕ} (happly : applyRounds env rounds node = .ok node') :
    Applies node node' := by
  induction rounds generalizing node with
  | zero => cases happly; exact Applies.refl
  | succ rounds ih =>
    obtain ⟨next, hnext, happly⟩ := exists_of_applyRounds happly
    exact (applyNext_applies hnext).trans (ih happly)

theorem applyEntry_applies {commitIndex : ℕ}
    (happly : ({ node with commitIndex := commitIndex } : RaftNode).applyEntry env = .ok node') :
    Applies node node' := by
  have happlies := applyRounds_applies happly
  exact ⟨happlies.wrote, happlies.hardState, happlies.entries, happlies.base⟩

theorem MovesCommit.applies (hmoves : MovesCommit env node node') : Applies node node' := by
  cases hmoves with
  | stays same => rw [same]; exact Applies.refl
  | moves _ happly => exact applyEntry_applies happly

theorem wrote_applyRounds {rounds : ℕ} :
    Disk.Wrote FileWrite node.disk (lastNode (applyRounds env rounds node)).disk := by
  induction rounds generalizing node with
  | zero => exact Disk.Wrote.refl
  | succ rounds ih =>
    unfold applyRounds
    split
    next herror => exact Disk.Wrote.of_eq (disk_of_applyNext_error herror)
    next hnext => exact (applyNext_applies hnext).wrote.trans ih

/-- After a start from a snapshot the loop does not get through a round. -/
theorem applyRounds_of_not_canApply {rounds : ℕ} (happly : ¬ node.CanApply) :
    (lastNode (applyRounds env rounds node)).disk = node.disk ∧
      ∀ node', applyRounds env rounds node = .ok node' → node' = node := by
  simp only [CanApply, not_or, not_lt, Nat.le_zero] at happly
  cases rounds with
  | zero => exact ⟨rfl, fun node' hnode' => (Except.ok.inj hnode').symm⟩
  | succ rounds =>
    have hnone : node.logs.getEntry (node.lastApplied + 1) = none := by
      rw [happly.2, RaftLog.getEntry, if_neg (by omega)]
    have herror : applyRounds env (rounds + 1) node =
        .error { node with lastApplied := node.lastApplied + 1 } := by
      simp only [applyRounds, applyNext, hnone]
    rw [herror]
    exact ⟨rfl, fun node' hnode' => by cases hnode'⟩

/-- Applying writes files only, and nothing where it cannot go on. -/
theorem wrote_applyEntry {commitIndex : ℕ} :
    Disk.Wrote (SideWrite fits node) node.disk
      (lastNode ({ node with commitIndex := commitIndex }.applyEntry env)).disk := by
  by_cases happly : node.CanApply
  · exact wrote_applyRounds.mono fun w hw => .file hw happly
  · have hnot : ¬ ({ node with commitIndex := commitIndex } : RaftNode).CanApply := happly
    exact Disk.Wrote.of_eq (applyRounds_of_not_canApply hnot).1

theorem wrote_followCommit {leaderCommit : ℕ} :
    Disk.Wrote (SideWrite fits node) node.disk
      (lastNode (node.followCommit env leaderCommit)).disk := by
  unfold followCommit
  split
  next => exact wrote_applyEntry
  next => exact Disk.Wrote.refl

theorem wrote_advanceCommit :
    Disk.Wrote (SideWrite fits node) node.disk (lastNode (node.advanceCommit env)).disk := by
  unfold advanceCommit
  split
  next => exact wrote_applyEntry
  next => exact Disk.Wrote.refl

theorem wrote_handleAppendEntriesResponse {response : AppendEntriesResponse} :
    Disk.Wrote (SideWrite fits node) node.disk
      (lastNode (node.handleAppendEntriesResponse env response)).disk := by
  unfold handleAppendEntriesResponse
  split
  next => exact Disk.Wrote.refl
  next =>
    split
    next hlt => exact wrote_saveHardState (fun _ => Or.inl hlt) rfl
    next =>
      split
      next => split <;> exact Disk.Wrote.refl
      next =>
        have hwrote : Disk.Wrote (SideWrite fits (node.recordMatch response.id
            response.lastLogIndex)) node.disk (lastNode
              ((node.recordMatch response.id response.lastLogIndex).advanceCommit env)).disk :=
          wrote_advanceCommit
        exact hwrote.mono fun w hw => hw.after (fun _ => Later.refl) id

end Apply

/-! ## Storing entries -/

theorem entryWrite_truncateEntries {all : List LogEntry} (disk : Disk Payload)
    (startIndex endIndex : ℕ) :
    Disk.Wrote (EntryWrite all) disk (Persister.truncateEntries disk startIndex endIndex) := by
  refine .write ⟨_, rfl, fun op hop => ?_⟩
  obtain ⟨index, -, rfl⟩ := List.mem_map.mp hop
  exact ⟨index, rfl, fun payload hpayload => by cases hpayload⟩

theorem entryWrite_saveEntries (disk : Disk Payload) (entries : List LogEntry) :
    Disk.Wrote (EntryWrite entries) disk (Persister.saveEntries disk entries) := by
  refine .write ⟨_, rfl, fun op hop => ?_⟩
  obtain ⟨entry, hentry, rfl⟩ := List.mem_map.mp hop
  exact ⟨entry.index, rfl, fun payload hpayload => ⟨entry, hentry, by cases hpayload; rfl⟩⟩

theorem wrote_dropConflicts {entries all : List LogEntry} :
    Disk.Wrote (EntryWrite all) node.disk (lastNode (dropConflicts entries node)).disk := by
  induction entries with
  | nil => exact Disk.Wrote.refl
  | cons entry rest ih =>
    unfold dropConflicts
    split
    next => exact Disk.Wrote.refl
    next =>
      split
      next => exact Disk.Wrote.refl
      next =>
        split
        next =>
          simp only
          split <;> exact entryWrite_truncateEntries _ _ _
        next => exact ih

theorem wrote_storeEntries {entries : List LogEntry} :
    Disk.Wrote (EntryWrite entries) node.disk (lastNode (node.storeEntries entries)).disk := by
  unfold storeEntries
  split
  next => exact Disk.Wrote.refl
  next =>
    have hdrop := @wrote_dropConflicts node entries entries
    split
    next herror => rwa [herror] at hdrop
    next hok =>
      rw [hok] at hdrop
      exact hdrop.trans (entryWrite_saveEntries _ _)

/-! ## Snapshots and heartbeats -/

/-- Only the snapshotter, which belongs to the process, changes. -/
def MovesSnapshotter (node node' : RaftNode) : Prop :=
  ∃ snapshotter, node' = { node with snapshotter := snapshotter }

theorem MovesSnapshotter.refl : MovesSnapshotter node node :=
  ⟨node.snapshotter, rfl⟩

theorem MovesSnapshotter.trans {node'' : RaftNode} (hfirst : MovesSnapshotter node node')
    (hsecond : MovesSnapshotter node' node'') : MovesSnapshotter node node'' := by
  obtain ⟨_, rfl⟩ := hfirst
  obtain ⟨snapshotter, rfl⟩ := hsecond
  exact ⟨snapshotter, rfl⟩

theorem sendSnapshot_moves {memberId : ℕ} :
    MovesSnapshotter node (lastNode ((node.sendSnapshot env memberId).map Prod.fst)) := by
  unfold sendSnapshot
  split
  next => exact MovesSnapshotter.refl
  next =>
    split
    next => exact MovesSnapshotter.refl
    next snapshotter _ =>
      simp only
      split
      next => exact ⟨_, rfl⟩
      next => split <;> exact ⟨_, rfl⟩

theorem heartbeatTo_moves {memberId nextIndex : ℕ} :
    MovesSnapshotter node (lastNode ((node.heartbeatTo env memberId nextIndex).map Prod.fst)) := by
  unfold heartbeatTo
  split
  next => exact MovesSnapshotter.refl
  next =>
    split
    next => exact sendSnapshot_moves
    next =>
      simp only
      split <;> exact MovesSnapshotter.refl

theorem moves_of_heartbeatTo {memberId nextIndex : ℕ} {packets : List Packet}
    (hto : node.heartbeatTo env memberId nextIndex = .ok (node', packets)) :
    MovesSnapshotter node node' := by
  have hmoves := @heartbeatTo_moves env node memberId nextIndex
  rw [hto] at hmoves
  exact hmoves

theorem heartbeats_moves {targets : List (ℕ × ℕ)} :
    MovesSnapshotter node (lastNode ((heartbeats env targets node).map Prod.fst)) := by
  induction targets generalizing node with
  | nil => exact MovesSnapshotter.refl
  | cons target rest ih =>
    have hbeat := @heartbeatTo_moves env node target.1 target.2
    unfold heartbeats
    split
    next herror => rwa [herror] at hbeat
    next next _ hok =>
      rw [hok] at hbeat
      have hrest := @ih next
      split
      next herror => rw [herror] at hrest; exact hbeat.trans hrest
      next hok => rw [hok] at hrest; exact hbeat.trans hrest

theorem heartbeatLoop_moves :
    MovesSnapshotter node (lastNode ((node.heartbeatLoop env).map Prod.fst)) := by
  unfold heartbeatLoop
  split
  next => exact MovesSnapshotter.refl
  next => exact heartbeats_moves

theorem MovesSnapshotter.wrote (hmoves : MovesSnapshotter node node') :
    Disk.Wrote (SideWrite fits node) node.disk node'.disk := by
  obtain ⟨_, rfl⟩ := hmoves
  exact Disk.Wrote.refl

/-! ## Steps without what they send -/

section Steps

variable [Platform]

/-- The node as it is when a request of the leader passed the check of the term. -/
def followed (env : Env) (node : RaftNode) (request : AppendEntriesRequest) : RaftNode :=
  (node.catchUp env request.term).heardFrom env request.leaderId

/-- The node after a request to append, without the response. -/
def afterEntries (env : Env) (node : RaftNode) (request : AppendEntriesRequest) :
    Except RaftNode RaftNode :=
  if request.term < node.currentTerm then .ok node
  else if ¬ LogOk (node.followed env request) request then .ok (node.followed env request)
  else
    ((node.followed env request).storeEntries request.entries).bind fun node =>
      node.followCommit env request.leaderCommit

/-- The node after a message. -/
def afterMessage (env : Env) (node : RaftNode) : Message → Except RaftNode RaftNode
  | .requestVoteRequest request => .ok (node.handleRequestVoteRequest env request).1
  | .requestVoteResponse response => .ok (node.handleRequestVoteResponse env response)
  | .appendEntriesRequest request => node.afterEntries env request
  | .appendEntriesResponse response => node.handleAppendEntriesResponse env response
  | .installSnapshotRequest request => .ok (node.handleInstallSnapshotRequest env request).1
  | .installSnapshotResponse response =>
    (node.handleInstallSnapshotResponse env response).map Prod.fst

/-- The node after an input, without what is sent. -/
def after (env : Env) (node : RaftNode) : Input → Except RaftNode RaftNode
  | .electionTimeout => .ok (node.electionLoop env).1
  | .heartbeat => (node.heartbeatLoop env).map Prod.fst
  | .deliver _ message => node.afterMessage env message
  | .listDir _ => .ok node
  | .makeDir request => .ok (node.handleMakeDirRequest env request).1
  | .prepareUploadFile request => (node.handlePrepareUploadFileRequest env request).map Prod.fst
  | .uploadFile request => .ok (node.handleUploadFileRequest env request).1
  | .prepareDownloadFile _ => .ok node

theorem map_handleAppendEntriesRequest {request : AppendEntriesRequest} :
    (node.handleAppendEntriesRequest env request).map Prod.fst =
      node.afterEntries env request := by
  unfold handleAppendEntriesRequest afterEntries followed
  split
  next => rfl
  next =>
    simp only
    split
    next => rfl
    next =>
      cases ((node.catchUp env request.term).heardFrom env request.leaderId).storeEntries
          request.entries with
      | error stored => rfl
      | ok stored =>
        dsimp only [Except.bind]
        cases stored.followCommit env request.leaderCommit <;> rfl

omit [Platform] in
theorem map_map_fst {α β : Type*} (result : Except RaftNode α) (f : α → RaftNode × β) :
    (result.map f).map Prod.fst = result.map (Prod.fst ∘ f) := by
  cases result <;> rfl

theorem map_receive {src : ℕ} {message : Message} :
    (node.receive env src message).map Prod.fst = node.afterMessage env message := by
  cases message with
  | requestVoteRequest request => rfl
  | requestVoteResponse response => rfl
  | appendEntriesRequest request =>
    exact (map_map_fst _ _).trans map_handleAppendEntriesRequest
  | appendEntriesResponse response =>
    refine (map_map_fst (node.handleAppendEntriesResponse env response) _).trans ?_
    exact congrFun Except.map_id _
  | installSnapshotRequest request => rfl
  | installSnapshotResponse response => rfl

/-- `after` is what the step makes of the node. -/
theorem map_handle {input : Input} :
    (node.handle env input).map Prod.fst = node.after env input := by
  cases input with
  | electionTimeout => rfl
  | heartbeat => exact map_map_fst _ _
  | deliver src message => exact (map_map_fst _ _).trans map_receive
  | listDir request => rfl
  | makeDir request => rfl
  | prepareUploadFile request => exact map_map_fst _ _
  | uploadFile request => rfl
  | prepareDownloadFile request => rfl

theorem after_of_handle {input : Input} {output : Output}
    (hhandle : node.handle env input = .ok (node', output)) : node.after env input = .ok node' := by
  rw [← map_handle, hhandle]
  rfl

theorem diskAfter_eq {input : Input} :
    node.diskAfter env input = (lastNode (node.after env input)).disk := by
  rw [← map_handle]
  unfold diskAfter
  split
  next node' hhandle => rw [hhandle]; rfl
  next node' output hhandle => rw [hhandle]; rfl

/-! ## All writes of a step -/

theorem wrote_handleInstallSnapshotRequest {request : InstallSnapshotRequest} :
    Disk.Wrote (SideWrite fits node) node.disk
      (node.handleInstallSnapshotRequest env request).1.disk := by
  have hcatch : Disk.Wrote (SideWrite fits node) node.disk (node.catchUp env request.term).disk :=
    wrote_catchUp
  unfold handleInstallSnapshotRequest
  split
  next => exact Disk.Wrote.refl
  next =>
    simp only
    split
    next => exact hcatch
    next => split <;> exact hcatch

omit [Platform] in
theorem wrote_handleInstallSnapshotResponse {response : InstallSnapshotResponse} :
    Disk.Wrote (SideWrite fits node) node.disk
      (lastNode ((node.handleInstallSnapshotResponse env response).map Prod.fst)).disk := by
  unfold handleInstallSnapshotResponse
  split
  next hlt => exact wrote_saveHardState (fun _ => Or.inl hlt) rfl
  next => exact sendSnapshot_moves.wrote

omit [Platform] in
/-- A client's command is appended in memory only. -/
theorem disk_handleMakeDirRequest {request : MakeDirRequest} :
    (node.handleMakeDirRequest env request).1.disk = node.disk := by
  unfold handleMakeDirRequest
  split <;> rfl

omit [Platform] in
theorem disk_handleUploadFileRequest {request : UploadFileRequest} :
    (node.handleUploadFileRequest env request).1.disk = node.disk := by
  unfold handleUploadFileRequest
  split <;> rfl

theorem handlePrepareUploadFileRequest_shape {request : PrepareUploadFileRequest} :
    ∃ stateMachine, lastNode ((node.handlePrepareUploadFileRequest env request).map Prod.fst) =
      { node with stateMachine := stateMachine } := by
  unfold handlePrepareUploadFileRequest
  split
  next => exact ⟨_, rfl⟩
  next => split <;> exact ⟨_, rfl⟩

/-- What a step writes, unless it stores entries. -/
theorem wrote_after {input : Input} (hinput : input.entries? = none)
    (hfits : fits → input = .electionTimeout → node.TermFits env) :
    Disk.Wrote (SideWrite fits node) node.disk (lastNode (node.after env input)).disk := by
  cases input with
  | electionTimeout => exact wrote_electionLoop fun h => hfits h rfl
  | heartbeat => exact heartbeatLoop_moves.wrote
  | deliver src message =>
    cases message with
    | requestVoteRequest request => exact wrote_handleRequestVoteRequest
    | requestVoteResponse response => exact wrote_handleRequestVoteResponse
    | appendEntriesRequest request => cases hinput
    | appendEntriesResponse response => exact wrote_handleAppendEntriesResponse
    | installSnapshotRequest request => exact wrote_handleInstallSnapshotRequest
    | installSnapshotResponse response => exact wrote_handleInstallSnapshotResponse
  | listDir request => exact Disk.Wrote.refl
  | makeDir request => exact Disk.Wrote.of_eq disk_handleMakeDirRequest
  | prepareUploadFile request =>
    obtain ⟨stateMachine, hshape⟩ := @handlePrepareUploadFileRequest_shape env node _ request
    have hdisk := congrArg RaftNode.disk hshape
    exact Disk.Wrote.of_eq hdisk
  | uploadFile request => exact Disk.Wrote.of_eq disk_handleUploadFileRequest
  | prepareDownloadFile request => exact Disk.Wrote.refl

/-- Storing entries comes between what the other handlers write. -/
theorem wrote_afterEntries {request : AppendEntriesRequest} :
    Disk.Wrote (fun w => SideWrite fits node w ∨ EntryWrite request.entries w) node.disk
      (lastNode (node.afterEntries env request)).disk := by
  have hfollowed : Disk.Wrote (fun w => SideWrite fits node w ∨ EntryWrite request.entries w) node.disk
      (node.followed env request).disk :=
    wrote_catchUp.mono fun _ => Or.inl
  unfold afterEntries
  split
  next => exact Disk.Wrote.refl
  next =>
    split
    next => exact hfollowed
    next =>
      have hstore := @wrote_storeEntries (node.followed env request) request.entries
      cases hstored : (node.followed env request).storeEntries request.entries with
      | error stopped =>
        rw [hstored] at hstore
        exact hfollowed.trans (hstore.mono fun _ => Or.inr)
      | ok stored =>
        rw [hstored] at hstore
        refine (hfollowed.trans (hstore.mono fun _ => Or.inr)).trans ?_
        refine Disk.Wrote.mono (fun w hw => Or.inl ?_)
          (@wrote_followCommit env stored fits _ request.leaderCommit)
        obtain ⟨_, _, rfl⟩ := storeEntries_shape hstored
        refine hw.after (fun _ => ?_) fun happly => ?_
        · exact later_catchUp
        · exact canApply_catchUp.mp happly

/-- **What a step writes.** -/
theorem wrote_after_all {input : Input}
    (hfits : fits → input = .electionTimeout → node.TermFits env) :
    Disk.Wrote (fun w => SideWrite fits node w ∨ EntryWrite input.carried w) node.disk
      (lastNode (node.after env input)).disk := by
  cases hinput : input.entries? with
  | none => exact (wrote_after hinput hfits).mono fun _ => Or.inl
  | some request =>
    obtain ⟨src, rfl⟩ := Input.eq_of_entries? hinput
    exact wrote_afterEntries

end Steps

end RaftNode

end Vosfs.Raft
