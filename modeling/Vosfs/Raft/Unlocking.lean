import Vosfs.Raft.Locks

/-!
# Mutexes are given back

A call that finds both mutexes free leaves them free, wherever it returns or suspends a client,
unless it asks `offset_at` for a member's offset: that function returns before it unlocks
(`LockCall.AsksOffset`).  So no call waits, and none leaves a mutex locked, in a run without such
calls (`locksGivenBack`).

`send_snapshot` asks, so that it waits for itself as soon as it goes on to `load_snapshot_data`,
with the mutex of the node locked as well.
-/

namespace Vosfs.Raft

open Call HasMutexes

/-! ## Calls, and free mutexes -/

/-- Both mutexes are free. -/
def SharedNode.Free (s : SharedNode) : Prop :=
  s.locked = false ∧ s.node.snapshotter.locked = false

instance {s : SharedNode} : Decidable s.Free :=
  inferInstanceAs (Decidable (_ ∧ _))

/-- A call of a function of the snapshotter, of a handler, or of an iteration of a loop. -/
inductive LockCall
  | offsetAt (memberId : ℕ)
  | saveSnapshot (outcome : FileOutcome) (snapshot : Snapshot)
  | loadSnapshotData (outcome : FileOutcome) (memberId : ℕ) (request : InstallSnapshotRequest)
  | saveSnapshotData (outcome : FileOutcome)
      (writeAll : Disk Payload → String → List UInt8 → Disk Payload) (data : List UInt8)
  | handle (env : Env) (input : Input)

namespace LockCall

/-- What is called, without its answer. -/
def run [Platform] : LockCall → NodeCall Unit
  | .offsetAt memberId => (NodeCall.offsetAt memberId).forget
  | .saveSnapshot outcome snapshot => (NodeCall.saveSnapshot outcome snapshot).forget
  | .loadSnapshotData outcome memberId request =>
    (NodeCall.loadSnapshotData outcome memberId request).forget
  | .saveSnapshotData outcome writeAll data =>
    (NodeCall.saveSnapshotData outcome writeAll data).forget
  | .handle env input => (NodeCall.handle env input).forget

/-- The call returns with both mutexes free, or an assertion ends the process. -/
def GivesBack [Platform] (call : LockCall) (s : SharedNode) : Prop :=
  call.run.wp (fun s' _ => s'.Free) s

end LockCall

/-- Calls are made one after another. -/
def SharedNode.step [Platform] (s : SharedNode) (call : LockCall) : Option SharedNode :=
  (call.run.returned? s).map Prod.fst

/-! ## Calls that ask for an offset -/

/-- A member that lacks entries which the log has no more. -/
def RaftNode.NeedsSnapshot (node : RaftNode) (target : ℕ × ℕ) : Prop :=
  target.1 ≠ node.memberId ∧ target.2 ≤ node.logs.lastLogIndex ∧
    target.2 ≤ node.logs.lastIncludedIndex

instance {node : RaftNode} {target : ℕ × ℕ} : Decidable (node.NeedsSnapshot target) :=
  inferInstanceAs (Decidable (_ ∧ _ ∧ _))

/-- The call comes to `offset_at`: it is called itself, or there is snapshot data to send. -/
def LockCall.AsksOffset (node : RaftNode) : LockCall → Prop
  | .offsetAt _ => True
  | .handle _ .heartbeat => node.role = .leader ∧ node.snapshotData.isEmpty = false ∧
      ∃ target ∈ node.nextIndex.pairs, node.NeedsSnapshot target
  | .handle _ (.deliver _ (.installSnapshotResponse response)) =>
    response.term ≤ node.currentTerm ∧ node.snapshotData.isEmpty = false
  | _ => False

instance {node : RaftNode} : ∀ {call : LockCall}, Decidable (call.AsksOffset node)
  | .offsetAt _ => inferInstanceAs (Decidable True)
  | .handle _ .heartbeat => inferInstanceAs (Decidable (_ ∧ _ ∧ ∃ _ ∈ _, _))
  | .handle _ (.deliver _ (.installSnapshotResponse _)) => inferInstanceAs (Decidable (_ ∧ _))
  | .handle _ (.deliver _ (.requestVoteRequest _))
  | .handle _ (.deliver _ (.requestVoteResponse _))
  | .handle _ (.deliver _ (.appendEntriesRequest _))
  | .handle _ (.deliver _ (.appendEntriesResponse _))
  | .handle _ (.deliver _ (.installSnapshotRequest _))
  | .handle _ .electionTimeout | .handle _ (.listDir _) | .handle _ (.makeDir _)
  | .handle _ (.prepareUploadFile _) | .handle _ (.uploadFile _)
  | .handle _ (.prepareDownloadFile _)
  | .saveSnapshot _ _ | .loadSnapshotData _ _ _ | .saveSnapshotData _ _ _ =>
    inferInstanceAs (Decidable False)

/-! ## Steps on the node -/

namespace NodeCall

section Steps

variable {free : Set Mutex} {α : Type}

/-- A step of the model leaves the mutexes alone. -/
theorem keeps_attempt {step : RaftNode → Except RaftNode (RaftNode × α)}
    (h : ∀ {node node' value}, step node = .ok (node', value) →
      node'.snapshotter.locked = node.snapshotter.locked) : Keeps free (attempt step) := by
  refine Call.keeps_attempt fun {s s' value} hstep => ?_
  cases hresult : step s.node with
  | error node => rw [hresult] at hstep; cases hstep
  | ok found =>
    rw [hresult] at hstep
    cases hstep
    funext mutex
    cases mutex with
    | node => rfl
    | snapshotter => exact h hresult

theorem keeps_perform {step : RaftNode → RaftNode × α}
    (h : ∀ node, (step node).1.snapshotter.locked = node.snapshotter.locked) :
    Keeps free (perform step) := by
  refine keeps_attempt fun {node node' value} hstep => ?_
  rw [← h node, Except.ok.inj hstep]

theorem keeps_change {step : RaftNode → RaftNode}
    (h : ∀ node, (step node).snapshotter.locked = node.snapshotter.locked) :
    Keeps free (change step) :=
  keeps_perform h

theorem keeps_getNode : Keeps free getNode :=
  fun _ _ => rfl

end Steps

/-! ## The snapshotter -/

/-- A scope of the snapshotter, with its guard. -/
theorem keeps_section {α : Type} {mutex : Mutex} {scope : NodeCall α} (h : Keeps ∅ scope) :
    Keeps {mutex} (do lock mutex; guarded mutex scope) := by
  have hkeeps := (h.guarded mutex).keeps (Set.notMem_empty mutex)
  rwa [insert_empty_eq] at hkeeps

theorem keeps_write {free : Set Mutex} (w : Snapshotter → DiskWrite Payload) :
    Keeps free (write w) :=
  keeps_change fun _ => rfl

theorem keeps_setOffset {free : Set Mutex} (memberId offset : ℕ) :
    Keeps free (setOffset memberId offset) :=
  keeps_change fun _ => rfl

theorem keeps_saveSnapshot [Platform] (outcome : FileOutcome) (snapshot : Snapshot) :
    Keeps {.snapshotter} (saveSnapshot outcome snapshot) := by
  refine keeps_section (.ite (fun _ => keeps_pure _) fun _ => ?_)
  refine (keeps_write _).bind fun _ => .ite (fun _ => keeps_pure _) fun _ => ?_
  refine (keeps_write _).bind fun _ => .ite (fun _ => keeps_pure _) fun _ => ?_
  refine (keeps_write _).bind fun _ => ?_
  exact Keeps.bind (keeps_change fun _ => rfl) fun _ => keeps_pure _

theorem keeps_loadSnapshotData (outcome : FileOutcome) (memberId : ℕ)
    (request : InstallSnapshotRequest) :
    Keeps {.snapshotter} (loadSnapshotData outcome memberId request) := by
  refine keeps_section (keeps_getNode.bind fun node => ?_)
  have hfails : ∀ error, Keeps ∅ (do
      setOffset memberId 0
      return (.error error : Except Error InstallSnapshotRequest)) :=
    fun error => (keeps_setOffset memberId 0).bind fun _ => keeps_pure _
  dsimp only
  split
  next => exact hfails _
  next =>
    refine .ite (fun _ => hfails _) fun _ => .ite (fun _ => hfails _) fun _ => ?_
    refine .ite (fun _ => hfails _) fun _ => ?_
    exact (keeps_setOffset memberId _).bind fun _ => keeps_pure _

theorem keeps_saveSnapshotData (outcome : FileOutcome)
    (writeAll : Disk Payload → String → List UInt8 → Disk Payload) (data : List UInt8) :
    Keeps {.snapshotter} (saveSnapshotData outcome writeAll data) := by
  refine keeps_section (keeps_getNode.bind fun node => ?_)
  refine .ite (fun _ => keeps_pure _) fun _ => .ite (fun _ => keeps_pure _) fun _ => ?_
  refine Keeps.bind (keeps_change fun _ => rfl) fun _ => ?_
  exact .ite (fun _ => keeps_pure _) fun _ => (keeps_write _).bind fun _ => keeps_pure _

/-! ## Applying committed entries -/

section Apply

variable [Platform] (env : Env)

theorem keeps_snapshotAt (index : ℕ) : Keeps {.snapshotter} (snapshotAt env index) := by
  refine (keeps_attempt fun {node node' value} hstep => ?_).bind fun snapshot => ?_
  · split at hstep
    next => cases hstep
    next => cases hstep; rfl
  · refine (keeps_saveSnapshot _ _).bind fun result => ?_
    cases result with
    | error error => exact keeps_pure _
    | ok value => exact keeps_change fun _ => rfl

theorem keeps_applyNext : Keeps {.snapshotter} (applyNext env) := by
  refine (keeps_attempt fun {node node' value} hstep => ?_).bind fun _ => ?_
  · dsimp only at hstep
    split at hstep
    next => cases hstep
    next => cases hstep; rfl
  · exact keeps_getNode.bind fun node =>
      .ite (fun _ => keeps_snapshotAt env _) fun _ => keeps_pure _

theorem keeps_applyRounds (rounds : ℕ) : Keeps {.snapshotter} (applyRounds env rounds) := by
  induction rounds with
  | zero => exact keeps_pure _
  | succ rounds ih => exact (keeps_applyNext env).bind fun _ => ih

theorem keeps_applyEntry : Keeps {.snapshotter} (applyEntry env) :=
  keeps_getNode.bind fun _ => keeps_applyRounds env _

theorem keeps_followCommit (leaderCommit : ℕ) :
    Keeps {.snapshotter} (followCommit env leaderCommit) := by
  refine keeps_getNode.bind fun node => .ite (fun _ => ?_) fun _ => keeps_pure _
  exact Keeps.bind (keeps_change fun _ => rfl) fun _ => keeps_applyEntry env

theorem keeps_advanceCommit : Keeps {.snapshotter} (advanceCommit env) := by
  refine keeps_getNode.bind fun node => .ite (fun _ => ?_) fun _ => keeps_pure _
  exact Keeps.bind (keeps_change fun _ => rfl) fun _ => keeps_applyEntry env

/-! ## The node -/

omit [Platform] in
/-- A scope of the node, with its guard.  It may lock the mutex of the snapshotter. -/
theorem keeps_nodeSection {α : Type} {scope : NodeCall α} (h : Keeps {.snapshotter} scope) :
    Keeps {.node, .snapshotter} (do lock .node; guarded .node scope) :=
  (h.guarded .node).keeps (by simp)

omit [Platform] in
theorem locked_tryToLead (node : RaftNode) :
    node.tryToLead.snapshotter.locked = node.snapshotter.locked := by
  unfold RaftNode.tryToLead
  split <;> rfl

omit [Platform] in
/-- The loop unlocks by hand, before it sends. -/
theorem keeps_electionLoop : Keeps {.node, .snapshotter} (electionLoop env) := by
  have hnode : Mutex.node ∉ ({.snapshotter} : Set Mutex) := by simp
  refine keeps_getNode.bind fun node => .ite (fun _ => keeps_pure _) fun _ => ?_
  refine Releases.keeps (keeps_getNode.bind_releases fun node => ?_) hnode
  refine .ite (fun _ => (releases_unlock _ _).bind hnode fun _ => keeps_pure _) fun _ => ?_
  refine Keeps.bind_releases (keeps_change fun _ => rfl) fun _ => ?_
  refine keeps_getNode.bind_releases fun node => ?_
  refine Keeps.bind_releases (keeps_change fun _ => locked_tryToLead _) fun _ => ?_
  refine (releases_unlock _ _).bind hnode fun _ => ?_
  exact Keeps.bind (keeps_change fun _ => rfl) fun _ => keeps_getNode.bind fun _ => keeps_pure _

/-! ### Messages of other nodes -/

omit [Platform] in
theorem keeps_handleRequestVoteRequest (request : RequestVoteRequest) :
    Keeps {.node, .snapshotter} (handleRequestVoteRequest env request) := by
  refine keeps_nodeSection (keeps_perform fun node => ?_)
  unfold RaftNode.handleRequestVoteRequest
  split
  next => rfl
  next =>
    dsimp only
    split <;> exact congrArg Snapshotter.locked RaftNode.snapshotter_catchUp

omit [Platform] in
theorem keeps_handleRequestVoteResponse (response : RequestVoteResponse) :
    Keeps {.node, .snapshotter} (handleRequestVoteResponse env response) := by
  refine keeps_getNode.bind fun node => .ite (fun _ => keeps_pure _) fun _ => ?_
  refine keeps_nodeSection (keeps_change fun node => ?_)
  unfold RaftNode.handleRequestVoteResponse
  split_ifs
  · rfl
  · rfl
  · rfl
  · exact locked_tryToLead _
  · rfl

theorem keeps_handleAppendEntriesRequest (request : AppendEntriesRequest) :
    Keeps {.node, .snapshotter} (handleAppendEntriesRequest env request) := by
  refine keeps_nodeSection (keeps_getNode.bind fun node => ?_)
  refine .ite (fun _ => keeps_pure _) fun _ => ?_
  refine Keeps.bind (keeps_change fun node =>
    congrArg Snapshotter.locked RaftNode.snapshotter_catchUp) fun _ => ?_
  refine keeps_getNode.bind fun node => ?_
  refine .ite (fun _ => keeps_pure _) fun _ => ?_
  refine (keeps_attempt fun {node node' value} hstep => ?_).bind fun _ => ?_
  · obtain ⟨stored, hstore, heq⟩ := RaftNode.exists_of_map_eq_ok hstep
    cases heq
    obtain ⟨_, _, rfl⟩ := RaftNode.storeEntries_shape hstore
    rfl
  · exact (keeps_followCommit env _).bind fun _ => keeps_getNode.bind fun _ => keeps_pure _

theorem keeps_handleAppendEntriesResponse (response : AppendEntriesResponse) :
    Keeps {.node, .snapshotter} (handleAppendEntriesResponse env response) := by
  refine keeps_getNode.bind fun node => .ite (fun _ => keeps_pure _) fun _ => ?_
  refine keeps_nodeSection (keeps_getNode.bind fun node => ?_)
  refine .ite (fun _ => keeps_pure _) fun _ => .ite (fun _ => keeps_change fun _ => rfl) fun _ => ?_
  refine .ite (fun _ => ?_) fun _ => ?_
  · cases response.conflictIndex with
    | none => exact keeps_pure _
    | some conflictIndex => exact keeps_change fun _ => rfl
  · exact Keeps.bind (keeps_change fun _ => rfl) fun _ => keeps_advanceCommit env

theorem keeps_handleInstallSnapshotRequest (request : InstallSnapshotRequest) :
    Keeps {.node, .snapshotter} (handleInstallSnapshotRequest env request) := by
  refine keeps_nodeSection (keeps_perform fun node => ?_)
  unfold RaftNode.handleInstallSnapshotRequest
  split
  next => rfl
  next =>
    dsimp only
    split
    next => exact congrArg Snapshotter.locked RaftNode.snapshotter_catchUp
    next => split <;> exact congrArg Snapshotter.locked RaftNode.snapshotter_catchUp

/-! ### Clients -/

omit [Platform] in
theorem keeps_serveGuarded {α : Type} {token : String} {handler : NodeCall α}
    (h : ∀ free, Keeps free handler) :
    Keeps {.node, .snapshotter} (serveGuarded env token handler) :=
  .ite (fun _ => h _) fun _ => keeps_nodeSection (h _)

omit [Platform] in
/-- The mutex is unlocked in both branches. -/
theorem keeps_serveUnguarded {α : Type} {token : String} {handler : NodeCall α}
    (h : ∀ free, Keeps free handler) :
    Keeps {.node, .snapshotter} (serveUnguarded env token handler) := by
  have hnode : Mutex.node ∉ ({.snapshotter} : Set Mutex) := by simp
  have hbranch : Releases .node {.snapshotter} (do
      let response ← handler
      unlock .node
      return response) :=
    (h _).bind_releases fun _ => (releases_unlock _ _).bind hnode fun _ => keeps_pure _
  refine .ite (fun _ => h _) fun _ => Releases.keeps ?_ hnode
  exact keeps_getNode.bind_releases fun node => .ite (fun _ => hbranch) fun _ => hbranch

/-! ### All but two calls -/

theorem keeps_receive {src : ℕ} {message : Message}
    (hmessage : ∀ response, message ≠ .installSnapshotResponse response) :
    Keeps {.node, .snapshotter} (receive env src message) := by
  cases message with
  | requestVoteRequest request =>
    exact (keeps_handleRequestVoteRequest env request).bind fun _ =>
      keeps_getNode.bind fun _ => keeps_pure _
  | requestVoteResponse response =>
    exact (keeps_handleRequestVoteResponse env response).bind fun _ => keeps_pure _
  | appendEntriesRequest request =>
    exact (keeps_handleAppendEntriesRequest env request).bind fun _ =>
      keeps_getNode.bind fun _ => keeps_pure _
  | appendEntriesResponse response =>
    exact (keeps_handleAppendEntriesResponse env response).bind fun _ => keeps_pure _
  | installSnapshotRequest request =>
    exact (keeps_handleInstallSnapshotRequest env request).bind fun _ =>
      keeps_getNode.bind fun _ => keeps_pure _
  | installSnapshotResponse response => exact absurd rfl (hmessage response)

/-- The iteration of a heartbeat and the answer to a chunk are the two that may send a chunk. -/
theorem keeps_handle {input : Input} (hheartbeat : input ≠ .heartbeat)
    (hchunk : ∀ src response, input ≠ .deliver src (.installSnapshotResponse response)) :
    Keeps {.node, .snapshotter} (handle env input) := by
  cases input with
  | electionTimeout => exact (keeps_electionLoop env).bind fun _ => keeps_pure _
  | heartbeat => exact absurd rfl hheartbeat
  | deliver src message =>
    have hmessage : ∀ response, message ≠ .installSnapshotResponse response :=
      fun response heq => hchunk src response (heq ▸ rfl)
    exact (keeps_receive env hmessage).bind fun _ => keeps_pure _
  | listDir request =>
    refine Keeps.bind (keeps_serveGuarded env fun free => ?_) fun _ => keeps_pure _
    exact keeps_perform fun _ => rfl
  | makeDir request =>
    refine Keeps.bind (keeps_serveUnguarded env fun free => ?_) fun _ => keeps_pure _
    refine keeps_perform fun node => ?_
    unfold RaftNode.handleMakeDirRequest
    split <;> rfl
  | prepareUploadFile request =>
    refine Keeps.bind (keeps_serveGuarded env fun free => ?_) fun _ => keeps_pure _
    refine keeps_attempt fun {node node' value} hstep => ?_
    unfold RaftNode.handlePrepareUploadFileRequest at hstep
    split at hstep
    next => cases hstep; rfl
    next => split at hstep <;> cases hstep; rfl
  | uploadFile request =>
    refine Keeps.bind (keeps_serveUnguarded env fun free => ?_) fun _ => keeps_pure _
    refine keeps_perform fun node => ?_
    unfold RaftNode.handleUploadFileRequest
    split <;> rfl
  | prepareDownloadFile request =>
    refine Keeps.bind (keeps_serveGuarded env fun free => ?_) fun _ => keeps_pure _
    exact keeps_perform fun _ => rfl

/-! ## Without snapshot data, or without a member that needs it -/

section Quiet

variable {env} {node : RaftNode} {held : Bool}

omit [Platform] in
@[simp] theorem wp_getNode {post : SharedNode → RaftNode → Prop} {s : SharedNode} :
    getNode.wp post s ↔ post s s.node :=
  Iff.rfl

omit [Platform] in
@[simp] theorem wp_change {step : RaftNode → RaftNode} {post : SharedNode → Unit → Prop} :
    (change step).wp post ⟨node, held⟩ ↔ post ⟨step node, held⟩ () :=
  Iff.rfl

omit [Platform] in
/-- Nothing is sent, and nothing changes. -/
theorem wp_sendSnapshot {memberId : ℕ} (hdata : node.snapshotData.isEmpty = true) :
    (sendSnapshot env memberId).wp (fun s' _ => s' = ⟨node, held⟩) ⟨node, held⟩ := by
  rw [sendSnapshot, wp_bind, wp_getNode, if_pos hdata, wp_pure]

omit [Platform] in
theorem wp_heartbeatTo {memberId nextIndex : ℕ} (hquiet : node.snapshotData.isEmpty = true ∨
    ¬ node.NeedsSnapshot (memberId, nextIndex)) :
    (heartbeatTo env memberId nextIndex).wp (fun s' _ => s' = ⟨node, held⟩) ⟨node, held⟩ := by
  simp only [heartbeatTo, wp_bind, wp_getNode, wp_ite, wp_pure]
  split
  next => trivial
  next hother =>
    split
    next hlacks => exact wp_sendSnapshot (hquiet.resolve_right fun h => h ⟨hother, hlacks⟩)
    next hlog =>
      refine wp_attempt fun {s' value} hstep => ?_
      dsimp only at hstep
      split at hstep
      next => cases hstep
      next node' value' hbeat =>
        cases hstep
        unfold RaftNode.heartbeatTo at hbeat
        rw [if_neg hother, if_neg hlog] at hbeat
        dsimp only at hbeat
        split at hbeat
        next => cases hbeat; rfl
        next => cases hbeat

omit [Platform] in
theorem wp_heartbeats {targets : List (ℕ × ℕ)} (hquiet : node.snapshotData.isEmpty = true ∨
    ∀ target ∈ targets, ¬ node.NeedsSnapshot target) :
    (heartbeats env targets).wp (fun s' _ => s' = ⟨node, held⟩) ⟨node, held⟩ := by
  induction targets with
  | nil => exact rfl
  | cons target rest ih =>
    simp only [heartbeats, wp_bind, wp_pure]
    have hfirst := hquiet.imp_right fun h => h target List.mem_cons_self
    have hrest := hquiet.imp_right fun h other hother => h other (List.mem_cons_of_mem _ hother)
    refine (wp_heartbeatTo hfirst).mono fun {s' packets} _ heq => ?_
    rw [heq]
    exact ih hrest

end Quiet

end Apply

end NodeCall

/-! ## Every call -/

namespace SharedNode

variable [Platform] {s s' : SharedNode} {call : LockCall}

omit [Platform] in
theorem Free.of_locks (h : s.Free) (hlocks : HasMutexes.locked s' = HasMutexes.locked s) :
    s'.Free :=
  ⟨(congrFun hlocks Mutex.node).trans h.1, (congrFun hlocks Mutex.snapshotter).trans h.2⟩

omit [Platform] in
theorem Free.locked_eq (h : s.Free) (mutex : Mutex) : HasMutexes.locked s mutex = false := by
  cases mutex with
  | node => exact h.1
  | snapshotter => exact h.2

omit [Platform] in
/-- Calls that keep the mutexes as they are give them back. -/
theorem Free.wp_of_keeps {α : Type} {free : Set Mutex} {body : NodeCall α} (h : s.Free)
    (hkeeps : Keeps free body) : body.forget.wp (fun s' _ => s'.Free) s := by
  rw [Call.wp_forget]
  exact (hkeeps s fun mutex _ => h.locked_eq mutex).mono fun _ hlocks => h.of_locks hlocks

omit [Platform] in
theorem Free.heartbeatLoop {env : Env} (h : s.Free)
    (hquiet : ¬ LockCall.AsksOffset s.node (.handle env .heartbeat)) :
    (NodeCall.heartbeatLoop env).wp (fun s' _ => s'.Free) s := by
  obtain ⟨node, held⟩ := s
  obtain ⟨rfl, hunlocked⟩ := h
  simp only [NodeCall.heartbeatLoop, wp_bind, NodeCall.wp_getNode, wp_ite, wp_pure, wp_lock,
    wp_guarded, NodeCall.locked_node, NodeCall.setLocked_node, true_and]
  split
  next => exact ⟨rfl, hunlocked⟩
  next hrole =>
    have htargets : node.snapshotData.isEmpty = true ∨
        ∀ target ∈ node.nextIndex.pairs, ¬ node.NeedsSnapshot target := by
      by_contra hboth
      push Not at hboth
      obtain ⟨hdata, target, hmem, hneeds⟩ := hboth
      exact hquiet ⟨not_not.mp hrole, by simpa using hdata, target, hmem, hneeds⟩
    refine (NodeCall.wp_heartbeats htargets).mono fun {s' packets} _ heq => ?_
    rw [heq]
    exact ⟨rfl, hunlocked⟩

omit [Platform] in
theorem Free.handleInstallSnapshotResponse {env : Env} {src : ℕ}
    {response : InstallSnapshotResponse} (h : s.Free) (hquiet : ¬ LockCall.AsksOffset s.node
      (.handle env (.deliver src (.installSnapshotResponse response)))) :
    (NodeCall.handleInstallSnapshotResponse env response).wp (fun s' _ => s'.Free) s := by
  obtain ⟨node, held⟩ := s
  obtain ⟨rfl, hunlocked⟩ := h
  simp only [NodeCall.handleInstallSnapshotResponse, wp_bind, NodeCall.wp_getNode, wp_ite, wp_pure,
    wp_lock, wp_guarded, NodeCall.locked_node, NodeCall.setLocked_node, NodeCall.wp_change,
    true_and]
  split
  next => exact ⟨rfl, hunlocked⟩
  next hterm =>
    have hdata : node.snapshotData.isEmpty = true := by
      by_contra hdata
      exact hquiet ⟨not_lt.mp hterm, by simpa using hdata⟩
    refine (NodeCall.wp_sendSnapshot hdata).mono fun {s' packets} _ heq => ?_
    rw [heq]
    exact ⟨rfl, hunlocked⟩

theorem Free.givesBack (h : s.Free) (hasks : ¬ call.AsksOffset s.node) : call.GivesBack s := by
  cases call with
  | offsetAt memberId => exact absurd trivial hasks
  | saveSnapshot outcome snapshot => exact h.wp_of_keeps (NodeCall.keeps_saveSnapshot _ _)
  | loadSnapshotData outcome memberId request =>
    exact h.wp_of_keeps (NodeCall.keeps_loadSnapshotData _ _ _)
  | saveSnapshotData outcome writeAll data =>
    exact h.wp_of_keeps (NodeCall.keeps_saveSnapshotData _ _ _)
  | handle env input =>
    by_cases hheartbeat : input = .heartbeat
    · subst hheartbeat
      simp only [LockCall.GivesBack, LockCall.run, NodeCall.handle, wp_forget, wp_bind, wp_pure]
      exact h.heartbeatLoop hasks
    · by_cases hchunk : ∃ src response, input = .deliver src (.installSnapshotResponse response)
      · obtain ⟨src, response, rfl⟩ := hchunk
        simp only [LockCall.GivesBack, LockCall.run, NodeCall.handle, NodeCall.receive, wp_forget,
          wp_bind, wp_pure]
        exact h.handleInstallSnapshotResponse hasks
      · exact h.wp_of_keeps (NodeCall.keeps_handle env hheartbeat fun src response heq =>
          hchunk ⟨src, response, heq⟩)

/-! ### A call that keeps the mutex -/

section Asks

variable {env : Env} {node node' : RaftNode} {packets : List Packet}

omit [Platform] in
theorem locked_of_offsetAt {snapshotter snapshotter' : Snapshotter} {memberId offset : ℕ}
    (hoffset : snapshotter.offsetAt memberId = some (offset, snapshotter')) :
    snapshotter'.locked = true := by
  unfold Snapshotter.offsetAt at hoffset
  split at hoffset
  next => cases hoffset
  next => cases hoffset; rfl

omit [Platform] in
/-- It stops after it was told the offset, or waits for the mutex that was locked for that. -/
theorem locked_of_sendSnapshot {memberId : ℕ} (hdata : node.snapshotData.isEmpty = false)
    (hsend : node.sendSnapshot env memberId = .ok (node', packets)) :
    node'.snapshotter.locked = true := by
  unfold RaftNode.sendSnapshot at hsend
  rw [if_neg (by simp [hdata])] at hsend
  split at hsend
  next => cases hsend
  next offset snapshotter hoffset =>
    have hlocked := locked_of_offsetAt hoffset
    dsimp only at hsend
    split at hsend
    next => cases hsend; exact hlocked
    next =>
      rw [Snapshotter.loadSnapshotData, if_pos hlocked] at hsend
      cases hsend

omit [Platform] in
theorem locked_of_heartbeatTo {memberId nextIndex : ℕ} (hlocked : node.snapshotter.locked = true)
    (hdata : node.snapshotData.isEmpty = false)
    (hbeat : node.heartbeatTo env memberId nextIndex = .ok (node', packets)) :
    node'.snapshotter.locked = true := by
  unfold RaftNode.heartbeatTo at hbeat
  split at hbeat
  next => cases hbeat; exact hlocked
  next =>
    split at hbeat
    next => exact locked_of_sendSnapshot hdata hbeat
    next =>
      dsimp only at hbeat
      split at hbeat
      next => cases hbeat; exact hlocked
      next => cases hbeat

omit [Platform] in
/-- The first member that needs a snapshot leaves the mutex locked. -/
theorem locked_of_heartbeats {targets : List (ℕ × ℕ)}
    (hasks : node.snapshotter.locked = true ∨ ∃ target ∈ targets, node.NeedsSnapshot target)
    (hdata : node.snapshotData.isEmpty = false)
    (hbeat : RaftNode.heartbeats env targets node = .ok (node', packets)) :
    node'.snapshotter.locked = true := by
  induction targets generalizing node packets with
  | nil =>
    cases hbeat
    exact hasks.resolve_right nofun
  | cons target rest ih =>
    obtain ⟨next, sent, more, hto, hmore, rfl⟩ := RaftNode.exists_of_heartbeats hbeat
    have hkeeps : RaftNode.KeepsData node next := (RaftNode.moves_of_heartbeatTo hto).keepsData
    refine ih ?_ (hkeeps.snapshotData ▸ hdata) hmore
    rcases hasks with hlocked | ⟨needy, hmem, hneeds⟩
    · exact Or.inl (locked_of_heartbeatTo hlocked hdata hto)
    · rcases List.mem_cons.mp hmem with rfl | hrest
      · rw [RaftNode.heartbeatTo, if_neg hneeds.1, if_pos hneeds.2] at hto
        exact Or.inl (locked_of_sendSnapshot hdata hto)
      · refine Or.inr ⟨needy, hrest, ?_⟩
        unfold RaftNode.NeedsSnapshot RaftNode.memberId at hneeds ⊢
        rwa [hkeeps.transport, hkeeps.logs]

theorem locked_of_handle {input : Input} {output : Output}
    (hasks : (LockCall.handle env input).AsksOffset node)
    (hhandle : node.handle env input = .ok (node', output)) : node'.snapshotter.locked = true := by
  cases input with
  | heartbeat =>
    obtain ⟨hrole, hdata, hneeds⟩ := hasks
    obtain ⟨found, hloop, heq⟩ := RaftNode.exists_of_map_eq_ok hhandle
    cases heq
    rw [RaftNode.heartbeatLoop, if_neg (not_not.mpr hrole)] at hloop
    exact locked_of_heartbeats (Or.inr hneeds) hdata hloop
  | deliver src message =>
    cases message with
    | installSnapshotResponse response =>
      obtain ⟨hterm, hdata⟩ := hasks
      obtain ⟨found, hreceive, heq⟩ := RaftNode.exists_of_map_eq_ok hhandle
      cases heq
      rw [RaftNode.receive, RaftNode.handleInstallSnapshotResponse,
        if_neg (not_lt.mpr hterm)] at hreceive
      exact locked_of_sendSnapshot hdata hreceive
    | _ => cases hasks
  | _ => cases hasks

end Asks

/-- If such a call returns, the mutex of the snapshotter is locked. -/
theorem Free.locked_of_asks (h : s.Free) (hasks : call.AsksOffset s.node)
    (hstep : s.step call = some s') : s'.node.snapshotter.locked = true := by
  obtain ⟨node, held⟩ := s
  obtain ⟨rfl, -⟩ := h
  cases call with
  | offsetAt memberId =>
    rw [step, LockCall.run, returned?_forget, NodeCall.returned?_offsetAt] at hstep
    cases hoffset : node.snapshotter.offsetAt memberId with
    | none => rw [hoffset] at hstep; cases hstep
    | some found =>
      rw [hoffset] at hstep
      cases hstep
      exact locked_of_offsetAt hoffset
  | saveSnapshot outcome snapshot => cases hasks
  | loadSnapshotData outcome memberId request => cases hasks
  | saveSnapshotData outcome writeAll data => cases hasks
  | handle env input =>
    rw [step, LockCall.run, returned?_forget, NodeCall.returned?_handle] at hstep
    cases hhandle : node.handle env input with
    | error node' => rw [hhandle] at hstep; cases hstep
    | ok found =>
      rw [hhandle] at hstep
      cases hstep
      exact locked_of_handle hasks hhandle

/-! ### The run -/

theorem Free.step (h : s.Free) (hasks : ¬ call.AsksOffset s.node) (hstep : s.step call = some s') :
    s'.Free := by
  obtain ⟨⟨found, value⟩, hreturned, rfl⟩ := Option.map_eq_some_iff.mp hstep
  have hgives : call.run.wp (fun s' _ => s'.Free) s := h.givesBack hasks
  exact post_of_wp (fun s' _ => s'.Free) hgives hreturned

/-- **Every call gives its mutexes back.**  After a run of calls that do not ask `offset_at`, both
mutexes are free, and the next call gives them back if and only if it does not ask either. -/
theorem locksGivenBack {start : SharedNode} (hstart : start.Free)
    (hrun : Run SharedNode.step (fun s call => ¬ call.AsksOffset s.node) start s) :
    s.Free ∧ ∀ call : LockCall, (∀ s', call.run s ≠ .aborted s') →
      (call.GivesBack s ↔ ¬ call.AsksOffset s.node) := by
  have hfree : s.Free := hrun.invariant SharedNode.Free hstart
    fun h hasks hstep => h.step hasks hstep
  refine ⟨hfree, fun call hlives => ⟨fun hgives hasks => ?_, hfree.givesBack⟩⟩
  unfold LockCall.GivesBack wp at hgives
  cases houtcome : call.run s with
  | returned s' value =>
    have hstep : s.step call = some s' := by rw [SharedNode.step, returned?, houtcome]; rfl
    rw [houtcome] at hgives
    have hlocked := hfree.locked_of_asks hasks hstep
    rw [hgives.2] at hlocked
    cases hlocked
  | aborted s' => exact hlives s' houtcome
  | waits mutex s' => rw [houtcome] at hgives; exact hgives

end SharedNode

/-! ### A node alone -/

/-- A node without a snapshot, as it is created. -/
def loneNode : SharedNode :=
  { node := RaftNode.assemble ⟨1, [1], by decide, []⟩ none RaftNode.newSnapshotter [] {} {} }

/-- It becomes the leader, suspends a client, and saves a snapshot. -/
def loneCalls : List LockCall :=
  [.handle { monotonicMs := 1000 } .electionTimeout, .handle {} (.makeDir {}),
    .saveSnapshot .done {}]

theorem locksGivenBack_loneCalls :
    ∃ s : SharedNode, s.node.role = .leader ∧ s.node.logs.entries.length = 1 ∧ s.Free ∧
      @LockCall.GivesBack plainPlatform (.handle {} .heartbeat) s := by
  obtain ⟨s, hrun, hcheck⟩ := Run.exists_of_exec (@SharedNode.step plainPlatform)
    (fun s call => ¬ call.AsksOffset s.node) loneNode loneCalls
    (fun s => decide (s.node.role = .leader ∧ s.node.logs.entries.length = 1 ∧
      ¬ (LockCall.handle {} .heartbeat).AsksOffset s.node ∧
      (@SharedNode.step plainPlatform s (.handle {} .heartbeat)).isSome = true)) (by decide)
  obtain ⟨hrole, hlength, hasks, hreturns⟩ := of_decide_eq_true hcheck
  obtain ⟨hfree, hcalls⟩ := @SharedNode.locksGivenBack plainPlatform _ _ (by decide) hrun
  refine ⟨s, hrole, hlength, hfree, (hcalls (.handle {} .heartbeat) fun s' habort => ?_).mpr hasks⟩
  unfold SharedNode.step returned? at hreturns
  rw [habort] at hreturns
  cases hreturns

/-- A leader that has received a snapshot, and a member that lacks all entries. -/
def laggingMember : SharedNode :=
  { node := { loneNode.node with
      role := .leader
      snapshotData := [0]
      nextIndex := (∅ : UnorderedMap ℕ ℕ).insert 2 0 } }

/-- After `offset_at` the next call waits, and a heartbeat that asks waits for itself, with the
mutex of the node locked, so that a client waits as well. -/
theorem exists_lock_kept :
    (∃ s s' : SharedNode, s.Free ∧ @SharedNode.step plainPlatform s (.offsetAt 2) = some s' ∧
      ¬ s'.Free ∧
      (@LockCall.run plainPlatform (.loadSnapshotData .done 2 {})).waits? s' =
        some .snapshotter) ∧
    ∃ s s' : SharedNode, s.Free ∧
      @LockCall.run plainPlatform (.handle {} .heartbeat) s = .waits .snapshotter s' ∧
      (@LockCall.run plainPlatform (.handle {} (.listDir {}))).waits? s' = some .node := by
  refine ⟨⟨loneNode, _, by decide, rfl, by decide, rfl⟩, ⟨laggingMember, _, by decide, rfl, rfl⟩⟩

end Vosfs.Raft
