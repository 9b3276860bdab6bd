import Vosfs.Raft.ElectionSafety
import Vosfs.Raft.HardStateSafety
import Vosfs.Raft.Sending

/-!
# Terms never go back

What a node writes under the key of the hard state in one step is all of one term, the one
it moves to (`MovesTerm`), and this is the term of whatever it sends.  A crash finds this
term on the disk, or the one before.  As long as no election wraps the term around, neither
goes back (`termsGrow`).
-/

namespace Vosfs.Raft

open Function
open Persister (hardStateKey)

/-- The term of a message. -/
def Message.term : Message → ℕ
  | .requestVoteRequest request => request.term
  | .requestVoteResponse response => response.term
  | .appendEntriesRequest request => request.term
  | .appendEntriesResponse response => response.term
  | .installSnapshotRequest request => request.term
  | .installSnapshotResponse response => response.term

/-- A write that leaves the stored hard state alone. -/
def KeepsHardState (w : DiskWrite Payload) : Prop :=
  ∀ disk : Disk Payload, (disk.write w).get hardStateKey = disk.get hardStateKey

/-- Saves a hard state of the term, or leaves the stored one alone. -/
inductive TermWrite (term : ℕ) : DiskWrite Payload → Prop
  | hardState (votedFor : Option ℕ) :
      TermWrite term (.batch [(hardStateKey, some (.hardState ⟨term, votedFor⟩))])
  | other {w : DiskWrite Payload} (hkeeps : KeepsHardState w) : TermWrite term w

theorem FileWrite.keepsHardState {w : DiskWrite Payload} (hfile : FileWrite w) :
    KeepsHardState w :=
  fun disk => by rw [Disk.get_write, hfile]

theorem EntryWrite.keepsHardState {entries : List LogEntry} {w : DiskWrite Payload}
    (hentry : EntryWrite entries w) : KeepsHardState w :=
  fun disk => RaftNode.get_write_entry disk hentry

/-- A hard state of the term is stored. -/
def StoresTerm (disk : Disk Payload) (term : ℕ) : Prop :=
  ∃ votedFor, disk.get hardStateKey = some (.hardState ⟨term, votedFor⟩)

/-- Between the writes of a step, the term is the one before or the one that is written. -/
theorem StoresTerm.wrote {disk disk' : Disk Payload} {term term' : ℕ}
    (hstores : StoresTerm disk term) (hwrote : Disk.Wrote (TermWrite term') disk disk') :
    StoresTerm disk' term ∨ StoresTerm disk' term' := by
  refine hwrote.invariant (fun disk => StoresTerm disk term ∨ StoresTerm disk term')
    (Or.inl hstores) fun hinv hw => ?_
  cases hw with
  | hardState votedFor =>
    exact Or.inr ⟨votedFor, RaftNode.get_saveHardState _ _⟩
  | other hkeeps =>
    unfold StoresTerm at hinv ⊢
    rwa [hkeeps]

namespace RaftNode

variable {env : Env} {node node' : RaftNode} {term : ℕ}

/-- The current term is on the disk. -/
def TermStored (node : RaftNode) : Prop :=
  StoresTerm node.disk node.currentTerm

/-- A part of a step that may move to a term, and writes hard states of that term only. -/
structure MovesTerm (term : ℕ) (node : RaftNode) (result : Except RaftNode RaftNode) : Prop where
  wrote : Disk.Wrote (TermWrite term) node.disk (lastNode result).disk
  moves : ∀ node', result = .ok node' →
    node'.currentTerm = node.currentTerm ∨ node'.currentTerm = term
  stored : ∀ node', result = .ok node' → node.TermStored → node'.TermStored

/-- Nothing is saved, and the term stays. -/
theorem MovesTerm.keep {result : Except RaftNode RaftNode}
    (hwrote : Disk.Wrote KeepsHardState node.disk (lastNode result).disk)
    (hterm : ∀ node', result = .ok node' → node'.currentTerm = node.currentTerm) :
    MovesTerm term node result := by
  refine ⟨hwrote.mono fun _ hw => .other hw, fun node' hnode' => Or.inl (hterm node' hnode'), ?_⟩
  intro node' hnode' hstored
  subst hnode'
  have hget : node'.disk.get hardStateKey = node.disk.get hardStateKey :=
    hwrote.invariant (fun disk => disk.get hardStateKey = node.disk.get hardStateKey) rfl
      fun hsame hw => (hw _).trans hsame
  unfold TermStored StoresTerm
  rwa [hget, hterm node' rfl]

theorem MovesTerm.refl : MovesTerm term node (.ok node) :=
  .keep Disk.Wrote.refl fun _ hnode' => Except.ok.inj hnode' ▸ rfl

theorem MovesTerm.trans {middle : RaftNode} {result : Except RaftNode RaftNode}
    (hfirst : MovesTerm term node (.ok middle)) (hsecond : MovesTerm term middle result) :
    MovesTerm term node result := by
  refine ⟨hfirst.wrote.trans hsecond.wrote, fun node' hnode' => ?_, fun node' hnode' hstored =>
    hsecond.stored node' hnode' (hfirst.stored middle rfl hstored)⟩
  rcases hsecond.moves node' hnode' with hsame | hmoved
  · rw [hsame]
    exact hfirst.moves middle rfl
  · exact Or.inr hmoved

/-- What changes besides the disk and the term does not matter. -/
theorem MovesTerm.of_same {middle last : RaftNode} (hfirst : MovesTerm term node (.ok middle))
    (hdisk : last.disk = middle.disk) (hterm : last.currentTerm = middle.currentTerm) :
    MovesTerm term node (.ok last) := by
  refine hfirst.trans (.keep (.of_eq hdisk) ?_)
  rintro node' ⟨⟩
  exact hterm

/-- The hard state is saved. -/
theorem saveHardState_movesTerm (hdisk : node'.disk = node.disk)
    (hterm : node'.currentTerm = term) :
    MovesTerm term node (.ok node'.saveHardState) := by
  subst hterm
  refine ⟨?_, ?_, ?_⟩
  · rw [← hdisk]
    exact .write (.hardState node'.hardState.votedFor)
  · rintro _ ⟨⟩
    exact Or.inr rfl
  · rintro _ ⟨⟩ -
    exact ⟨_, get_saveHardState _ _⟩

theorem catchUp_movesTerm :
    MovesTerm (max node.currentTerm term) node (.ok (node.catchUp env term)) := by
  unfold catchUp
  split
  next hlt => exact saveHardState_movesTerm rfl (max_eq_right hlt.le).symm
  next => exact .refl

theorem tryToLead_movesTerm (hterm : node.currentTerm = term) :
    MovesTerm term node (.ok node.tryToLead) := by
  unfold tryToLead
  split
  next =>
    have hsaved : MovesTerm term node (.ok ({ node with
        votes := 0
        hardState := { node.hardState with votedFor := none }
        role := .leader } : RaftNode).saveHardState) := saveHardState_movesTerm rfl hterm
    exact hsaved.of_same rfl rfl
  next => exact .refl

/-- The node starts an election. -/
def StartsElection (env : Env) (node : RaftNode) (input : Input) : Prop :=
  input = .electionTimeout ∧ TimedOut env node ∧ node.role ≠ .leader

instance {input : Input} : Decidable (StartsElection env node input) :=
  inferInstanceAs (Decidable (_ ∧ _ ∧ _))

/-- The term that an input may move a node to. -/
def nextTerm (env : Env) (node : RaftNode) : Input → ℕ
  | .electionTimeout =>
    if StartsElection env node .electionTimeout then u64 (node.currentTerm + 1)
    else node.currentTerm
  | .deliver _ message => max node.currentTerm message.term
  | _ => node.currentTerm

/-- The request that a new candidate sends. -/
def voteRequest (node : RaftNode) : RequestVoteRequest :=
  { term := node.startElection.currentTerm
    candidateId := node.startElection.memberId
    lastLogIndex := node.startElection.logs.lastLogIndex
    lastLogTerm := node.startElection.logs.lastLogTerm }

theorem electionLoop_of_starts (hstart : StartsElection env node .electionTimeout) :
    node.electionLoop env =
      ({ node.startElection.voteForSelf.tryToLead with lastResetTime := env.monotonicMs },
        voteRequests node.startElection.voteForSelf.tryToLead node.voteRequest) := by
  rw [electionLoop, if_neg (by simpa using hstart.2)]
  rfl

theorem electionLoop_of_not_starts (hstart : ¬ StartsElection env node .electionTimeout) :
    node.electionLoop env = (node, []) := by
  rw [electionLoop, if_pos (by simpa [StartsElection, or_iff_not_and_not] using hstart)]

theorem currentTerm_electionLoop (hstart : StartsElection env node .electionTimeout) :
    (node.electionLoop env).1.currentTerm = u64 (node.currentTerm + 1) := by
  rw [electionLoop_of_starts hstart]
  exact @currentTerm_tryToLead node.startElection.voteForSelf

theorem electionLoop_movesTerm :
    MovesTerm (nextTerm env node .electionTimeout) node (.ok (node.electionLoop env).1) := by
  by_cases hstart : StartsElection env node .electionTimeout
  · rw [nextTerm, if_pos hstart, electionLoop_of_starts hstart]
    have hstarted : MovesTerm (u64 (node.currentTerm + 1)) node (.ok node.startElection) :=
      saveHardState_movesTerm rfl rfl
    have hvoted : MovesTerm (u64 (node.currentTerm + 1)) node
        (.ok node.startElection.voteForSelf) := hstarted.of_same rfl rfl
    exact (hvoted.trans (tryToLead_movesTerm rfl)).of_same rfl rfl
  · rw [nextTerm, if_neg hstart, electionLoop_of_not_starts hstart]
    exact .refl

theorem handleRequestVoteRequest_movesTerm {request : RequestVoteRequest} :
    MovesTerm (max node.currentTerm request.term) node
      (.ok (node.handleRequestVoteRequest env request).1) := by
  unfold handleRequestVoteRequest
  split
  next => exact .refl
  next =>
    simp only
    split
    next => exact catchUp_movesTerm.of_same rfl rfl
    next => exact catchUp_movesTerm

theorem handleRequestVoteResponse_movesTerm {response : RequestVoteResponse} :
    MovesTerm (max node.currentTerm response.term) node
      (.ok (node.handleRequestVoteResponse env response)) := by
  have hcatch := @catchUp_movesTerm env node response.term
  unfold handleRequestVoteResponse
  split
  next => exact .refl
  next hge =>
    split
    next hlt => rwa [catchUp, if_pos hlt] at hcatch
    next hle =>
      split
      next => exact .refl
      next =>
        split
        next =>
          have hterm : ({ node with votes := node.votes + 1 } : RaftNode).currentTerm =
              max node.currentTerm response.term := (max_eq_left (not_lt.mp hle)).symm
          have hled := tryToLead_movesTerm hterm
          exact ⟨hled.wrote, hled.moves, hled.stored⟩
        next => exact .refl

theorem MovesSnapshotter.movesTerm {result : Except RaftNode RaftNode}
    (hmoves : MovesSnapshotter node (lastNode result)) : MovesTerm term node result := by
  obtain ⟨snapshotter, hlast⟩ := hmoves
  refine .keep (.of_eq (by rw [hlast])) fun node' hnode' => ?_
  rw [hnode'] at hlast
  obtain rfl : node' = { node with snapshotter := snapshotter } := hlast
  rfl

variable [Platform]

theorem applyEntry_movesTerm {commitIndex : ℕ} :
    MovesTerm term node (({ node with commitIndex := commitIndex } : RaftNode).applyEntry env) :=
  .keep (wrote_applyRounds.mono fun _ hfile => hfile.keepsHardState) fun _ happly =>
    congrArg HardState.currentTerm (applyEntry_keepsRaft happly).hardState

theorem followCommit_movesTerm {leaderCommit : ℕ} :
    MovesTerm term node (node.followCommit env leaderCommit) := by
  unfold followCommit
  split
  next => exact applyEntry_movesTerm
  next => exact .refl

theorem advanceCommit_movesTerm : MovesTerm term node (node.advanceCommit env) := by
  unfold advanceCommit
  split
  next => exact applyEntry_movesTerm
  next => exact .refl

omit [Platform] in
theorem storeEntries_movesTerm {entries : List LogEntry} :
    MovesTerm term node (node.storeEntries entries) :=
  .keep (wrote_storeEntries.mono fun _ hentry => hentry.keepsHardState) fun _ hstore =>
    congrArg HardState.currentTerm (storeEntries_keepsRaft hstore).hardState

theorem afterEntries_movesTerm {request : AppendEntriesRequest} :
    MovesTerm (max node.currentTerm request.term) node (node.afterEntries env request) := by
  have hfollowed : MovesTerm (max node.currentTerm request.term) node
      (.ok (node.followed env request)) := catchUp_movesTerm.of_same rfl rfl
  unfold afterEntries
  split
  next => exact .refl
  next =>
    split
    next => exact hfollowed
    next =>
      have hstored := @storeEntries_movesTerm (node.followed env request)
        (max node.currentTerm request.term) request.entries
      cases hstore : (node.followed env request).storeEntries request.entries with
      | error stopped =>
        rw [hstore] at hstored
        exact hfollowed.trans ⟨hstored.wrote, nofun, nofun⟩
      | ok stored =>
        rw [hstore] at hstored
        exact (hfollowed.trans hstored).trans followCommit_movesTerm

theorem handleAppendEntriesResponse_movesTerm {response : AppendEntriesResponse} :
    MovesTerm (max node.currentTerm response.term) node
      (node.handleAppendEntriesResponse env response) := by
  have hcatch := @catchUp_movesTerm env node response.term
  unfold handleAppendEntriesResponse
  split
  next => exact .refl
  next =>
    split
    next hlt => rwa [catchUp, if_pos hlt] at hcatch
    next =>
      split
      next =>
        split
        next => exact .refl
        next => exact MovesTerm.refl.of_same rfl rfl
      next =>
        have hmatched := @advanceCommit_movesTerm env
          (node.recordMatch response.id response.lastLogIndex) (max node.currentTerm response.term)
        exact ⟨hmatched.wrote, hmatched.moves, hmatched.stored⟩

theorem handleInstallSnapshotRequest_movesTerm {request : InstallSnapshotRequest} :
    MovesTerm (max node.currentTerm request.term) node
      (.ok (node.handleInstallSnapshotRequest env request).1) := by
  have hcatch := @catchUp_movesTerm env node request.term
  unfold handleInstallSnapshotRequest
  split
  next => exact .refl
  next =>
    simp only
    split
    next => exact hcatch.of_same rfl rfl
    next => split <;> exact hcatch.of_same rfl rfl

omit [Platform] in
theorem handleInstallSnapshotResponse_movesTerm {response : InstallSnapshotResponse} :
    MovesTerm (max node.currentTerm response.term) node
      ((node.handleInstallSnapshotResponse env response).map Prod.fst) := by
  have hcatch := @catchUp_movesTerm env node response.term
  unfold handleInstallSnapshotResponse
  split
  next hlt => rwa [catchUp, if_pos hlt] at hcatch
  next => exact sendSnapshot_moves.movesTerm

/-- **A step moves to one term at most.** -/
theorem after_movesTerm {input : Input} :
    MovesTerm (node.nextTerm env input) node (node.after env input) := by
  cases input with
  | electionTimeout => exact electionLoop_movesTerm
  | heartbeat => exact heartbeatLoop_moves.movesTerm
  | deliver src message =>
    cases message with
    | requestVoteRequest request => exact handleRequestVoteRequest_movesTerm
    | requestVoteResponse response => exact handleRequestVoteResponse_movesTerm
    | appendEntriesRequest request => exact afterEntries_movesTerm
    | appendEntriesResponse response => exact handleAppendEntriesResponse_movesTerm
    | installSnapshotRequest request => exact handleInstallSnapshotRequest_movesTerm
    | installSnapshotResponse response => exact handleInstallSnapshotResponse_movesTerm
  | listDir request => exact .refl
  | makeDir request =>
    simp only [after, handleMakeDirRequest]
    split
    next => exact .refl
    next => exact MovesTerm.refl.of_same rfl rfl
  | prepareUploadFile request =>
    simp only [after, handlePrepareUploadFileRequest]
    split
    next => exact .refl
    next =>
      split
      next =>
        refine .keep Disk.Wrote.refl fun node' hok => ?_
        cases hok
      next => exact MovesTerm.refl.of_same rfl rfl
  | uploadFile request =>
    simp only [after, handleUploadFileRequest]
    split
    next => exact .refl
    next => exact MovesTerm.refl.of_same rfl rfl
  | prepareDownloadFile request => exact .refl

/-! ## The term of what is sent -/

omit [Platform] in
/-- An answer carries the term the node is in, which is no earlier than the request's. -/
theorem handleRequestVoteRequest_term {request : RequestVoteRequest}
    {response : RequestVoteResponse}
    (hhandle : node.handleRequestVoteRequest env request = (node', response)) :
    response.term = node'.currentTerm ∧ request.term ≤ node'.currentTerm := by
  unfold handleRequestVoteRequest at hhandle
  split at hhandle
  next hlt => cases hhandle; exact ⟨rfl, hlt.le⟩
  next hge =>
    have hcaught := (@currentTerm_catchUp env _ _ (not_lt.mp hge)).ge
    simp only at hhandle
    split at hhandle <;> cases hhandle <;> exact ⟨rfl, hcaught⟩

theorem handleAppendEntriesRequest_term {request : AppendEntriesRequest}
    {response : AppendEntriesResponse}
    (hhandle : node.handleAppendEntriesRequest env request = .ok (node', response)) :
    response.term = node'.currentTerm ∧ request.term ≤ node'.currentTerm := by
  have hafter := @map_handleAppendEntriesRequest env node _ request
  rw [hhandle] at hafter
  constructor
  · unfold handleAppendEntriesRequest at hhandle
    split at hhandle
    next => cases hhandle; rfl
    next =>
      simp only at hhandle
      split at hhandle
      next => cases hhandle; rfl
      next =>
        split at hhandle
        next => cases hhandle
        next => split at hhandle <;> cases hhandle; rfl
  · by_cases hterm : node.currentTerm ≤ request.term
    · have hkeeps := (afterEntries_keepsRaft hterm hafter.symm).hardState
      have hcaught := @currentTerm_catchUp env _ _ hterm
      unfold currentTerm at hcaught ⊢
      exact (congrArg HardState.currentTerm hkeeps ▸ hcaught).ge
    · cases outcome_of_afterEntries hafter.symm with
      | late hlate => exact hlate.le
      | rejected hterm' => exact absurd hterm' hterm
      | stored haccepts => exact absurd haccepts.1 hterm

theorem handleInstallSnapshotRequest_term {request : InstallSnapshotRequest}
    {response : InstallSnapshotResponse}
    (hhandle : node.handleInstallSnapshotRequest env request = (node', response)) :
    response.term = node'.currentTerm ∧ request.term ≤ node'.currentTerm := by
  unfold handleInstallSnapshotRequest at hhandle
  split at hhandle
  next hlt => cases hhandle; exact ⟨rfl, hlt.le⟩
  next hge =>
    have hcaught := (@currentTerm_catchUp env _ _ (not_lt.mp hge)).ge
    simp only at hhandle
    split at hhandle
    next => cases hhandle; exact ⟨rfl, hcaught⟩
    next => split at hhandle <;> cases hhandle <;> exact ⟨rfl, hcaught⟩

theorem term_of_sends {input : Input} {packet : Packet}
    (hsends : Sends env node input node' packet) :
    packet.message.term = node'.currentTerm := by
  cases hsends with
  | voteRequest timedOut role hnode =>
    subst hnode
    exact (currentTerm_electionLoop ⟨rfl, timedOut, role⟩).symm
  | entries role moves =>
    obtain ⟨snapshotter, rfl⟩ := moves
    rfl
  | vote hhandle => exact (handleRequestVoteRequest_term hhandle).1
  | appended hhandle => exact (handleAppendEntriesRequest_term hhandle).1
  | installed hhandle => exact (handleInstallSnapshotRequest_term hhandle).1

theorem request_term_le_of_sends {src : ℕ} {message : Message} {packet : Packet}
    (hsends : Sends env node (.deliver src message) node' packet) :
    message.term ≤ packet.message.term := by
  rw [term_of_sends hsends]
  cases hsends with
  | vote hhandle => exact (handleRequestVoteRequest_term hhandle).2
  | appended hhandle => exact (handleAppendEntriesRequest_term hhandle).2
  | installed hhandle => exact (handleInstallSnapshotRequest_term hhandle).2

theorem src_of_sends {input : Input} {packet : Packet}
    (hsends : Sends env node input node' packet) :
    packet.src = node.memberId := by
  cases hsends <;> rfl

/-! ## One step of a node -/

omit [Platform] in
/-- An election that does not wrap the term moves to a later one. -/
theorem u64_of_termFits {input : Input} (hfits : node.TermFitsFor env input)
    (hstart : StartsElection env node input) : u64 (node.currentTerm + 1) = node.currentTerm + 1 :=
  Nat.mod_eq_of_lt (hfits hstart.1 hstart.2.1 hstart.2.2)

omit [Platform] in
theorem nextTerm_ge {input : Input} (hfits : node.TermFitsFor env input) :
    node.currentTerm ≤ node.nextTerm env input := by
  unfold nextTerm
  split
  next =>
    split
    next hstart =>
      have hterm := u64_of_termFits hfits hstart
      omega
    next => exact le_rfl
  next => exact le_max_left _ _
  next => exact le_rfl

omit [Platform] in
/-- No term is later than the number of elections. -/
theorem nextTerm_le {input : Input} {elections : ℕ} (hnode : node.currentTerm ≤ elections)
    (hmessage : ∀ src message, input = .deliver src message → message.term ≤ elections) :
    node.nextTerm env input ≤ elections + if StartsElection env node input then 1 else 0 := by
  unfold nextTerm
  split
  next =>
    split
    next =>
      have hmod : u64 (node.currentTerm + 1) ≤ node.currentTerm + 1 := Nat.mod_le _ _
      omega
    next => omega
  next src message => exact Nat.le_add_right_of_le (max_le hnode (hmessage src message rfl))
  next => exact Nat.le_add_right_of_le hnode

/-- What a step and a crash leave: the term of before, or the next one. -/
structure TermFollows (env : Env) (node : RaftNode) (input : Input) (node' : RaftNode) : Prop where
  stored : node'.TermStored
  term : node'.currentTerm = node.currentTerm ∨ node'.currentTerm = node.nextTerm env input

omit [Platform] in
theorem TermFollows.ge {input : Input} (hfollows : TermFollows env node input node')
    (hfits : node.TermFitsFor env input) : node.currentTerm ≤ node'.currentTerm := by
  rcases hfollows.term with hsame | hnext
  · exact hsame.ge
  · rw [hnext]
    exact nextTerm_ge hfits

theorem termFollows_of_after {input : Input} (hstored : node.TermStored)
    (hafter : node.after env input = .ok node') : TermFollows env node input node' :=
  ⟨after_movesTerm.stored node' hafter hstored, after_movesTerm.moves node' hafter⟩

theorem termFollows_of_create {config : Config} {input : Input} {lost : ℕ}
    (hstored : node.TermStored)
    (hcreate : create env config (node.diskLeft env input lost) = .ok node') :
    TermFollows env node input node' := by
  have hwrote : Disk.Wrote _ node.disk (node.diskLeft env input lost) :=
    wrote_diskLeft after_movesTerm.wrote
  obtain ⟨hhard, hread⟩ := create_hardStored hcreate
  refine ⟨⟨_, hhard⟩, ?_⟩
  rcases hstored.wrote hwrote with ⟨_, hget⟩ | ⟨_, hget⟩
  · have hsame := congrArg HardState.currentTerm (hread ⟨node.currentTerm, _⟩ hget)
    exact Or.inl hsame
  · have hmoved := congrArg HardState.currentTerm (hread ⟨node.nextTerm env input, _⟩ hget)
    exact Or.inr hmoved

end RaftNode

/-! ## The cluster -/

/-- A cluster with what was sent in it so far. -/
structure Trace where
  cluster : Cluster
  /-- History: all packets, oldest first. -/
  sent : List Packet := []
  /-- History: the number of elections that started. -/
  elections : ℕ := 0

namespace Cluster

/-- The elections that start in a step. -/
def elections (c : Cluster) : Action → ℕ
  | .handle id env input => if (c.node id).StartsElection env input then 1 else 0
  | .restart id env input _ => if (c.node id).StartsElection env input then 1 else 0
  | .lose _ => 0

variable [Platform]

/-- The packets that are sent in a step. -/
def packets (c : Cluster) : Action → List Packet
  | .handle id env input =>
    match (c.node id).handle env input with
    | .error _ => []
    | .ok (_, output) => output.packets
  | _ => []

end Cluster

namespace Trace

variable [Platform] {trace trace' : Trace}

/-- A step of the cluster, with the packets it sends and the elections it starts. -/
def step (trace : Trace) (action : Action) : Option Trace :=
  (trace.cluster.step action).map fun c =>
    { cluster := c
      sent := trace.sent ++ trace.cluster.packets action
      elections := trace.elections + trace.cluster.elections action }

/-- Nothing was sent and no election started. -/
structure Initial (trace : Trace) : Prop where
  cluster : trace.cluster.Initial
  sent : trace.sent = []
  elections : trace.elections = 0

/-- Terms are on the disk, no later than the number of elections, and what a node sent is
in the order of its terms. -/
structure TermsGrown (trace : Trace) : Prop where
  memberId : ∀ id ∈ trace.cluster.members, (trace.cluster.node id).memberId = id
  stored : ∀ id ∈ trace.cluster.members, (trace.cluster.node id).TermStored
  bounded : ∀ id ∈ trace.cluster.members,
    (trace.cluster.node id).currentTerm ≤ trace.elections
  network : ∀ packet ∈ trace.cluster.network, packet.message.term ≤ trace.elections
  sent : ∀ packet ∈ trace.sent, packet.src ∈ trace.cluster.members ∧
    packet.message.term ≤ (trace.cluster.node packet.src).currentTerm
  sorted : trace.sent.Pairwise fun first second =>
    first.src = second.src → first.message.term ≤ second.message.term

theorem TermsGrown.initial (hinitial : trace.Initial) : trace.TermsGrown := by
  have hcreated : ∀ id ∈ trace.cluster.members, ∃ config : Config, config.memberId = id ∧
      trace.cluster.node id = Cluster.freshNode config := by
    intro id hid
    obtain ⟨env, config, hmember, -, hcreate⟩ := hinitial.cluster.created id hid
    exact ⟨config, hmember, Cluster.create_empty hcreate⟩
  refine ⟨fun id hid => ?_, fun id hid => ?_, fun id hid => ?_, ?_, ?_, ?_⟩
  · obtain ⟨config, hmember, hnode⟩ := hcreated id hid
    rw [hnode]
    exact hmember
  · obtain ⟨config, -, hnode⟩ := hcreated id hid
    rw [hnode]
    exact ⟨none, RaftNode.get_saveHardState _ _⟩
  · obtain ⟨config, -, hnode⟩ := hcreated id hid
    rw [hnode]
    exact Nat.zero_le _
  · rw [hinitial.cluster.network]
    exact fun packet hpacket => absurd hpacket List.not_mem_nil
  · rw [hinitial.sent]
    exact fun packet hpacket => absurd hpacket List.not_mem_nil
  · rw [hinitial.sent]
    exact List.Pairwise.nil

omit [Platform] in
/-- **The step lemma**, for the node that moves on. -/
theorem TermsGrown.afterNode {id : ℕ} {env : Env} {input : Input} {node : RaftNode} {c : Cluster}
    (hgrown : trace.TermsGrown) (hid : id ∈ trace.cluster.members)
    (hmembers : c.members = trace.cluster.members)
    (hnode : c.node = update trace.cluster.node id node)
    (hdelivered : ∀ src message, input = .deliver src message →
      (⟨src, id, message⟩ : Packet) ∈ trace.cluster.network)
    (hmemberId : node.memberId = id)
    (hfollows : RaftNode.TermFollows env (trace.cluster.node id) input node)
    {elections : ℕ} (helections : elections =
      trace.elections + if (trace.cluster.node id).StartsElection env input then 1 else 0)
    (hfits : elections < 2 ^ 64 - 1) {packets : List Packet}
    (hnetwork : ∀ packet ∈ c.network, packet ∈ trace.cluster.network ∨ packet ∈ packets)
    (hpackets : ∀ packet ∈ packets, packet.src = id ∧ packet.message.term = node.currentTerm) :
    ({ cluster := c, sent := trace.sent ++ packets, elections := elections } :
      Trace).TermsGrown := by
  have hge : (trace.cluster.node id).currentTerm ≤ node.currentTerm := by
    refine hfollows.ge fun hinput htimeout hrole => ?_
    have := hgrown.bounded id hid
    rw [if_pos ⟨hinput, htimeout, hrole⟩] at helections
    omega
  have hle : node.currentTerm ≤ elections := by
    have hbounded := hgrown.bounded id hid
    rcases hfollows.term with hsame | hnext
    · omega
    · rw [hnext, helections]
      exact RaftNode.nextTerm_le hbounded fun src message heq =>
        hgrown.network _ (hdelivered src message heq)
  have hmore : trace.elections ≤ elections := by omega
  have hself : c.node id = node := by rw [hnode, update_self]
  have hterms : ∀ other ∈ trace.cluster.members,
      (trace.cluster.node other).currentTerm ≤ (c.node other).currentTerm := by
    rw [hnode]
    exact forall_update (fun other node' => (trace.cluster.node other).currentTerm ≤
      node'.currentTerm) (fun _ _ => le_rfl) hge
  constructor
  case memberId =>
    rw [hmembers, hnode]
    exact forall_update (fun other node' => node'.memberId = other) hgrown.memberId hmemberId
  case stored =>
    rw [hmembers, hnode]
    exact forall_update (fun _ node' => node'.TermStored) hgrown.stored hfollows.stored
  case bounded =>
    rw [hmembers, hnode]
    exact forall_update (fun _ node' => node'.currentTerm ≤ elections)
      (fun other hmem => (hgrown.bounded other hmem).trans hmore) hle
  case network =>
    intro packet hpacket
    rcases hnetwork packet hpacket with hold | hnew
    · exact (hgrown.network packet hold).trans hmore
    · exact (hpackets packet hnew).2.trans_le hle
  case sent =>
    intro packet hpacket
    rcases List.mem_append.mp hpacket with hold | hnew
    · obtain ⟨hsrc, hterm⟩ := hgrown.sent packet hold
      exact ⟨hmembers ▸ hsrc, hterm.trans (hterms _ hsrc)⟩
    · obtain ⟨hsrc, hterm⟩ := hpackets packet hnew
      rw [hsrc, hself]
      exact ⟨hmembers ▸ hid, hterm.le⟩
  case sorted =>
    -- what is sent now has the term that the node has now, and what it sent before has no later one
    refine List.pairwise_append.mpr ⟨hgrown.sorted, ?_, fun first hfirst second hsecond hsame => ?_⟩
    · exact List.pairwise_of_forall_mem_list fun first hfirst second hsecond _ =>
        ((hpackets first hfirst).2.trans (hpackets second hsecond).2.symm).le
    · obtain ⟨-, hterm⟩ := hgrown.sent first hfirst
      obtain ⟨hsrc, hnow⟩ := hpackets second hsecond
      rw [hsame, hsrc] at hterm
      rw [hnow]
      exact hterm.trans hge

theorem TermsGrown.step {action : Action} (hgrown : trace.TermsGrown)
    (hstep : trace.step action = some trace') (hfits : trace'.elections < 2 ^ 64 - 1) :
    trace'.TermsGrown := by
  obtain ⟨c, hcluster, rfl⟩ := Option.map_eq_some_iff.mp hstep
  cases action with
  | handle id env input =>
    obtain ⟨hid, network, node, output, hconsume, hhandle, rfl⟩ := Cluster.step_handle hcluster
    have hsends := RaftNode.sends_of_handle hhandle
    have hafter := RaftNode.after_of_handle hhandle
    have hmemberId := hgrown.memberId id hid
    have hpackets : trace.cluster.packets (.handle id env input) = output.packets := by
      simp only [Cluster.packets, hhandle]
    simp only [hpackets]
    refine hgrown.afterNode (c := trace.cluster.afterHandling id network node output) hid rfl rfl
      ?_ ?_
      (RaftNode.termFollows_of_after (hgrown.stored id hid) hafter) rfl hfits ?_ ?_
    · rintro src message rfl
      exact (Cluster.consume_some hconsume).1
    · exact (RaftNode.memberId_of_transport (RaftNode.transport_of_after hafter)).trans hmemberId
    · intro packet hpacket
      exact (List.mem_append.mp hpacket).imp_left (Cluster.mem_of_consume hconsume)
    · intro packet hpacket
      exact ⟨(RaftNode.src_of_sends (hsends packet hpacket)).trans hmemberId,
        RaftNode.term_of_sends (hsends packet hpacket)⟩
  | lose packet =>
    obtain ⟨network, hconsume, rfl⟩ := Option.map_eq_some_iff.mp hcluster
    simp only [Cluster.packets, Cluster.elections, List.append_nil, Nat.add_zero]
    exact ⟨hgrown.memberId, hgrown.stored, hgrown.bounded,
      fun packet' hpacket' => hgrown.network packet' (Cluster.mem_of_consume hconsume hpacket'),
      hgrown.sent, hgrown.sorted⟩
  | restart id env input lost =>
    obtain ⟨hid, network, node, hconsume, hcreate, rfl⟩ := Cluster.step_restart hcluster
    have hfollows := RaftNode.termFollows_of_create (hgrown.stored id hid) hcreate
    refine hgrown.afterNode (c := { trace.cluster with
        node := update trace.cluster.node id (node.withHistoryOf (trace.cluster.node id))
        network := network }) hid rfl rfl ?_ ?_ ⟨hfollows.stored, hfollows.term⟩ rfl hfits ?_ ?_
    · rintro src message rfl
      exact (Cluster.consume_some hconsume).1
    · obtain ⟨_, _, _, _, _, -, -, -, rfl⟩ := RaftNode.create_spec hcreate
      exact hgrown.memberId id hid
    · exact fun packet hpacket => Or.inl (Cluster.mem_of_consume hconsume hpacket)
    · exact fun packet hpacket => absurd hpacket List.not_mem_nil

theorem elections_le {action : Action} (hstep : trace.step action = some trace') :
    trace.elections ≤ trace'.elections := by
  obtain ⟨c, -, rfl⟩ := Option.map_eq_some_iff.mp hstep
  exact Nat.le_add_right _ _

theorem TermsGrown.run (hgrown : trace.TermsGrown)
    (hrun : Run Trace.step (fun _ _ => True) trace trace')
    (hfits : trace'.elections < 2 ^ 64 - 1) : trace'.TermsGrown := by
  induction hrun with
  | refl => exact hgrown
  | next _ _ hstep ih => exact (ih ((elections_le hstep).trans_lt hfits)).step hstep hfits

end Trace

/-- **Terms never go back.** -/
theorem termsGrow [Platform] {trace trace' : Trace} (hinitial : trace.Initial)
    (hrun : Run Trace.step (fun _ _ => True) trace trace')
    (helections : trace'.elections < 2 ^ 64 - 1) :
    (trace'.sent.Pairwise fun first second =>
      first.src = second.src → first.message.term ≤ second.message.term) ∧
    (∀ packet ∈ trace'.sent, ∃ stored, packet.message.term ≤ stored.currentTerm ∧
      (trace'.cluster.node packet.src).disk.get hardStateKey = some (.hardState stored)) ∧
    ∀ id env src message trace'', trace'.step (.handle id env (.deliver src message)) = some trace'' →
      ∀ packet ∈ trace'.cluster.packets (.handle id env (.deliver src message)),
        message.term ≤ packet.message.term := by
  have hgrown := (Trace.TermsGrown.initial hinitial).run hrun helections
  refine ⟨hgrown.sorted, fun packet hpacket => ?_, ?_⟩
  · obtain ⟨hsrc, hterm⟩ := hgrown.sent packet hpacket
    obtain ⟨votedFor, hget⟩ := hgrown.stored packet.src hsrc
    exact ⟨⟨_, votedFor⟩, hterm, hget⟩
  · intro id env src message trace'' hstep packet hpacket
    obtain ⟨c, hcluster, -⟩ := Option.map_eq_some_iff.mp hstep
    obtain ⟨-, _, _, output, -, hhandle, -⟩ := Cluster.step_handle hcluster
    simp only [Cluster.packets, hhandle] at hpacket
    exact RaftNode.request_term_le_of_sends (RaftNode.sends_of_handle hhandle packet hpacket)

/-! ## An election and a restart -/

/-- Member 1 leads term 1, dies before its next election, and starts another one. -/
def electTwice : List Action :=
  electFirst ++ [.restart 1 late .electionTimeout 2, .handle 1 late .electionTimeout]

theorem termsGrow_electTwice :
    ∃ trace', Run (@Trace.step plainPlatform) (fun _ _ => True) { cluster := threeNodes } trace' ∧
      trace'.sent ≠ [] ∧ trace'.sent.Pairwise fun first second =>
        first.src = second.src → first.message.term ≤ second.message.term := by
  obtain ⟨trace', hrun, hcheck⟩ := Run.exists_of_exec (@Trace.step plainPlatform)
    (fun _ _ => True) { cluster := threeNodes } electTwice
    (fun trace' => decide (trace'.elections < 2 ^ 64 - 1 ∧ trace'.sent ≠ [])) (by decide)
  obtain ⟨helections, hsent⟩ := of_decide_eq_true hcheck
  have hinitial : @Trace.Initial plainPlatform { cluster := threeNodes } :=
    @Trace.Initial.mk plainPlatform _ (@Cluster.initial_fresh plainPlatform ..) rfl rfl
  exact ⟨trace', hrun, hsent, (@termsGrow plainPlatform _ _ hinitial hrun helections).1⟩

end Vosfs.Raft
