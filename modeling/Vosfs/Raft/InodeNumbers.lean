import Vosfs.Library.Counters
import Vosfs.Raft.Numbers
import Vosfs.Storage.DataNode

/-!
# Numbers are handed out once

A leader hands out the number of its own counter for a file to be uploaded.  As long as
it has the highest counter of all members, uploaded files carry numbers that a counter
has passed, and no restart or snapshot takes the highest counter away
(`Cluster.NumbersKept`), no number is handed out twice or while an inode has it
(`inodeNumbersOnce`).  The counter is not replicated, though, and the next leader hands
out the same number (`exists_number_twice`).
-/

namespace Vosfs.Raft

open Function

/-- The blocks that a client may upload after a reply. -/
def Reply.blocks : Reply → List BlockInfo
  | .prepareUploadFile response => if response.statusCode = .ok then response.blocks else []
  | _ => []

/-- The request is answered with numbered blocks. -/
def RaftNode.Serves (env : Env) (node : RaftNode) (request : PrepareUploadFileRequest) : Prop :=
  node.refusal env request.token = none ∧ request.remotePath ∉ node.stateMachine.dirEntries ∧
    request.blocks ≠ []

namespace Cluster

variable {c c' : Cluster} {action : Action}

/-- The next number of the member. -/
def counter (c : Cluster) (m : ℕ) : ℕ :=
  (c.node m).stateMachine.nextIno

/-- Some member's counter is past the number. -/
def Passed (c : Cluster) (ino : ℕ) : Prop :=
  Counters.Passed c.members c.counter ino

/-- Loading the snapshot brings passed numbers only, and leaves a counter as high as the
one it resets. -/
structure LoadKeeps (c : Cluster) (id : ℕ) (snapshot : Snapshot) : Prop where
  inodes : ∀ inode ∈ snapshot.inodes, c.Passed inode.ino
  counter : c.counter id ≤ ((c.node id).stateMachine.loadSnapshot snapshot).nextIno ∨
    ∃ m ∈ c.members, m ≠ id ∧ c.counter id ≤ c.counter m

/-- The number of the file that a client asks a leader to add. -/
def uploaded? (env : Env) (node : RaftNode) (input : Input) : Option ℕ :=
  match node.accepted env input with
  | some (.uploadFile request) => some request.ino
  | _ => none

/-- The request that prepares an upload. -/
def prepared? : Input → Option PrepareUploadFileRequest
  | .prepareUploadFile request => some request
  | _ => none

/-- The snapshot that is installed. -/
def installed? [Platform] (node : RaftNode) : Input → Option Snapshot
  | .deliver _ (.installSnapshotRequest request) => node.installed request
  | _ => none

/-- The number that is handed out is as high as any, and the numbers that are added from elsewhere
were passed. -/
structure HandlingKeeps [Platform] (c : Cluster) (id : ℕ) (env : Env) (input : Input) : Prop where
  fits : c.counter id + (c.node id).raises input < 2 ^ 64
  highest : ∀ request ∈ prepared? input, (c.node id).Serves env request →
    Counters.Highest c.members c.counter id
  uploads : ∀ ino ∈ uploaded? env (c.node id) input, c.Passed ino
  installs : ∀ snapshot ∈ installed? (c.node id) input, c.LoadKeeps id snapshot

/-- The steps that keep the numbers apart. -/
def NumbersKept [Platform] (c : Cluster) : Action → Prop
  | .handle id env input => c.HandlingKeeps id env input
  | .lose _ => True
  | .restart id env input lost =>
    ∀ found ∈ (RaftNode.findSnapshot env ((c.node id).diskLeft env input lost)).toOption,
      c.LoadKeeps id (found.1.getD {})

/-- No two replies hand out blocks with one number. -/
def NumbersDistinct (c : Cluster) : Prop :=
  c.replies.Pairwise fun r r' => ∀ block ∈ r.2.blocks, ∀ block' ∈ r'.2.blocks,
    block.ino ≠ block'.ino

/-- No two replies hand out blocks with one number, or with one name on a data node. -/
def NumbersOnce (c : Cluster) : Prop :=
  c.replies.Pairwise fun r r' => ∀ block ∈ r.2.blocks, ∀ block' ∈ r'.2.blocks,
    block.ino ≠ block'.ino ∧ ∀ dataNode : Storage.DataNode,
      dataNode.getBlockPath block.ino block.id ≠ dataNode.getBlockPath block'.ino block'.id

/-- What a step newly hands out belongs to no inode of a member, before or after it. -/
def NumbersFresh (c c' : Cluster) : Prop :=
  ∀ replies, c'.replies = c.replies ++ replies → ∀ r ∈ replies, ∀ block ∈ r.2.blocks,
    ∀ m ∈ c.members, block.ino ∉ (c.node m).stateMachine.inodes ∧
      block.ino ∉ (c'.node m).stateMachine.inodes

/-- The numbers in use have been passed, and those handed out are different. -/
structure Numbered (c : Cluster) : Prop where
  zero : ∀ m ∈ c.members, c.Passed 0
  inodes : ∀ m ∈ c.members, ∀ ino ∈ (c.node m).stateMachine.inodes, c.Passed ino
  uploads : ∀ entry, c.Holds entry → StateMachine.UploadsWithin c.Passed entry
  replies : ∀ r ∈ c.replies, ∀ block ∈ r.2.blocks, c.Passed block.ino
  distinct : c.NumbersDistinct

/-! ## One step -/

theorem counter_update (c : Cluster) (id : ℕ) (node : RaftNode) (network : List Packet)
    (replies : List (ℕ × Reply)) :
    Cluster.counter { c with node := update c.node id node, network := network, replies := replies } =
      update c.counter id node.stateMachine.nextIno := by
  funext m
  simp only [counter, update_apply]
  split <;> rfl

/-- What carries the invariant over a step. -/
theorem Numbered.next (h : c.Numbered) (hmembers : c'.members = c.members)
    (hfollows : Counters.Follows c.members c.counter c'.counter)
    (hinodes : ∀ m ∈ c.members, ∀ ino ∈ (c'.node m).stateMachine.inodes,
      c.Passed ino ∨ c'.Passed ino)
    (huploads : ∀ entry, c'.Holds entry → StateMachine.UploadsWithin c.Passed entry)
    (hreplies : ∃ reply : Option (ℕ × Reply), c'.replies = c.replies ++ reply.toList ∧
      ∀ r ∈ reply, ∀ block ∈ r.2.blocks, ¬ c.Passed block.ino ∧ c'.Passed block.ino) :
    c'.Numbered := by
  have hpassed : ∀ {ino}, c.Passed ino → c'.Passed ino := by
    intro ino hino
    unfold Passed at *
    rw [hmembers]
    exact hino.follows hfollows
  obtain ⟨reply, happend, hnew⟩ := hreplies
  constructor
  · intro m hm
    exact hpassed (h.zero m (hmembers ▸ hm))
  · intro m hm ino hino
    exact (hinodes m (hmembers ▸ hm) ino hino).elim hpassed id
  · intro entry hentry request hrequest
    exact hpassed (huploads entry hentry request hrequest)
  · intro r hr block hblock
    rw [happend, List.mem_append, Option.mem_toList] at hr
    rcases hr with hold | hlast
    · exact hpassed (h.replies r hold block hblock)
    · exact (hnew r hlast block hblock).2
  · unfold NumbersDistinct
    rw [happend, List.pairwise_append]
    refine ⟨h.distinct, ?_, fun r hr r' hr' block hblock block' hblock' heq => ?_⟩
    · cases reply with
      | none => exact List.Pairwise.nil
      | some r => exact List.pairwise_singleton _ _
    · have hold := h.replies r hr block hblock
      rw [heq] at hold
      exact (hnew r' (Option.mem_toList.mp hr') block' hblock').1 hold

/-- A snapshot is loaded by a member. -/
theorem loadKeeps_follows {id : ℕ} {snapshot : Snapshot} (hload : c.LoadKeeps id snapshot)
    {value : ℕ} (hvalue : value = ((c.node id).stateMachine.loadSnapshot snapshot).nextIno) :
    Counters.Follows c.members c.counter (update c.counter id value) := by
  rcases hload.counter with hle | ⟨other, hother, hne, hle⟩
  · exact Counters.follows_update (hvalue ▸ hle)
  · exact Counters.follows_update_of_other hother hne hle

theorem loadKeeps_inodes (h : c.Numbered) {id ino : ℕ} (hid : id ∈ c.members)
    {snapshot : Snapshot} (hload : c.LoadKeeps id snapshot) {sm : StateMachine}
    (hmem : ino ∈ (sm.loadSnapshot snapshot).inodes) : c.Passed ino := by
  rcases StateMachine.mem_inodes_loadSnapshot hmem with rfl | ⟨inode, hinode, rfl⟩
  · exact h.zero id hid
  · exact hload.inodes inode hinode

variable [Platform]

/-- A reply with blocks comes from a request that is served. -/
theorem blocks_of_prepare {env : Env} {node node' : RaftNode}
    {request : PrepareUploadFileRequest} {response : PrepareUploadFileResponse}
    (hprepare : node.handlePrepareUploadFileRequest env request = .ok (node', response))
    {block : BlockInfo} (hblock : block ∈ response.blocks) :
    block.ino = node.stateMachine.nextIno ∧
      node'.stateMachine.nextIno = u64 (node.stateMachine.nextIno + 1) ∧
      node'.stateMachine.inodes = node.stateMachine.inodes ∧ node.Serves env request := by
  unfold RaftNode.handlePrepareUploadFileRequest at hprepare
  split at hprepare
  next => cases hprepare; cases hblock
  next hserved =>
    split at hprepare
    next => cases hprepare
    next hsm =>
      cases hprepare
      unfold StateMachine.prepareUploadFile at hsm
      split_ifs at hsm with hexists hstop
      · cases hsm
        cases hblock
      · cases hsm
        obtain ⟨placed, hplaced, rfl⟩ := List.mem_map.mp hblock
        exact ⟨rfl, rfl, rfl, hserved, hexists, List.ne_nil_of_mem hplaced⟩

/-- The number of a reply is the counter before it. -/
theorem blocks_of_handle {env : Env} {node node' : RaftNode} {input : Input} {output : Output}
    (hhandle : node.handle env input = .ok (node', output)) {reply : Reply}
    (hreply : output.reply = some reply) {block : BlockInfo} (hblock : block ∈ reply.blocks) :
    block.ino = node.stateMachine.nextIno ∧
      node'.stateMachine.nextIno = u64 (node.stateMachine.nextIno + 1) ∧
      node'.stateMachine.inodes = node.stateMachine.inodes ∧
      ∃ request ∈ prepared? input, node.Serves env request := by
  cases input with
  | electionTimeout => cases hhandle; cases hreply
  | heartbeat =>
    obtain ⟨_, -, heq⟩ := RaftNode.exists_of_map_eq_ok hhandle
    cases heq
    cases hreply
  | deliver src message =>
    obtain ⟨_, -, heq⟩ := RaftNode.exists_of_map_eq_ok hhandle
    cases heq
    cases hreply
  | listDir request => cases hhandle; cases hreply; cases hblock
  | makeDir request =>
    cases hhandle
    obtain ⟨response, -, rfl⟩ := Option.map_eq_some_iff.mp hreply
    cases hblock
  | prepareUploadFile request =>
    obtain ⟨⟨next, response⟩, hprepare, heq⟩ := RaftNode.exists_of_map_eq_ok hhandle
    cases heq
    cases hreply
    have hmem : block ∈ response.blocks := by
      change block ∈ (if response.statusCode = .ok then response.blocks else []) at hblock
      split at hblock
      next => exact hblock
      next => cases hblock
    obtain ⟨hino, hnext, hinodes, hserves⟩ := blocks_of_prepare hprepare hmem
    exact ⟨hino, hnext, hinodes, request, rfl, hserves⟩
  | uploadFile request =>
    cases hhandle
    obtain ⟨response, -, rfl⟩ := Option.map_eq_some_iff.mp hreply
    cases hblock
  | prepareDownloadFile request => cases hhandle; cases hreply; cases hblock

theorem uploads_of_step (h : c.Numbered) (hkept : c.NumbersKept action)
    (hstep : c.step action = some c') {entry : LogEntry} (hentry : c'.Holds entry) :
    StateMachine.UploadsWithin c.Passed entry := by
  intro request hrequest
  rcases holds_of_step hstep hentry with hold | ⟨id, env, input, command, rfl, -, haccepted, heq⟩
  · exact h.uploads entry hold request hrequest
  · rw [hrequest] at heq
    cases heq
    refine hkept.uploads request.ino ?_
    simp [uploaded?, haccepted]

/-- What `create` makes of a snapshot, or of none. -/
theorem stateMachine_of_create {env : Env} {config : Config} {disk : Disk Payload}
    {node : RaftNode} (hcreate : RaftNode.create env config disk = .ok node) :
    ∃ found ∈ (RaftNode.findSnapshot env disk).toOption, ∃ sm : StateMachine,
      node.stateMachine = sm.loadSnapshot (found.1.getD {}) := by
  obtain ⟨snapshot, snapshotter, entries, hardState, disk', hfind, -, -, rfl⟩ :=
    RaftNode.create_spec hcreate
  refine ⟨(snapshot, snapshotter), by rw [hfind]; rfl, ?_⟩
  cases snapshot with
  | none => exact ⟨{ dataNodes := config.dataNodes }, rfl⟩
  | some snapshot => exact ⟨StateMachine.create config.dataNodes, rfl⟩

theorem follows_of_handle (h : c.Numbered) {id : ℕ} {env : Env} {input : Input}
    (hid : id ∈ c.members) (hkept : c.HandlingKeeps id env input) {network : List Packet}
    (hconsume : consume c.network (delivered id input) = some network) {node : RaftNode}
    {output : Output} (hhandle : (c.node id).handle env input = .ok (node, output)) :
    Counters.Follows c.members c.counter (update c.counter id node.stateMachine.nextIno) ∧
      ∀ ino ∈ node.stateMachine.inodes, c.Passed ino ∨ ino < node.stateMachine.nextIno := by
  have hbound : ∀ entry ∈ (c.node id).logs.entries ++ input.carried,
      StateMachine.UploadsWithin c.Passed entry := by
    intro entry hmem
    rcases List.mem_append.mp hmem with hlog | hcarried
    · exact h.uploads entry (.log hid hlog)
    · exact h.uploads entry (holds_of_carried hconsume hcarried)
  have heffect := RaftNode.effect_of_after (RaftNode.after_of_handle hhandle)
  rcases RaftNode.grows_of_effect heffect hkept.fits hbound with hgrows | hinstalls
  · refine ⟨Counters.follows_update hgrows.nextIno, fun ino hmem => ?_⟩
    rcases hgrows.inodes ino hmem with hold | hpassed | hlt
    · exact Or.inl (h.inodes id hid ino hold)
    · exact Or.inl hpassed
    · exact Or.inr hlt
  · obtain ⟨src, request, snapshot, rfl, hinstalled, hstate⟩ := hinstalls
    have hload := hkept.installs snapshot hinstalled
    rw [hstate]
    exact ⟨loadKeeps_follows hload rfl, fun ino hmem => Or.inl (loadKeeps_inodes h hid hload hmem)⟩

theorem numbered_of_step (h : c.Numbered) (hkept : c.NumbersKept action)
    (hstep : c.step action = some c') : c'.Numbered := by
  have hmembers := members_of_step hstep
  have huploads : ∀ entry, c'.Holds entry → StateMachine.UploadsWithin c.Passed entry :=
    fun entry => uploads_of_step h hkept hstep
  cases action with
  | handle id env input =>
    obtain ⟨hid, network, node, output, hconsume, hhandle, rfl⟩ := step_handle hstep
    obtain ⟨hfollows, hinodes⟩ := follows_of_handle h hid hkept hconsume hhandle
    have hcounter : (c.afterHandling id network node output).counter =
        update c.counter id node.stateMachine.nextIno := counter_update ..
    refine h.next hmembers (hcounter ▸ hfollows) (fun m hm ino hino => ?_) huploads ?_
    · by_cases heq : m = id
      · subst heq
        simp only [afterHandling, update_self] at hino
        refine (hinodes ino hino).imp_right fun hlt => ⟨m, hm, ?_⟩
        rwa [hcounter, update_self]
      · simp only [afterHandling, update_of_ne heq] at hino
        exact Or.inl (h.inodes m hm ino hino)
    · refine ⟨output.reply.map (Prod.mk id), rfl, fun r hr block hblock => ?_⟩
      obtain ⟨reply, hreply, rfl⟩ := Option.map_eq_some_iff.mp hr
      obtain ⟨hino, hnext, -, request, hrequest, hserves⟩ := blocks_of_handle hhandle hreply hblock
      have hfits : c.counter id + 1 < 2 ^ 64 := by
        have := hkept.fits
        unfold prepared? at hrequest
        split at hrequest
        next => exact this
        next => cases hrequest
      have hsucc : u64 (c.counter id + 1) = c.counter id + 1 := Nat.mod_eq_of_lt hfits
      -- the number is the counter before the step, which no node has passed yet
      rw [hino]
      refine ⟨Counters.not_passed_of_highest (hkept.highest request hrequest hserves), id, hid, ?_⟩
      rw [hcounter, update_self, hnext]
      change c.counter id < u64 (c.counter id + 1)
      omega
  | lose packet =>
    obtain ⟨network, hconsume, rfl⟩ := Option.map_eq_some_iff.mp hstep
    exact h.next hmembers Counters.Follows.refl
      (fun m hm ino hino => Or.inl (h.inodes m hm ino hino))
      huploads ⟨none, (List.append_nil _).symm, fun r hr => by cases hr⟩
  | restart id env input lost =>
    obtain ⟨hid, network, node, hconsume, hcreate, rfl⟩ := step_restart hstep
    obtain ⟨found, hfound, sm, hstate⟩ := stateMachine_of_create hcreate
    have hload := hkept found hfound
    have hcounter : Cluster.counter { c with
        node := update c.node id (node.withHistoryOf (c.node id)), network := network } =
        update c.counter id node.stateMachine.nextIno := counter_update ..
    have hfollows := loadKeeps_follows hload
      ((congrArg StateMachine.nextIno hstate).trans (StateMachine.nextIno_loadSnapshot ..))
    refine h.next hmembers (hcounter ▸ hfollows) (fun m hm ino hino => Or.inl ?_) huploads
      ⟨none, (List.append_nil _).symm, fun r hr => by cases hr⟩
    by_cases heq : m = id
    · subst heq
      simp only [update_self] at hino
      change ino ∈ node.stateMachine.inodes at hino
      rw [hstate] at hino
      exact loadKeeps_inodes h hm hload hino
    · simp only [update_of_ne heq] at hino
      exact h.inodes m hm ino hino

theorem numbersFresh_of_step (h : c.Numbered) (hkept : c.NumbersKept action)
    (hstep : c.step action = some c') : c.NumbersFresh c' := by
  intro replies happend r hr block hblock
  cases action with
  | handle id env input =>
    obtain ⟨hid, network, node, output, hconsume, hhandle, rfl⟩ := step_handle hstep
    rw [← List.append_cancel_left happend, Option.mem_toList] at hr
    obtain ⟨reply, hreply, rfl⟩ := Option.map_eq_some_iff.mp hr
    obtain ⟨hino, -, hinodes, request, hrequest, hserves⟩ := blocks_of_handle hhandle hreply hblock
    have hnew : ¬ c.Passed block.ino := by
      rw [hino]
      exact Counters.not_passed_of_highest (hkept.highest request hrequest hserves)
    intro m hm
    refine ⟨fun hmem => hnew (h.inodes m hm _ hmem), fun hmem => hnew (h.inodes m hm _ ?_)⟩
    by_cases heq : m = id
    · subst heq
      simp only [afterHandling, update_self] at hmem
      exact hinodes ▸ hmem
    · simpa only [afterHandling, update_of_ne heq] using hmem
  | lose packet =>
    obtain ⟨network, hconsume, rfl⟩ := Option.map_eq_some_iff.mp hstep
    rw [List.self_eq_append_right.mp happend] at hr
    cases hr
  | restart id env input lost =>
    obtain ⟨hid, network, node, hconsume, hcreate, rfl⟩ := step_restart hstep
    rw [List.self_eq_append_right.mp happend] at hr
    cases hr

/-! ## The run -/

omit [Platform] in
theorem numbersOnce_of_numbered (h : c.Numbered) : c.NumbersOnce := by
  refine List.Pairwise.imp (fun hdistinct block hblock block' hblock' => ?_) h.distinct
  have hne := hdistinct block hblock block' hblock'
  exact ⟨hne, fun dataNode heq => hne (Storage.DataNode.getBlockPath_injective heq).1⟩

theorem numbered_of_initial (hinit : c.Initial) : c.Numbered := by
  have hnode : ∀ m ∈ c.members, c.counter m = 1 ∧ ∀ ino ∈ (c.node m).stateMachine.inodes, ino = 0 := by
    intro m hm
    obtain ⟨_, _, -, -, hcreate⟩ := hinit.created m hm
    have hfresh := create_empty hcreate
    unfold counter
    rw [hfresh]
    refine ⟨rfl, fun ino hino => ?_⟩
    exact (UnorderedMap.mem_emplace.mp hino).resolve_right (by simp [AList.mem_keys])
  have hzero : ∀ m ∈ c.members, c.Passed 0 := fun m hm => ⟨m, hm, by rw [(hnode m hm).1]; omega⟩
  constructor
  · exact hzero
  · intro m hm ino hino
    rw [(hnode m hm).2 ino hino]
    exact hzero m hm
  · exact fun entry hentry => absurd hentry (not_holds_of_initial hinit)
  · rw [hinit.replies]
    simp
  · unfold NumbersDistinct
    rw [hinit.replies]
    exact List.Pairwise.nil

/-! ## Deciding the condition -/

instance (c : Cluster) (ino : ℕ) : Decidable (c.Passed ino) :=
  inferInstanceAs (Decidable (∃ m ∈ c.members, ino < c.counter m))

instance : Decidable c.NumbersDistinct :=
  inferInstanceAs (Decidable (List.Pairwise _ _))

instance (c : Cluster) (id : ℕ) (snapshot : Snapshot) : Decidable (c.LoadKeeps id snapshot) :=
  decidable_of_iff ((∀ inode ∈ snapshot.inodes, c.Passed inode.ino) ∧
    (c.counter id ≤ ((c.node id).stateMachine.loadSnapshot snapshot).nextIno ∨
      ∃ m ∈ c.members, m ≠ id ∧ c.counter id ≤ c.counter m))
    ⟨fun h => ⟨h.1, h.2⟩, fun h => ⟨h.inodes, h.counter⟩⟩

instance {env : Env} {node : RaftNode} {request : PrepareUploadFileRequest} :
    Decidable (node.Serves env request) :=
  inferInstanceAs (Decidable (_ = none ∧ _ ∉ _ ∧ _ ≠ []))

instance (c : Cluster) (id : ℕ) (env : Env) (input : Input) :
    Decidable (c.HandlingKeeps id env input) :=
  decidable_of_iff (c.counter id + (c.node id).raises input < 2 ^ 64 ∧
    (∀ request ∈ prepared? input, (c.node id).Serves env request →
      ∀ m ∈ c.members, c.counter m ≤ c.counter id) ∧
    (∀ ino ∈ uploaded? env (c.node id) input, c.Passed ino) ∧
    ∀ snapshot ∈ installed? (c.node id) input, c.LoadKeeps id snapshot)
    ⟨fun h => ⟨h.1, h.2.1, h.2.2.1, h.2.2.2⟩, fun h => ⟨h.fits, h.highest, h.uploads, h.installs⟩⟩

instance : ∀ {action : Action}, Decidable (c.NumbersKept action)
  | .handle id env input => inferInstanceAs (Decidable (c.HandlingKeeps id env input))
  | .lose _ => inferInstanceAs (Decidable True)
  | .restart id _ _ _ =>
    inferInstanceAs (Decidable (∀ found ∈ Except.toOption _, c.LoadKeeps id _))

end Cluster

section Theorem

variable [Platform] {c c' : Cluster}

/-- **Inode numbers are handed out once.** -/
theorem inodeNumbersOnce (hinit : c.Initial)
    (hrun : Run Cluster.step Cluster.NumbersKept c c') :
    c'.NumbersOnce ∧ ∀ action c'', c'.NumbersKept action → c'.step action = some c'' →
      c'.NumbersFresh c'' := by
  have hnumbered : c'.Numbered :=
    hrun.invariant Cluster.Numbered (Cluster.numbered_of_initial hinit)
      Cluster.numbered_of_step
  exact ⟨Cluster.numbersOnce_of_numbered hnumbered,
    fun action c'' => Cluster.numbersFresh_of_step hnumbered⟩

end Theorem

/-! ## Runs of two members and a data node -/

/-- Two members with one data node. -/
def storingNodes : Cluster :=
  Cluster.fresh [1, 2] nodup_twoMembers [7]

/-- A client prepares the upload of one block. -/
def prepare (path : String) : Input :=
  .prepareUploadFile { remotePath := path, blocks := [{}] }

/-- Member 1 is elected in term 1. -/
def leadFirst : List Action :=
  [.handle 1 late .electionTimeout,
    .handle 2 late (.deliver 1 (voteRequest 1 1)),
    .handle 1 late (.deliver 2 (vote 2 1))]

theorem inodeNumbersOnce_prepareTwo :
    ∃ c', @Run _ _ (@Cluster.step plainPlatform) (@Cluster.NumbersKept plainPlatform)
      storingNodes c' ∧ (c'.replies.flatMap fun r => r.2.blocks.map BlockInfo.ino) = [1, 2] ∧
        c'.NumbersOnce := by
  obtain ⟨c', hrun, hreplies⟩ := Run.exists_of_exec (@Cluster.step plainPlatform)
    (@Cluster.NumbersKept plainPlatform) storingNodes
    (leadFirst ++ [.handle 1 late (prepare "/f"), .handle 1 late (prepare "/g")])
    (fun c' => decide ((c'.replies.flatMap fun r => r.2.blocks.map BlockInfo.ino) = [1, 2]))
    (by decide)
  exact ⟨c', hrun, of_decide_eq_true hreplies,
    (@inodeNumbersOnce plainPlatform _ _ (@Cluster.initial_fresh plainPlatform ..) hrun).1⟩

/-- Member 2 leads after member 1 handed out a number, and hands it out again. -/
def leadSecond : List Action :=
  [.handle 2 { monotonicMs := 600 } .electionTimeout,
    .handle 1 late (.deliver 2 (voteRequest 2 2)),
    .handle 2 late (.deliver 1 (vote 1 2))]

theorem exists_number_twice :
    @Cluster.Initial plainPlatform storingNodes ∧
      ∃ c', Run (@Cluster.step plainPlatform) (fun _ _ => True) storingNodes c' ∧
        ¬ c'.NumbersOnce := by
  obtain ⟨c', hrun, hreplies⟩ := Run.exists_of_exec (@Cluster.step plainPlatform)
    (fun _ _ => True) storingNodes
    (leadFirst ++ [.handle 1 late (prepare "/f")] ++ leadSecond ++ [.handle 2 late (prepare "/g")])
    (fun c' => decide (¬ c'.NumbersDistinct)) (by decide)
  refine ⟨@Cluster.initial_fresh plainPlatform .., c', hrun, fun honce => ?_⟩
  refine of_decide_eq_true hreplies (honce.imp fun hdistinct block hblock block' hblock' => ?_)
  exact (hdistinct block hblock block' hblock').1

end Vosfs.Raft
