import Vosfs.Raft.Node

/-!
# What the handlers do to a log without snapshots

While no snapshot replaced a part of the log (`RaftLog.FromStart`) and none is being
received, the handlers' effects can be stated without their loops:

* `applyEntry_spec`: applying entries changes neither the log nor the Raft state;
* `storeEntries_of_new`: entries that start behind the log's agreeing part replace
  the rest of it;
* `heartbeatLoop_spec`: a heartbeat carries a slice of the log.
-/

namespace Vosfs.Raft.RaftNode

open Consensus (lastTerm)

variable {env : Env} {node node' : RaftNode}

/-! ## Applying entries -/

section Apply

variable [Platform]

/-- `node'` is `node` after applying `positions`. -/
def Applied (node : RaftNode) (positions : List (ℕ × LogEntry)) (node' : RaftNode) : Prop :=
  ∃ stateMachine disk snapshotter,
    node' = { node with
      stateMachine := stateMachine
      disk := disk
      snapshotter := snapshotter
      lastApplied := node.lastApplied + positions.length
      applied := node.applied ++ positions }

omit [Platform] in
theorem loadSnapshot_of_fromStart {log : RaftLog} (hstart : log.FromStart) :
    log.loadSnapshot {} = log := by
  obtain ⟨index, term, entries⟩ := log
  obtain rfl : index = 0 := hstart.index
  obtain rfl : term = 0 := hstart.term
  rfl

/-- The node with its next entry applied. -/
def applyOne (env : Env) (node : RaftNode) (entry : LogEntry) : RaftNode :=
  applyToStateMachine env { node with lastApplied := node.lastApplied + 1 } entry

/-- What a round makes of a node.  At every tenth index a snapshot is tried. -/
inductive Round (env : Env) (node : RaftNode) (entry : LogEntry) : RaftNode → Prop
  | plain (between : (node.lastApplied + 1) % snapshotInterval ≠ 0) :
      Round env node entry (node.applyOne env entry)
  | failed {snapshot : Snapshot} {error : Error} {disk : Disk Payload}
      (interval : (node.lastApplied + 1) % snapshotInterval = 0)
      (saves : node.snapshotter.saveSnapshot (env.fileOutcome (node.lastApplied + 1)) node.disk
        snapshot = some (.error error, disk)) :
      Round env node entry { node.applyOne env entry with disk := disk }
  | saved {snapshot : Snapshot} {snapshotter : Snapshotter} {disk : Disk Payload}
      (interval : (node.lastApplied + 1) % snapshotInterval = 0)
      (saves : node.snapshotter.saveSnapshot (env.fileOutcome (node.lastApplied + 1)) node.disk
        snapshot = some (.ok snapshotter, disk)) :
      Round env node entry { node.applyOne env entry with
        disk := disk
        snapshotter := snapshotter
        logs := node.logs.loadSnapshot {} }

theorem round_of_applyNext (happly : node.applyNext env = .ok node') :
    ∃ entry, node.logs.getEntry (node.lastApplied + 1) = some entry ∧
      Round env node entry node' := by
  unfold applyNext at happly
  simp only at happly
  split at happly
  next => cases happly
  next entry hentry =>
    refine ⟨entry, hentry, ?_⟩
    split at happly
    next hinterval =>
      unfold snapshotAt at happly
      split at happly
      next => cases happly
      next =>
        simp only at happly
        split at happly
        next => cases happly
        next hsave => cases happly; exact .failed hinterval hsave
        next hsave => cases happly; exact .saved hinterval hsave
    next hbetween => cases happly; exact .plain hbetween

theorem exists_of_applyRounds {rounds : ℕ}
    (happly : applyRounds env (rounds + 1) node = .ok node') :
    ∃ next, node.applyNext env = .ok next ∧ applyRounds env rounds next = .ok node' := by
  unfold applyRounds at happly
  split at happly
  next => cases happly
  next next hnext => exact ⟨next, hnext, happly⟩

theorem applyNext_spec (hstart : node.logs.FromStart)
    (happly : node.applyNext env = .ok node') :
    ∃ entry, node.logs.getEntry (node.lastApplied + 1) = some entry ∧
      node.Applied [(node.lastApplied + 1, entry)] node' := by
  obtain ⟨entry, hentry, hround⟩ := round_of_applyNext happly
  refine ⟨entry, hentry, ?_⟩
  cases hround with
  | plain => exact ⟨_, node.disk, node.snapshotter, rfl⟩
  | @failed _ _ disk => exact ⟨_, disk, node.snapshotter, rfl⟩
  | @saved _ snapshotter disk =>
    refine ⟨(node.applyOne env entry).stateMachine, disk, snapshotter, ?_⟩
    rw [loadSnapshot_of_fromStart hstart]
    rfl

omit [Platform] in
theorem Applied.trans {node'' : RaftNode} {first second : List (ℕ × LogEntry)}
    (hfirst : node.Applied first node') (hsecond : node'.Applied second node'') :
    node.Applied (first ++ second) node'' := by
  obtain ⟨_, _, _, rfl⟩ := hfirst
  obtain ⟨stateMachine, disk, snapshotter, rfl⟩ := hsecond
  refine ⟨stateMachine, disk, snapshotter, ?_⟩
  simp [List.append_assoc, Nat.add_assoc]

theorem applyRounds_spec {rounds : ℕ} (hstart : node.logs.FromStart)
    (happly : applyRounds env rounds node = .ok node') :
    ∃ positions, node.Applied positions node' ∧
      ∀ p ∈ positions, node.lastApplied < p.1 ∧ p.1 ≤ node.lastApplied + rounds ∧
        node.logs.getEntry p.1 = some p.2 := by
  induction rounds generalizing node with
  | zero =>
    cases happly
    exact ⟨[], ⟨node'.stateMachine, node'.disk, node'.snapshotter, by simp⟩, by simp⟩
  | succ rounds ih =>
    obtain ⟨next, hnext, happly⟩ := exists_of_applyRounds happly
    obtain ⟨entry, hentry, hfirst⟩ := applyNext_spec hstart hnext
    obtain ⟨_, _, _, hnode⟩ := hfirst
    have hlogs : next.logs = node.logs := by rw [hnode]
    have hlast : next.lastApplied = node.lastApplied + 1 := by rw [hnode]; rfl
    obtain ⟨positions, hrest, hpos⟩ := ih (hlogs ▸ hstart) happly
    refine ⟨_ :: positions, Applied.trans ⟨_, _, _, hnode⟩ hrest, ?_⟩
    intro p hp
    rcases List.mem_cons.mp hp with rfl | hp
    · exact ⟨by simp, by simp, hentry⟩
    · obtain ⟨hlt, hle, hget⟩ := hpos p hp
      rw [hlast] at hlt hle
      exact ⟨by omega, by omega, hlogs ▸ hget⟩

/-- Applying changes the state machine and what follows from it, and covers the
positions up to the commit index. -/
theorem applyEntry_spec (hstart : node.logs.FromStart) (happly : node.applyEntry env = .ok node') :
    ∃ positions, node.Applied positions node' ∧
      ∀ p ∈ positions, 0 < p.1 ∧ p.1 ≤ node.commitIndex ∧ node.logs.getEntry p.1 = some p.2 := by
  obtain ⟨positions, hnode, hpos⟩ := applyRounds_spec hstart happly
  refine ⟨positions, hnode, fun p hp => ?_⟩
  obtain ⟨hlt, hle, hget⟩ := hpos p hp
  exact ⟨by omega, by omega, hget⟩

/-- The entries up to a new commit index are applied, or the index stays. -/
inductive MovesCommit (env : Env) (node node' : RaftNode) : Prop
  | stays (same : node' = node)
  | moves (commitIndex : ℕ)
      (happly : ({ node with commitIndex := commitIndex } : RaftNode).applyEntry env = .ok node')

theorem movesCommit_of_followCommit {leaderCommit : ℕ}
    (hfollow : node.followCommit env leaderCommit = .ok node') : MovesCommit env node node' := by
  unfold followCommit at hfollow
  split at hfollow
  next => exact .moves _ hfollow
  next => exact .stays (Except.ok.inj hfollow).symm

theorem movesCommit_of_advanceCommit (hadvance : node.advanceCommit env = .ok node') :
    MovesCommit env node node' := by
  unfold advanceCommit at hadvance
  split at hadvance
  next => exact .moves _ hadvance
  next => exact .stays (Except.ok.inj hadvance).symm

theorem MovesCommit.keeps (hmoves : MovesCommit env node node') (hstart : node.logs.FromStart) :
    node'.currentTerm = node.currentTerm ∧ node'.logs = node.logs := by
  cases hmoves with
  | stays same => rw [same]; exact ⟨rfl, rfl⟩
  | moves commitIndex happly =>
    have hstart' : ({ node with commitIndex := commitIndex } : RaftNode).logs.FromStart := hstart
    obtain ⟨_, ⟨_, _, _, rfl⟩, -⟩ := applyEntry_spec hstart' happly
    exact ⟨rfl, rfl⟩

end Apply

/-! ## Storing entries -/

/-- Storing entries changes the log and the disk. -/
theorem dropConflicts_shape {entries : List LogEntry}
    (hdrop : dropConflicts entries node = .ok node') :
    ∃ disk kept, node' = { node with disk := disk, logs := { node.logs with entries := kept } } := by
  induction entries with
  | nil => cases hdrop; exact ⟨node.disk, node.logs.entries, rfl⟩
  | cons entry rest ih =>
    unfold dropConflicts at hdrop
    split at hdrop
    next => cases hdrop; exact ⟨node.disk, node.logs.entries, rfl⟩
    next =>
      split at hdrop
      next => cases hdrop
      next =>
        split at hdrop
        next =>
          simp only [RaftLog.truncateEntriesBefore] at hdrop
          split at hdrop
          next => cases hdrop
          next logs hlogs =>
            cases hdrop
            split at hlogs
            next => cases hlogs; exact ⟨_, _, rfl⟩
            next => cases hlogs
        next => exact ih hdrop

theorem storeEntries_shape {entries : List LogEntry}
    (hstore : node.storeEntries entries = .ok node') :
    ∃ disk stored,
      node' = { node with disk := disk, logs := { node.logs with entries := stored } } := by
  unfold storeEntries at hstore
  split at hstore
  next => cases hstore; exact ⟨node.disk, node.logs.entries, rfl⟩
  next =>
    split at hstore
    next => cases hstore
    next hdrop =>
      cases hstore
      obtain ⟨disk, kept, rfl⟩ := dropConflicts_shape hdrop
      exact ⟨_, _, rfl⟩

section Store

variable {prev : ℕ} {first : LogEntry} {rest : List LogEntry}

/-- The node without the entries from `index` on. -/
def truncated (node : RaftNode) (index : ℕ) : RaftNode :=
  if node.logs.lastLogIndex < index then
    node
  else
    { node with
      disk := Persister.truncateEntries node.disk index node.logs.lastLogIndex
      logs := { node.logs with
        entries := node.logs.entries.take (index - node.logs.lastIncludedIndex - 1) } }

/-- If the log does not hold the first entry yet, everything from its index on goes. -/
theorem dropConflicts_of_new (hpast : node.logs.lastIncludedIndex < first.index)
    (hnew : node.logs.getTerm first.index ≠ some first.term) :
    dropConflicts (first :: rest) node = .ok (node.truncated first.index) := by
  unfold dropConflicts truncated
  split
  next => rfl
  next hle =>
    have hlt : first.index - node.logs.lastIncludedIndex - 1 < node.logs.entries.length := by
      unfold RaftLog.lastLogIndex at hle
      omega
    have hget : node.logs.getTerm first.index =
        some node.logs.entries[first.index - node.logs.lastIncludedIndex - 1].term := by
      rw [RaftLog.getTerm, if_neg (by omega), if_pos hpast, List.getElem?_eq_getElem hlt]
      rfl
    rw [hget]
    simp only
    rw [if_pos (fun heq => hnew (by rw [hget, heq])), RaftLog.truncateEntriesBefore,
      if_pos ⟨hpast, not_lt.mp hle⟩]

theorem storeEntries_of_new (hstart : node.logs.FromStart)
    (hprev : prev ≤ node.logs.entries.length) (hindex : first.index = prev + 1)
    (hnew : node.logs.getTerm (prev + 1) ≠ some first.term) :
    ∃ disk, node.storeEntries (first :: rest) = .ok { node with
      disk := disk
      logs := { node.logs with entries := node.logs.entries.take prev ++ first :: rest } } := by
  have hpast : node.logs.lastIncludedIndex < first.index := by
    rw [hstart.index, hindex]
    exact Nat.succ_pos prev
  obtain ⟨disk, htruncated⟩ : ∃ disk, node.truncated (prev + 1) = { node with
      disk := disk
      logs := { node.logs with entries := node.logs.entries.take prev } } := by
    unfold truncated
    rw [hstart.lastLogIndex, hstart.index, Nat.sub_zero, Nat.add_sub_cancel]
    rcases hprev.eq_or_lt with heq | hlt
    · rw [if_pos (by omega), heq, List.take_length]
      exact ⟨node.disk, rfl⟩
    · rw [if_neg (by omega)]
      exact ⟨_, rfl⟩
  unfold storeEntries
  rw [dropConflicts_of_new hpast (hindex ▸ hnew), hindex, htruncated]
  exact ⟨_, rfl⟩

theorem storeEntries_nil : node.storeEntries [] = .ok node := rfl

end Store

/-! ## Heartbeats -/

/-- A request that carries a slice of the node's log to another member. -/
def Slice (node : RaftNode) (packet : Packet) : Prop :=
  ∃ dst prev entries, dst ≠ node.memberId ∧ prev ≤ node.logs.entries.length ∧
    node.logs.entries.take prev ++ entries <+: node.logs.entries ∧
    packet = node.send dst (.appendEntriesRequest
      { term := node.currentTerm
        leaderId := node.memberId
        prevLogIndex := prev
        prevLogTerm := lastTerm (node.logs.entries.take prev)
        entries := entries
        leaderCommit := node.commitIndex })

theorem heartbeatTo_spec (hstart : node.logs.FromStart) (hdata : node.snapshotData = [])
    {dst nextIndex : ℕ} {packets : List Packet}
    (hbeat : node.heartbeatTo env dst nextIndex = .ok (node', packets)) :
    node' = node ∧ ∀ packet ∈ packets, node.Slice packet := by
  unfold heartbeatTo at hbeat
  split at hbeat
  next => cases hbeat; simp
  next hdst =>
    rw [hstart.lastLogIndex, hstart.index] at hbeat
    split at hbeat
    next =>
      rw [sendSnapshot, hdata] at hbeat
      cases hbeat
      simp
    next hpos =>
      simp only at hbeat
      split at hbeat
      next entries prevLogTerm hentries hterm =>
        cases hbeat
        refine ⟨rfl, fun packet hpacket => ?_⟩
        have hprev : nextIndex - 1 ≤ node.logs.entries.length := by
          by_contra hlong
          obtain ⟨k, hk⟩ : ∃ k, nextIndex - 1 = k + 1 := ⟨nextIndex - 2, by omega⟩
          rw [hk, hstart.getTerm, List.getElem?_eq_none (by omega)] at hterm
          cases hterm
        refine ⟨dst, nextIndex - 1, entries, hdst, hprev, ?_, ?_⟩
        · split at hentries
          next hle =>
            obtain ⟨k, rfl⟩ : ∃ k, nextIndex = k + 1 := ⟨nextIndex - 1, by omega⟩
            rw [hstart.getEntries hle] at hentries
            cases hentries
            rw [Nat.add_sub_cancel]
            conv_rhs => rw [← List.take_append_drop k node.logs.entries]
            exact (List.prefix_append_right_inj _).mpr (List.take_prefix _ _)
          next =>
            cases hentries
            rw [List.append_nil]
            exact List.take_prefix _ _
        · rw [hstart.getTerm_eq_lastTerm hprev] at hterm
          cases hterm
          simpa using hpacket
      next => cases hbeat

/-- A round: the first member's heartbeat, and those of the others. -/
theorem exists_of_heartbeats {target : ℕ × ℕ} {rest : List (ℕ × ℕ)} {packets : List Packet}
    (hbeat : heartbeats env (target :: rest) node = .ok (node', packets)) :
    ∃ next sent more, node.heartbeatTo env target.1 target.2 = .ok (next, sent) ∧
      heartbeats env rest next = .ok (node', more) ∧ packets = sent ++ more := by
  unfold heartbeats at hbeat
  split at hbeat
  next => cases hbeat
  next next sent hto =>
    split at hbeat
    next => cases hbeat
    next more hmore =>
      cases hbeat
      exact ⟨next, sent, more, hto, hmore, rfl⟩

theorem heartbeats_spec (hstart : node.logs.FromStart) (hdata : node.snapshotData = [])
    {targets : List (ℕ × ℕ)} {packets : List Packet}
    (hbeat : heartbeats env targets node = .ok (node', packets)) :
    node' = node ∧ ∀ packet ∈ packets, node.Slice packet := by
  induction targets generalizing node node' packets with
  | nil => cases hbeat; simp
  | cons target targets ih =>
    obtain ⟨next, sent, more, hto, hmore, rfl⟩ := exists_of_heartbeats hbeat
    obtain ⟨rfl, hsent⟩ := heartbeatTo_spec hstart hdata hto
    obtain ⟨rfl, hrest⟩ := ih hstart hdata hmore
    refine ⟨rfl, fun packet hpacket => ?_⟩
    exact (List.mem_append.mp hpacket).elim (hsent packet) (hrest packet)

/-- A round of heartbeats leaves the node as it is, and carries slices of its log. -/
theorem heartbeatLoop_spec (hstart : node.logs.FromStart) (hdata : node.snapshotData = [])
    {packets : List Packet} (hbeat : node.heartbeatLoop env = .ok (node', packets)) :
    node' = node ∧ ∀ packet ∈ packets, node.role = .leader ∧ node.Slice packet := by
  unfold heartbeatLoop at hbeat
  split at hbeat
  next => cases hbeat; simp
  next hrole =>
    obtain ⟨hnode, hslices⟩ := heartbeats_spec hstart hdata hbeat
    exact ⟨hnode, fun packet hpacket => ⟨not_not.mp hrole, hslices packet hpacket⟩⟩

end Vosfs.Raft.RaftNode
