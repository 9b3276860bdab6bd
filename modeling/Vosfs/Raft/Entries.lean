import Vosfs.Raft.Life
import Vosfs.Raft.Steps

/-!
# Where entries come from

An entry is held in the log of a member, on its disk, or in a request on its way
(`Cluster.Holds`).  A step brings no entry but the one of a command that a leader
accepts (`holds_of_step`): everything else is copied.
-/

namespace Vosfs.Raft

open Function

variable {env : Env} {node node' : RaftNode} {entry : LogEntry} {disk disk' : Disk Payload}

/-- The entries that a message carries. -/
def Message.entries : Message → List LogEntry
  | .appendEntriesRequest request => request.entries
  | _ => []

/-- The entry is stored under some key. -/
def StoredOn (disk : Disk Payload) (entry : LogEntry) : Prop :=
  ∃ key, disk.get key = some (.entry entry)

theorem storedOn_of_applyOps {db : String → Option Payload}
    {ops : List (String × Option Payload)} {key : String}
    (hget : Disk.applyOps db ops key = some (.entry entry)) :
    db key = some (.entry entry) ∨ ∃ op ∈ ops, op.2 = some (.entry entry) := by
  induction ops using List.reverseRecOn with
  | nil => exact Or.inl hget
  | append_singleton ops op ih =>
    rw [Disk.applyOps_concat, Function.update_apply] at hget
    split at hget
    next => exact Or.inr ⟨op, by simp, hget⟩
    next =>
      refine (ih hget).imp_right fun ⟨op', hop', hpayload⟩ => ?_
      exact ⟨op', List.mem_append_left _ hop', hpayload⟩

theorem storedOn_write {entries : List LogEntry} {fits : Prop} {w : DiskWrite Payload}
    (hw : RaftNode.SideWrite fits node w ∨ EntryWrite entries w)
    (hstored : StoredOn (disk.write w) entry) : StoredOn disk entry ∨ entry ∈ entries := by
  obtain ⟨key, hget⟩ := hstored
  rcases hw with hside | ⟨ops, rfl, hops⟩
  · cases hside with
    | hardState hlater =>
      rw [Disk.get_write_batch] at hget
      rcases storedOn_of_applyOps hget with hold | ⟨op, hop, hpayload⟩
      · exact Or.inl ⟨key, hold⟩
      · rw [List.mem_singleton.mp hop] at hpayload
        cases hpayload
    | file hfile happly =>
      rw [Disk.get_write, hfile] at hget
      exact Or.inl ⟨key, hget⟩
  · rw [Disk.get_write_batch] at hget
    rcases storedOn_of_applyOps hget with hold | ⟨op, hop, hpayload⟩
    · exact Or.inl ⟨key, hold⟩
    · obtain ⟨-, -, hentries⟩ := hops op hop
      obtain ⟨stored, hmem, heq⟩ := hentries _ hpayload
      cases heq
      exact Or.inr hmem

theorem storedOn_of_wrote {entries : List LogEntry} {fits : Prop}
    (hwrote : Disk.Wrote (fun w => RaftNode.SideWrite fits node w ∨ EntryWrite entries w)
      disk disk') (hstored : StoredOn disk' entry) : StoredOn disk entry ∨ entry ∈ entries := by
  refine hwrote.invariant (fun disk' => StoredOn disk' entry → StoredOn disk entry ∨
    entry ∈ entries) Or.inl (fun {disk w} hinv hw hstored => ?_) hstored
  exact (storedOn_write hw hstored).elim hinv Or.inr

namespace RaftNode

/-! ## The log -/

theorem entries_of_dropConflicts {entries : List LogEntry}
    (hdrop : dropConflicts entries node = .ok node') :
    node'.logs.entries ⊆ node.logs.entries := by
  induction entries with
  | nil => cases hdrop; exact List.Subset.refl _
  | cons first rest ih =>
    unfold dropConflicts at hdrop
    split at hdrop
    next => cases hdrop; exact List.Subset.refl _
    next =>
      split at hdrop
      next => cases hdrop
      next =>
        split at hdrop
        next =>
          simp only [RaftLog.truncateEntriesBefore] at hdrop
          split at hdrop
          next => cases hdrop
          next logs hlogs =>
            cases hdrop
            split at hlogs
            next => cases hlogs; exact List.take_subset _ _
            next => cases hlogs
        next => exact ih hdrop

theorem entries_of_storeEntries {entries : List LogEntry}
    (hstore : node.storeEntries entries = .ok node') :
    node'.logs.entries ⊆ node.logs.entries ++ entries := by
  unfold storeEntries at hstore
  split at hstore
  next => cases hstore; exact List.subset_append_left _ _
  next =>
    split at hstore
    next => cases hstore
    next hdrop =>
      cases hstore
      have hkept := entries_of_dropConflicts hdrop
      exact List.append_subset.mpr ⟨List.Subset.trans hkept (List.subset_append_left _ _),
        List.subset_append_right _ _⟩

section Steps

variable [Platform]

theorem entries_of_afterEntries {request : AppendEntriesRequest}
    (hafter : node.afterEntries env request = .ok node') :
    node'.logs.entries ⊆ node.logs.entries ++ request.entries := by
  have hfollowed : (node.followed env request).logs = node.logs := followed_keepsData.logs
  cases outcome_of_afterEntries hafter with
  | late => exact List.subset_append_left _ _
  | rejected =>
    rw [hfollowed]
    exact List.subset_append_left _ _
  | stored _ hstore hfollow =>
    rw [(movesCommit_of_followCommit hfollow).applies.entries, ← hfollowed]
    exact entries_of_storeEntries hstore

/-- The log of a node after a step. -/
theorem mem_entries_of_after {input : Input} (hafter : node.after env input = .ok node')
    (hmem : entry ∈ node'.logs.entries) :
    entry ∈ node.logs.entries ∨ entry ∈ input.carried ∨
      ∃ command, node.accepted env input = some command ∧ entry.command = some command := by
  cases effect_of_after hafter with
  | keeps hkeeps => exact Or.inl (hkeeps.logs ▸ hmem)
  | entries hafter =>
    exact (List.mem_append.mp (entries_of_afterEntries hafter hmem)).imp_right Or.inl
  | commits hadvance =>
    rw [(movesCommit_of_advanceCommit hadvance).applies.entries] at hmem
    exact Or.inl hmem
  | installs hinstalled hlogs => exact Or.inl (by rw [hlogs] at hmem; exact hmem)
  | appends haccepted =>
    rcases List.mem_append.mp hmem with hold | hnew
    · exact Or.inl hold
    · rw [List.mem_singleton.mp hnew]
      exact Or.inr (Or.inr ⟨_, haccepted, rfl⟩)
  | prepares => exact Or.inl hmem

/-- The entries a node was started with were on its disk. -/
theorem storedOn_of_create {config : Config} (hcreate : create env config disk = .ok node) :
    (∀ entry ∈ node.logs.entries, StoredOn disk entry) ∧
      ∀ entry, StoredOn node.disk entry → StoredOn disk entry := by
  obtain ⟨snapshot, snapshotter, entries, hardState, disk', -, hload, hhard, rfl⟩ :=
    create_spec hcreate
  constructor
  · intro entry hmem
    obtain ⟨k, hk, hentry⟩ := List.getElem_of_mem hmem
    refine ⟨_, ((Persister.loadEntries_eq_ok_iff.mp hload).1 k hk).trans ?_⟩
    rw [← hentry]
    exact congrArg (Option.map Payload.entry) (List.getElem?_eq_getElem hk)
  · intro entry hstored
    change StoredOn disk' entry at hstored
    unfold Persister.loadHardState at hhard
    split at hhard
    next =>
      cases hhard
      have hside : SideWrite False (assemble config snapshot snapshotter entries {} disk)
          (.batch [(Persister.hardStateKey, some (.hardState {}))]) := .hardState False.elim
      exact (storedOn_write (Or.inl hside) hstored).resolve_right (List.not_mem_nil)
    next => cases hhard; exact hstored
    next => cases hhard

end Steps

/-! ## Packets -/

theorem sendSnapshot_carries {memberId : ℕ} {packets : List Packet}
    (hsend : node.sendSnapshot env memberId = .ok (node', packets)) :
    ∀ packet ∈ packets, packet.message.entries = [] := by
  unfold sendSnapshot at hsend
  split at hsend
  next => cases hsend; simp
  next =>
    split at hsend
    next => cases hsend
    next =>
      simp only at hsend
      split at hsend
      next => cases hsend; simp
      next =>
        split at hsend
        next => cases hsend
        next => cases hsend; simp
        next =>
          cases hsend
          intro packet hpacket
          rw [List.mem_singleton.mp hpacket]
          rfl

theorem getEntries_subset {log : RaftLog} {index size : ℕ} {entries : List LogEntry}
    (hentries : log.getEntries index size = some entries) : entries ⊆ log.entries := by
  unfold RaftLog.getEntries at hentries
  split at hentries
  next =>
    cases hentries
    exact List.Subset.trans (List.take_subset _ _) (List.drop_subset _ _)
  next => cases hentries

theorem heartbeatTo_carries {memberId nextIndex : ℕ} {packets : List Packet}
    (hbeat : node.heartbeatTo env memberId nextIndex = .ok (node', packets)) :
    ∀ packet ∈ packets, packet.message.entries ⊆ node.logs.entries := by
  unfold heartbeatTo at hbeat
  split at hbeat
  next => cases hbeat; simp
  next =>
    split at hbeat
    next =>
      intro packet hpacket
      rw [sendSnapshot_carries hbeat packet hpacket]
      exact List.nil_subset _
    next =>
      simp only at hbeat
      split at hbeat
      next entries prevLogTerm hentries hterm =>
        cases hbeat
        intro packet hpacket
        rw [List.mem_singleton.mp hpacket]
        change entries ⊆ _
        split at hentries
        next => exact getEntries_subset hentries
        next => cases hentries; exact List.nil_subset _
      next => cases hbeat

theorem heartbeats_carry {targets : List (ℕ × ℕ)} {packets : List Packet}
    (hbeat : heartbeats env targets node = .ok (node', packets)) :
    ∀ packet ∈ packets, packet.message.entries ⊆ node.logs.entries := by
  induction targets generalizing node node' packets with
  | nil => cases hbeat; simp
  | cons target rest ih =>
    obtain ⟨next, sent, more, hto, hmore, rfl⟩ := exists_of_heartbeats hbeat
    intro packet hpacket
    rcases List.mem_append.mp hpacket with hsent | hrest
    · exact heartbeatTo_carries hto packet hsent
    · have hlogs : next.logs = node.logs := (moves_of_heartbeatTo hto).keepsData.logs
      rw [← hlogs]
      exact ih hmore packet hrest

theorem electionLoop_carries :
    ∀ packet ∈ (node.electionLoop env).2, packet.message.entries = [] := by
  intro packet hpacket
  unfold electionLoop at hpacket
  split at hpacket
  next => cases hpacket
  next =>
    obtain ⟨dst, -, rfl⟩ := List.mem_map.mp hpacket
    rfl

variable [Platform]

/-- Responses carry no entries. -/
theorem receive_carries {src : ℕ} {message : Message} {packets : List Packet}
    (hreceive : node.receive env src message = .ok (node', packets)) :
    ∀ packet ∈ packets, packet.message.entries = [] := by
  intro packet hpacket
  cases message with
  | requestVoteRequest request =>
    cases hreceive
    rw [List.mem_singleton.mp hpacket]
    rfl
  | requestVoteResponse response => cases hreceive; cases hpacket
  | appendEntriesRequest request =>
    obtain ⟨⟨next, response⟩, -, heq⟩ := exists_of_map_eq_ok hreceive
    cases heq
    rw [List.mem_singleton.mp hpacket]
    rfl
  | appendEntriesResponse response =>
    obtain ⟨next, -, heq⟩ := exists_of_map_eq_ok hreceive
    cases heq
    cases hpacket
  | installSnapshotRequest request =>
    cases hreceive
    rw [List.mem_singleton.mp hpacket]
    rfl
  | installSnapshotResponse response =>
    simp only [receive, handleInstallSnapshotResponse] at hreceive
    split at hreceive
    next => cases hreceive; cases hpacket
    next => exact sendSnapshot_carries hreceive packet hpacket

/-- What a node sends it holds in its log. -/
theorem handle_carries {input : Input} {output : Output}
    (hhandle : node.handle env input = .ok (node', output)) :
    ∀ packet ∈ output.packets, packet.message.entries ⊆ node.logs.entries := by
  intro packet hpacket
  cases input with
  | electionTimeout =>
    cases hhandle
    rw [electionLoop_carries packet hpacket]
    exact List.nil_subset _
  | heartbeat =>
    obtain ⟨⟨next, packets⟩, hbeat, heq⟩ := exists_of_map_eq_ok hhandle
    cases heq
    unfold heartbeatLoop at hbeat
    split at hbeat
    next => cases hbeat; cases hpacket
    next => exact heartbeats_carry hbeat packet hpacket
  | deliver src message =>
    obtain ⟨⟨next, packets⟩, hreceive, heq⟩ := exists_of_map_eq_ok hhandle
    cases heq
    rw [receive_carries hreceive packet hpacket]
    exact List.nil_subset _
  | listDir request => cases hhandle; cases hpacket
  | makeDir request => cases hhandle; cases hpacket
  | prepareUploadFile request =>
    obtain ⟨⟨next, response⟩, hprepare, heq⟩ := exists_of_map_eq_ok hhandle
    cases heq
    cases hpacket
  | uploadFile request => cases hhandle; cases hpacket
  | prepareDownloadFile request => cases hhandle; cases hpacket

end RaftNode

/-! ## The cluster -/

namespace Cluster

variable {c c' : Cluster}

/-- The entry is in a member's log, on its disk, or on its way. -/
inductive Holds (c : Cluster) (entry : LogEntry) : Prop
  | log {id : ℕ} (hid : id ∈ c.members) (hmem : entry ∈ (c.node id).logs.entries)
  | disk {id : ℕ} (hid : id ∈ c.members) (hstored : StoredOn (c.node id).disk entry)
  | packet {packet : Packet} (hpacket : packet ∈ c.network)
      (hmem : entry ∈ packet.message.entries)

/-- The entries an input brings were on their way. -/
theorem holds_of_carried {network : List Packet} {id : ℕ} {input : Input}
    (hconsume : consume c.network (delivered id input) = some network)
    (hmem : entry ∈ input.carried) : c.Holds entry := by
  cases hinput : input.entries? with
  | none => simp [Input.carried, hinput] at hmem
  | some request =>
    obtain ⟨src, rfl⟩ := Input.eq_of_entries? hinput
    exact .packet (consume_some hconsume).1 hmem

theorem holds_of_network {network : List Packet} {packet : Option Packet}
    (hconsume : consume c.network packet = some network) {sent : Packet} (hsent : sent ∈ network)
    (hmem : entry ∈ sent.message.entries) : c.Holds entry :=
  .packet (mem_of_consume hconsume hsent) hmem

theorem holds_of_wrote {id : ℕ} {network : List Packet} {input : Input} {disk : Disk Payload}
    (hid : id ∈ c.members) (hconsume : consume c.network (delivered id input) = some network)
    (hwrote : Disk.Wrote (fun w => RaftNode.SideWrite False (c.node id) w ∨
      EntryWrite input.carried w) (c.node id).disk disk)
    (hstored : StoredOn disk entry) : c.Holds entry :=
  (storedOn_of_wrote hwrote hstored).elim (.disk hid) (holds_of_carried hconsume)

variable [Platform]

/-- **No entry comes from nowhere.** -/
theorem holds_of_step {action : Action} (hstep : c.step action = some c')
    (hholds : c'.Holds entry) :
    c.Holds entry ∨ ∃ id env input command, action = .handle id env input ∧
      id ∈ c.members ∧ (c.node id).accepted env input = some command ∧
      entry.command = some command := by
  cases action with
  | handle id env input =>
    obtain ⟨hid, network, node, output, hconsume, hhandle, rfl⟩ := step_handle hstep
    have hafter := RaftNode.after_of_handle hhandle
    have hwrote : Disk.Wrote (fun w => RaftNode.SideWrite False (c.node id) w ∨
        EntryWrite input.carried w) (c.node id).disk node.disk := by
      have hwrote := @RaftNode.wrote_after_all env (c.node id) False _ input False.elim
      rwa [hafter] at hwrote
    cases hholds with
    | @log id' hid' hmem =>
      by_cases heq : id' = id
      · subst heq
        simp only [afterHandling, update_self] at hmem
        rcases RaftNode.mem_entries_of_after hafter hmem with hold | hcarried | happended
        · exact Or.inl (.log hid hold)
        · exact Or.inl (holds_of_carried hconsume hcarried)
        · obtain ⟨command, haccepted, hcommand⟩ := happended
          exact Or.inr ⟨_, env, input, command, rfl, hid, haccepted, hcommand⟩
      · simp only [afterHandling, update_of_ne heq] at hmem
        exact Or.inl (.log hid' hmem)
    | @disk id' hid' hstored =>
      by_cases heq : id' = id
      · subst heq
        simp only [afterHandling, update_self] at hstored
        exact Or.inl (holds_of_wrote hid hconsume hwrote hstored)
      · simp only [afterHandling, update_of_ne heq] at hstored
        exact Or.inl (.disk hid' hstored)
    | packet hpacket hmem =>
      rcases List.mem_append.mp hpacket with hold | hsent
      · exact Or.inl (holds_of_network hconsume hold hmem)
      · -- a node sends only what its log held before the step
        exact Or.inl (.log hid (RaftNode.handle_carries hhandle _ hsent hmem))
  | lose packet =>
    obtain ⟨network, hconsume, rfl⟩ := Option.map_eq_some_iff.mp hstep
    refine Or.inl ?_
    cases hholds with
    | log hid hmem => exact .log hid hmem
    | disk hid hstored => exact .disk hid hstored
    | packet hpacket hmem => exact holds_of_network hconsume hpacket hmem
  | restart id env input lost =>
    obtain ⟨hid, network, node, hconsume, hcreate, rfl⟩ := step_restart hstep
    have hleft : Disk.Wrote (fun w => RaftNode.SideWrite False (c.node id) w ∨
        EntryWrite input.carried w) (c.node id).disk ((c.node id).diskLeft env input lost) :=
      RaftNode.wrote_diskLeft (RaftNode.wrote_after_all False.elim)
    obtain ⟨hentries, hdisk⟩ := RaftNode.storedOn_of_create hcreate
    refine Or.inl ?_
    cases hholds with
    | @log id' hid' hmem =>
      by_cases heq : id' = id
      · subst heq
        simp only [update_self] at hmem
        exact holds_of_wrote hid hconsume hleft (hentries _ hmem)
      · simp only [update_of_ne heq] at hmem
        exact .log hid' hmem
    | @disk id' hid' hstored =>
      by_cases heq : id' = id
      · subst heq
        simp only [update_self] at hstored
        exact holds_of_wrote hid hconsume hleft (hdisk _ hstored)
      · simp only [update_of_ne heq] at hstored
        exact .disk hid' hstored
    | packet hpacket hmem => exact holds_of_network hconsume hpacket hmem

/-- At the start there are no entries. -/
theorem not_holds_of_initial (hinit : c.Initial) : ¬ c.Holds entry := by
  intro hholds
  cases hholds with
  | log hid hmem =>
    obtain ⟨_, _, -, -, hcreate⟩ := hinit.created _ hid
    rw [create_empty hcreate] at hmem
    cases hmem
  | disk hid hstored =>
    obtain ⟨_, _, -, -, hcreate⟩ := hinit.created _ hid
    obtain ⟨key, hget⟩ := (RaftNode.storedOn_of_create hcreate).2 _ hstored
    cases hget
  | packet hpacket hmem =>
    rw [hinit.network] at hpacket
    cases hpacket

end Cluster

end Vosfs.Raft
