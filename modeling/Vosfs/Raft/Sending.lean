import Vosfs.Raft.Steps

/-!
# What a step can send

All packets that can leave a node, by kinds of messages (`sends_of_handle`).  No
message brings a snapshot: `send_snapshot` does nothing as long as the node itself
has received no snapshot data, and where it has, `offset_at` keeps the lock that
`load_snapshot_data` waits for (`sendSnapshot_sends_nothing`).
-/

namespace Vosfs.Raft

namespace RaftNode

variable {env : Env} {node node' : RaftNode}

theorem sendSnapshot_sends_nothing {memberId : ℕ} {packets : List Packet}
    (hsend : node.sendSnapshot env memberId = .ok (node', packets)) : packets = [] := by
  unfold sendSnapshot at hsend
  split at hsend
  next => cases hsend; rfl
  next =>
    split at hsend
    next => cases hsend
    next offset snapshotter hoffset =>
      have hlocked : snapshotter.locked = true := by
        unfold Snapshotter.offsetAt at hoffset
        split at hoffset <;> cases hoffset
        rfl
      simp only at hsend
      split at hsend
      next => cases hsend; rfl
      next =>
        -- the lock is still held
        rw [Snapshotter.loadSnapshotData, if_pos hlocked] at hsend
        cases hsend

/-- A packet that a step sends. -/
inductive Sends [Platform] (env : Env) (node : RaftNode) : Input → RaftNode → Packet → Prop
  | voteRequest {node' : RaftNode} {dst : ℕ} (timedOut : TimedOut env node)
      (role : node.role ≠ .leader) (hnode : node' = (node.electionLoop env).1)
      (peer : dst ∈ node.transport.peers) (other : dst ≠ node.memberId) :
      Sends env node .electionTimeout node' ⟨node.memberId, dst, .requestVoteRequest
        { term := u64 (node.currentTerm + 1)
          candidateId := node.memberId
          lastLogIndex := node.logs.lastLogIndex
          lastLogTerm := node.logs.lastLogTerm }⟩
  | entries {node' : RaftNode} {dst nextIndex prevLogTerm : ℕ} {entries : List LogEntry}
      (role : node.role = .leader) (moves : MovesSnapshotter node node')
      (next : (dst, nextIndex) ∈ node.nextIndex.pairs) (other : dst ≠ node.memberId)
      (hterm : node.logs.getTerm (nextIndex - 1) = some prevLogTerm)
      (hentries : entries ⊆ node.logs.entries) :
      Sends env node .heartbeat node' ⟨node.memberId, dst, .appendEntriesRequest
        { term := node.currentTerm
          leaderId := node.memberId
          prevLogIndex := nextIndex - 1
          prevLogTerm := prevLogTerm
          entries := entries
          leaderCommit := node.commitIndex }⟩
  | vote {node' : RaftNode} {src : ℕ} {request : RequestVoteRequest}
      {response : RequestVoteResponse}
      (hhandle : node.handleRequestVoteRequest env request = (node', response)) :
      Sends env node (.deliver src (.requestVoteRequest request)) node'
        ⟨node.memberId, src, .requestVoteResponse response⟩
  | appended {node' : RaftNode} {src : ℕ} {request : AppendEntriesRequest}
      {response : AppendEntriesResponse}
      (hhandle : node.handleAppendEntriesRequest env request = .ok (node', response)) :
      Sends env node (.deliver src (.appendEntriesRequest request)) node'
        ⟨node.memberId, src, .appendEntriesResponse response⟩
  | installed {node' : RaftNode} {src : ℕ} {request : InstallSnapshotRequest}
      {response : InstallSnapshotResponse}
      (hhandle : node.handleInstallSnapshotRequest env request = (node', response)) :
      Sends env node (.deliver src (.installSnapshotRequest request)) node'
        ⟨node.memberId, src, .installSnapshotResponse response⟩

/-! ## The loops -/

theorem electionLoop_sends [Platform] {packet : Packet}
    (hpacket : packet ∈ (node.electionLoop env).2) :
    Sends env node .electionTimeout (node.electionLoop env).1 packet := by
  have hpackets := hpacket
  unfold electionLoop at hpackets
  split at hpackets
  next => cases hpackets
  next hstart =>
    rw [not_or, not_not] at hstart
    simp only [tryToLead_keepsData.transport] at hpackets
    obtain ⟨dst, hdst, rfl⟩ := List.mem_map.mp hpackets
    obtain ⟨hpeer, hother⟩ := List.mem_filter.mp hdst
    have hother : dst ≠ node.startElection.voteForSelf.tryToLead.memberId := by simpa using hother
    rw [memberId_of_transport tryToLead_keepsData.transport] at hother
    simp only [send]
    rw [memberId_of_transport tryToLead_keepsData.transport]
    exact .voteRequest hstart.1 hstart.2 rfl hpeer hother

/-- `start` is the node at the beginning of the round of heartbeats, and `last` at its end. -/
theorem heartbeatTo_sends [Platform] {start last : RaftNode} {memberId nextIndex : ℕ}
    {packets : List Packet} (hrole : start.role = .leader)
    (hnext : (memberId, nextIndex) ∈ start.nextIndex.pairs)
    (hstart : MovesSnapshotter start node) (hlast : MovesSnapshotter start last)
    (hbeat : node.heartbeatTo env memberId nextIndex = .ok (node', packets)) :
    ∀ packet ∈ packets, Sends env start .heartbeat last packet := by
  obtain ⟨snapshotter, rfl⟩ := hstart
  unfold heartbeatTo at hbeat
  split at hbeat
  next => cases hbeat; simp
  next hother =>
    split at hbeat
    next => rw [sendSnapshot_sends_nothing hbeat]; simp
    next =>
      simp only at hbeat
      split at hbeat
      next entries prevLogTerm hentries hterm =>
        cases hbeat
        intro packet hpacket
        rw [List.mem_singleton.mp hpacket]
        refine .entries hrole hlast hnext hother hterm ?_
        split at hentries
        next =>
          unfold RaftLog.getEntries at hentries
          split at hentries <;> cases hentries
          exact List.Subset.trans (List.take_subset _ _) (List.drop_subset _ _)
        next => cases hentries; exact List.nil_subset _
      next => cases hbeat

theorem heartbeats_send [Platform] {start last : RaftNode} {targets : List (ℕ × ℕ)}
    {packets : List Packet} (hrole : start.role = .leader)
    (htargets : targets ⊆ start.nextIndex.pairs)
    (hstart : MovesSnapshotter start node) (hlast : MovesSnapshotter start last)
    (hbeat : heartbeats env targets node = .ok (node', packets)) :
    ∀ packet ∈ packets, Sends env start .heartbeat last packet := by
  induction targets generalizing node packets with
  | nil => cases hbeat; simp
  | cons target rest ih =>
    rw [List.cons_subset] at htargets
    obtain ⟨next, sent, more, hto, hmore, rfl⟩ := exists_of_heartbeats hbeat
    intro packet hpacket
    rcases List.mem_append.mp hpacket with hsent | hrest
    · exact heartbeatTo_sends hrole htargets.1 hstart hlast hto packet hsent
    · exact ih htargets.2 (hstart.trans (moves_of_heartbeatTo hto)) hmore packet hrest

theorem heartbeatLoop_sends [Platform] {packets : List Packet}
    (hbeat : node.heartbeatLoop env = .ok (node', packets)) :
    ∀ packet ∈ packets, Sends env node .heartbeat node' packet := by
  have hmoves := @heartbeatLoop_moves env node
  rw [hbeat] at hmoves
  unfold heartbeatLoop at hbeat
  split at hbeat
  next => cases hbeat; simp
  next hrole =>
    exact heartbeats_send (not_not.mp hrole) (List.Subset.refl _) MovesSnapshotter.refl hmoves hbeat

/-! ## Answers -/

variable [Platform]

theorem receive_sends {src : ℕ} {message : Message} {packets : List Packet}
    (hreceive : node.receive env src message = .ok (node', packets)) :
    ∀ packet ∈ packets, Sends env node (.deliver src message) node' packet := by
  intro packet hpacket
  cases message with
  | requestVoteRequest request =>
    have hmember := memberId_of_transport
      (@handleRequestVoteRequest_keepsData env node request).transport
    simp only [receive] at hreceive
    generalize hhandle : node.handleRequestVoteRequest env request = handled at hreceive hmember
    cases hreceive
    rw [List.mem_singleton.mp hpacket, send, hmember]
    exact .vote hhandle
  | requestVoteResponse response => cases hreceive; cases hpacket
  | appendEntriesRequest request =>
    obtain ⟨⟨last, response⟩, hhandle, heq⟩ := exists_of_map_eq_ok hreceive
    cases heq
    have hafter := @map_handleAppendEntriesRequest env node _ request
    rw [hhandle] at hafter
    rw [List.mem_singleton.mp hpacket, send,
      memberId_of_transport (transport_of_afterEntries hafter.symm)]
    exact .appended hhandle
  | appendEntriesResponse response =>
    obtain ⟨last, -, heq⟩ := exists_of_map_eq_ok hreceive
    cases heq
    cases hpacket
  | installSnapshotRequest request =>
    have hmember := memberId_of_transport
      (@transport_handleInstallSnapshotRequest env node _ request)
    simp only [receive] at hreceive
    generalize hhandle : node.handleInstallSnapshotRequest env request = handled at hreceive hmember
    cases hreceive
    rw [List.mem_singleton.mp hpacket, send, hmember]
    exact .installed hhandle
  | installSnapshotResponse response =>
    simp only [receive, handleInstallSnapshotResponse] at hreceive
    split at hreceive
    next => cases hreceive; cases hpacket
    next =>
      rw [sendSnapshot_sends_nothing hreceive] at hpacket
      cases hpacket

/-- **What a step can send.** -/
theorem sends_of_handle {input : Input} {output : Output}
    (hhandle : node.handle env input = .ok (node', output)) :
    ∀ packet ∈ output.packets, Sends env node input node' packet := by
  intro packet hpacket
  cases input with
  | electionTimeout => cases hhandle; exact electionLoop_sends hpacket
  | heartbeat =>
    obtain ⟨⟨last, packets⟩, hbeat, heq⟩ := exists_of_map_eq_ok hhandle
    cases heq
    exact heartbeatLoop_sends hbeat packet hpacket
  | deliver src message =>
    obtain ⟨⟨last, packets⟩, hreceive, heq⟩ := exists_of_map_eq_ok hhandle
    cases heq
    exact receive_sends hreceive packet hpacket
  | prepareUploadFile request =>
    obtain ⟨served, -, heq⟩ := exists_of_map_eq_ok hhandle
    cases heq
    cases hpacket
  | listDir request => cases hhandle; cases hpacket
  | makeDir request => cases hhandle; cases hpacket
  | uploadFile request => cases hhandle; cases hpacket
  | prepareDownloadFile request => cases hhandle; cases hpacket

end RaftNode

end Vosfs.Raft
