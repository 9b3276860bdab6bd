import Vosfs.Raft.Cluster
import Vosfs.Raft.Sending

/-!
# The transfer of a snapshot

A leader and one follower, with the requests that carry snapshot data and their
answers on two channels that keep the order and lose nothing (`Exchange`).  A snapshot
is transferred when the leader has sent the chunks of its snapshot file, in order and
once, and the follower has put them together (`Delivered`).

It never is: no request with snapshot data is ever sent (`snapshotNotDelivered`).
-/

namespace Vosfs.Raft

/-- A leader and a follower, with the messages about snapshots between them. -/
structure Exchange where
  leader : RaftNode
  follower : RaftNode
  requests : List InstallSnapshotRequest := []
  responses : List InstallSnapshotResponse := []
  /-- History: all requests that were sent. -/
  sent : List InstallSnapshotRequest := []

/-- The leader's heartbeat, and the arrival of the next message at its addressee. -/
inductive Exchange.Event
  | heartbeat (env : Env)
  | request (env : Env)
  | response (env : Env)

/-- The snapshot data in a packet to a member. -/
def Packet.snapshotRequest? (member : ℕ) (packet : Packet) : Option InstallSnapshotRequest :=
  match packet.message with
  | .installSnapshotRequest request => if packet.dst = member then some request else none
  | _ => none

namespace Exchange

/-- Before the first heartbeat. -/
def start (leader follower : RaftNode) : Exchange :=
  { leader := leader, follower := follower }

/-- The requests among the packets are on their way. -/
def send (x : Exchange) (leader : RaftNode) (packets : List Packet) : Exchange :=
  let requests := packets.filterMap (Packet.snapshotRequest? x.follower.memberId)
  { x with leader := leader, requests := x.requests ++ requests, sent := x.sent ++ requests }

variable [Platform]

/-- A call that waits forever is no step. -/
def step (x : Exchange) : Event → Option Exchange
  | .heartbeat env =>
    match x.leader.heartbeatLoop env with
    | .error _ => none
    | .ok (leader, packets) => some (x.send leader packets)
  | .request env =>
    match x.requests with
    | [] => none
    | request :: rest =>
      let (follower, response) := x.follower.handleInstallSnapshotRequest env request
      some { x with
        follower := follower, requests := rest, responses := x.responses ++ [response] }
  | .response env =>
    match x.responses with
    | [] => none
    | response :: rest =>
      match x.leader.handleInstallSnapshotResponse env response with
      | .error _ => none
      | .ok (leader, packets) => some ({ x with responses := rest }.send leader packets)

/-- The number of chunks of a file; an empty file has one. -/
def chunkCount (file : List UInt8) : ℕ :=
  max 1 ((file.length + maxSnapshotChunkSize - 1) / maxSnapshotChunkSize)

/-- The chunks of a file, by their offsets, and whether they are the last one. -/
def chunks (file : List UInt8) : List (ℕ × List UInt8 × Bool) :=
  (List.range (chunkCount file)).map fun i =>
    (i * maxSnapshotChunkSize,
      (file.drop (i * maxSnapshotChunkSize)).take maxSnapshotChunkSize,
      decide (i + 1 = chunkCount file))

/-- The file was sent once, chunk by chunk, and put together. -/
structure Delivered (x : Exchange) (file : List UInt8) : Prop where
  sent : (x.sent.map fun request => (request.offset, request.data, request.done)) = chunks file
  received : x.follower.snapshotData = file

/-- The leader leads, has the file, and has to send it to the follower. -/
structure Needed (x : Exchange) (file : List UInt8) : Prop where
  role : x.leader.role = .leader
  stored : x.leader.disk.file x.leader.snapshotter.snapshotPath = some file
  size : x.leader.snapshotter.snapshotSize = file.length
  behind : ∃ nextIndex, (x.follower.memberId, nextIndex) ∈ x.leader.nextIndex.pairs ∧
    nextIndex ≤ x.leader.logs.lastIncludedIndex

omit [Platform] in
theorem chunks_ne_nil (file : List UInt8) : chunks file ≠ [] := by
  have hcount : chunkCount file ≠ 0 := by
    unfold chunkCount
    omega
  simpa [chunks] using hcount

omit [Platform] in
theorem send_nothing {x : Exchange} {leader : RaftNode} {packets : List Packet}
    (hpackets : ∀ packet ∈ packets, ∀ request,
      packet.message ≠ .installSnapshotRequest request) :
    (x.send leader packets).sent = x.sent := by
  have hnone : packets.filterMap (Packet.snapshotRequest? x.follower.memberId) = [] := by
    rw [List.filterMap_eq_nil_iff]
    intro packet hpacket
    unfold Packet.snapshotRequest?
    split
    next request hmessage => exact absurd hmessage (hpackets packet hpacket request)
    next => rfl
  simp [send, hnone]

/-- No step sends snapshot data. -/
theorem sent_of_step {x x' : Exchange} {event : Event} (hstep : x.step event = some x') :
    x'.sent = x.sent := by
  cases event with
  | heartbeat env =>
    simp only [step] at hstep
    split at hstep
    next => cases hstep
    next leader packets hbeat =>
      cases hstep
      refine send_nothing fun packet hpacket request hmessage => ?_
      have hsends := RaftNode.heartbeatLoop_sends hbeat packet hpacket
      generalize hinput : Input.heartbeat = input at hsends
      cases hsends <;> cases hinput
      cases hmessage
  | request env =>
    simp only [step] at hstep
    split at hstep <;> cases hstep
    rfl
  | response env =>
    simp only [step] at hstep
    split at hstep
    next => cases hstep
    next response rest _ =>
      split at hstep
      next => cases hstep
      next leader packets hhandle =>
        cases hstep
        have hpackets : packets = [] := by
          unfold RaftNode.handleInstallSnapshotResponse at hhandle
          split at hhandle
          next => cases hhandle; rfl
          next => exact RaftNode.sendSnapshot_sends_nothing hhandle
        rw [hpackets]
        exact send_nothing (by simp)

theorem sent_of_run {x x' : Exchange} {allowed : Exchange → Event → Prop}
    (hrun : Run step allowed x x') : x'.sent = x.sent :=
  hrun.invariant (fun x' => x'.sent = x.sent) rfl fun hsent _ hstep =>
    (sent_of_step hstep).trans hsent

/-- **No snapshot is ever delivered.** -/
theorem snapshotNotDelivered (leader follower : RaftNode) (file : List UInt8) :
    ¬ ∃ x, Run step (fun _ _ => True) (start leader follower) x ∧ x.Delivered file := by
  rintro ⟨x, hrun, hdelivered⟩
  have hsent := hdelivered.sent
  rw [sent_of_run hrun] at hsent
  exact chunks_ne_nil file hsent.symm

/-! ## A member behind the snapshot -/

/-- A file of one chunk. -/
def smallFile : List UInt8 :=
  [1, 2, 3]

/-- One of two members. -/
def memberOfTwo (memberId : ℕ) : RaftNode :=
  Cluster.freshNode ⟨memberId, [1, 2], nodup_twoMembers, []⟩

/-- A leader that was started from the file, and whose request with the preceding index 10
was rejected. -/
def restoredLeader : RaftNode :=
  { memberOfTwo 1 with
    role := .leader
    hardState := { currentTerm := 2 }
    disk := (memberOfTwo 1).disk.write (.writeAll RaftNode.snapshotTempFileName smallFile)
    snapshotter := { RaftNode.newSnapshotter with snapshotSize := 3 }
    logs := { lastIncludedIndex := 10, lastIncludedTerm := 1 }
    nextIndex := (∅ : UnorderedMap ℕ ℕ).insert 2 10 }

omit [Platform] in
theorem exists_undelivered_snapshot :
    (start restoredLeader (memberOfTwo 2)).Needed smallFile ∧
      ¬ ∃ x, Run (@step plainPlatform) (fun _ _ => True) (start restoredLeader (memberOfTwo 2)) x ∧
        x.Delivered smallFile := by
  refine ⟨⟨rfl, rfl, rfl, 10, by decide, le_rfl⟩, ?_⟩
  rintro ⟨x, hrun, hdelivered⟩
  have hsent : x.sent = [] := @sent_of_run plainPlatform _ _ _ hrun
  have hchunks := hdelivered.sent
  rw [hsent] at hchunks
  exact chunks_ne_nil smallFile hchunks.symm

end Exchange

end Vosfs.Raft
