import Vosfs.Raft.Sending

/-!
# Heartbeat batches

What `heartbeat_loop` sends to a member whose next index is in the leader's log
(`heartbeatBatches`).  The entries of a contiguous log are found by their index, so the
translation of an index into a position cannot be off by one unnoticed: `RaftNode.Batch`
speaks of indexes only.
-/

namespace Vosfs.Raft

namespace RaftLog

/-- The entries stand one after the other behind the snapshot point. -/
def Contiguous (log : RaftLog) : Prop :=
  log.entries.map LogEntry.index = List.range' (log.lastIncludedIndex + 1) log.entries.length

instance {log : RaftLog} : Decidable log.Contiguous :=
  inferInstanceAs (Decidable (_ = _))

variable {log : RaftLog} {index : ℕ}

namespace Contiguous

variable (hlog : log.Contiguous)
include hlog

theorem map_drop (k : ℕ) : (log.entries.drop k).map LogEntry.index =
    List.range' (log.lastIncludedIndex + 1 + k) (log.entries.length - k) := by
  rw [List.map_drop, hlog, List.drop_range', Nat.mul_one]

theorem index_getElem {k : ℕ} (hk : k < log.entries.length) :
    log.entries[k].index = log.lastIncludedIndex + 1 + k := by
  have hget : (log.entries.map LogEntry.index)[k]? = some (log.lastIncludedIndex + 1 + k) := by
    rw [hlog, List.getElem?_range' hk, Nat.one_mul]
  rw [List.getElem?_map, List.getElem?_eq_getElem hk] at hget
  exact Option.some.inj hget

/-- `get_entries` stops after `size` entries or at the end of the log. -/
theorem getEntries (size : ℕ) (hafter : log.lastIncludedIndex < index)
    (hlast : index ≤ log.lastLogIndex) :
    ∃ entries, log.getEntries index size = some entries ∧ entries <:+: log.entries ∧
      entries.map LogEntry.index = List.range' index (min size (log.lastLogIndex - index + 1)) := by
  have hlength : log.entries.length - (index - log.lastIncludedIndex - 1) =
      log.lastLogIndex - index + 1 := by
    unfold RaftLog.lastLogIndex at hlast ⊢
    omega
  have hstart : log.lastIncludedIndex + 1 + (index - log.lastIncludedIndex - 1) = index := by
    omega
  refine ⟨_, if_pos ⟨hafter, hlast⟩, ?_, ?_⟩
  · exact (List.take_prefix _ _).isInfix.trans (List.drop_suffix _ _).isInfix
  · rw [List.map_take, hlog.map_drop, hlength, hstart]
    rcases le_total size (log.lastLogIndex - index + 1) with hle | hge
    · rw [List.take_range'_of_length_ge hle, min_eq_left hle]
    · rw [List.take_range'_of_length_le hge, min_eq_right hge]

theorem getTerm (hbase : log.lastIncludedIndex ≤ index) (hlast : index ≤ log.lastLogIndex) :
    ∃ term, log.getTerm index = some term ∧
      if index = log.lastIncludedIndex then term = log.lastIncludedTerm
      else ∃ entry ∈ log.entries, entry.index = index ∧ entry.term = term := by
  unfold RaftLog.getTerm
  split
  next => exact ⟨_, rfl, rfl⟩
  next hne =>
    have hk : index - log.lastIncludedIndex - 1 < log.entries.length := by
      unfold RaftLog.lastLogIndex at hlast
      omega
    rw [if_pos (by omega), List.getElem?_eq_getElem hk]
    refine ⟨_, rfl, _, List.getElem_mem hk, ?_, rfl⟩
    rw [hlog.index_getElem hk]
    omega

end Contiguous

end RaftLog

namespace RaftNode

variable {env : Env} {node node' : RaftNode} {memberId nextIndex : ℕ}

/-- A request with the batch of entries from `nextIndex` on. -/
structure Batch (node : RaftNode) (nextIndex : ℕ) (request : AppendEntriesRequest) : Prop where
  prevLogIndex : request.prevLogIndex = nextIndex - 1
  prevLogTerm :
    if nextIndex - 1 = node.logs.lastIncludedIndex then
      request.prevLogTerm = node.logs.lastIncludedTerm
    else
      ∃ entry ∈ node.logs.entries, entry.index = nextIndex - 1 ∧ entry.term = request.prevLogTerm
  slice : request.entries <:+: node.logs.entries
  indexes : request.entries.map LogEntry.index =
    List.range' nextIndex (min maxAppendEntriesSize (node.logs.lastLogIndex - nextIndex + 1))

/-- The only packets to `memberId`. -/
def packetsTo (packets : List Packet) (memberId : ℕ) : List Packet :=
  packets.filter (·.dst = memberId)

theorem heartbeatTo_batch (hlog : node.logs.Contiguous) (hother : memberId ≠ node.memberId)
    (hafter : node.logs.lastIncludedIndex < nextIndex)
    (hlast : nextIndex ≤ node.logs.lastLogIndex) :
    ∃ request, node.Batch nextIndex request ∧ node.heartbeatTo env memberId nextIndex =
      .ok (node, [node.send memberId (.appendEntriesRequest request)]) := by
  obtain ⟨entries, hentries, hslice, hindexes⟩ :=
    hlog.getEntries (min maxAppendEntriesSize (node.logs.lastLogIndex - nextIndex + 1))
      hafter hlast
  obtain ⟨prevLogTerm, hterm, hprev⟩ : ∃ prevLogTerm, _ ∧ _ :=
    hlog.getTerm (Nat.le_sub_one_of_lt hafter) ((Nat.sub_le _ _).trans hlast)
  refine ⟨{ term := node.currentTerm, leaderId := node.memberId, prevLogIndex := nextIndex - 1,
            prevLogTerm := prevLogTerm, entries := entries, leaderCommit := node.commitIndex },
    ⟨rfl, hprev, hslice, ?_⟩, ?_⟩
  · rw [hindexes, Nat.min_assoc, min_self]
  · unfold heartbeatTo
    rw [if_neg hother, if_neg (by omega)]
    simp only [if_pos hlast, hentries, hterm]

theorem dst_of_heartbeatTo {packets : List Packet}
    (hbeat : node.heartbeatTo env memberId nextIndex = .ok (node', packets)) :
    ∀ packet ∈ packets, packet.dst = memberId := by
  unfold heartbeatTo at hbeat
  split at hbeat
  next => cases hbeat; simp
  next =>
    split at hbeat
    next => rw [sendSnapshot_sends_nothing hbeat]; simp
    next =>
      simp only at hbeat
      split at hbeat
      next => cases hbeat; simp [send]
      next => cases hbeat

theorem packetsTo_append {sent more : List Packet} :
    packetsTo (sent ++ more) memberId = packetsTo sent memberId ++ packetsTo more memberId :=
  List.filter_append _ _

theorem packetsTo_of_dst_ne {id : ℕ} {packets : List Packet} (hne : id ≠ memberId)
    (hdst : ∀ packet ∈ packets, packet.dst = id) : packetsTo packets memberId = [] := by
  refine List.filter_eq_nil_iff.mpr fun packet hpacket => ?_
  rw [hdst packet hpacket]
  simpa using hne

theorem packetsTo_of_not_mem {targets : List (ℕ × ℕ)} {packets : List Packet}
    (hmember : memberId ∉ targets.map Prod.fst)
    (hbeat : heartbeats env targets node = .ok (node', packets)) :
    packetsTo packets memberId = [] := by
  induction targets generalizing node packets with
  | nil => cases hbeat; rfl
  | cons target rest ih =>
    rw [List.map_cons, List.mem_cons, not_or] at hmember
    obtain ⟨next, sent, more, hto, hmore, rfl⟩ := exists_of_heartbeats hbeat
    have hsent : packetsTo sent memberId = [] :=
      packetsTo_of_dst_ne (Ne.symm hmember.1) (dst_of_heartbeatTo hto)
    rw [packetsTo_append, hsent, ih hmember.2 hmore, List.nil_append]

theorem Batch.of_moves {request : AppendEntriesRequest} (hbatch : node'.Batch nextIndex request)
    (hmoves : MovesSnapshotter node node') : node.Batch nextIndex request := by
  obtain ⟨_, rfl⟩ := hmoves
  exact ⟨hbatch.prevLogIndex, hbatch.prevLogTerm, hbatch.slice, hbatch.indexes⟩

theorem memberId_of_moves (hmoves : MovesSnapshotter node node') :
    node'.memberId = node.memberId := by
  obtain ⟨_, rfl⟩ := hmoves
  rfl

/-- One round: the member's request, and nothing else for it. -/
theorem packetsTo_heartbeats {targets : List (ℕ × ℕ)} {packets : List Packet}
    (hkeys : (targets.map Prod.fst).Nodup) (htarget : (memberId, nextIndex) ∈ targets)
    (hlog : node.logs.Contiguous) (hother : memberId ≠ node.memberId)
    (hafter : node.logs.lastIncludedIndex < nextIndex)
    (hlast : nextIndex ≤ node.logs.lastLogIndex)
    (hbeat : heartbeats env targets node = .ok (node', packets)) :
    ∃ request, node.Batch nextIndex request ∧
      packetsTo packets memberId = [node.send memberId (.appendEntriesRequest request)] := by
  induction targets generalizing node packets with
  | nil => cases htarget
  | cons target rest ih =>
    rw [List.map_cons, List.nodup_cons] at hkeys
    obtain ⟨next, sent, more, hto, hmore, rfl⟩ := exists_of_heartbeats hbeat
    rcases List.mem_cons.mp htarget with rfl | hrest
    · obtain ⟨request, hbatch, hbatchTo⟩ := @heartbeatTo_batch env _ _ _ hlog hother hafter hlast
      rw [hto] at hbatchTo
      cases hbatchTo
      refine ⟨request, hbatch, ?_⟩
      rw [packetsTo_append, packetsTo_of_not_mem hkeys.1 hmore]
      simp [packetsTo, send]
    · have hne : target.1 ≠ memberId := by
        intro heq
        rw [heq] at hkeys
        exact hkeys.1 (List.mem_map_of_mem hrest)
      have hsent : packetsTo sent memberId = [] :=
        packetsTo_of_dst_ne hne (dst_of_heartbeatTo hto)
      -- only the snapshotter may have changed for the members after this one
      have hmoves : MovesSnapshotter node next := moves_of_heartbeatTo hto
      obtain ⟨request, hbatch, hpackets⟩ : ∃ request, next.Batch nextIndex request ∧
          packetsTo more memberId = [next.send memberId (.appendEntriesRequest request)] := by
        obtain ⟨snapshotter, rfl⟩ := hmoves
        exact ih hkeys.2 hrest hlog hother hafter hlast hmore
      refine ⟨request, hbatch.of_moves hmoves, ?_⟩
      calc packetsTo (sent ++ more) memberId
          = [next.send memberId (.appendEntriesRequest request)] := by
            rw [packetsTo_append, hsent, hpackets, List.nil_append]
        _ = [node.send memberId (.appendEntriesRequest request)] := by
            unfold send
            rw [memberId_of_moves hmoves]

theorem keys_pairs (targets : UnorderedMap ℕ ℕ) : targets.pairs.map Prod.fst = targets.keys := by
  unfold UnorderedMap.pairs
  rw [List.map_map]
  rfl

/-- **Heartbeat batches are exact slices of the leader's log**: the request to a member is
a batch from its next index on, and a round sends the member exactly that. -/
theorem heartbeatBatches (hrole : node.role = .leader) (hlog : node.logs.Contiguous)
    (hother : memberId ≠ node.memberId) (hnext : node.nextIndex.lookup memberId = some nextIndex)
    (hafter : node.logs.lastIncludedIndex < nextIndex)
    (hlast : nextIndex ≤ node.logs.lastLogIndex) :
    (∃ request, node.Batch nextIndex request ∧ node.heartbeatTo env memberId nextIndex =
      .ok (node, [node.send memberId (.appendEntriesRequest request)])) ∧
    ∀ node' packets, node.heartbeatLoop env = .ok (node', packets) →
      ∃ request, node.Batch nextIndex request ∧
        packetsTo packets memberId = [node.send memberId (.appendEntriesRequest request)] := by
  refine ⟨heartbeatTo_batch hlog hother hafter hlast, fun node' packets hbeat => ?_⟩
  rw [heartbeatLoop, if_neg (not_not.mpr hrole)] at hbeat
  have hkeys : (node.nextIndex.pairs.map Prod.fst).Nodup := by
    rw [keys_pairs]
    exact AList.keys_nodup _
  exact packetsTo_heartbeats hkeys (UnorderedMap.mem_pairs.mpr hnext) hlog hother hafter hlast hbeat

/-- The leader of two, with a snapshot up to index 5 and three entries behind it. -/
def leaderAtFive : RaftNode where
  snapshotter := newSnapshotter
  stateMachine := StateMachine.create []
  disk := {}
  logs :=
    { lastIncludedIndex := 5
      lastIncludedTerm := 1
      entries := [{ term := 2, index := 6 }, { term := 2, index := 7 }, { term := 3, index := 8 }] }
  transport := ⟨1, [1, 2], nodup_twoMembers⟩
  hardState := { currentTerm := 3 }
  role := .leader
  nextIndex := ((∅ : UnorderedMap ℕ ℕ).insert 1 9).insert 2 6

/-- The first batch behind the snapshot, and the heartbeat that sends it. -/
theorem heartbeatBatches_afterSnapshot :
    leaderAtFive.logs.Contiguous ∧
      (∃ request, leaderAtFive.Batch 6 request ∧ leaderAtFive.heartbeatTo {} 2 6 =
        .ok (leaderAtFive, [leaderAtFive.send 2 (.appendEntriesRequest request)])) ∧
      ∃ packets, leaderAtFive.heartbeatLoop {} = .ok (leaderAtFive, packets) ∧
        ∃ request, leaderAtFive.Batch 6 request ∧
          packetsTo packets 2 = [leaderAtFive.send 2 (.appendEntriesRequest request)] := by
  obtain ⟨hbatch, hbeat⟩ := @heartbeatBatches {} leaderAtFive 2 6 rfl (by decide) (by decide)
    (by decide) (by decide) (by decide)
  exact ⟨by decide, hbatch, _, rfl, hbeat _ _ rfl⟩

end RaftNode

end Vosfs.Raft
