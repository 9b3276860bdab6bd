import Vosfs.Consensus.Quorum
import Vosfs.Raft.Replicating

/-!
# Commitment in the history

A leader commits the quorum index of the indices it recorded.  At level 3 the
recorded indices are confirmations, so a majority confirmed the leader's log up to
there (`Sim.chosen_of_quorum`), and followers that commit what they are told commit
a part of it.
-/

namespace Vosfs.Raft

open Consensus Function

variable {level : ℕ} {members : Finset ℕ} {h h' : History ℕ LogEntry} {network : List Packet}
  {node : ℕ → RaftNode} {id : ℕ} {raft raft' : RaftNode} {env : Env}

/-! ## The quorum index -/

section QuorumIndex

variable {matchIndex : UnorderedMap ℕ ℕ}

/-- The element in the middle of the sorted list is there. -/
theorem exists_quorumIndex_eq (hne : 0 < matchIndex.values.length) :
    ∃ k, ∃ hk : k < (matchIndex.values.insertionSort (· ≤ ·)).length,
      k = matchIndex.values.length / 2 ∧
        RaftNode.quorumIndex matchIndex = (matchIndex.values.insertionSort (· ≤ ·))[k] := by
  have hlen := List.length_insertionSort (· ≤ ·) matchIndex.values
  have hlt : matchIndex.values.length / 2 <
      (matchIndex.values.insertionSort (· ≤ ·)).length := by omega
  refine ⟨_, hlt, rfl, ?_⟩
  unfold RaftNode.quorumIndex
  simp only [hlen, List.getD_eq_getElem?_getD, List.getElem?_eq_getElem hlt, Option.getD_some]

/-- The quorum index is the greatest index that enough members reached. -/
theorem reached_iff (hne : 0 < matchIndex.values.length) {index : ℕ} :
    RaftNode.Reached matchIndex index ↔ index ≤ RaftNode.quorumIndex matchIndex := by
  obtain ⟨k, hk, rfl, heq⟩ := exists_quorumIndex_eq hne
  rw [heq, le_getElem_iff (List.pairwise_insertionSort (· ≤ ·) _) hk,
    (List.perm_insertionSort (· ≤ ·) _).countP_eq, List.length_insertionSort]
  rfl

theorem quorumIndex_mem (hne : 0 < matchIndex.values.length) :
    RaftNode.quorumIndex matchIndex ∈ matchIndex.values := by
  obtain ⟨k, hk, -, heq⟩ := exists_quorumIndex_eq hne
  rw [heq]
  exact (List.mem_insertionSort _).mp (List.getElem_mem hk)

end QuorumIndex

/-- The members recorded at an index that enough of them reached, with the leader,
are a majority. -/
theorem majority_of_reached {matchIndex : UnorderedMap ℕ ℕ}
    (hkeys : ∀ peer, peer ∈ matchIndex ↔ peer ∈ members) (hid : id ∈ members)
    (hself : matchIndex.lookup id = some 0) {index : ℕ} (hpos : 0 < index)
    (hreached : RaftNode.Reached matchIndex index) :
    Majority members (insert id
      (members.filter fun peer => (matchIndex.lookup peer).any (index ≤ ·))) := by
  have hset : matchIndex.keys.toFinset = members := by
    ext peer
    rw [List.mem_toFinset, ← hkeys peer, AList.mem_keys]
  have hnot : id ∉ members.filter fun peer => (matchIndex.lookup peer).any (index ≤ ·) := by
    rw [Finset.mem_filter, hself]
    simp [hpos.ne']
  have hcount := UnorderedMap.countP_values matchIndex fun recorded => decide (index ≤ recorded)
  rw [RaftNode.Reached, hcount, UnorderedMap.length_values, hset] at hreached
  have hmembers : 0 < members.card := Finset.card_pos.mpr ⟨id, hid⟩
  refine ⟨Finset.insert_subset hid (Finset.filter_subset _ _), ?_⟩
  rw [Finset.card_insert_of_notMem hnot]
  omega

/-- **What a leader commits, a majority confirmed.** -/
theorem Sim.chosen_of_quorum (hs : Sim level members (update node id raft) network h)
    (hid : id ∈ members) (hlevel : 2 ≤ level) (hrole : raft.role = .leader)
    (hown : raft.QuorumOwnTerm)
    (hadvance : raft.commitIndex < RaftNode.quorumIndex raft.matchIndex) :
    raft.logs.getTerm (RaftNode.quorumIndex raft.matchIndex) = some raft.currentTerm ∧
      h.Chosen members raft.currentTerm (RaftNode.quorumIndex raft.matchIndex - 1) := by
  have hn := hs.nodeSim hid
  have hm := hn.matchIndex hlevel
  have hr := hs.replicated (by omega)
  have hl := hn.votes.leader hrole
  have hkeys : ∀ peer, peer ∈ raft.matchIndex ↔ peer ∈ members := fun peer =>
    ⟨hm.keys peer, hm.complete hrole peer⟩
  have hne : 0 < raft.matchIndex.values.length := by
    rw [UnorderedMap.length_values, Finset.card_pos]
    exact ⟨id, List.mem_toFinset.mpr (AList.mem_keys.mp ((hkeys id).mpr hid))⟩
  -- the index the condition speaks of is the quorum index itself
  obtain ⟨own, -, hle, hreached, hterm⟩ := hown _ (quorumIndex_mem hne) hadvance
    ((reached_iff hne).mpr le_rfl)
  obtain rfl : own = RaftNode.quorumIndex raft.matchIndex :=
    le_antisymm ((reached_iff hne).mp hreached) hle
  refine ⟨hterm, ?_⟩
  obtain ⟨k, hk⟩ : ∃ k, RaftNode.quorumIndex raft.matchIndex = k + 1 :=
    ⟨_, (Nat.succ_pred_eq_of_pos (by omega)).symm⟩
  rw [hk] at hreached hterm ⊢
  have hlog : raft.logs.entries = h.leaderLog raft.currentTerm :=
    (hn.log (by omega)).log.symm.trans (hr.matching.leading hl hn.votes.term)
  rw [hn.votes.fromStart.getTerm, hlog] at hterm
  obtain ⟨entry, hentry, hentryTerm⟩ := Option.map_eq_some_iff.mp hterm
  refine ⟨⟨entry, hentry, hentryTerm⟩, _,
    majority_of_reached hkeys hid (hm.self hrole) (Nat.succ_pos k) hreached, ?_⟩
  intro peer hpeer
  rcases Finset.mem_insert.mp hpeer with rfl | hpeer
  · rw [hr.acks.own hl]
    exact (List.getElem?_eq_some_iff.mp hentry).1
  · obtain ⟨recorded, hlookup, hge⟩ := Option.any_eq_true .. |>.mp (Finset.mem_filter.mp hpeer).2
    exact (Nat.lt_of_succ_le (of_decide_eq_true hge)).trans_le
      (hm.confirmed hrole peer recorded hlookup)

/-! ## Applying -/

theorem Covered.mono {T c c' : ℕ} (hcov : Covered members h T c) (hle : c' ≤ c) :
    Covered members h T c' := by
  rcases hcov with rfl | ⟨T', hT, i, hchosen, hc⟩
  · exact Or.inl (Nat.le_zero.mp hle)
  · exact Or.inr ⟨T', hT, i, hchosen, hle.trans hc⟩

variable [Platform]

/-- A node applies its log up to a commit index that is covered. -/
theorem Sim.applyEntry (hs : Sim level members (update node id raft) network h)
    (hid : id ∈ members) {c : ℕ}
    (hcov : 3 ≤ level → Covered members h raft.currentTerm c)
    (hentries : 3 ≤ level → ∀ index entry, 0 < index → index ≤ c →
      raft.logs.getEntry index = some entry → ∃ T i, h.Chosen members T i ∧ index ≤ i + 1 ∧
        (h.leaderLog T)[index - 1]? = some entry)
    (happly : { raft with commitIndex := c }.applyEntry env = .ok raft') :
    Sim level members (update node id raft') network h := by
  have hn := hs.nodeSim hid
  have hstart : ({ raft with commitIndex := c } : RaftNode).logs.FromStart := hn.votes.fromStart
  obtain ⟨positions, ⟨stateMachine, disk, snapshotter, rfl⟩, hpos⟩ :=
    RaftNode.applyEntry_spec hstart happly
  refine hs.keep hid ⟨?_, fun hlevel => ?_, fun hlevel => ?_, fun hlevel => ?_⟩
    fun hrole => ⟨hrole, le_rfl, rfl⟩
  · exact ⟨hn.votes.memberId, hn.votes.peers, hn.votes.fromStart, hn.votes.snapshotData,
      hn.votes.term, hn.votes.leader, hn.votes.not_leader, hn.votes.voted, hn.votes.candidate,
      hn.votes.led⟩
  · exact ⟨(hn.log hlevel).log, (hn.log hlevel).stood⟩
  · exact ⟨(hn.matchIndex hlevel).keys, (hn.matchIndex hlevel).complete,
      (hn.matchIndex hlevel).self, (hn.matchIndex hlevel).confirmed⟩
  · refine ⟨hcov hlevel, fun index entry hmem => ?_⟩
    rcases List.mem_append.mp hmem with hold | hnew
    · exact (hn.commit hlevel).applied index entry hold
    · obtain ⟨hlt, hle, hget⟩ := hpos _ hnew
      obtain ⟨T, i, hchosen, hi, hentry⟩ := hentries hlevel index entry hlt hle hget
      exact ⟨T, i, hchosen, hlt, hi, hentry⟩

omit [Platform] in
/-- What is covered in a term is the log of that term's leader. -/
theorem exists_chosen_of_covered (hinherited : Inherited h) (hel : Election members h)
    (hr : Replicated h) {T c : ℕ} {l : ℕ} (hl : h.leader T = some l)
    (hcov : Covered members h T c) (hstart : raft.logs.FromStart)
    (hpre : raft.logs.entries <+: h.leaderLog T) (index : ℕ) (entry : LogEntry)
    (hpos : 0 < index) (hle : index ≤ c) (hget : raft.logs.getEntry index = some entry) :
    ∃ T' i, h.Chosen members T' i ∧ index ≤ i + 1 ∧
      (h.leaderLog T')[index - 1]? = some entry := by
  rcases hcov with rfl | ⟨T', hT, i, hchosen, hc⟩
  · omega
  · obtain ⟨k, rfl⟩ : ∃ k, index = k + 1 := ⟨index - 1, by omega⟩
    refine ⟨T', i, hchosen, hle.trans hc, ?_⟩
    rw [hstart.getEntry] at hget
    obtain ⟨hk, rfl⟩ := List.getElem?_eq_some_iff.mp hget
    have hlead := List.prefix_iff_getElem?.mp hpre k hk
    -- the leader of `T` has the confirmed entries at the same places
    have hup := Inherited.leaderLog_prefix hinherited hel hr.matching hchosen hT hl
    have hlen : k < (h.upTo T' i).length := by
      rw [History.length_upTo hchosen.1.lt_length]
      omega
    rw [Nat.add_sub_cancel, ← hlead, List.prefix_iff_getElem?.mp hup k hlen,
      ← List.getElem?_eq_getElem hlen, History.upTo, List.getElem?_take_of_lt (by omega)]

theorem Sim.followCommit (hs : Sim level members (update node id raft) network h)
    (hid : id ∈ members) {src : ℕ} {request : AppendEntriesRequest}
    (hrequest : AppendRequestSim level members h src request)
    (hterm : raft.currentTerm = request.term)
    (hpre : 2 ≤ level → raft.logs.entries <+: h.leaderLog request.term)
    (hfollow : raft.followCommit env request.leaderCommit = .ok raft') :
    Sim level members (update node id raft') network h := by
  have hn := hs.nodeSim hid
  unfold RaftNode.followCommit at hfollow
  split at hfollow
  next =>
    have hcov : 3 ≤ level → Covered members h request.term
        (min raft.logs.lastLogIndex request.leaderCommit) := fun hlevel =>
      (hrequest.commit hlevel).mono (Nat.min_le_right _ _)
    refine hs.applyEntry hid (fun hlevel => hterm ▸ hcov hlevel) (fun hlevel => ?_) hfollow
    exact exists_chosen_of_covered (hs.inherited hlevel) hs.election
      (hs.replicated (by omega)) hrequest.leader (hcov hlevel) hn.votes.fromStart
      (hpre (by omega))
  next => cases hfollow; exact hs

omit [Platform] in
theorem Sim.recordMatch (hs : Sim level members (update node id raft) network h)
    (hid : id ∈ members) {src : ℕ} {response : AppendEntriesResponse}
    (hresponse : AppendResponseSim level h src response) (hsrc : src ∈ members) (hne : src ≠ id)
    (hterm : response.term = raft.currentTerm) (hsuccess : response.success = true) :
    Sim level members (update node id (raft.recordMatch response.id response.lastLogIndex))
      network h := by
  have hn := hs.nodeSim hid
  have hlookup : ∀ peer,
      (raft.recordMatch response.id response.lastLogIndex).matchIndex.lookup peer =
        if peer = src then some response.lastLogIndex else raft.matchIndex.lookup peer := by
    intro peer
    rw [← hresponse.id]
    exact UnorderedMap.lookup_insert_eq _ _ _ _
  refine hs.keep hid ⟨?_, fun hlevel => ?_, fun hlevel => ?_, fun hlevel => ?_⟩
    fun hrole => ⟨hrole, le_rfl, rfl⟩
  · exact ⟨hn.votes.memberId, hn.votes.peers, hn.votes.fromStart, hn.votes.snapshotData,
      hn.votes.term, hn.votes.leader, hn.votes.not_leader, hn.votes.voted, hn.votes.candidate,
      hn.votes.led⟩
  · exact ⟨(hn.log hlevel).log, (hn.log hlevel).stood⟩
  · have hm := hn.matchIndex hlevel
    constructor
    · intro peer hpeer
      rw [UnorderedMap.mem_iff_lookup, hlookup] at hpeer
      split at hpeer
      next heq => exact heq ▸ hsrc
      next => exact hm.keys peer (UnorderedMap.mem_iff_lookup.mpr hpeer)
    · intro hrole peer hpeer
      rw [UnorderedMap.mem_iff_lookup, hlookup]
      split
      next => exact ⟨_, rfl⟩
      next => exact UnorderedMap.mem_iff_lookup.mp (hm.complete hrole peer hpeer)
    · intro hrole
      rw [hlookup, if_neg hne.symm]
      exact hm.self hrole
    · intro hrole peer index hindex
      rw [hlookup] at hindex
      split at hindex
      next heq =>
        cases hindex
        have hconfirmed := (hresponse.confirmed hlevel hsuccess).2
        rwa [hterm, ← heq] at hconfirmed
      next => exact hm.confirmed hrole peer index hindex
  · exact ⟨(hn.commit hlevel).commit, (hn.commit hlevel).applied⟩

theorem Sim.advanceCommit (hs : Sim level members (update node id raft) network h)
    (hid : id ∈ members) (hrole : raft.role = .leader) (hown : 3 ≤ level → raft.QuorumOwnTerm)
    (hadvance : raft.advanceCommit env = .ok raft') :
    Sim level members (update node id raft') network h := by
  have hn := hs.nodeSim hid
  unfold RaftNode.advanceCommit at hadvance
  split at hadvance
  next hlt =>
    have hcov : 3 ≤ level → Covered members h raft.currentTerm
        (RaftNode.quorumIndex raft.matchIndex) := fun hlevel =>
      Or.inr ⟨_, le_rfl, _, (hs.chosen_of_quorum hid (by omega) hrole (hown hlevel) hlt).2,
        by omega⟩
    refine hs.applyEntry hid hcov (fun hlevel => ?_) hadvance
    have hr := hs.replicated (by omega)
    have hl := hn.votes.leader hrole
    have hlead := hr.matching.leading hl hn.votes.term
    rw [(hn.log (by omega)).log] at hlead
    exact exists_chosen_of_covered (hs.inherited hlevel) hs.election hr hl (hcov hlevel)
      hn.votes.fromStart (hlead ▸ List.prefix_rfl)
  next => cases hadvance; exact hs

end Vosfs.Raft
