import Vosfs.Raft.Conditions
import Vosfs.Raft.Voting

/-!
# Replication in the history

The stages of the handlers that move entries: a leader appends a client's command,
a follower stores a slice of the leader's log, and a leader records what a member
reports.  `Sim.storeEntries` is where a follower must neither append what it already
holds nor, at level 2, report more than it verified.
-/

namespace Vosfs.Raft

open Consensus Function

variable {level : ℕ} {members : Finset ℕ} {h h' : History ℕ LogEntry} {network : List Packet}
  {node : ℕ → RaftNode} {id : ℕ} {raft raft' : RaftNode} {env : Env}

/-! ## Steps the history does not record -/

/-- Agreement on everything the history is about. -/
structure Unchanged (raft raft' : RaftNode) : Prop where
  transport : raft'.transport = raft.transport
  logs : raft'.logs = raft.logs
  snapshotData : raft'.snapshotData = raft.snapshotData
  hardState : raft'.hardState = raft.hardState
  role : raft'.role = raft.role
  votes : raft'.votes = raft.votes
  matchIndex : raft'.matchIndex = raft.matchIndex
  commitIndex : raft'.commitIndex = raft.commitIndex
  applied : raft'.applied = raft.applied
  led : raft'.led = raft.led

theorem NodeSim.unchanged (hn : NodeSim level members h id raft) (hu : Unchanged raft raft') :
    NodeSim level members h id raft' := by
  have hterm : raft'.currentTerm = raft.currentTerm := by
    rw [RaftNode.currentTerm, hu.hardState, RaftNode.currentTerm]
  refine ⟨?_, fun hlevel => ?_, fun hlevel => ?_, fun hlevel => ?_⟩
  · have hv := hn.votes
    constructor
    · rw [RaftNode.memberId, hu.transport]; exact hv.memberId
    · rw [hu.transport]; exact hv.peers
    · rw [hu.logs]; exact hv.fromStart
    · rw [hu.snapshotData]; exact hv.snapshotData
    · rw [hterm]; exact hv.term
    · rw [hu.role, hterm]; exact hv.leader
    · rw [hu.role, hterm]; exact hv.not_leader
    · rw [hu.role, hterm, hu.hardState]; exact hv.voted
    · rw [hu.role, hterm]; exact hv.candidate
    · rw [hu.led]; exact hv.led
  · have hl := hn.log hlevel
    constructor
    · rw [hu.logs]; exact hl.log
    · rw [hu.role, hterm, hu.logs]; exact hl.stood
  · have hm := hn.matchIndex hlevel
    constructor
    · rw [hu.matchIndex]; exact hm.keys
    · rw [hu.role, hu.matchIndex]; exact hm.complete
    · rw [hu.role, hu.matchIndex]; exact hm.self
    · rw [hu.role, hu.matchIndex, hterm]; exact hm.confirmed
  · have hc := hn.commit hlevel
    constructor
    · rw [hterm, hu.commitIndex]; exact hc.commit
    · rw [hu.applied]; exact hc.applied

theorem Sim.unchanged (hs : Sim level members (update node id raft) network h) (hid : id ∈ members)
    (hu : Unchanged raft raft') : Sim level members (update node id raft') network h := by
  refine hs.keep hid ((hs.nodeSim hid).unchanged hu) fun hrole => ?_
  refine ⟨hu.role ▸ hrole, hu.votes.le, ?_⟩
  rw [RaftNode.currentTerm, hu.hardState, RaftNode.currentTerm]

/-! ## Appending a command -/

theorem Sim.appendCommand (hs : Sim level members (update node id raft) network h)
    (hid : id ∈ members) (hrole : raft.role = .leader) (command : EntryCommand)
    (response : PendingResponse) :
    ∃ h', Grows h h' ∧
      Sim level members (update node id (raft.appendCommand command response)) network h' := by
  have hn := hs.nodeSim hid
  have hvotes : NodeVotes members h id (raft.appendCommand command response) :=
    { memberId := hn.votes.memberId
      peers := hn.votes.peers
      fromStart := ⟨hn.votes.fromStart.index, hn.votes.fromStart.term⟩
      snapshotData := hn.votes.snapshotData
      term := hn.votes.term
      leader := hn.votes.leader
      not_leader := hn.votes.not_leader
      voted := hn.votes.voted
      candidate := hn.votes.candidate
      led := hn.votes.led }
  rcases Nat.eq_zero_or_pos level with rfl | hlevel
  · refine ⟨h, Grows.refl, hs.keep hid ⟨hvotes, ?_, ?_, ?_⟩ fun hcand => ?_⟩
    · intro hlevel; omega
    · intro hlevel; omega
    · intro hlevel; omega
    · rw [show (raft.appendCommand command response).role = raft.role from rfl, hrole] at hcand
      cases hcand
  · let entry : LogEntry := ⟨raft.currentTerm, raft.logs.lastLogIndex + 1, some command⟩
    have hl := hn.votes.leader hrole
    have hr := hs.replicated hlevel
    have hlog := (hn.log hlevel).log
    have hlead : h.log id = h.leaderLog raft.currentTerm := hr.matching.leading hl hn.votes.term
    have hg : Grows h (h.append id raft.currentTerm entry) :=
      Grows.append hr.matching hr.acks hl hn.votes.term
    refine ⟨_, hg, hs.change hg (fun other hne => SameAt.append hne _ _)
      (hs.election.append _ _ _) (fun _ => hr.append hl hn.votes.term rfl) (fun _ T => ?_)
      (fun hthree => Inherited.append (hs.inherited hthree) hs.election hr.acks _ hn.votes.term)
      ?_ fun hcand => ?_⟩
    · by_cases hT : T = raft.currentTerm
      · subst hT
        simp only [History.append, update_self]
        intro k e he
        rw [List.getElem?_append] at he
        split at he
        next => exact hs.numbered hlevel _ k e he
        next hk =>
          rw [List.getElem?_singleton] at he
          split at he
          next hzero =>
            cases he
            have hlen : raft.logs.lastLogIndex = (h.leaderLog raft.currentTerm).length := by
              rw [hn.votes.fromStart.lastLogIndex, ← hlog, hlead]
            show raft.logs.lastLogIndex + 1 = k + 1
            omega
          next => cases he
      · simp only [History.append, update_of_ne hT]
        exact hs.numbered hlevel T
    · refine ⟨?_, fun _ => ⟨?_, fun hcand => ?_⟩, fun htwo => ?_, fun hthree => ?_⟩
      · exact ⟨hvotes.memberId, hvotes.peers, hvotes.fromStart, hvotes.snapshotData,
          hvotes.term, hvotes.leader, hvotes.not_leader, hvotes.voted, hvotes.candidate,
          hvotes.led⟩
      · exact (update_self ..).trans (by rw [hlog]; rfl)
      · rw [show (raft.appendCommand command response).role = raft.role from rfl, hrole] at hcand
        cases hcand
      · have hm := hn.matchIndex htwo
        exact ⟨hm.keys, hm.complete, hm.self, fun hlead peer index hindex =>
          (hm.confirmed hlead peer index hindex).trans (hg.acked hl peer)⟩
      · have hc := (hn.commit hthree).grow hg hr.matching
        exact ⟨hc.commit, hc.applied⟩
    · rw [show (raft.appendCommand command response).role = raft.role from rfl, hrole] at hcand
      cases hcand

/-! ## Storing a slice of the leader's log -/

/-- What a follower has after it stored a slice: the entries `L`, of which the first
`k` are now confirmed. -/
theorem merge_of_store (hr : Replicated h) (hnumbered : ∀ T, Numbered (h.leaderLog T))
    {T prev : ℕ} {front entries : List LogEntry} (hstart : raft.logs.FromStart)
    (hlog : h.log id = raft.logs.entries)
    (hslice : front ++ entries <+: h.leaderLog T) (hfront : front.length = prev)
    (hprev : prev ≤ raft.logs.entries.length)
    (hterm : raft.logs.getTerm prev = some (lastTerm front))
    (hnew : ∀ entry ∈ entries.head?, raft.logs.getTerm (prev + 1) ≠ some entry.term)
    (hstore : raft.storeEntries entries = .ok raft') :
    ∃ k, Merge (h.log id) raft'.logs.entries (h.leaderLog T) k ∧
      (raft'.logs.entries <+: h.leaderLog T → raft'.logs.entries.length ≤ k) ∧
      (entries ≠ [] → raft'.logs.entries <+: h.leaderLog T) ∧
      raft.logs.entries.take prev <+: h.leaderLog T := by
  have hfrontpre : front <+: h.leaderLog T := (List.prefix_append _ _).trans hslice
  -- the follower's log agrees with the leader's up to `prev`
  have hagree : raft.logs.entries.take prev = front := by
    rw [hstart.getTerm_eq_lastTerm hprev] at hterm
    have hbacked : h.Backed raft.logs.entries := hlog ▸ hr.matching.backed_log id
    have hbacked' : h.Backed front := (hr.matching.backed_leader T).of_isPrefix hfrontpre
    have htake := hbacked.take_eq_of_lastTerm hbacked' hprev hfront.ge
      (by rw [Option.some.inj hterm, ← hfront, List.take_length])
    rw [htake, ← hfront, List.take_length]
  cases entries with
  | nil =>
    obtain rfl : raft = raft' := by
      rw [RaftNode.storeEntries_nil] at hstore
      exact Except.ok.inj hstore
    rw [hlog]
    by_cases hpre : raft.logs.entries <+: h.leaderLog T
    · refine ⟨raft.logs.entries.length, ⟨hpre.length_le, Or.inl ⟨rfl, ?_⟩⟩, fun _ => le_rfl,
        fun hne => absurd rfl hne, hagree ▸ hfrontpre⟩
      rw [← List.prefix_iff_eq_take.mp hpre]
    · refine ⟨prev, ⟨?_, Or.inl ⟨rfl, ?_⟩⟩, fun habs => absurd habs hpre,
        fun hne => absurd rfl hne, hagree ▸ hfrontpre⟩
      · rw [← hfront]
        exact hfrontpre.length_le
      · rw [← hfront, ← List.prefix_iff_eq_take.mp hfrontpre, ← hagree]
        exact List.take_prefix _ _
  | cons first rest =>
    have hfirst : (h.leaderLog T)[prev]? = some first := by
      rw [List.prefix_iff_getElem?.mp hslice prev (by simp [hfront])]
      simp [List.getElem_append_right, hfront]
    obtain ⟨disk, hok⟩ := RaftNode.storeEntries_of_new hstart hprev
      (hnumbered T prev first hfirst) (hnew first rfl)
    rw [hok] at hstore
    cases hstore
    simp only [hagree]
    refine ⟨(front ++ first :: rest).length, ⟨hslice.length_le, Or.inr ⟨?_, ?_⟩⟩, fun _ => le_rfl,
      fun _ => hslice, hfrontpre⟩
    · exact List.prefix_iff_eq_take.mp hslice
    · -- the old log does not go on with the first entry
      rw [← List.prefix_iff_eq_take.mp hslice, hlog]
      intro hpre
      have hget := List.prefix_iff_getElem?.mp hpre prev (by simp [hfront])
      refine hnew first rfl ?_
      rw [hstart.getTerm, hget]
      simp [List.getElem_append_right, hfront]

/-- A follower stores what a leader sent.  At level 2 its whole log is then the
leader's, and confirmed. -/
theorem Sim.storeEntries (hs : Sim level members (update node id raft) network h)
    (hid : id ∈ members) {src : ℕ} {request : AppendEntriesRequest}
    (hrequest : AppendRequestSim level members h src request) (hne : src ≠ id)
    (hterm : raft.currentTerm = request.term) (hok : raft.LogOk request)
    (honce : 1 ≤ level → raft.AppendsOnce request)
    (hverified : 2 ≤ level → raft.ReportsVerified request)
    (hstore : raft.storeEntries request.entries = .ok raft') :
    ∃ h', Grows h h' ∧ Sim level members (update node id raft') network h' ∧
      (2 ≤ level → raft'.logs.entries <+: h'.leaderLog request.term ∧
        raft'.logs.entries.length ≤ h'.acked request.term id) := by
  have hn := hs.nodeSim hid
  have hfollows : raft.role ≠ .leader := by
    intro hrole
    have hl := hn.votes.leader hrole
    rw [hterm, hrequest.leader] at hl
    exact hne (Option.some.inj hl)
  obtain ⟨disk, stored, rfl⟩ := RaftNode.storeEntries_shape hstore
  have hvotes := hn.votes
  rcases Nat.eq_zero_or_pos level with rfl | hlevel
  · -- without logs to follow, the history stays as it is
    refine ⟨h, Grows.refl, hs.keep hid ⟨?_, fun hlevel => ?_, fun hlevel => ?_, fun hlevel => ?_⟩
      fun hcand => ⟨hcand, le_rfl, rfl⟩, fun hlevel => ?_⟩
    · exact ⟨hvotes.memberId, hvotes.peers, ⟨hvotes.fromStart.index, hvotes.fromStart.term⟩,
        hvotes.snapshotData, hvotes.term, hvotes.leader, hvotes.not_leader, hvotes.voted,
        hvotes.candidate, hvotes.led⟩
    all_goals omega
  · have hr := hs.replicated hlevel
    have hlog := (hn.log hlevel).log
    have hstart := hvotes.fromStart
    have haccepts : raft.Accepts request := ⟨hterm.le, hok⟩
    obtain ⟨hprev, -, hprevTerm⟩ := hok
    rw [hstart.lastLogIndex] at hprev
    obtain ⟨front, hslice, hfront, hlast⟩ := hrequest.slice hlevel
    obtain ⟨k, hmerge, hk, hfull, hagree⟩ := merge_of_store hr (hs.numbered hlevel) hstart hlog
      hslice hfront hprev (hlast ▸ hprevTerm) (honce hlevel haccepts) hstore
    have hg : Grows h (h.accept id request.term stored k) := Grows.accept stored k
    refine ⟨_, hg, hs.change hg (fun other hother => SameAt.accept hother _ _ _)
      (hs.election.accept _ _ _ _)
      (fun _ => hr.accept hrequest.leader hne.symm (hvotes.term.trans hterm) hmerge)
      hs.numbered
      (fun hthree => Inherited.accept (hs.inherited hthree) hs.election _ _
        (hvotes.term.trans hterm)) ?_ fun hcand => ?_, fun htwo => ?_⟩
    · refine ⟨?_, fun _ => ⟨update_self .., fun _ hnone => ?_⟩, fun htwo => ?_, fun hthree => ?_⟩
      · exact ⟨hvotes.memberId, hvotes.peers, ⟨hstart.index, hstart.term⟩,
          hvotes.snapshotData, hvotes.term, hvotes.leader, hvotes.not_leader, hvotes.voted,
          hvotes.candidate, hvotes.led⟩
      · -- a leader exists, so nobody stands for election in this term any more
        have hl : h.leader raft.currentTerm = none := hnone
        rw [hterm, hrequest.leader] at hl
        cases hl
      · exact ⟨(hn.matchIndex htwo).keys, fun hrole => absurd hrole hfollows,
          fun hrole => absurd hrole hfollows, fun hrole => absurd hrole hfollows⟩
      · have hc := (hn.commit hthree).grow hg hr.matching
        exact ⟨hc.commit, hc.applied⟩
    · have hcounted := hs.ballots.votes_le id hid
      rw [update_self] at hcounted
      exact (hcounted hcand).trans
        (Finset.card_le_card (heard_subset_heard (fun hv => hv) fun _ => le_rfl))
    · -- at this level nothing is left that the leader did not check
      have hpre : stored <+: h.leaderLog request.term := by
        by_cases hempty : request.entries = []
        · rw [hempty, RaftNode.storeEntries_nil] at hstore
          obtain rfl : raft.logs.entries = stored :=
            congrArg (fun r : RaftNode => r.logs.entries) (Except.ok.inj hstore)
          rcases hverified htwo haccepts hempty with heq | hown
          · rwa [heq, hstart.lastLogIndex, List.take_length] at hagree
          · rw [hstart.lastLogTerm, ← hlog] at hown
            rw [← hlog]
            by_cases hnil : h.log id = []
            · rw [hnil]
              exact List.nil_prefix
            · exact hown ▸ (hr.matching.backed_log id).prefix_lastTerm hnil
        · exact hfull hempty
      refine ⟨hpre, (hk hpre).trans ?_⟩
      simp [History.accept]

end Vosfs.Raft
