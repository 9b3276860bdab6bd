import Vosfs.Raft.ElectionSafety

/-!
# Logs agree, and the leader knows how far

In a run whose steps append entries only once, a log's entries stand where their
index says, and two logs with entries of one term at one position agree up to it
(`logMatching`).  If followers also report nothing that was not checked, a leader's
match index is true (`matchTruthful`).

A heartbeat repeats what was not confirmed yet, and the follower appends all of it
again: `exists_log_mismatch` and `exists_false_match` are the resulting states.
-/

namespace Vosfs.Raft

open Consensus Function

variable {c c' : Cluster}

/-- The entries carry the indices of their positions. -/
def RaftLog.Indexed (log : RaftLog) : Prop :=
  ∀ k entry, log.entries[k]? = some entry → entry.index = log.lastIncludedIndex + k + 1

/-- Entries of one term at one position are preceded by equal entries. -/
def RaftLog.Matches (log log' : RaftLog) : Prop :=
  ∀ index entry entry', log.getEntry index = some entry → log'.getEntry index = some entry' →
    entry.term = entry'.term →
    ∀ earlier ≤ index, ∀ e e', log.getEntry earlier = some e → log'.getEntry earlier = some e' →
      e = e'

/-- Both hold the same entry at every index from 1 to `index`. -/
def RaftLog.AgreeUpTo (log log' : RaftLog) (index : ℕ) : Prop :=
  ∀ k, 1 ≤ k → k ≤ index → ∃ entry, log.getEntry k = some entry ∧ log'.getEntry k = some entry

/-! ## Positions in a log from the start -/

theorem RaftLog.FromStart.exists_of_getEntry {log : RaftLog} (hstart : log.FromStart) {index : ℕ}
    {entry : LogEntry} (hentry : log.getEntry index = some entry) :
    ∃ k, index = k + 1 ∧ log.entries[k]? = some entry := by
  cases index with
  | zero => simp [RaftLog.getEntry] at hentry
  | succ k => exact ⟨k, rfl, hstart.getEntry.symm.trans hentry⟩

/-- Backed logs match. -/
theorem matches_of_backed {h : History ℕ LogEntry} {log log' : RaftLog} (hstart : log.FromStart)
    (hstart' : log'.FromStart) (hbacked : h.Backed log.entries) (hbacked' : h.Backed log'.entries) :
    log.Matches log' := by
  intro index entry entry' hentry hentry' hterm earlier hle e e' he he'
  obtain ⟨k, rfl, hget⟩ := hstart.exists_of_getEntry hentry
  obtain ⟨j, rfl, hearlier⟩ := hstart.exists_of_getEntry he
  have hagree := hbacked.agree hbacked' hget (hstart'.getEntry.symm.trans hentry') hterm
  have hjk : j < k + 1 := by omega
  have heq : log.entries[j]? = log'.entries[j]? := by
    calc log.entries[j]? = (log.entries.take (k + 1))[j]? := (List.getElem?_take_of_lt hjk).symm
      _ = (log'.entries.take (k + 1))[j]? := by rw [hagree]
      _ = log'.entries[j]? := List.getElem?_take_of_lt hjk
  rw [hearlier, ← hstart'.getEntry, he'] at heq
  exact Option.some.inj heq

/-- Logs that share a prefix agree as far as it goes. -/
theorem agreeUpTo_of_isPrefix {log log' : RaftLog} (hstart : log.FromStart)
    (hstart' : log'.FromStart) {front : List LogEntry} (hpre : front <+: log.entries)
    (hpre' : front <+: log'.entries) {index : ℕ} (hindex : index ≤ front.length) :
    log.AgreeUpTo log' index := by
  intro k hpos hle
  obtain ⟨k, rfl⟩ : ∃ j, k = j + 1 := ⟨k - 1, by omega⟩
  have hk : k < front.length := by omega
  refine ⟨front[k], ?_, ?_⟩
  · exact hstart.getEntry.trans (List.prefix_iff_getElem?.mp hpre k hk)
  · exact hstart'.getEntry.trans (List.prefix_iff_getElem?.mp hpre' k hk)

/-! ## Runs -/

namespace Cluster

/-- Log matching: entries stand at their indexes, and logs that agree on the term at an index agree
up to it. -/
def LogMatching (c : Cluster) : Prop :=
  (∀ id ∈ c.members, (c.node id).logs.Indexed) ∧
    ∀ m ∈ c.members, ∀ m' ∈ c.members, (c.node m).logs.Matches (c.node m').logs

/-- What a leader recorded of a member in its term is not past the leader's log, and
both hold the same entries up to there. -/
def MatchTruthful (c : Cluster) : Prop :=
  ∀ l ∈ c.members, ∀ m ∈ c.members, m ≠ l → (c.node l).role = .leader →
    (c.node m).currentTerm = (c.node l).currentTerm →
    ∀ index, (c.node l).matchIndex.lookup m = some index →
      index ≤ (c.node l).logs.lastLogIndex ∧ (c.node l).logs.AgreeUpTo (c.node m).logs index

variable [Platform] {action : Action}

theorem LogsMatch.regular (hok : LogsMatch c action) : Regular 1 c action :=
  ⟨hok.votes, fun _ => hok, by omega, by omega⟩

theorem ReportsHold.regular (hok : ReportsHold c action) : Regular 2 c action :=
  ⟨hok.logs.votes, fun _ => hok.logs, fun _ => hok, by omega⟩

end Cluster

section Theorems

variable [Platform]

/-- **Log matching.** -/
theorem logMatching (hinit : c.Initial) (hrun : Run Cluster.step Cluster.LogsMatch c c') :
    c'.LogMatching := by
  obtain ⟨h, hs⟩ := exists_sim_of_run hinit (hrun.mono Cluster.LogsMatch.regular)
  have hbacked : ∀ m ∈ c'.members, h.Backed (c'.node m).logs.entries := by
    intro m hm
    rw [← ((hs.nodes m hm).log le_rfl).log]
    exact (hs.replicated le_rfl).matching.backed_log m
  constructor
  · intro m hm k entry hentry
    have hnum := numbered_of_backed (hs.numbered le_rfl) (hbacked m hm) k entry hentry
    rw [hnum, (hs.nodes m hm).votes.fromStart.index, Nat.zero_add]
  · intro m hm m' hm'
    exact matches_of_backed (hs.nodes m hm).votes.fromStart (hs.nodes m' hm').votes.fromStart
      (hbacked m hm) (hbacked m' hm')

/-- **The leader's match index is true.** -/
theorem matchTruthful (hinit : c.Initial) (hrun : Run Cluster.step Cluster.ReportsHold c c') :
    c'.MatchTruthful := by
  obtain ⟨h, hs⟩ := exists_sim_of_run hinit (hrun.mono Cluster.ReportsHold.regular)
  have hr := hs.replicated (Nat.le_succ 1)
  intro l hl m hm _ hrole hterm index hindex
  have hnl := hs.nodes l hl
  have hnm := hs.nodes m hm
  have hlead := hr.matching.leading (hnl.votes.leader hrole) hnl.votes.term
  rw [(hnl.log (Nat.le_succ 1)).log] at hlead
  -- what was recorded is confirmed, and confirmed entries are held within the term
  have hacked := (hnl.matchIndex le_rfl).confirmed hrole m index hindex
  have hlen := hacked.trans (hr.acks.le_length _ m)
  have hheld := hr.acks.held (hnm.votes.term.trans hterm)
  rw [(hnm.log (Nat.le_succ 1)).log, ← hlead] at hheld
  rw [← hlead] at hlen
  refine ⟨hlen.trans_eq hnl.votes.fromStart.lastLogIndex.symm, ?_⟩
  exact agreeUpTo_of_isPrefix hnl.votes.fromStart hnm.votes.fromStart (List.take_prefix index _)
    ((List.take_prefix_take_left hacked).trans hheld) (List.length_take_of_le hlen).ge

end Theorems

/-! ## Runs of two members -/

/-- Two members without data nodes. -/
def twoNodes : Cluster :=
  Cluster.fresh [1, 2] nodup_twoMembers []

/-- A directory below the root. -/
def directory (name : String) : MakeDirRequest :=
  { parentPath := "/", name := name }

/-- The entry of a directory created in term 1. -/
def created (index : ℕ) (name : String) : LogEntry :=
  { term := 1, index := index, command := some (.mkdir (directory name)) }

/-- What member 1 sends in term 1 without a preceding entry. -/
def batch (entries : List LogEntry) : Message :=
  .appendEntriesRequest { term := 1, leaderId := 1, entries := entries }

/-- Member 2 reports success in term 1. -/
def stored (lastLogIndex : ℕ) : Message :=
  .appendEntriesResponse { id := 2, term := 1, success := true, lastLogIndex := lastLogIndex }

/-- Member 1 becomes the leader of term 1. -/
def electOfTwo : List Action :=
  [.handle 1 late .electionTimeout,
    .handle 2 late (.deliver 1 (voteRequest 1 1)),
    .handle 1 late (.deliver 2 (vote 2 1))]

/-- One directory is replicated. -/
def replicateOne : List Action :=
  electOfTwo ++
    [.handle 1 late (.makeDir (directory "a")),
      .handle 1 late .heartbeat,
      .handle 2 late (.deliver 1 (batch [created 1 "a"])),
      .handle 1 late (.deliver 2 (stored 1))]

/-- A second heartbeat repeats the first entry, and member 2 has it twice. -/
def resend : List Action :=
  electOfTwo ++
    [.handle 1 late (.makeDir (directory "a")),
      .handle 1 late .heartbeat,
      .handle 1 late (.makeDir (directory "b")),
      .handle 1 late .heartbeat,
      .handle 2 late (.deliver 1 (batch [created 1 "a"])),
      .handle 2 late (.deliver 1 (batch [created 1 "a", created 2 "b"]))]

/-- The leader has a third entry when it hears that member 2 stored three. -/
def reportResend : List Action :=
  resend ++
    [.handle 1 late (.deliver 2 (stored 1)),
      .handle 1 late (.makeDir (directory "c")),
      .handle 1 late (.deliver 2 (stored 3))]

theorem initial_twoNodes : @Cluster.Initial plainPlatform twoNodes :=
  @Cluster.initial_fresh plainPlatform ..

/-- Replication without repetition keeps the condition, and stores the entry at both. -/
theorem logMatching_replicateOne :
    ∃ c', @Run _ _ (@Cluster.step plainPlatform) (@Cluster.LogsMatch plainPlatform) twoNodes c' ∧
      (c'.node 2).logs.entries = [created 1 "a"] ∧ c'.LogMatching := by
  obtain ⟨c', hrun, hlog⟩ := Run.exists_of_exec (@Cluster.step plainPlatform)
    (@Cluster.LogsMatch plainPlatform) twoNodes replicateOne
    (fun c' => decide ((c'.node 2).logs.entries = [created 1 "a"])) (by decide)
  exact ⟨c', hrun, of_decide_eq_true hlog, @logMatching _ _ plainPlatform initial_twoNodes hrun⟩

/-- A repeated batch puts an entry where its index does not say. -/
theorem exists_log_mismatch :
    @Cluster.Initial plainPlatform twoNodes ∧
      ∃ c', Run (@Cluster.step plainPlatform) (fun _ action => action.restarts = false)
        twoNodes c' ∧ ¬ c'.LogMatching := by
  obtain ⟨c', hrun, hlog⟩ := Run.exists_of_exec (@Cluster.step plainPlatform)
    (fun _ action => action.restarts = false) twoNodes resend
    (fun c' => decide (2 ∈ c'.members ∧ (c'.node 2).logs.lastIncludedIndex = 0 ∧
      (c'.node 2).logs.entries[1]? = some (created 1 "a"))) (by decide)
  obtain ⟨hmem, hbase, hsecond⟩ := of_decide_eq_true hlog
  refine ⟨initial_twoNodes, c', hrun, fun hmatch => ?_⟩
  have hindex := hmatch.1 2 hmem 1 _ hsecond
  rw [hbase] at hindex
  exact absurd hindex (by decide)

theorem matchTruthful_replicateOne :
    ∃ c', @Run _ _ (@Cluster.step plainPlatform) (@Cluster.ReportsHold plainPlatform)
        twoNodes c' ∧
      (c'.node 1).matchIndex.lookup 2 = some 1 ∧ c'.MatchTruthful := by
  obtain ⟨c', hrun, hindex⟩ := Run.exists_of_exec (@Cluster.step plainPlatform)
    (@Cluster.ReportsHold plainPlatform) twoNodes replicateOne
    (fun c' => decide ((c'.node 1).matchIndex.lookup 2 = some 1)) (by decide)
  exact ⟨c', hrun, of_decide_eq_true hindex,
    @matchTruthful _ _ plainPlatform initial_twoNodes hrun⟩

/-- After a repeated batch, a follower reports more than it has of the leader's log. -/
theorem exists_false_match :
    @Cluster.Initial plainPlatform twoNodes ∧
      ∃ c', Run (@Cluster.step plainPlatform) (fun _ action => action.restarts = false)
        twoNodes c' ∧ ¬ c'.MatchTruthful := by
  obtain ⟨c', hrun, hstate⟩ := Run.exists_of_exec (@Cluster.step plainPlatform)
    (fun _ action => action.restarts = false) twoNodes reportResend
    (fun c' => decide (1 ∈ c'.members ∧ 2 ∈ c'.members ∧ (c'.node 1).role = .leader ∧
      (c'.node 2).currentTerm = (c'.node 1).currentTerm ∧
      (c'.node 1).matchIndex.lookup 2 = some 3 ∧
      (c'.node 1).logs.getEntry 2 = some (created 2 "b") ∧
      (c'.node 2).logs.getEntry 2 = some (created 1 "a"))) (by decide)
  obtain ⟨hfirst, hsecond, hrole, hterm, hindex, hleader, hfollower⟩ := of_decide_eq_true hstate
  refine ⟨initial_twoNodes, c', hrun, fun htrue => ?_⟩
  obtain ⟨-, hagree⟩ := htrue 1 hfirst 2 hsecond (by decide) hrole hterm 3 hindex
  obtain ⟨entry, hentry, hentry'⟩ := hagree 2 (by decide) (by decide)
  rw [hleader] at hentry
  rw [hfollower, ← hentry] at hentry'
  exact absurd hentry' (by decide)

end Vosfs.Raft
