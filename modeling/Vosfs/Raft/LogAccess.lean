import Vosfs.Raft.CommitSafety
import Vosfs.Raft.Entries
import Vosfs.Raft.Following
import Vosfs.Raft.IndexChain
import Vosfs.Raft.Terms

/-!
# Accesses to the log

Each accessor of the log asserts that an index is stored.  A leader reads its log where the
indexes of the other members tell it to, and takes these indexes from answers.

* An index that a member rejected is in range: the leader that asked about it had it in
  its log, and in one term no leader but itself makes its log shorter (`Vouched`).
* An index that a member confirmed need not be: a member confirms the end of its own log,
  which may be past the leader's.

A step is `RaftNode.StaysInRange` if it is not such a confirmation, and no leader takes
another leader's log in its own term and loses entries.  As long as all steps are, no
assertion fails (`accessesInRange`).
-/

namespace Vosfs.Raft

open Function
open Consensus (lastTerm)

namespace RaftNode

variable {env : Env} {node node' : RaftNode}

/-! ## The calls -/

/-- `get_entries` and `get_term` in a heartbeat to one member. -/
def BeatInRange (node : RaftNode) (nextIndex : ℕ) : Prop :=
  ¬ (nextIndex ≤ node.logs.lastLogIndex ∧ nextIndex ≤ node.logs.lastIncludedIndex) →
    (nextIndex ≤ node.logs.lastLogIndex → (node.logs.getEntries nextIndex
      (min maxAppendEntriesSize (node.logs.lastLogIndex - nextIndex + 1))).isSome) ∧
    (node.logs.getTerm (nextIndex - 1)).isSome

instance {nextIndex : ℕ} : Decidable (BeatInRange node nextIndex) :=
  inferInstanceAs (Decidable (_ → (_ → _) ∧ _))

/-- The same for all members, in the next iteration of a leader. -/
def HeartbeatInRange (node : RaftNode) : Prop :=
  node.role = .leader → ∀ target ∈ node.nextIndex.pairs, target.1 ≠ node.memberId →
    node.BeatInRange target.2

instance : Decidable (HeartbeatInRange node) :=
  inferInstanceAs (Decidable (_ → ∀ target ∈ node.nextIndex.pairs, _ → BeatInRange _ _))

section Calls

variable [Platform]

/-- `get_entry` in each round of `apply_entry`, and `get_term` where a snapshot is due. -/
def RoundsInRange (env : Env) : ℕ → RaftNode → Prop
  | 0, _ => True
  | rounds + 1, node =>
    (node.logs.getEntry (node.lastApplied + 1)).isSome ∧
      ((node.lastApplied + 1) % snapshotInterval = 0 →
        (node.logs.getTerm (node.lastApplied + 1)).isSome) ∧
      ∀ next, node.applyNext env = .ok next → RoundsInRange env rounds next

/-- The calls of `apply_entry` once the commit index is set. -/
def ApplyInRange (env : Env) (node : RaftNode) (commitIndex : ℕ) : Prop :=
  RoundsInRange env (commitIndex - node.lastApplied) { node with commitIndex := commitIndex }

/-- The calls once a request of the leader passed the check of the term.  The loop over the
entries returns exactly if its calls are in range. -/
def EntriesInRange (env : Env) (node : RaftNode) (request : AppendEntriesRequest) : Prop :=
  (request.prevLogIndex ≤ node.logs.lastLogIndex →
    node.logs.lastIncludedIndex ≤ request.prevLogIndex →
      (node.logs.getTerm request.prevLogIndex).isSome) ∧
  (LogOk node request → ∃ stored, node.storeEntries request.entries = .ok stored ∧
    (stored.commitIndex < request.leaderCommit →
      ApplyInRange env stored (min stored.logs.lastLogIndex request.leaderCommit)))

/-- All calls of the log's accessors that a step makes are in range. -/
def CallsInRange (env : Env) (node : RaftNode) : Input → Prop
  | .heartbeat => node.HeartbeatInRange
  | .deliver _ (.appendEntriesRequest request) =>
    node.currentTerm ≤ request.term → EntriesInRange env (node.followed env request) request
  | .deliver _ (.appendEntriesResponse response) =>
    node.Confirms response → node.commitIndex < node.confirmedIndex response →
      ApplyInRange env (node.recordMatch response.id response.lastLogIndex)
        (node.confirmedIndex response)
  | _ => True

end Calls

/-! ## The condition -/

/-- A leader that is sent entries by another one of its own term loses none of its own. -/
def KeepsLeaderLog (node : RaftNode) (request : AppendEntriesRequest) : Prop :=
  node.role = .leader → request.term = node.currentTerm → LogOk node request →
    node.logs.lastLogIndex ≤ node.logs.storedIndex request.entries

/-- A member confirms no index past the end of the leader's log. -/
def ConfirmsInRange (node : RaftNode) (response : AppendEntriesResponse) : Prop :=
  node.Confirms response → response.lastLogIndex ≤ node.logs.lastLogIndex

/-- The condition on a step. -/
def StaysInRange (env : Env) (node : RaftNode) : Input → Prop
  | .electionTimeout => node.TermFits env
  | .deliver _ (.appendEntriesRequest request) => node.KeepsLeaderLog request
  | .deliver _ (.appendEntriesResponse response) => node.ConfirmsInRange response
  | _ => True

instance : ∀ {input : Input}, Decidable (StaysInRange env node input)
  | .electionTimeout => inferInstanceAs (Decidable (TermFits _ _))
  | .deliver _ (.appendEntriesRequest _) => inferInstanceAs (Decidable (_ → _ → _ → _))
  | .deliver _ (.appendEntriesResponse _) => inferInstanceAs (Decidable (Confirms _ _ → _))
  | .deliver _ (.requestVoteRequest _) | .deliver _ (.requestVoteResponse _)
  | .deliver _ (.installSnapshotRequest _) | .deliver _ (.installSnapshotResponse _)
  | .heartbeat | .listDir _ | .makeDir _ | .prepareUploadFile _ | .uploadFile _
  | .prepareDownloadFile _ => inferInstanceAs (Decidable True)

/-! ## The indexes of one node -/

/-- The log starts at 1, and the indexes a leader keeps for the members are in its range. -/
structure InRange (members : Finset ℕ) (node : RaftNode) : Prop where
  peers : ∀ peer, peer ∈ node.transport.peers ↔ peer ∈ members
  fromStart : node.logs.FromStart
  snapshotData : node.snapshotData = []
  entries : ∀ entry ∈ node.logs.entries, 0 < entry.index
  nextMember : ∀ id next, node.nextIndex.lookup id = some next → id ∈ members
  matchMember : ∀ id index, node.matchIndex.lookup id = some index → id ∈ members
  next : node.role = .leader → ∀ id next, node.nextIndex.lookup id = some next →
    0 < next ∧ next ≤ node.logs.lastLogIndex + 1
  confirmed : node.role = .leader → ∀ id index, node.matchIndex.lookup id = some index →
    index ≤ node.logs.lastLogIndex

/-- The term does not go back, and within a term a leader goes on leading, with a log that
gets no shorter. -/
structure Remains (node node' : RaftNode) : Prop where
  term : node.currentTerm ≤ node'.currentTerm
  leads : node.role = .leader → node'.currentTerm = node.currentTerm →
    node'.role = .leader ∧ node.logs.lastLogIndex ≤ node'.logs.lastLogIndex

variable {members : Finset ℕ}

/-! ## Handlers -/

theorem Remains.refl : Remains node node :=
  ⟨le_rfl, fun hrole _ => ⟨hrole, le_rfl⟩⟩

/-- A later term ends what held in the one before. -/
theorem Remains.of_lt (hterm : node.currentTerm < node'.currentTerm) : Remains node node' :=
  ⟨hterm.le, fun _ hsame => absurd hsame hterm.ne'⟩

/-- The indexes stay, and who leads was leading, with a log that was no longer. -/
theorem InRange.grow (hrange : InRange members node) (htransport : node'.transport = node.transport)
    (hdata : node'.snapshotData = node.snapshotData) (hnext : node'.nextIndex = node.nextIndex)
    (hmatch : node'.matchIndex = node.matchIndex) (hstart : node'.logs.FromStart)
    (hentries : ∀ entry ∈ node'.logs.entries, 0 < entry.index)
    (hleads : node'.role = .leader →
      node.role = .leader ∧ node.logs.lastLogIndex ≤ node'.logs.lastLogIndex) :
    InRange members node' := by
  refine ⟨htransport ▸ hrange.peers, hstart, hdata.trans hrange.snapshotData, hentries,
    hnext ▸ hrange.nextMember, hmatch ▸ hrange.matchMember, ?_, ?_⟩
  · intro hrole id next hlookup
    obtain ⟨hwas, hlast⟩ := hleads hrole
    obtain ⟨hpos, hle⟩ := hrange.next hwas id next (hnext ▸ hlookup)
    exact ⟨hpos, by omega⟩
  · intro hrole id index hlookup
    obtain ⟨hwas, hlast⟩ := hleads hrole
    exact (hrange.confirmed hwas id index (hmatch ▸ hlookup)).trans hlast

theorem InRange.keep (hrange : InRange members node) (hdata : KeepsData node node')
    (hnext : node'.nextIndex = node.nextIndex) (hmatch : node'.matchIndex = node.matchIndex)
    (hrole : node'.role = .leader → node.role = .leader) : InRange members node' :=
  hrange.grow hdata.transport hdata.snapshotData hnext hmatch (hdata.logs ▸ hrange.fromStart)
    (hdata.logs ▸ hrange.entries) fun hleads => ⟨hrole hleads, by rw [hdata.logs]⟩

/-- A new leader asks each member about the end of its log. -/
theorem InRange.tryToLead (hrange : InRange members node) : InRange members node.tryToLead := by
  unfold RaftNode.tryToLead
  split
  next =>
    have hpeers : ∀ {m : UnorderedMap ℕ ℕ} {index id value : ℕ},
        (∀ id value, m.lookup id = some value → id ∈ members) →
        (node.transport.peers.foldl (fun m id => m.insert id index) m).lookup id = some value →
        id ∈ members ∧ value = index := by
      intro m index id value hmember hlookup
      rw [UnorderedMap.lookup_foldl_insert] at hlookup
      split at hlookup
      next hmem => exact ⟨(hrange.peers id).mp hmem, (Option.some.inj hlookup).symm⟩
      next hnot => exact absurd ((hrange.peers id).mpr (hmember id value hlookup)) hnot
    refine ⟨hrange.peers, hrange.fromStart, hrange.snapshotData, hrange.entries, ?_, ?_, ?_, ?_⟩
    · exact fun id next hlookup => (hpeers hrange.nextMember hlookup).1
    · exact fun id index hlookup => (hpeers hrange.matchMember hlookup).1
    · intro _ id next hlookup
      obtain rfl := (hpeers hrange.nextMember hlookup).2
      exact ⟨Nat.succ_pos _, le_rfl⟩
    · intro _ id index hlookup
      obtain rfl := (hpeers hrange.matchMember hlookup).2
      exact Nat.zero_le _
  next => exact hrange

theorem InRange.catchUp {term : ℕ} (hrange : InRange members node) :
    InRange members (node.catchUp env term) := by
  refine hrange.keep catchUp_keepsData ?_ ?_ ?_
  all_goals
    unfold RaftNode.catchUp
    split
    next => first | rfl | nofun
    next => first | rfl | exact id

theorem remains_catchUp {term : ℕ} : Remains node (node.catchUp env term) := by
  unfold catchUp
  split
  next hlt => exact .of_lt hlt
  next => exact .refl

theorem electionLoop_inRange (hrange : InRange members node) (hfits : node.TermFits env) :
    InRange members (node.electionLoop env).1 ∧ Remains node (node.electionLoop env).1 := by
  by_cases hstart : StartsElection env node .electionTimeout
  · constructor
    · rw [electionLoop_of_starts hstart]
      have hvoted : InRange members node.startElection.voteForSelf :=
        hrange.keep ⟨rfl, rfl, rfl, rfl, rfl, rfl, rfl⟩ rfl rfl nofun
      exact hvoted.tryToLead.keep ⟨rfl, rfl, rfl, rfl, rfl, rfl, rfl⟩ rfl rfl id
    · have hterm := currentTerm_electionLoop hstart
      rw [u64_of_termFits (fun _ => hfits) hstart] at hterm
      exact .of_lt (by omega)
  · rw [electionLoop_of_not_starts hstart]
    exact ⟨hrange, .refl⟩

theorem handleRequestVoteRequest_inRange {request : RequestVoteRequest}
    (hrange : InRange members node) :
    InRange members (node.handleRequestVoteRequest env request).1 ∧
      Remains node (node.handleRequestVoteRequest env request).1 := by
  have hcaught : Remains node (node.catchUp env request.term) := remains_catchUp
  unfold handleRequestVoteRequest
  split
  next => exact ⟨hrange, .refl⟩
  next =>
    simp only
    split
    next =>
      exact ⟨hrange.catchUp.keep ⟨rfl, rfl, rfl, rfl, rfl, rfl, rfl⟩ rfl rfl id,
        ⟨hcaught.term, hcaught.leads⟩⟩
    next => exact ⟨hrange.catchUp, hcaught⟩

theorem handleRequestVoteResponse_inRange {response : RequestVoteResponse}
    (hrange : InRange members node) :
    InRange members (node.handleRequestVoteResponse env response) ∧
      Remains node (node.handleRequestVoteResponse env response) := by
  unfold handleRequestVoteResponse
  split
  next => exact ⟨hrange, .refl⟩
  next =>
    split
    next hlt => exact ⟨hrange.keep ⟨rfl, rfl, rfl, rfl, rfl, rfl, rfl⟩ rfl rfl nofun, .of_lt hlt⟩
    next =>
      split
      next => exact ⟨hrange, .refl⟩
      next hrole =>
        split
        next =>
          have hcounted : InRange members { node with votes := node.votes + 1 } :=
            hrange.keep ⟨rfl, rfl, rfl, rfl, rfl, rfl, rfl⟩ rfl rfl id
          -- a candidate has no part in the claims about leaders
          have hterm := @currentTerm_tryToLead { node with votes := node.votes + 1 }
          exact ⟨hcounted.tryToLead, hterm.ge, fun hleads => absurd hleads hrole⟩
        next => exact ⟨hrange, .refl⟩

theorem appendCommand_inRange {command : EntryCommand} {response : PendingResponse}
    (hrange : InRange members node) :
    InRange members (node.appendCommand command response) ∧
      Remains node (node.appendCommand command response) := by
  have hlast : (node.appendCommand command response).logs.lastLogIndex =
      node.logs.lastLogIndex + 1 := by
    simp [appendCommand, RaftLog.lastLogIndex, RaftLog.appendEntry, Nat.add_assoc]
  refine ⟨hrange.grow rfl rfl rfl rfl ⟨hrange.fromStart.index, hrange.fromStart.term⟩ ?_ ?_,
    le_rfl, fun hrole _ => ⟨hrole, by omega⟩⟩
  · intro entry hentry
    rcases List.mem_append.mp hentry with hold | hnew
    · exact hrange.entries entry hold
    · rw [List.mem_singleton.mp hnew]
      exact Nat.succ_pos _
  · exact fun hrole => ⟨hrole, by omega⟩

/-! ## Storing and applying entries -/

/-- In a log from the start all positive indexes up to its end are stored. -/
theorem isSome_getTerm (hstart : node.logs.FromStart) {index : ℕ}
    (hindex : index ≤ node.logs.lastLogIndex) : (node.logs.getTerm index).isSome := by
  rw [hstart.lastLogIndex] at hindex
  rw [hstart.getTerm_eq_lastTerm hindex]
  rfl

theorem dropConflicts_returns {entries : List LogEntry} (hstart : node.logs.FromStart)
    (hentries : ∀ entry ∈ entries, 0 < entry.index) :
    ∃ dropped, dropConflicts entries node = .ok dropped := by
  induction entries with
  | nil => exact ⟨node, rfl⟩
  | cons entry rest ih =>
    rw [List.forall_mem_cons] at hentries
    unfold dropConflicts
    split
    next => exact ⟨node, rfl⟩
    next hwithin =>
      have hterm := isSome_getTerm hstart (not_lt.mp hwithin)
      cases hget : node.logs.getTerm entry.index with
      | none => rw [hget] at hterm; cases hterm
      | some term =>
        simp only
        split
        next =>
          have hrange : node.logs.lastIncludedIndex < entry.index ∧
              entry.index ≤ node.logs.lastLogIndex := by
            rw [hstart.index]
            exact ⟨hentries.1, not_lt.mp hwithin⟩
          simp only [RaftLog.truncateEntriesBefore, if_pos hrange]
          exact ⟨_, rfl⟩
        next => exact ih hentries.2

theorem storeEntries_returns {entries : List LogEntry} (hstart : node.logs.FromStart)
    (hentries : ∀ entry ∈ entries, 0 < entry.index) :
    ∃ stored, node.storeEntries entries = .ok stored := by
  unfold storeEntries
  split
  next => exact ⟨node, rfl⟩
  next =>
    obtain ⟨dropped, hdrop⟩ := dropConflicts_returns hstart hentries
    rw [hdrop]
    exact ⟨_, rfl⟩

variable [Platform]

omit [Platform] in
theorem logs_of_applied {positions : List (ℕ × LogEntry)}
    (happlied : node.Applied positions node') :
    node'.logs = node.logs := by
  obtain ⟨_, _, _, rfl⟩ := happlied
  rfl

/-- The rounds up to an index of the log. -/
theorem roundsInRange {rounds : ℕ} (hstart : node.logs.FromStart)
    (hlast : 0 < rounds → node.lastApplied + rounds ≤ node.logs.lastLogIndex) :
    RoundsInRange env rounds node := by
  induction rounds generalizing node with
  | zero => trivial
  | succ rounds ih =>
    have hreached := hlast (Nat.succ_pos rounds)
    refine ⟨?_, fun _ => isSome_getTerm hstart (by omega), fun next happly => ?_⟩
    · rw [hstart.lastLogIndex] at hreached
      rw [hstart.getEntry, List.getElem?_eq_getElem (by omega)]
      rfl
    · obtain ⟨entry, -, happlied⟩ := applyNext_spec hstart happly
      have hlogs := logs_of_applied happlied
      obtain ⟨_, _, _, rfl⟩ := happlied
      refine ih (hlogs ▸ hstart) fun _ => ?_
      rw [hlogs]
      change node.lastApplied + 1 + rounds ≤ _
      omega

theorem applyInRange {commitIndex : ℕ} (hstart : node.logs.FromStart)
    (hlast : commitIndex ≤ node.logs.lastLogIndex) : ApplyInRange env node commitIndex := by
  have hstart' : ({ node with commitIndex := commitIndex } : RaftNode).logs.FromStart := hstart
  refine roundsInRange hstart' fun hpos => ?_
  change node.lastApplied + (commitIndex - node.lastApplied) ≤ node.logs.lastLogIndex
  omega

/-! ## Requests and answers -/

omit [Platform] in
theorem InRange.followed {request : AppendEntriesRequest} (hrange : InRange members node) :
    InRange members (node.followed env request) :=
  hrange.catchUp.keep heardFrom_keepsData rfl rfl id

theorem entriesInRange {request : AppendEntriesRequest} (hstart : node.logs.FromStart)
    (hentries : ∀ entry ∈ request.entries, 0 < entry.index) : EntriesInRange env node request := by
  refine ⟨fun hlast _ => isSome_getTerm hstart hlast, fun _ => ?_⟩
  obtain ⟨stored, hstore⟩ := storeEntries_returns hstart hentries
  refine ⟨stored, hstore, fun _ => ?_⟩
  obtain ⟨_, _, rfl⟩ := storeEntries_shape hstore
  exact applyInRange ⟨hstart.index, hstart.term⟩ (min_le_left _ _)

theorem afterEntries_inRange {request : AppendEntriesRequest} (hrange : InRange members node)
    (hkeeps : node.KeepsLeaderLog request) (hentries : ∀ entry ∈ request.entries, 0 < entry.index)
    (hafter : node.afterEntries env request = .ok node') :
    InRange members node' ∧ Remains node node' := by
  have hfollowed : InRange members (node.followed env request) := hrange.followed
  have hlogs : (node.followed env request).logs = node.logs := catchUp_keepsData.logs
  have hcaught : Remains node (node.catchUp env request.term) := remains_catchUp
  have hsubset := entries_of_afterEntries hafter
  cases outcome_of_afterEntries hafter with
  | late => exact ⟨hrange, .refl⟩
  | rejected => exact ⟨hfollowed, ⟨hcaught.term, hcaught.leads⟩⟩
  | @stored stored _ haccepts hstore hfollow =>
    have hraft := afterEntries_keepsRaft haccepts.1 hafter
    have hlast := storeEntries_lastLogIndex hstore
    have hstart : stored.logs.FromStart := by
      obtain ⟨_, _, rfl⟩ := storeEntries_shape hstore
      exact ⟨hfollowed.fromStart.index, hfollowed.fromStart.term⟩
    have hsame : node'.logs = stored.logs :=
      ((movesCommit_of_followCommit hfollow).keeps hstart).2
    rw [← hsame, hlogs] at hlast
    -- who still leads was leading in the term of the request
    have hleader : node'.role = .leader → node.role = .leader ∧
        node.logs.lastLogIndex ≤ node'.logs.lastLogIndex := by
      intro hrole
      rw [hraft.role] at hrole
      have hcatch := catchUp_of_leader hrole
      have hterm := @currentTerm_catchUp env _ _ haccepts.1
      rw [hcatch] at hrole hterm
      rw [hlast]
      exact ⟨hrole, hkeeps hrole hterm.symm haccepts.2⟩
    have hterm : node'.currentTerm = (node.catchUp env request.term).currentTerm :=
      congrArg HardState.currentTerm hraft.hardState
    have hcaughtLogs : (node.catchUp env request.term).logs = node.logs := hlogs
    refine ⟨hrange.catchUp.grow hraft.transport hraft.snapshotData hraft.nextIndex
      hraft.matchIndex (hsame ▸ hstart) (fun entry hentry => ?_) (fun hrole => ?_), ?_, ?_⟩
    · rcases List.mem_append.mp (hsubset hentry) with hold | hnew
      · exact hrange.entries entry hold
      · exact hentries entry hnew
    · rw [hcaughtLogs, ← hraft.role]
      exact ⟨hrole, (hleader hrole).2⟩
    · exact hterm ▸ hcaught.term
    · intro hrole hsameTerm
      have hrole' := (hcaught.leads hrole (hterm ▸ hsameTerm)).1
      rw [← hraft.role] at hrole'
      exact ⟨hrole', (hleader hrole').2⟩

omit [Platform] in
/-- The quorum index is one of the indexes, or 0. -/
theorem quorumIndex_le {matchIndex : UnorderedMap ℕ ℕ} {last : ℕ}
    (hall : ∀ id index, matchIndex.lookup id = some index → index ≤ last) :
    quorumIndex matchIndex ≤ last := by
  by_cases hempty : 0 < matchIndex.values.length
  · obtain ⟨id, hlookup⟩ := UnorderedMap.mem_values.mp (quorumIndex_mem hempty)
    exact hall id _ hlookup
  · have hnil : matchIndex.values = [] := List.length_eq_zero_iff.mp (Nat.eq_zero_of_not_pos hempty)
    unfold quorumIndex
    simp [hnil]

omit [Platform] in
theorem recordMatch_inRange {id lastLogIndex : ℕ} (hrange : InRange members node)
    (hid : id ∈ members) (hlast : lastLogIndex ≤ node.logs.lastLogIndex) :
    InRange members (node.recordMatch id lastLogIndex) := by
  refine ⟨hrange.peers, hrange.fromStart, hrange.snapshotData, hrange.entries, ?_, ?_, ?_, ?_⟩
  · intro other next hlookup
    rw [recordMatch, UnorderedMap.lookup_insert_eq] at hlookup
    split at hlookup
    next heq => exact heq ▸ hid
    next => exact hrange.nextMember other next hlookup
  · intro other index hlookup
    rw [recordMatch, UnorderedMap.lookup_insert_eq] at hlookup
    split at hlookup
    next heq => exact heq ▸ hid
    next => exact hrange.matchMember other index hlookup
  · intro hrole other next hlookup
    rw [recordMatch, UnorderedMap.lookup_insert_eq] at hlookup
    split at hlookup
    next => cases hlookup; exact ⟨Nat.succ_pos _, Nat.succ_le_succ hlast⟩
    next => exact hrange.next hrole other next hlookup
  · intro hrole other index hlookup
    rw [recordMatch, UnorderedMap.lookup_insert_eq] at hlookup
    split at hlookup
    next => cases hlookup; exact hlast
    next => exact hrange.confirmed hrole other index hlookup

omit [Platform] in
theorem rejected_inRange {id conflictIndex : ℕ} (hrange : InRange members node)
    (hid : id ∈ members)
    (hconflict : 0 < conflictIndex ∧ conflictIndex ≤ node.logs.lastLogIndex + 1) :
    InRange members { node with nextIndex := node.nextIndex.insert id conflictIndex } := by
  refine ⟨hrange.peers, hrange.fromStart, hrange.snapshotData, hrange.entries, ?_,
    hrange.matchMember, ?_, hrange.confirmed⟩
  · intro other next hlookup
    rw [UnorderedMap.lookup_insert_eq] at hlookup
    split at hlookup
    next heq => exact heq ▸ hid
    next => exact hrange.nextMember other next hlookup
  · intro hrole other next hlookup
    rw [UnorderedMap.lookup_insert_eq] at hlookup
    split at hlookup
    next => cases hlookup; exact hconflict
    next => exact hrange.next hrole other next hlookup

theorem advanceCommit_inRange (hrange : InRange members node)
    (hadvance : node.advanceCommit env = .ok node') : InRange members node' := by
  have hmoves := movesCommit_of_advanceCommit hadvance
  have hraft := hmoves.keepsRaft
  have hlogs := (hmoves.keeps hrange.fromStart).2
  exact hrange.grow hraft.transport hraft.snapshotData hraft.nextIndex hraft.matchIndex
    (hlogs ▸ hrange.fromStart) (hlogs ▸ hrange.entries)
    fun hrole => ⟨hraft.role ▸ hrole, by rw [hlogs]⟩

theorem handleAppendEntriesResponse_inRange {response : AppendEntriesResponse}
    (hrange : InRange members node) (hid : response.id ∈ members)
    (hconfirms : node.ConfirmsInRange response)
    (hconflict : ∀ conflictIndex ∈ response.conflictIndex, node.role = .leader →
      node.currentTerm = response.term →
      0 < conflictIndex ∧ conflictIndex ≤ node.logs.lastLogIndex + 1)
    (hafter : node.handleAppendEntriesResponse env response = .ok node') :
    InRange members node' ∧ Remains node node' := by
  cases outcome_of_handleAppendEntriesResponse hafter with
  | ignored => exact ⟨hrange, .refl⟩
  | deposed hlt =>
    exact ⟨hrange.keep ⟨rfl, rfl, rfl, rfl, rfl, rfl, rfl⟩ rfl rfl nofun, .of_lt hlt⟩
  | rejected hrole hterm _ hsome =>
    have hindex := hconflict _ hsome hrole hterm.symm
    exact ⟨rejected_inRange hrange hid hindex, le_rfl, fun hrole _ => ⟨hrole, le_rfl⟩⟩
  | confirmed hconfirmed hadvance =>
    have hrecorded := recordMatch_inRange hrange hid (hconfirms hconfirmed)
    have hmoves := movesCommit_of_advanceCommit hadvance
    have hraft := hmoves.keepsRaft
    have hlogs := (hmoves.keeps hrecorded.fromStart).2
    refine ⟨advanceCommit_inRange hrecorded hadvance, ?_, fun hrole _ => ?_⟩
    · exact (congrArg HardState.currentTerm hraft.hardState).ge
    · exact ⟨hraft.role.trans hrole, by rw [hlogs]; exact le_rfl⟩

/-- An index past the end of the log stays behind with the member that confirmed it. -/
theorem confirmsInRange_of_next {response : AppendEntriesResponse} (hstart : node.logs.FromStart)
    (hafter : node.handleAppendEntriesResponse env response = .ok node')
    (hnext : node'.role = .leader → ∀ id next, node'.nextIndex.lookup id = some next →
      1 ≤ next ∧ next ≤ node'.logs.lastLogIndex + 1) : node.ConfirmsInRange response := by
  rintro ⟨hrole, hterm, hsuccess⟩
  unfold handleAppendEntriesResponse at hafter
  rw [if_neg (by simp [hrole, hterm]), if_neg (by simp [hterm]), if_neg (by simp [hsuccess])]
    at hafter
  have hmoves := movesCommit_of_advanceCommit hafter
  have hraft := hmoves.keepsRaft
  have hstart' : (node.recordMatch response.id response.lastLogIndex).logs.FromStart := hstart
  have hlogs := (hmoves.keeps hstart').2
  have hlookup : node'.nextIndex.lookup response.id = some (response.lastLogIndex + 1) := by
    rw [hraft.nextIndex, recordMatch, UnorderedMap.lookup_insert_eq, if_pos rfl]
  have hle := (hnext (hraft.role.trans hrole) _ _ hlookup).2
  rw [hlogs] at hle
  exact Nat.le_of_succ_le_succ hle

/-- An answer with a conflict gives back the index that was asked about. -/
theorem conflict_of_handle {request : AppendEntriesRequest} {response : AppendEntriesResponse}
    (hhandle : node.handleAppendEntriesRequest env request = .ok (node', response)) :
    response.id = node.memberId ∧ ∀ conflictIndex ∈ response.conflictIndex,
      conflictIndex = request.prevLogIndex ∧ response.term = request.term ∧
        ¬ LogOk node request := by
  have hafter := @map_handleAppendEntriesRequest env node _ request
  rw [hhandle] at hafter
  rw [← memberId_of_transport (transport_of_afterEntries hafter.symm)]
  have hlogs : ((node.catchUp env request.term).heardFrom env request.leaderId).logs = node.logs :=
    (catchUp_keepsData.trans heardFrom_keepsData).logs
  unfold handleAppendEntriesRequest at hhandle
  split at hhandle
  next => cases hhandle; exact ⟨rfl, nofun⟩
  next hge =>
    have hcaught := @currentTerm_catchUp env _ _ (not_lt.mp hge)
    simp only at hhandle
    split at hhandle
    next hreject =>
      cases hhandle
      refine ⟨rfl, ?_⟩
      rintro _ ⟨⟩
      refine ⟨rfl, hcaught, ?_⟩
      unfold LogOk at hreject ⊢
      rwa [hlogs] at hreject
    next =>
      split at hhandle
      next => cases hhandle
      next =>
        split at hhandle
        next => cases hhandle
        next => cases hhandle; exact ⟨rfl, nofun⟩

end RaftNode

/-! ## The cluster -/

namespace Cluster

variable {c c' : Cluster} {id term index : ℕ} {env : Env} {input : Input}

/-- The member led in the term, with the index in its log, and it still does unless its term
is later now. -/
structure Vouched (c : Cluster) (id term index : ℕ) : Prop where
  member : id ∈ c.members
  reached : term ≤ (c.node id).currentTerm
  leads : (c.node id).currentTerm = term →
    (c.node id).role = .leader ∧ index ≤ (c.node id).logs.lastLogIndex

/-- The indexes of a message are in its sender's or its receiver's log; no message is about a
snapshot. -/
def PacketInRange (c : Cluster) (packet : Packet) : Prop :=
  match packet.message with
  | .appendEntriesRequest request =>
    c.Vouched packet.src request.term request.prevLogIndex ∧
      (request.prevLogIndex = 0 → request.prevLogTerm = 0) ∧
      ∀ entry ∈ request.entries, 0 < entry.index
  | .appendEntriesResponse response =>
    response.id ∈ c.members ∧ ∀ conflictIndex ∈ response.conflictIndex,
      0 < conflictIndex ∧ c.Vouched packet.dst response.term conflictIndex
  | .installSnapshotRequest _ => False
  | .installSnapshotResponse _ => False
  | _ => True

/-- The invariant of the cluster. -/
structure InRange (c : Cluster) : Prop where
  memberId : ∀ id ∈ c.members, (c.node id).memberId = id
  nodes : ∀ id ∈ c.members, (c.node id).InRange c.members
  packets : ∀ packet ∈ c.network, c.PacketInRange packet

/-- No node is started again, and the step is one that stays in range. -/
def StaysInRange (c : Cluster) : Action → Prop
  | .handle id env input => (c.node id).StaysInRange env input
  | .lose _ => True
  | .restart .. => False

instance : ∀ {action : Action}, Decidable (StaysInRange c action)
  | .handle _ _ _ => inferInstanceAs (Decidable (RaftNode.StaysInRange _ _ _))
  | .lose _ => inferInstanceAs (Decidable True)
  | .restart _ _ _ _ => inferInstanceAs (Decidable False)

theorem Vouched.remains {node : RaftNode} {other : ℕ} (hvouched : c.Vouched other term index)
    (hmembers : c'.members = c.members) (hnode : c'.node = update c.node id node)
    (hremains : (c.node id).Remains node) : c'.Vouched other term index := by
  obtain ⟨hmember, hterm, hleads⟩ := hvouched
  refine ⟨hmembers ▸ hmember, ?_, ?_⟩
  all_goals rw [hnode]
  all_goals by_cases heq : other = id
  · rw [heq, update_self]
    rw [heq] at hterm
    exact hterm.trans hremains.term
  · rwa [update_of_ne heq]
  · -- the term is the one it was all the time
    subst heq
    rw [update_self]
    intro hsame
    have hbetween : (c.node other).currentTerm = term :=
      le_antisymm (hsame ▸ hremains.term) hterm
    obtain ⟨hrole, hlast⟩ := hleads hbetween
    obtain ⟨hrole', hlonger⟩ := hremains.leads hrole (hsame.trans hbetween.symm)
    exact ⟨hrole', hlast.trans hlonger⟩
  · rwa [update_of_ne heq]

theorem PacketInRange.remains {node : RaftNode} {packet : Packet} (hpacket : c.PacketInRange packet)
    (hmembers : c'.members = c.members) (hnode : c'.node = update c.node id node)
    (hremains : (c.node id).Remains node) : c'.PacketInRange packet := by
  unfold PacketInRange at hpacket ⊢
  split at hpacket
  next =>
    obtain ⟨hvouched, hrest⟩ := hpacket
    exact ⟨hvouched.remains hmembers hnode hremains, hrest⟩
  next =>
    obtain ⟨hid, hconflict⟩ := hpacket
    refine ⟨hmembers ▸ hid, fun conflictIndex hsome => ?_⟩
    obtain ⟨hpos, hvouched⟩ := hconflict conflictIndex hsome
    exact ⟨hpos, hvouched.remains hmembers hnode hremains⟩
  next => exact hpacket
  next => exact hpacket
  next => trivial

variable [Platform]

/-- **The step lemma**, for one node. -/
theorem InRange.after {node : RaftNode} (hrange : c.InRange) (hid : id ∈ c.members)
    (hdelivered : ∀ packet ∈ delivered id input, packet ∈ c.network)
    (hstays : (c.node id).StaysInRange env input)
    (hafter : (c.node id).after env input = .ok node) :
    node.InRange c.members ∧ (c.node id).Remains node := by
  have hnode := hrange.nodes id hid
  cases input with
  | electionTimeout => cases hafter; exact RaftNode.electionLoop_inRange hnode hstays
  | heartbeat =>
    obtain ⟨⟨last, packets⟩, hbeat, rfl⟩ := RaftNode.exists_of_map_eq_ok hafter
    obtain ⟨rfl, -⟩ := RaftNode.heartbeatLoop_spec hnode.fromStart hnode.snapshotData hbeat
    exact ⟨hnode, .refl⟩
  | deliver src message =>
    have hpacket := hrange.packets _ (hdelivered _ rfl)
    cases message with
    | requestVoteRequest request =>
      cases hafter
      exact RaftNode.handleRequestVoteRequest_inRange hnode
    | requestVoteResponse response =>
      cases hafter
      exact RaftNode.handleRequestVoteResponse_inRange hnode
    | appendEntriesRequest request =>
      exact RaftNode.afterEntries_inRange hnode hstays hpacket.2.2 hafter
    | appendEntriesResponse response =>
      refine RaftNode.handleAppendEntriesResponse_inRange hnode hpacket.1 hstays ?_ hafter
      -- the log of the leader that was asked only grew since, in this term
      intro conflictIndex hsome _ hterm
      obtain ⟨hpos, hvouched⟩ := hpacket.2 conflictIndex hsome
      exact ⟨hpos, (hvouched.leads hterm).2.trans (Nat.le_succ _)⟩
    -- no snapshot was ever sent
    | installSnapshotRequest request => exact hpacket.elim
    | installSnapshotResponse response => exact hpacket.elim
  | listDir request => cases hafter; exact ⟨hnode, .refl⟩
  | makeDir request =>
    cases RaftNode.outcome_of_makeDir hafter with
    | refused => exact ⟨hnode, .refl⟩
    | appended => exact RaftNode.appendCommand_inRange hnode
  | prepareUploadFile request =>
    obtain ⟨_, rfl⟩ := RaftNode.exists_of_prepareUploadFile hafter
    exact ⟨⟨hnode.peers, hnode.fromStart, hnode.snapshotData, hnode.entries, hnode.nextMember,
      hnode.matchMember, hnode.next, hnode.confirmed⟩, le_rfl, fun hrole _ => ⟨hrole, le_rfl⟩⟩
  | uploadFile request =>
    cases RaftNode.outcome_of_uploadFile hafter with
    | refused => exact ⟨hnode, .refl⟩
    | appended => exact RaftNode.appendCommand_inRange hnode
  | prepareDownloadFile request => cases hafter; exact ⟨hnode, .refl⟩

/-- What a step sends. -/
theorem InRange.sends {node : RaftNode} {packet : Packet} (hrange : c.InRange)
    (hid : id ∈ c.members) (hdelivered : ∀ packet ∈ delivered id input, packet ∈ c.network)
    (hsends : (c.node id).Sends env input node packet)
    (hmembers : c'.members = c.members) (hupdate : c'.node = update c.node id node)
    (hremains : (c.node id).Remains node) : c'.PacketInRange packet := by
  have hnode := hrange.nodes id hid
  have hmember := hrange.memberId id hid
  cases hsends with
  | voteRequest => trivial
  | @entries _ dst nextIndex prevLogTerm entries role moves next other hterm hentries =>
    have hvouched : c.Vouched id (c.node id).currentTerm (nextIndex - 1) :=
      ⟨hid, le_rfl, fun _ => ⟨role, RaftLog.le_lastLogIndex_of_getTerm hterm⟩⟩
    refine ⟨?_, fun hzero => ?_, fun entry hentry => hnode.entries entry (hentries hentry)⟩
    · rw [hmember]
      exact hvouched.remains hmembers hupdate hremains
    · change nextIndex - 1 = 0 at hzero
      rw [hzero, hnode.fromStart.getTerm_zero] at hterm
      exact (Option.some.inj hterm).symm
  | vote => trivial
  | @appended _ src request response hhandle =>
    obtain ⟨hvouched, hzero, -⟩ := hrange.packets _ (hdelivered _ rfl)
    obtain ⟨hresponse, hconflict⟩ := RaftNode.conflict_of_handle hhandle
    refine ⟨hresponse ▸ hmember.symm ▸ hmembers ▸ hid, fun conflictIndex hsome => ?_⟩
    obtain ⟨rfl, hterm, hreject⟩ := hconflict conflictIndex hsome
    rw [hterm]
    refine ⟨Nat.pos_of_ne_zero fun hprev => hreject ?_,
      hvouched.remains hmembers hupdate hremains⟩
    -- no log rejects index 0
    have hterm := hzero hprev
    change request.prevLogTerm = 0 at hterm
    unfold RaftNode.LogOk
    rw [hprev, hterm, hnode.fromStart.getTerm_zero]
    exact ⟨Nat.zero_le _, hnode.fromStart.index.le, rfl⟩
  | installed => exact (hrange.packets _ (hdelivered _ rfl)).elim

/-- **The step lemma.** -/
theorem InRange.step {action : Action} (hrange : c.InRange) (hstays : c.StaysInRange action)
    (hstep : c.step action = some c') : c'.InRange := by
  cases action with
  | handle id env input =>
    obtain ⟨hid, network, node, output, hconsume, hhandle, rfl⟩ := step_handle hstep
    have hafter := RaftNode.after_of_handle hhandle
    have hdelivered := mem_of_taken hconsume
    obtain ⟨hnode, hremains⟩ := hrange.after hid hdelivered hstays hafter
    constructor
    case memberId =>
      refine forall_update (fun other node' => node'.memberId = other) hrange.memberId ?_
      rw [RaftNode.memberId_of_transport (RaftNode.transport_of_after hafter)]
      exact hrange.memberId id hid
    case nodes =>
      exact forall_update (fun _ node' => node'.InRange c.members) hrange.nodes hnode
    case packets =>
      intro packet hpacket
      rcases List.mem_append.mp hpacket with hold | hnew
      · exact (hrange.packets packet (mem_of_consume hconsume hold)).remains rfl rfl hremains
      · exact hrange.sends hid hdelivered (RaftNode.sends_of_handle hhandle packet hnew) rfl rfl
          hremains
  | lose packet =>
    obtain ⟨network, hconsume, rfl⟩ := Option.map_eq_some_iff.mp hstep
    refine ⟨hrange.memberId, hrange.nodes, fun packet' hpacket' => ?_⟩
    have hold := hrange.packets packet' (mem_of_consume hconsume hpacket')
    exact hold.remains rfl (update_eq_self packet.dst c.node).symm .refl
  | restart id env input lost => exact hstays.elim

theorem InRange.initial (hinitial : c.Initial) : c.InRange := by
  have hfresh : ∀ id ∈ c.members, (c.node id).memberId = id ∧ (c.node id).InRange c.members := by
    intro id hid
    obtain ⟨env, config, hmember, hpeers, hcreate⟩ := hinitial.created id hid
    rw [create_empty hcreate]
    exact ⟨hmember, ⟨hpeers, ⟨rfl, rfl⟩, rfl, nofun, nofun, nofun, nofun, nofun⟩⟩
  refine ⟨fun id hid => (hfresh id hid).1, fun id hid => (hfresh id hid).2, ?_⟩
  rw [hinitial.network]
  exact fun packet hpacket => absurd hpacket List.not_mem_nil

theorem InRange.callsInRange (hrange : c.InRange) (hid : id ∈ c.members)
    (hdelivered : ∀ packet ∈ delivered id input, packet ∈ c.network)
    (hstays : (c.node id).StaysInRange env input) : (c.node id).CallsInRange env input := by
  have hnode := hrange.nodes id hid
  cases input with
  | heartbeat =>
    intro hrole target htarget _
    obtain ⟨hpos, hle⟩ := hnode.next hrole _ _ (UnorderedMap.mem_pairs.mp htarget)
    refine fun _ => ⟨fun hlast => ?_, RaftNode.isSome_getTerm hnode.fromStart (by omega)⟩
    rw [RaftLog.getEntries, if_pos ⟨hnode.fromStart.index ▸ hpos, hlast⟩]
    rfl
  | deliver src message =>
    cases message with
    | appendEntriesRequest request =>
      intro _
      have hpacket := hrange.packets _ (hdelivered _ rfl)
      exact RaftNode.entriesInRange (hnode.followed).fromStart hpacket.2.2
    | appendEntriesResponse response =>
      intro hconfirms _
      have hpacket := hrange.packets _ (hdelivered _ rfl)
      have hrecorded := RaftNode.recordMatch_inRange hnode hpacket.1 (hstays hconfirms)
      exact RaftNode.applyInRange hnode.fromStart
        (RaftNode.quorumIndex_le (hrecorded.confirmed hconfirms.1))
    | requestVoteRequest request => trivial
    | requestVoteResponse response => trivial
    | installSnapshotRequest request => trivial
    | installSnapshotResponse response => trivial
  | electionTimeout => trivial
  | listDir request => trivial
  | makeDir request => trivial
  | prepareUploadFile request => trivial
  | uploadFile request => trivial
  | prepareDownloadFile request => trivial

end Cluster

/-- **Accesses to the log stay in range**, as long as no member confirms an index past the
end of the leader's log, no leader loses entries to another one of its term, and no
election wraps the term around.  After a confirmation past the end they do not. -/
theorem accessesInRange [Platform] {c c' : Cluster} (hinitial : c.Initial)
    (hrun : Run Cluster.step Cluster.StaysInRange c c') :
    (∀ id ∈ c'.members, (c'.node id).role = .leader →
      ∀ member next, (c'.node id).nextIndex.lookup member = some next →
        1 ≤ next ∧ next ≤ (c'.node id).logs.lastLogIndex + 1) ∧
    (∀ id ∈ c'.members, ∀ env input,
      (∀ packet ∈ Cluster.delivered id input, packet ∈ c'.network) →
      (c'.node id).StaysInRange env input → (c'.node id).CallsInRange env input) ∧
    ∀ id ∈ c'.members, ∀ env src response node output,
      (c'.node id).handle env (.deliver src (.appendEntriesResponse response)) =
        .ok (node, output) →
      (node.role = .leader → ∀ member next, node.nextIndex.lookup member = some next →
        1 ≤ next ∧ next ≤ node.logs.lastLogIndex + 1) →
      (c'.node id).ConfirmsInRange response := by
  have hrange : c'.InRange := hrun.invariant Cluster.InRange (.initial hinitial)
    fun hrange hstays hstep => hrange.step hstays hstep
  refine ⟨fun id hid => (hrange.nodes id hid).next, fun id hid env input hdelivered hstays =>
    hrange.callsInRange hid hdelivered hstays, ?_⟩
  intro id hid env src response node output hhandle hnext
  have hafter := RaftNode.after_of_handle hhandle
  exact RaftNode.confirmsInRange_of_next (hrange.nodes id hid).fromStart hafter hnext

/-! ## A member behind the leader, and one ahead of it -/

/-- A member confirms the last index of its log. -/
def confirm (id term lastLogIndex : ℕ) : Message :=
  .appendEntriesResponse { id := id, term := term, success := true, lastLogIndex := lastLogIndex }

/-- A member with an empty log answers the leader, which takes a command meanwhile. -/
def answerFirst : List Action :=
  electFirst ++ [.handle 1 late .heartbeat,
    .handle 1 late (makeDir "a"),
    .handle 3 late (.deliver 1 (firstHeartbeat 1 1)),
    .handle 1 late (.deliver 3 (confirm 3 1 0))]

theorem accessesInRange_answerFirst :
    ∃ c, @Run _ _ (@Cluster.step plainPlatform) Cluster.StaysInRange threeNodes c ∧
      (c.node 1).role = .leader ∧ (c.node 1).logs.lastLogIndex = 1 ∧
      @RaftNode.CallsInRange plainPlatform late (c.node 1) .heartbeat := by
  obtain ⟨c, hrun, hcheck⟩ := Run.exists_of_exec (@Cluster.step plainPlatform)
    Cluster.StaysInRange threeNodes answerFirst
    (fun c => decide (1 ∈ c.members ∧ (c.node 1).role = .leader ∧
      (c.node 1).logs.lastLogIndex = 1)) (by decide)
  obtain ⟨hmember, hrole, hlast⟩ := of_decide_eq_true hcheck
  exact ⟨c, hrun, hrole, hlast, (@accessesInRange plainPlatform _ _
    (@Cluster.initial_fresh plainPlatform ..) hrun).2.1 1 hmember late .heartbeat nofun trivial⟩

/-- Member 1 took a command in term 1, and member 2 leads term 2 with an empty log. -/
def answerAhead : List Action :=
  electFirst ++ [.handle 1 late (makeDir "a"),
    .handle 2 late (.deliver 1 (voteRequest 1 1)),
    .handle 2 later .electionTimeout,
    .handle 3 later (.deliver 2 (voteRequest 2 2)),
    .handle 2 later (.deliver 3 (vote 3 2)),
    .handle 2 later .heartbeat,
    .handle 1 later (.deliver 2 (firstHeartbeat 2 2)),
    .handle 2 later (.deliver 1 (confirm 1 2 1))]

theorem exists_access_out_of_range :
    @Cluster.Initial plainPlatform threeNodes ∧
      ∃ c, Run (@Cluster.step plainPlatform) (fun _ action => action.restarts = false)
          threeNodes c ∧
        (c.node 2).role = .leader ∧
        (∃ next, (c.node 2).nextIndex.lookup 1 = some next ∧
          (c.node 2).logs.lastLogIndex + 1 < next) ∧
        ¬ @RaftNode.CallsInRange plainPlatform later (c.node 2) .heartbeat := by
  obtain ⟨c, hrun, hcheck⟩ := Run.exists_of_exec (@Cluster.step plainPlatform)
    (fun _ action => action.restarts = false) threeNodes answerAhead
    (fun c => decide ((c.node 2).role = .leader ∧ (c.node 2).nextIndex.lookup 1 = some 2 ∧
      (c.node 2).logs.lastLogIndex + 1 < 2 ∧ ¬ (c.node 2).HeartbeatInRange)) (by decide)
  obtain ⟨hrole, hnext, hlast, hbeat⟩ := of_decide_eq_true hcheck
  exact ⟨@Cluster.initial_fresh plainPlatform .., c, hrun, hrole, ⟨2, hnext, hlast⟩, hbeat⟩

end Vosfs.Raft
