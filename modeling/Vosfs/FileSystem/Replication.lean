import Vosfs.FileSystem.Applying
import Vosfs.Raft.CommitSafety

/-!
# The cluster is one file system

The members of a cluster, with messages that are lost or late and nodes that die and are started
again, are replicas of the sequential file system (`clusterRefines`):

* the common log is the list of commands that are applied anywhere.  It grows only at its end, as
  what was committed once stays committed;
* the position of a member is `last_applied_`, and the tree of the member is the namespace after
  the commands up to there (`Refines.shows`);
* what a client is told of a directory or a file is read off the namespace after some part of the
  log (`Refines.replies`).  It need not be the latest one: a leader does not ask whether it still is
  the leader before it answers.

A step of the cluster is a few steps of the replicas.  Those of one node are split off first: a
handler leaves the tree and what was applied as they are, or it applies the entries that follow
(`executes_of_after`).
-/

namespace Vosfs.Raft

open Consensus Function

/-! ## Steps of a node -/

namespace RaftNode

open StateMachine (SameTree)

variable {env : Env} {node node' node'' : RaftNode} {entries more : List LogEntry}

/-- What the entries make of the state machine. -/
def executed (env : Env) (node : RaftNode) (asLeader : Bool) (entries : List LogEntry) :
    StateMachine :=
  StateMachine.applyAll asLeader env.applyMs node.lastApplied node.stateMachine entries

/-- The entries are applied after those applied before, and nothing else happens to the tree.
Clients are told of these entries only, and those who wait for later ones are left alone. -/
structure Executes (env : Env) (node node' : RaftNode) (entries : List LogEntry) : Prop where
  tree : SameTree node'.stateMachine
    (node.executed env (decide (node'.role = .leader)) entries)
  lastApplied : node'.lastApplied = node.lastApplied + entries.length
  applied : node'.applied = node.applied ++ positions node.lastApplied entries
  commit : entries ≠ [] → node'.lastApplied = node'.commitIndex
  resumed : node'.stateMachine.resumed =
    (node.executed env (decide (node'.role = .leader)) entries).resumed
  slots : StateMachine.Unanswered node'.lastApplied
      (node.executed env (decide (node'.role = .leader)) entries) →
    node'.stateMachine.Unanswered node'.lastApplied

/-- Nothing is applied. -/
theorem Executes.of_sameTree (htree : SameTree node'.stateMachine node.stateMachine)
    (hlast : node'.lastApplied = node.lastApplied) (happlied : node'.applied = node.applied)
    (hresumed : node'.stateMachine.resumed = node.stateMachine.resumed)
    (hslots : node.stateMachine.Unanswered node'.lastApplied →
      node'.stateMachine.Unanswered node'.lastApplied) : Executes env node node' [] where
  tree := htree
  lastApplied := hlast
  applied := happlied.trans (List.append_nil _).symm
  commit hne := absurd rfl hne
  resumed := hresumed
  slots := hslots

theorem Executes.of_eq (hstate : node'.stateMachine = node.stateMachine)
    (hlast : node'.lastApplied = node.lastApplied) (happlied : node'.applied = node.applied) :
    Executes env node node' [] :=
  .of_sameTree (hstate ▸ SameTree.refl _) hlast happlied (hstate ▸ rfl) (hstate ▸ id)

theorem Executes.of_keepsData (hkeeps : KeepsData node node') : Executes env node node' [] :=
  .of_eq hkeeps.stateMachine hkeeps.lastApplied hkeeps.applied

/-- Before it applies the entries, the node does not touch its state machine. -/
theorem Executes.after (hexecutes : Executes env node' node'' entries)
    (hstate : node'.stateMachine = node.stateMachine)
    (hlast : node'.lastApplied = node.lastApplied) (happlied : node'.applied = node.applied) :
    Executes env node node'' entries := by
  have hexecuted : ∀ asLeader, node.executed env asLeader entries =
      node'.executed env asLeader entries := by
    intro asLeader
    rw [executed, executed, hlast, hstate]
  refine ⟨?_, ?_, ?_, hexecutes.commit, ?_, ?_⟩
  · rw [hexecuted]
    exact hexecutes.tree
  · rw [hexecutes.lastApplied, hlast]
  · rw [hexecutes.applied, happlied, hlast]
  · rw [hexecuted]
    exact hexecutes.resumed
  · rw [hexecuted]
    exact hexecutes.slots

/-- A client that begins to wait has a response that fails. -/
theorem Executes.of_appendCommand {command : EntryCommand} {response : PendingResponse}
    (hresponse : response.isOk = false) :
    Executes env node (node.appendCommand command response) [] := by
  refine .of_sameTree (SameTree.of_eq rfl rfl) rfl rfl rfl fun hslots later hlater slot hslot => ?_
  rw [appendCommand, StateMachine.appendRequest, UnorderedMap.lookup_emplace] at hslot
  split at hslot
  · cases hslot
    exact hresponse
  · exact hslots later hlater slot hslot

variable [Platform]

/-- A round applies the next entry. -/
theorem executed_of_applyNext (happly : node.applyNext env = .ok node') :
    ∃ entry, node'.stateMachine = node.stateMachine.apply (decide (node'.role = .leader))
        (env.applyMs (node.lastApplied + 1)) entry ∧
      node'.lastApplied = node.lastApplied + 1 ∧
      node'.applied = node.applied ++ [(node.lastApplied + 1, entry)] ∧
      node'.commitIndex = node.commitIndex := by
  have hrole := (applyNext_keepsRaft happly).role
  obtain ⟨entry, -, hround⟩ := round_of_applyNext happly
  have happlied : (node.applyOne env entry).stateMachine =
      node.stateMachine.apply (decide (node'.role = .leader))
        (env.applyMs (node.lastApplied + 1)) entry := by
    unfold applyOne applyToStateMachine StateMachine.apply
    rw [hrole]
    by_cases hleads : node.role = .leader <;> simp [hleads]
  refine ⟨entry, ?_⟩
  cases hround <;> exact ⟨happlied, rfl, rfl, rfl⟩

theorem executed_of_applyRounds {rounds : ℕ} (happly : applyRounds env rounds node = .ok node') :
    ∃ entries, entries.length = rounds ∧
      node'.stateMachine = node.executed env (decide (node'.role = .leader)) entries ∧
      node'.lastApplied = node.lastApplied + rounds ∧
      node'.applied = node.applied ++ positions node.lastApplied entries ∧
      node'.commitIndex = node.commitIndex := by
  induction rounds generalizing node with
  | zero =>
    cases happly
    exact ⟨[], rfl, rfl, rfl, (List.append_nil _).symm, rfl⟩
  | succ rounds ih =>
    obtain ⟨next, hnext, hrest⟩ := exists_of_applyRounds happly
    obtain ⟨entry, hstate, hlast, happlied, hcommit⟩ := executed_of_applyNext hnext
    obtain ⟨entries, hlength, hstate', hlast', happlied', hcommit'⟩ := ih hrest
    have hrole : next.role = node'.role := (applyRounds_keepsRaft hrest).role.symm
    rw [hrole] at hstate
    refine ⟨entry :: entries, by rw [List.length_cons, hlength], ?_, by omega, ?_,
      hcommit'.trans hcommit⟩
    · rw [hstate', executed, executed, StateMachine.applyAll, ← hstate, hlast]
    · rw [happlied', happlied, hlast, positions, List.append_assoc]
      rfl

theorem MovesCommit.executes (hmoves : MovesCommit env node node') :
    ∃ entries, Executes env node node' entries := by
  cases hmoves with
  | stays same =>
    rw [same]
    exact ⟨[], .of_keepsData .refl⟩
  | moves commitIndex happly =>
    obtain ⟨entries, hlength, hstate, hlast, happlied, hcommit⟩ := executed_of_applyRounds happly
    have hlength : entries.length = commitIndex - node.lastApplied := hlength
    have hlast : node'.lastApplied = node.lastApplied + (commitIndex - node.lastApplied) := hlast
    refine ⟨entries, hstate ▸ SameTree.refl _, hlength ▸ hlast, happlied, fun hne => ?_,
      congrArg _ hstate, hstate ▸ id⟩
    have hpos := List.length_pos_of_ne_nil hne
    have hcommit : node'.commitIndex = commitIndex := hcommit
    omega

theorem executes_afterEntries {request : AppendEntriesRequest}
    (hafter : node.afterEntries env request = .ok node') :
    ∃ entries, Executes env node node' entries := by
  have hfollowed : KeepsData node (node.followed env request) := followed_keepsData
  cases outcome_of_afterEntries hafter with
  | late => exact ⟨[], .of_keepsData .refl⟩
  | rejected => exact ⟨[], .of_keepsData hfollowed⟩
  | @stored stored _ _ hstore hfollow =>
    obtain ⟨entries, hexecutes⟩ := (movesCommit_of_followCommit hfollow).executes
    obtain ⟨_, _, rfl⟩ := storeEntries_shape hstore
    exact ⟨entries, hexecutes.after hfollowed.stateMachine hfollowed.lastApplied hfollowed.applied⟩

theorem executes_handleAppendEntriesResponse {response : AppendEntriesResponse}
    (hafter : node.handleAppendEntriesResponse env response = .ok node') :
    ∃ entries, Executes env node node' entries := by
  cases outcome_of_handleAppendEntriesResponse hafter with
  | ignored => exact ⟨[], .of_keepsData .refl⟩
  | deposed => exact ⟨[], .of_eq rfl rfl rfl⟩
  | rejected => exact ⟨[], .of_eq rfl rfl rfl⟩
  | confirmed _ hadvance =>
    obtain ⟨entries, hexecutes⟩ := (movesCommit_of_advanceCommit hadvance).executes
    exact ⟨entries, hexecutes.after rfl rfl rfl⟩

omit [Platform] in
theorem executes_handleMakeDirRequest {request : MakeDirRequest} :
    Executes env node (node.handleMakeDirRequest env request).1 [] := by
  unfold handleMakeDirRequest
  split
  · exact .of_keepsData .refl
  · exact .of_appendCommand rfl

omit [Platform] in
theorem executes_handleUploadFileRequest {request : UploadFileRequest} :
    Executes env node (node.handleUploadFileRequest env request).1 [] := by
  unfold handleUploadFileRequest
  split
  · exact .of_keepsData .refl
  · exact .of_appendCommand rfl

theorem executes_handlePrepareUploadFileRequest {request : PrepareUploadFileRequest}
    (hafter : (node.handlePrepareUploadFileRequest env request).map Prod.fst = .ok node') :
    Executes env node node' [] := by
  unfold handlePrepareUploadFileRequest at hafter
  split at hafter
  next => cases hafter; exact .of_keepsData .refl
  next =>
    split at hafter
    next => cases hafter
    next hprepare =>
      cases hafter
      obtain ⟨hpending, hresumed⟩ := prepareUploadFile_keepsSlots hprepare
      refine .of_sameTree (StateMachine.prepareUploadFile_sameTree hprepare).symm rfl rfl hresumed
        fun hslots later hlater slot hslot => ?_
      exact hslots later hlater slot (hpending ▸ hslot)

/-- **What a step applies**, unless it receives a part of a snapshot. -/
theorem executes_of_after {input : Input}
    (hinput : ∀ src request, input ≠ .deliver src (.installSnapshotRequest request))
    (hafter : node.after env input = .ok node') : ∃ entries, Executes env node node' entries := by
  cases input with
  | electionTimeout => cases hafter; exact ⟨[], .of_keepsData electionLoop_keepsData⟩
  | heartbeat => exact ⟨[], .of_keepsData (moves_of_heartbeat hafter).keepsData⟩
  | deliver src message =>
    cases message with
    | requestVoteRequest request =>
      cases hafter
      exact ⟨[], .of_keepsData handleRequestVoteRequest_keepsData⟩
    | requestVoteResponse response =>
      cases hafter
      exact ⟨[], .of_keepsData handleRequestVoteResponse_keepsData⟩
    | appendEntriesRequest request => exact executes_afterEntries hafter
    | appendEntriesResponse response => exact executes_handleAppendEntriesResponse hafter
    | installSnapshotRequest request => exact absurd rfl (hinput src request)
    | installSnapshotResponse response =>
      exact ⟨[], .of_keepsData (handleInstallSnapshotResponse_keepsData hafter)⟩
  | listDir request => cases hafter; exact ⟨[], .of_keepsData .refl⟩
  | makeDir request => cases hafter; exact ⟨[], executes_handleMakeDirRequest⟩
  | prepareUploadFile request => exact ⟨[], executes_handlePrepareUploadFileRequest hafter⟩
  | uploadFile request => cases hafter; exact ⟨[], executes_handleUploadFileRequest⟩
  | prepareDownloadFile request => cases hafter; exact ⟨[], .of_keepsData .refl⟩

end RaftNode

/-! ## Answers -/

/-- A reply with `kOk` is what the namespace says. -/
def Answers (ns : Namespace (List BlockInfo)) : Reply → Prop
  | .listDir response => response.statusCode = .ok →
    ns.find response.path = some .directory ∧
      StateMachine.Lists ns response.path response.dirEntries
  | .prepareDownloadFile response => response.statusCode = .ok →
    ∃ kind, ns.find response.remotePath = some kind ∧
      response.blocks = StateMachine.contents kind
  | .prepareUploadFile response => response.statusCode = .ok → ns.find response.remotePath = none
  | _ => True

namespace RaftNode

variable [Platform] {env : Env} {node node' : RaftNode} {ns : Namespace (List BlockInfo)}

omit [Platform] in
theorem refusal_ne_ok {token message : String} {statusCode : StatusCode}
    (hrefusal : node.refusal env token = some (statusCode, message)) : statusCode ≠ .ok := by
  unfold refusal at hrefusal
  split at hrefusal
  next => cases hrefusal; decide
  next =>
    split at hrefusal
    next => cases hrefusal; decide
    next => cases hrefusal

theorem answers_of_handle (h : node.stateMachine.Shows ns) {input : Input} {output : Output}
    (hhandle : node.handle env input = .ok (node', output)) :
    ∀ reply ∈ output.reply, Answers ns reply := by
  have hresponds := h.responds
  intro reply hreply
  cases input with
  | electionTimeout => cases hhandle; cases hreply
  | heartbeat =>
    obtain ⟨_, -, hout⟩ := exists_of_map_eq_ok hhandle
    cases hout
    cases hreply
  | deliver src message =>
    obtain ⟨_, -, hout⟩ := exists_of_map_eq_ok hhandle
    cases hout
    cases hreply
  | listDir request =>
    cases hhandle
    cases hreply
    intro hok
    unfold handleListDirRequest at hok ⊢
    split
    next hrefusal =>
      rw [hrefusal] at hok
      exact absurd hok (refusal_ne_ok hrefusal)
    next hserved =>
      rw [hserved] at hok
      rw [StateMachine.path_of_ls hok]
      exact ⟨(hresponds.ls request).mp hok, hresponds.listing request hok⟩
  | makeDir request =>
    cases hhandle
    obtain ⟨response, -, rfl⟩ := Option.map_eq_some_iff.mp hreply
    trivial
  | prepareUploadFile request =>
    obtain ⟨⟨_, response⟩, hprepare, hout⟩ := exists_of_map_eq_ok hhandle
    cases hout
    cases hreply
    intro hok
    unfold handlePrepareUploadFileRequest at hprepare
    split at hprepare
    next hrefusal =>
      cases hprepare
      exact absurd hok (refusal_ne_ok hrefusal)
    next =>
      split at hprepare
      next => cases hprepare
      next hprepared =>
        cases hprepare
        rw [StateMachine.remotePath_of_prepareUploadFile hprepared]
        exact (hresponds.upload hprepared).mp hok
  | uploadFile request =>
    cases hhandle
    obtain ⟨response, -, rfl⟩ := Option.map_eq_some_iff.mp hreply
    trivial
  | prepareDownloadFile request =>
    cases hhandle
    cases hreply
    intro hok
    unfold handlePrepareDownloadFileRequest at hok ⊢
    split
    next hrefusal =>
      rw [hrefusal] at hok
      exact absurd hok (refusal_ne_ok hrefusal)
    next hserved =>
      rw [hserved] at hok
      rw [StateMachine.remotePath_prepareDownloadFile]
      obtain ⟨kind, hkind⟩ := Option.isSome_iff_exists.mp ((hresponds.download request).mp hok)
      exact ⟨kind, hkind, hresponds.blocks request kind hkind⟩

end RaftNode

/-! ## The relation -/

namespace Cluster

/-- The entries that a step applies find the numbers free that they take. -/
def TakesFreeNumbers [Platform] (c : Cluster) : Action → Prop
  | .handle id env input => ∀ result ∈ ((c.node id).handle env input).toOption,
    StateMachine.NumbersFree (decide (result.1.role = .leader)) env.applyMs (c.node id).lastApplied
      (c.node id).stateMachine
      ((result.1.applied.drop (c.node id).applied.length).map Prod.snd)
  | _ => True

/-- The steps that keep what is committed, and the trees. -/
structure TreesHold [Platform] (c : Cluster) (action : Action) : Prop where
  commits : CommitsHold c action
  numbers : TakesFreeNumbers c action

/-- The command at the index fitted the namespace that was left by those before it, and the
response says so. -/
def Accepted (log : List (Option EntryCommand)) (told : ℕ × PendingResponse) : Prop :=
  ∃ command, 0 < told.1 ∧ log[told.1 - 1]? = some command ∧
    ∃ added ∈ StateMachine.insertionOf command,
      (StateMachine.fileSystem.replay (log.take (told.1 - 1))).Fits added ∧
        told.2.Confirms added

/-- The members are replicas of the file system. -/
structure Refines (c : Cluster) (r : Replicas ℕ (Option EntryCommand)) : Prop where
  position : ∀ m ∈ c.members, r.position m = (c.node m).lastApplied
  shows : ∀ m ∈ c.members,
    (c.node m).stateMachine.Shows (r.view StateMachine.fileSystem m)
  applied : ∀ m ∈ c.members, ∀ p ∈ (c.node m).applied,
    0 < p.1 ∧ r.log[p.1 - 1]? = some p.2.command
  replies : ∀ reply ∈ c.replies, ∃ k ≤ r.log.length,
    Answers (StateMachine.fileSystem.replay (r.log.take k)) reply.2
  slots : ∀ m ∈ c.members, (c.node m).stateMachine.Unanswered (c.node m).lastApplied
  confirmed : ∀ m ∈ c.members, ∀ told ∈ (c.node m).stateMachine.resumed, told.2.isOk = true →
    told.1 ≤ (c.node m).lastApplied ∧ Accepted r.log told

end Cluster

/-- A majority has confirmed the commands of the log. -/
def Backed (members : Finset ℕ) (h : History ℕ LogEntry) (log : List (Option EntryCommand)) :
    Prop :=
  ∀ k command, log[k]? = some command → ∃ T i entry, h.Chosen members T i ∧ k ≤ i ∧
    (h.leaderLog T)[k]? = some entry ∧ entry.command = command

variable {members : Finset ℕ} {h h' : History ℕ LogEntry} {log : List (Option EntryCommand)}

theorem Backed.grow (hbacked : Backed members h log) (hg : Grows h h') (hm : Matching h) :
    Backed members h' log := by
  intro k command hget
  obtain ⟨T, i, entry, hchosen, hle, hentry, hcommand⟩ := hbacked k command hget
  obtain ⟨l, hl⟩ := History.Chosen.exists_leader hm hchosen
  obtain ⟨hlt, rfl⟩ := List.getElem?_eq_some_iff.mp hentry
  exact ⟨T, i, _, hg.chosen hm hchosen, hle, List.prefix_iff_getElem?.mp (hg.leaderLog hl) k hlt,
    hcommand⟩

/-- Where the log has a command, it is that of the entry a member applies. -/
theorem Backed.command_eq (hbacked : Backed members h log) {level : ℕ} {node : ℕ → RaftNode}
    {network : List Packet} (hs : Sim level members node network h) (hlevel : 3 ≤ level)
    {raft : RaftNode} (hcommit : NodeCommit members h raft) {index : ℕ} {entry : LogEntry}
    (hmem : (index, entry) ∈ raft.applied) {command : Option EntryCommand}
    (hget : log[index - 1]? = some command) : command = entry.command := by
  obtain ⟨T, i, found, hchosen, hi, hfound, rfl⟩ := hbacked _ _ hget
  obtain ⟨T', i', hchosen', hpos, hi', hentry⟩ := hcommit.applied index entry hmem
  have hagree := Inherited.chosen_agree (hs.inherited hlevel) hs.election
    (hs.replicated (by omega)).matching hchosen hchosen' (j := index - 1) hi (by omega)
  rw [hfound, hentry] at hagree
  rw [Option.some.inj hagree]

/-- All that is known of a cluster whose steps keep the trees. -/
structure Follows (c : Cluster) (h : History ℕ LogEntry) (r : Replicas ℕ (Option EntryCommand)) :
    Prop where
  sim : Sim 3 c.members c.node c.network h
  backed : Backed c.members h r.log
  covered : ∀ m ∈ c.members, Covered c.members h (c.node m).currentTerm (c.node m).lastApplied
  refines : c.Refines r

/-! ## Steps of the cluster -/

section Steps

variable [Platform] {c c' c'' : Cluster} {r r' : Replicas ℕ (Option EntryCommand)}

omit [Platform] in
/-- The answers from a shorter log are answers from the longer one. -/
theorem exists_answers_of_isPrefix (hpre : r.log <+: r'.log) {reply : Reply}
    (hanswers : ∃ k ≤ r.log.length, Answers (StateMachine.fileSystem.replay (r.log.take k)) reply) :
    ∃ k ≤ r'.log.length, Answers (StateMachine.fileSystem.replay (r'.log.take k)) reply := by
  obtain ⟨k, hle, hreply⟩ := hanswers
  obtain ⟨more, hmore⟩ := hpre
  refine ⟨k, ?_, ?_⟩
  · rw [← hmore, List.length_append]
    omega
  · rwa [← hmore, List.take_append_of_le_length hle]

omit [Platform] in
/-- What the log has stays in it. -/
theorem get_of_isPrefix (hpre : r.log <+: r'.log) {k : ℕ} {command : Option EntryCommand}
    (hget : r.log[k]? = some command) : r'.log[k]? = some command := by
  obtain ⟨hlt, rfl⟩ := List.getElem?_eq_some_iff.mp hget
  exact List.prefix_iff_getElem?.mp hpre k hlt

omit [Platform] in
theorem Cluster.Accepted.of_isPrefix {log log' : List (Option EntryCommand)}
    {told : ℕ × PendingResponse} (haccepted : Cluster.Accepted log told) (hpre : log <+: log') :
    Cluster.Accepted log' told := by
  obtain ⟨command, hpos, hget, hfits⟩ := haccepted
  obtain ⟨more, rfl⟩ := hpre
  have hlt := (List.getElem?_eq_some_iff.mp hget).1
  refine ⟨command, hpos, by rw [List.getElem?_append_left hlt, hget], ?_⟩
  rwa [List.take_append_of_le_length hlt.le]

omit [Platform] in
theorem Cluster.node_afterHandling_self {id : ℕ} {network : List Packet} {node : RaftNode}
    {output : Output} : (c.afterHandling id network node output).node id = node :=
  update_self ..

omit [Platform] in
theorem Cluster.node_afterHandling_of_ne {id m : ℕ} {network : List Packet} {node : RaftNode}
    {output : Output} (hne : m ≠ id) :
    (c.afterHandling id network node output).node m = c.node m :=
  update_of_ne hne ..

omit [Platform] in
/-- Packets of a regular run carry no snapshots. -/
theorem Sim.input_ne_installSnapshot {level : ℕ} (hs : Sim level c.members c.node c.network h)
    {id : ℕ} {input : Input} {network : List Packet}
    (hconsume : Cluster.consume c.network (Cluster.delivered id input) = some network)
    (src : ℕ) (request : InstallSnapshotRequest) :
    input ≠ .deliver src (.installSnapshotRequest request) := by
  rintro rfl
  exact (hs.packets _ (Cluster.consume_some hconsume).1).message

theorem numbersFree_of_executes {id : ℕ} {env : Env} {input : Input} {node : RaftNode}
    {output : Output} {entries : List LogEntry}
    (hfree : c.TakesFreeNumbers (.handle id env input))
    (hhandle : (c.node id).handle env input = .ok (node, output))
    (hexecutes : RaftNode.Executes env (c.node id) node entries) :
    StateMachine.NumbersFree (decide (node.role = .leader)) env.applyMs (c.node id).lastApplied
      (c.node id).stateMachine entries := by
  have hresult := hfree (node, output) (by rw [hhandle]; rfl)
  rwa [hexecutes.applied, List.drop_left, map_snd_positions] at hresult

/-- One member applies entries, and perhaps answers a client. -/
theorem Cluster.Refines.execute (hrefines : c.Refines r) {id : ℕ} (hid : id ∈ c.members)
    {env : Env} {input : Input} {node : RaftNode} {output : Output} {network : List Packet}
    {entries : List LogEntry} (hhandle : (c.node id).handle env input = .ok (node, output))
    (hexecutes : RaftNode.Executes env (c.node id) node entries)
    (horder : StateMachine.InOrder (c.node id).lastApplied entries)
    (hfree : StateMachine.NumbersFree (decide (node.role = .leader)) env.applyMs
      (c.node id).lastApplied (c.node id).stateMachine entries)
    (hadvances : Replicas.Advances id (entries.map LogEntry.command) r r') :
    (c.afterHandling id network node output).Refines r' := by
  have hpre := hadvances.isPrefix
  have hposition := hrefines.position id hid
  have hlast := hexecutes.lastApplied
  have hold : ∀ m ∈ c.members, ∀ told ∈ (c.node m).stateMachine.resumed, told.2.isOk = true →
      told.1 ≤ (c.node m).lastApplied ∧ Accepted r'.log told := fun m hm told htold hok =>
    ⟨(hrefines.confirmed m hm told htold hok).1,
      (hrefines.confirmed m hm told htold hok).2.of_isPrefix hpre⟩
  refine ⟨fun m hm => ?_, fun m hm => ?_, ?_, fun reply hreply => ?_, ?_, ?_⟩
  · by_cases heq : m = id
    · subst heq
      rw [hadvances.position_self, hposition, Cluster.node_afterHandling_self, hlast,
        List.length_map]
    · rw [hadvances.position_of_ne heq, Cluster.node_afterHandling_of_ne heq]
      exact hrefines.position m hm
  · by_cases heq : m = id
    · subst heq
      rw [hadvances.view_self, Cluster.node_afterHandling_self]
      exact ((hrefines.shows m hid).applyAll hfree).congr hexecutes.tree
    · rw [hadvances.view_of_ne heq, Cluster.node_afterHandling_of_ne heq]
      exact hrefines.shows m hm
  · have hold : ∀ m ∈ c.members, ∀ p ∈ (c.node m).applied,
        0 < p.1 ∧ r'.log[p.1 - 1]? = some p.2.command := fun m hm p hp =>
      ⟨(hrefines.applied m hm p hp).1, get_of_isPrefix hpre (hrefines.applied m hm p hp).2⟩
    refine forall_update (fun _ raft => ∀ p ∈ raft.applied,
      0 < p.1 ∧ r'.log[p.1 - 1]? = some p.2.command) hold ?_
    rintro ⟨index, entry⟩ hp
    rw [hexecutes.applied, List.mem_append] at hp
    rcases hp with hp | hp
    · exact hold id hid _ hp
    · obtain ⟨j, rfl, hget⟩ := mem_positions.mp hp
      refine ⟨Nat.succ_pos _, ?_⟩
      rw [Nat.add_sub_cancel, ← hposition]
      exact hadvances.holds (by rw [List.getElem?_map, hget, Option.map_some])
  · rcases List.mem_append.mp hreply with hreply | hreply
    · exact exists_answers_of_isPrefix hpre (hrefines.replies reply hreply)
    · obtain ⟨given, hgiven, rfl⟩ := Option.map_eq_some_iff.mp (Option.mem_toList.mp hreply)
      -- the state before the step answers
      refine exists_answers_of_isPrefix hpre ⟨r.position id, r.within id, ?_⟩
      exact RaftNode.answers_of_handle (hrefines.shows id hid) hhandle given hgiven
  · refine forall_update (fun _ raft => raft.stateMachine.Unanswered raft.lastApplied)
      hrefines.slots (hexecutes.slots ?_)
    rw [hlast]
    exact (hrefines.slots id hid).applyAll horder
  · refine forall_update (fun _ raft => ∀ told ∈ raft.stateMachine.resumed, told.2.isOk = true →
      told.1 ≤ raft.lastApplied ∧ Accepted r'.log told) hold ?_
    intro told htold hok
    rw [hexecutes.resumed] at htold
    rcases (hrefines.shows id hid).confirms_of_applyAll hfree (hrefines.slots id hid) horder htold
      hok with hearlier | ⟨k, entry, hget, hindex, hfits⟩
    · obtain ⟨hle, haccepted⟩ := hold id hid told hearlier hok
      exact ⟨by omega, haccepted⟩
    · have hlt := (List.getElem?_eq_some_iff.mp hget).1
      refine ⟨by omega, entry.command, by omega, ?_, ?_⟩
      · rw [hindex, Nat.add_sub_cancel, ← hposition]
        exact hadvances.holds (by rw [List.getElem?_map, hget, Option.map_some])
      · rw [hindex, Nat.add_sub_cancel, ← hposition,
          hadvances.take_log (by rw [List.length_map]; omega), Machine.replay_append,
          ← List.map_take]
        exact hfits

omit [Platform] in
/-- A member is started again without a snapshot. -/
theorem Cluster.Refines.restart (hrefines : c.Refines r) {id : ℕ} (network : List Packet)
    (hardState : HardState) (disk : Disk Payload) :
    Cluster.Refines { c with
      node := update c.node id ((RaftNode.assemble (c.node id).config none
        RaftNode.newSnapshotter (c.node id).logs.entries hardState disk).withHistoryOf
          (c.node id))
      network := network } (r.reset id) where
  position m hm := by
    change update r.position id 0 m = (update c.node id _ m).lastApplied
    by_cases heq : m = id
    · subst heq
      rw [update_self, update_self]
      rfl
    · rw [update_of_ne heq, update_of_ne heq]
      exact hrefines.position m hm
  shows m hm := by
    change (update c.node id _ m).stateMachine.Shows
      (StateMachine.fileSystem.replay (r.log.take (update r.position id 0 m)))
    by_cases heq : m = id
    · subst heq
      rw [update_self, update_self, List.take_zero]
      exact StateMachine.shows_create _
    · rw [update_of_ne heq, update_of_ne heq]
      exact hrefines.shows m hm
  applied := by
    intro m hm p hp
    change p ∈ (update c.node id _ m).applied at hp
    by_cases heq : m = id
    · subst heq
      rw [update_self] at hp
      exact hrefines.applied m hm p hp
    · rw [update_of_ne heq] at hp
      exact hrefines.applied m hm p hp
  replies := hrefines.replies
  slots := by
    refine forall_update (fun _ raft => raft.stateMachine.Unanswered raft.lastApplied)
      hrefines.slots ?_
    intro later _ slot hslot
    cases hslot
  confirmed := by
    refine forall_update (fun _ raft => ∀ told ∈ raft.stateMachine.resumed, told.2.isOk = true →
      told.1 ≤ raft.lastApplied ∧ Accepted r.log told) hrefines.confirmed ?_
    intro told htold
    cases htold

omit [Platform] in
/-- Terms do not go back, and what is covered stays covered. -/
theorem Sim.covered_grow {level : ℕ} (hs : Sim level c.members c.node c.network h)
    (hs' : Sim level c'.members c'.node c'.network h') (hlevel : 1 ≤ level) (hg : Grows h h')
    (hmembers : c'.members = c.members) {m k : ℕ} (hm : m ∈ c.members)
    (hcovered : Covered c.members h (c.node m).currentTerm k) :
    Covered c.members h' (c'.node m).currentTerm k := by
  refine hcovered.grow hg (hs.replicated hlevel).matching ?_
  rw [← (hs.nodes m hm).votes.term, ← (hs'.nodes m (hmembers ▸ hm)).votes.term]
  exact hg.term m

/-- **The step lemma.**  A step of the cluster is a run of the replicas. -/
theorem Follows.step (hfollows : Follows c h r) {action : Action} (hok : c.TreesHold action)
    (hstep : c.step action = some c') :
    ∃ h' r', Grows h h' ∧ Replicas.Reaches r r' ∧ Follows c' h' r' := by
  obtain ⟨hs, hbacked, hcovered, hrefines⟩ := hfollows
  obtain ⟨h', hg, hs'⟩ := hs.step (Cluster.CommitsHold.regular hok.commits) hstep
  have hmembers := Cluster.members_of_step hstep
  have hbacked' : Backed c.members h' r.log :=
    hbacked.grow hg (hs.replicated (by decide)).matching
  have hcovered' : ∀ m ∈ c.members,
      Covered c.members h' (c'.node m).currentTerm (c.node m).lastApplied := fun m hm =>
    hs.covered_grow hs' (by decide) hg hmembers hm (hcovered m hm)
  cases action with
  | handle id env input =>
    obtain ⟨hid, network, node, output, hconsume, hhandle, rfl⟩ := Cluster.step_handle hstep
    obtain ⟨entries, hexecutes⟩ := RaftNode.executes_of_after
      (hs.input_ne_installSnapshot hconsume) (RaftNode.after_of_handle hhandle)
    have hcommit : NodeCommit c.members h' node := by
      have hnode := hs'.nodes id hid
      rw [Cluster.node_afterHandling_self] at hnode
      exact hnode.commit (by decide)
    have hposition := hrefines.position id hid
    have hmem : ∀ {k entry}, entries[k]? = some entry →
        ((c.node id).lastApplied + k + 1, entry) ∈ node.applied := by
      intro k entry hget
      rw [hexecutes.applied]
      exact List.mem_append_right _ (mem_positions.mpr ⟨k, rfl, hget⟩)
    have horder : StateMachine.InOrder (c.node id).lastApplied entries := by
      intro k entry hget
      obtain ⟨T, i, -, -, -, hlead⟩ := hcommit.applied _ entry (hmem hget)
      exact hs'.numbered (by decide) T _ entry hlead
    obtain ⟨r', hadvances⟩ : ∃ r', Replicas.Advances id (entries.map LogEntry.command) r r' := by
      refine Replicas.exists_advances fun k command found hcommand hfound => ?_
      rw [List.getElem?_map, Option.map_eq_some_iff] at hcommand
      obtain ⟨entry, hget, rfl⟩ := hcommand
      rw [hposition] at hfound
      exact hbacked'.command_eq hs' (by decide) hcommit (hmem hget) hfound
    refine ⟨h', r', hg, hadvances.reaches, hs', fun k command hget => ?_, fun m hm => ?_, ?_⟩
    · rcases hadvances.log hget with hold | ⟨j, rfl, hnew⟩
      · exact hbacked' k command hold
      · rw [List.getElem?_map, Option.map_eq_some_iff] at hnew
        obtain ⟨entry, hentry, rfl⟩ := hnew
        obtain ⟨T, i, hchosen, -, hle, hlead⟩ := hcommit.applied _ entry (hmem hentry)
        rw [hposition]
        exact ⟨T, i, entry, hchosen, by omega, hlead, rfl⟩
    · have hold := hcovered' m hm
      by_cases heq : m = id
      · subst heq
        rw [Cluster.node_afterHandling_self] at hold ⊢
        cases entries with
        | nil =>
          rw [hexecutes.lastApplied]
          exact hold
        | cons entry rest =>
          rw [hexecutes.commit (List.cons_ne_nil _ _)]
          exact hcommit.commit
      · rw [Cluster.node_afterHandling_of_ne heq] at hold ⊢
        exact hold
    · exact hrefines.execute hid hhandle hexecutes horder
        (numbersFree_of_executes hok.numbers hhandle hexecutes) hadvances
  | lose packet =>
    obtain ⟨network, -, rfl⟩ := Option.map_eq_some_iff.mp hstep
    exact ⟨h', r, hg, .refl, hs', hbacked', hcovered', hrefines.position, hrefines.shows,
      hrefines.applied, hrefines.replies, hrefines.slots, hrefines.confirmed⟩
  | restart id env input lost =>
    obtain ⟨hid, network, node, -, hcreate, rfl⟩ := Cluster.step_restart hstep
    obtain ⟨-, hfile, hhard, hentries⟩ := hok.commits.reports.logs.votes.recovers _ rfl
    have hnode := Cluster.create_of_stored hcreate hfile hentries hhard
    have hreset : r.step (.reset id) = some (r.reset id) := rfl
    refine ⟨h', r.reset id, hg, Run.refl.next trivial hreset, hs', hbacked', fun m hm => ?_, ?_⟩
    · have hold := hcovered' m hm
      by_cases heq : m = id
      · subst heq
        simp only [update_self, hnode]
        exact Or.inl rfl
      · simp only [update_of_ne heq] at hold ⊢
        exact hold
    · rw [hnode]
      exact hrefines.restart network _ _

theorem Follows.run (hfollows : Follows c h r) (hrun : Run Cluster.step Cluster.TreesHold c c') :
    ∃ h' r', Grows h h' ∧ Replicas.Reaches r r' ∧ Follows c' h' r' := by
  induction hrun with
  | refl => exact ⟨h, r, Grows.refl, .refl, hfollows⟩
  | next _ hok hstep ih =>
    obtain ⟨h₁, r₁, hg₁, hreaches₁, hfollows₁⟩ := ih
    obtain ⟨h₂, r₂, hg₂, hreaches₂, hfollows₂⟩ := hfollows₁.step hok hstep
    exact ⟨h₂, r₂, hg₁.trans hg₂, hreaches₁.trans hreaches₂, hfollows₂⟩

theorem Follows.initial (hinit : c.Initial) : Follows c History.empty Replicas.start where
  sim := Sim.initial hinit
  backed k command hget := by cases hget
  covered m hm := by
    obtain ⟨env, config, -, -, hcreate⟩ := hinit.created m hm
    rw [Cluster.create_empty hcreate]
    exact Or.inl rfl
  refines := by
    refine ⟨fun m hm => ?_, fun m hm => ?_, fun m hm p hp => ?_, fun reply hreply => ?_,
      fun m hm => ?_, fun m hm told htold => ?_⟩
    case refine_4 =>
      rw [hinit.replies] at hreply
      cases hreply
    all_goals
      obtain ⟨env, config, -, -, hcreate⟩ := hinit.created m hm
      have hnode := Cluster.create_empty hcreate
    case refine_1 =>
      rw [hnode]
      rfl
    case refine_2 =>
      rw [hnode]
      exact StateMachine.shows_create _
    case refine_3 =>
      rw [hnode] at hp
      cases hp
    case refine_5 =>
      rw [hnode]
      intro later _ slot hslot
      cases hslot
    case refine_6 =>
      rw [hnode] at htold
      cases htold

/-- **The members are replicas of one file system**, in every state of a run and in all that
follow it. -/
theorem clusterRefines (hinit : c.Initial) (hrun : Run Cluster.step Cluster.TreesHold c c')
    (hlater : Run Cluster.step Cluster.TreesHold c' c'') :
    ∃ r r', Replicas.Reaches Replicas.start r ∧ Replicas.Reaches r r' ∧ c'.Refines r ∧
      c''.Refines r' := by
  obtain ⟨h, r, -, hreaches, hfollows⟩ := (Follows.initial hinit).run hrun
  obtain ⟨h', r', -, hreaches', hfollows'⟩ := hfollows.run hlater
  exact ⟨r, r', hreaches, hreaches', hfollows.refines, hfollows'.refines⟩

end Steps

/-! ## A directory on two members -/

instance [Platform] {c : Cluster} : ∀ action : Action, Decidable (c.TakesFreeNumbers action)
  | .handle id env input => inferInstanceAs (Decidable (∀ result ∈
      ((c.node id).handle env input).toOption, StateMachine.NumbersFree _ _ _ _ _))
  | .lose _ | .restart _ _ _ _ => inferInstanceAs (Decidable True)

instance [Platform] {c : Cluster} {action : Action} : Decidable (c.TreesHold action) :=
  decidable_of_iff (c.CommitsHold action ∧ c.TakesFreeNumbers action)
    ⟨fun h => ⟨h.1, h.2⟩, fun h => ⟨h.commits, h.numbers⟩⟩

/-- A client lists the root, and member 2 hears that the first entry is committed. -/
def listAndFollow : List Action :=
  [.handle 1 late (.listDir { path := "/" }),
    .handle 1 late .heartbeat,
    .handle 2 late (.deliver 1 (.appendEntriesRequest
      { term := 1, leaderId := 1, prevLogIndex := 1, prevLogTerm := 1, leaderCommit := 1 }))]

theorem clusterRefines_listAndFollow :
    ∃ c c', @Run _ _ (@Cluster.step plainPlatform) (@Cluster.TreesHold plainPlatform) twoNodes c ∧
      @Run _ _ (@Cluster.step plainPlatform) (@Cluster.TreesHold plainPlatform) c c' ∧
      c'.replies.length = 1 ∧ (c'.node 2).lastApplied = 1 ∧
      ∃ r r', Replicas.Reaches Replicas.start r ∧ Replicas.Reaches r r' ∧ c.Refines r ∧
        c'.Refines r' := by
  obtain ⟨c, c', hrun, hlater, hcheck⟩ := Run.exists_later_of_exec (@Cluster.step plainPlatform)
    (@Cluster.TreesHold plainPlatform) (@Cluster.TreesHold plainPlatform)
    twoNodes replicateOne listAndFollow
    (fun _ c' => decide (c'.replies.length = 1 ∧ (c'.node 2).lastApplied = 1)) (by decide)
  obtain ⟨hreplies, hlast⟩ := of_decide_eq_true hcheck
  exact ⟨c, c', hrun, hlater, hreplies, hlast,
    @clusterRefines plainPlatform _ _ _ initial_twoNodes hrun hlater⟩

end Vosfs.Raft
