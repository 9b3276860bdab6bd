import Vosfs.Raft.HardStateSafety
import Vosfs.Raft.Steps

/-!
# The stored log

The handler of the leader's requests stores the entries it appends, the handlers of
clients do not.  As long as a node accepts no command as a leader and is not sent
entries again, its log is on the disk whenever a step is done, and it is what the node
starts with in its next life (`logDurable`).

A command that a leader accepted is on no disk (`exists_unstored_command`).

A life that starts from a snapshot cannot apply entries (`RaftNode.CanApply`), hence
takes no other snapshot; this is why the stored log never starts past the one in memory.
-/

namespace Vosfs.Raft

open Persister (Holds getEntryKey hardStateKey)

variable {env : Env} {node node' : RaftNode} {disk disk' : Disk Payload}

namespace RaftNode

/-- Loading what is stored past the snapshot gives the log in memory. -/
def LogStored (node : RaftNode) : Prop :=
  Persister.loadEntries node.disk node.logs.lastIncludedIndex = .ok node.logs.entries

/-- Entries go on from some index of the log on, or from its end, and the log holds no
entry of the term of the first one there. -/
def InOrder (node : RaftNode) (entries : List LogEntry) : Prop :=
  ∀ first ∈ entries.head?,
    (∀ k < entries.length, entries[k]?.map LogEntry.index = some (first.index + k)) ∧
      node.logs.lastIncludedIndex < first.index ∧ first.index ≤ node.logs.lastLogIndex + 1 ∧
      node.logs.getTerm first.index ≠ some first.term

/-- Entries that are accepted are in order. -/
def StoresInOrder (node : RaftNode) (input : Input) : Prop :=
  ∀ request ∈ input.entries?, node.Accepts request → node.InOrder request.entries

/-- A client's command is appended to the leader's log. -/
def TakesCommand (env : Env) (node : RaftNode) : Input → Prop
  | .makeDir request => node.refusal env request.token = none
  | .uploadFile request => node.refusal env request.token = none
  | _ => False

/-- The last chunk of a snapshot arrives. -/
def InstallsSnapshot (node : RaftNode) : Input → Prop
  | .deliver _ (.installSnapshotRequest request) =>
    node.currentTerm ≤ request.term ∧ request.done = true
  | _ => False

instance {entries : List LogEntry} : Decidable (InOrder node entries) :=
  inferInstanceAs (Decidable (∀ _ ∈ entries.head?, (∀ _ < _, _ = _) ∧ _ < _ ∧ _ ≤ _ ∧ _ ≠ _))

instance {input : Input} : Decidable (StoresInOrder node input) :=
  inferInstanceAs (Decidable (∀ _ ∈ input.entries?, Accepts _ _ → InOrder _ _))

instance : ∀ {input : Input}, Decidable (TakesCommand env node input)
  | .makeDir _ | .uploadFile _ => inferInstanceAs (Decidable (_ = none))
  | .electionTimeout | .heartbeat | .deliver _ _ | .listDir _ | .prepareUploadFile _
  | .prepareDownloadFile _ => inferInstanceAs (Decidable False)

instance : ∀ {input : Input}, Decidable (InstallsSnapshot node input)
  | .deliver _ (.installSnapshotRequest _) => inferInstanceAs (Decidable (_ ∧ _))
  | .deliver _ (.requestVoteRequest _) | .deliver _ (.requestVoteResponse _)
  | .deliver _ (.appendEntriesRequest _) | .deliver _ (.appendEntriesResponse _)
  | .deliver _ (.installSnapshotResponse _) | .electionTimeout | .heartbeat | .listDir _
  | .makeDir _ | .prepareUploadFile _ | .uploadFile _ | .prepareDownloadFile _ =>
    inferInstanceAs (Decidable False)

theorem takesCommand_of_accepted {input : Input} {command : EntryCommand}
    (haccepted : node.accepted env input = some command) : node.TakesCommand env input := by
  unfold accepted at haccepted
  split at haccepted
  next =>
    split at haccepted
    next hnone => exact hnone
    next => cases haccepted
  next =>
    split at haccepted
    next hnone => exact hnone
    next => cases haccepted
  next => cases haccepted

theorem installsSnapshot_of_installed [Platform] {src : ℕ} {request : InstallSnapshotRequest}
    {snapshot : Snapshot} (hinstalled : node.installed request = some snapshot) :
    node.InstallsSnapshot (.deliver src (.installSnapshotRequest request)) := by
  unfold installed at hinstalled
  split at hinstalled
  next => cases hinstalled
  next hpassed =>
    rw [not_or, not_lt, Bool.not_eq_false] at hpassed
    exact hpassed

/-! ## The snapshot a node would start from -/

/-- The index of the snapshot that a start finds on the disk. -/
def foundIndex [Platform] (disk : Disk Payload) : ℕ :=
  match findSnapshot {} disk with
  | .ok (snapshot, _) => (snapshot.getD {}).lastIncludedIndex
  | .error _ => 0

theorem findSnapshot_index [Platform] {snapshot : Option Snapshot} {snapshotter : Snapshotter}
    (hfind : findSnapshot env disk = .ok (snapshot, snapshotter)) :
    (snapshot.getD {}).lastIncludedIndex = foundIndex disk := by
  have hsame : findSnapshot {} disk = findSnapshot env disk := by
    have hsize : getFileSize {} disk snapshotFileName = getFileSize env disk snapshotFileName := by
      cases hstatx : env.statxFails with
      | true => simp [findSnapshot, getFileSize, hstatx] at hfind
      | false => simp [getFileSize, hstatx]
    unfold findSnapshot
    rw [hsize]
  unfold foundIndex
  rw [hsame, hfind]

theorem findSnapshot_congr [Platform] (hfile : disk'.file = disk.file) :
    findSnapshot env disk' = findSnapshot env disk := by
  unfold findSnapshot getFileSize Snapshotter.loadSnapshot
  rw [hfile]

/-- No entry is stored in the place of the hard state. -/
def HardStateReadable (disk : Disk Payload) : Prop :=
  ∀ entry, disk.get hardStateKey ≠ some (.entry entry)

/-- From here on the log can be found again. -/
structure Recoverable [Platform] (base : ℕ) (disk : Disk Payload) : Prop where
  holds : ∃ entries, Holds disk base entries
  found : base = 0 ∨ foundIndex disk = base
  hard : HardStateReadable disk

/-! ## Writes that leave the log alone -/

theorem sideWrite_get {fits : Prop} {w : DiskWrite Payload} (hside : SideWrite fits node w)
    (index : ℕ) : (disk.write w).get (getEntryKey index) = disk.get (getEntryKey index) := by
  cases hside with
  | hardState hlater =>
    rw [Disk.get_write_batch]
    refine Disk.applyOps_of_not_mem _ fun hmem => ?_
    rw [List.map_singleton, List.mem_singleton] at hmem
    exact Persister.getEntryKey_ne_hardStateKey index hmem
  | file hfile happly => rw [Disk.get_write, hfile]

theorem sideWrite_readable {fits : Prop} {w : DiskWrite Payload} (hside : SideWrite fits node w)
    (hreadable : HardStateReadable disk) : HardStateReadable (disk.write w) := by
  intro entry hget
  cases hside with
  | @hardState hardState hlater =>
    have hsaved : (disk.write (.batch [(hardStateKey, some (.hardState hardState))])).get
        hardStateKey = some (.hardState hardState) := get_saveHardState disk hardState
    rw [hsaved] at hget
    cases hget
  | file hfile happly =>
    rw [Disk.get_write, hfile] at hget
    exact hreadable entry hget

/-- Where nothing can be applied, no file is written. -/
theorem sideWrite_file {fits : Prop} {w : DiskWrite Payload} (hside : SideWrite fits node w)
    (hstuck : ¬ node.CanApply) : (disk.write w).file = disk.file := by
  cases hside with
  | hardState hlater => exact Disk.file_write_batch _
  | file hfile happly => exact absurd happly hstuck

theorem file_of_wrote_entry {entries : List LogEntry}
    (hwrote : Disk.Wrote (EntryWrite entries) disk disk') :
    disk'.file = disk.file := by
  refine hwrote.invariant (fun disk' => disk'.file = disk.file) rfl fun hfile hentry => ?_
  obtain ⟨ops, rfl, -⟩ := hentry
  rw [Disk.file_write_batch, hfile]

theorem holds_of_side {fits : Prop} {base : ℕ} {entries : List LogEntry}
    (hholds : Holds disk base entries) (hwrote : Disk.Wrote (SideWrite fits node) disk disk') :
    Holds disk' base entries :=
  hwrote.invariant (fun disk => Holds disk base entries) hholds fun hholds hside =>
    hholds.of_get (sideWrite_get hside)

theorem file_of_side {fits : Prop} (hwrote : Disk.Wrote (SideWrite fits node) disk disk')
    (hstuck : ¬ node.CanApply) : disk'.file = disk.file :=
  hwrote.invariant (fun disk' => disk'.file = disk.file) rfl fun hfile hside =>
    (sideWrite_file hside hstuck).trans hfile

/-! ## Steps that leave the log alone -/

/-- The entries are the same; without an entry to apply, so is what the snapshot includes. -/
structure KeepsLog (node node' : RaftNode) : Prop where
  entries : node'.logs.entries = node.logs.entries
  base : node.logs.lastIncludedIndex = 0 → node'.logs.lastIncludedIndex = 0
  stuck : ¬ node.CanApply →
    node'.logs.lastIncludedIndex = node.logs.lastIncludedIndex ∧ ¬ node'.CanApply

theorem KeepsLog.of_eq (hlogs : node'.logs = node.logs)
    (happlied : node'.lastApplied = node.lastApplied) : KeepsLog node node' := by
  refine ⟨by rw [hlogs], by rw [hlogs]; exact id, fun hstuck => ⟨by rw [hlogs], ?_⟩⟩
  unfold CanApply at *
  rwa [hlogs, happlied]

theorem KeepsLog.trans {node'' : RaftNode} (hfirst : KeepsLog node node')
    (hsecond : KeepsLog node' node'') : KeepsLog node node'' where
  entries := hsecond.entries.trans hfirst.entries
  base := hsecond.base ∘ hfirst.base
  stuck hstuck :=
    ⟨(hsecond.stuck (hfirst.stuck hstuck).2).1.trans (hfirst.stuck hstuck).1,
      (hsecond.stuck (hfirst.stuck hstuck).2).2⟩

section Apply

variable [Platform]

theorem applyEntry_keepsLog {commitIndex : ℕ}
    (happly : ({ node with commitIndex := commitIndex } : RaftNode).applyEntry env = .ok node') :
    KeepsLog node node' := by
  have happlies := applyEntry_applies happly
  refine ⟨happlies.entries, happlies.base, fun hstuck => ?_⟩
  have hnot : ¬ ({ node with commitIndex := commitIndex } : RaftNode).CanApply := hstuck
  obtain rfl := (applyRounds_of_not_canApply hnot).2 node' happly
  exact ⟨rfl, hstuck⟩

theorem MovesCommit.keepsLog (hmoves : MovesCommit env node node') : KeepsLog node node' := by
  cases hmoves with
  | stays same => rw [same]; exact KeepsLog.of_eq rfl rfl
  | moves _ happly => exact applyEntry_keepsLog happly

/-- A step that takes no command, stores no entries and installs no snapshot. -/
theorem after_keepsLog {input : Input} (hentries : input.entries? = none)
    (hcommand : ¬ node.TakesCommand env input) (hsnapshot : ¬ node.InstallsSnapshot input)
    (hafter : node.after env input = .ok node') : KeepsLog node node' := by
  cases effect_of_after hafter with
  | keeps hkeeps => exact KeepsLog.of_eq hkeeps.logs hkeeps.lastApplied
  | entries => cases hentries
  | @commits _ response _ hadvance =>
    have hrecorded : KeepsLog node (node.recordMatch response.id response.lastLogIndex) :=
      KeepsLog.of_eq rfl rfl
    exact hrecorded.trans (movesCommit_of_advanceCommit hadvance).keepsLog
  | installs hinstalled => exact absurd (installsSnapshot_of_installed hinstalled) hsnapshot
  | appends haccepted => exact absurd (takesCommand_of_accepted haccepted) hcommand
  | prepares => exact KeepsLog.of_eq rfl rfl

end Apply

/-! ## Storing entries in order -/

/-- What is before the first of the new entries. -/
def front (node : RaftNode) (first : LogEntry) : List LogEntry :=
  node.logs.entries.take (first.index - node.logs.lastIncludedIndex - 1)

theorem logs_truncated {first : LogEntry} (hindex : first.index ≤ node.logs.lastLogIndex + 1) :
    (node.truncated first.index).logs = { node.logs with entries := node.front first } := by
  unfold truncated
  unfold RaftLog.lastLogIndex at *
  split
  next hlt =>
    have hall : node.front first = node.logs.entries := List.take_of_length_le (by omega)
    rw [hall]
  next => rfl

theorem length_front {first : LogEntry} (hindex : first.index ≤ node.logs.lastLogIndex + 1) :
    (node.front first).length = first.index - node.logs.lastIncludedIndex - 1 := by
  unfold RaftLog.lastLogIndex at hindex
  exact List.length_take_of_le (by omega)

theorem truncated_spec {first : LogEntry} (hpast : node.logs.lastIncludedIndex < first.index)
    (hindex : first.index ≤ node.logs.lastLogIndex + 1)
    (hholds : Holds node.disk node.logs.lastIncludedIndex node.logs.entries) :
    Holds (node.truncated first.index).disk node.logs.lastIncludedIndex (node.front first) ∧
      (node.truncated first.index).logs = { node.logs with entries := node.front first } ∧
      (node.truncated first.index).lastApplied = node.lastApplied ∧
      Disk.Wrote (EntryWrite []) node.disk (node.truncated first.index).disk := by
  have hlogs := logs_truncated hindex
  unfold truncated at hlogs ⊢
  split
  next hlt =>
    rw [if_pos hlt] at hlogs
    have hall : node.logs.entries = node.front first := congrArg RaftLog.entries hlogs
    rw [hall] at hholds
    exact ⟨hholds, hlogs, rfl, Disk.Wrote.refl⟩
  next hle =>
    have hfirst : first.index = node.logs.lastIncludedIndex +
        (first.index - node.logs.lastIncludedIndex - 1) + 1 := by omega
    refine ⟨?_, rfl, rfl, entryWrite_truncateEntries _ _ _⟩
    have htruncated := hholds.truncateEntries (first.index - node.logs.lastIncludedIndex - 1)
    rwa [← hfirst] at htruncated

/-- Compared with `before`, only entries were stored and deleted. -/
def OnlyEntries (before : Disk Payload) (base : ℕ) (disk : Disk Payload) : Prop :=
  disk.file = before.file ∧ disk.get hardStateKey = before.get hardStateKey ∧
    ∃ entries, Holds disk base entries

variable [Platform]

omit [Platform] in
/-- Entries in order replace the log from their first index on, in memory and on disk. -/
theorem storeEntries_inOrder {entries : List LogEntry} (horder : node.InOrder entries)
    (hholds : Holds node.disk node.logs.lastIncludedIndex node.logs.entries) :
    ∃ stored, node.storeEntries entries = .ok stored ∧
      Holds stored.disk node.logs.lastIncludedIndex stored.logs.entries ∧
      stored.logs.lastIncludedIndex = node.logs.lastIncludedIndex ∧
      stored.lastApplied = node.lastApplied ∧
      Disk.Throughout (OnlyEntries node.disk node.logs.lastIncludedIndex) node.disk
        stored.disk := by
  cases entries with
  | nil => exact ⟨node, rfl, hholds, rfl, rfl, Disk.Throughout.refl ⟨rfl, rfl, _, hholds⟩⟩
  | cons first rest =>
    -- the log is cut at most once, before the first new entry
    obtain ⟨hnumbers, hpast, hindex, hnew⟩ := horder first rfl
    obtain ⟨htruncated, hlogs, happlied, hwrote⟩ := truncated_spec hpast hindex hholds
    have hlength := length_front hindex
    have hsaved : Holds (Persister.saveEntries (node.truncated first.index).disk (first :: rest))
        node.logs.lastIncludedIndex (node.front first ++ first :: rest) := by
      refine htruncated.saveEntries fun k entry hentry => ?_
      have hnumber := hnumbers k (List.getElem?_eq_some_iff.mp hentry).1
      rw [hentry] at hnumber
      have heq : entry.index = first.index + k := Option.some.inj hnumber
      omega
    have hstore : node.storeEntries (first :: rest) = .ok { node.truncated first.index with
        disk := Persister.saveEntries (node.truncated first.index).disk (first :: rest)
        logs := (node.truncated first.index).logs.appendEntries (first :: rest) } := by
      unfold storeEntries
      rw [dropConflicts_of_new hpast hnew]
      rfl
    refine ⟨_, hstore, ?_, ?_, happlied, ?_⟩
    · rw [hlogs]
      exact hsaved
    · rw [hlogs]
      rfl
    · -- first what is in the way is deleted, then all entries are stored at once
      have hfile := file_of_wrote_entry hwrote
      have hget := get_of_wrote_entry hwrote
      have hsaves := entryWrite_saveEntries (node.truncated first.index).disk (first :: rest)
      have hdropped : OnlyEntries node.disk node.logs.lastIncludedIndex
          (node.truncated first.index).disk := ⟨hfile, hget, _, htruncated⟩
      have hfinal : OnlyEntries node.disk node.logs.lastIncludedIndex
          (Persister.saveEntries (node.truncated first.index).disk (first :: rest)) :=
        ⟨(Disk.file_write_batch _).trans hfile, (get_of_wrote_entry hsaves).trans hget, _, hsaved⟩
      have hfirst : Disk.Throughout (OnlyEntries node.disk node.logs.lastIncludedIndex)
          node.disk (node.truncated first.index).disk := by
        have hstart : OnlyEntries node.disk node.logs.lastIncludedIndex node.disk :=
          ⟨rfl, rfl, _, hholds⟩
        unfold truncated at hdropped ⊢
        split
        next => exact Disk.Throughout.refl hstart
        next hle =>
          rw [if_neg hle] at hdropped
          exact Disk.Throughout.write hstart hdropped
      exact hfirst.trans (Disk.Throughout.write hdropped hfinal)

/-- The stored log is the log in memory, and it starts where the node started. -/
structure LogKept (node : RaftNode) : Prop where
  holds : Holds node.disk node.logs.lastIncludedIndex node.logs.entries
  found : node.logs.lastIncludedIndex = 0 ∨
    (¬ node.CanApply ∧ foundIndex node.disk = node.logs.lastIncludedIndex)
  hard : HardStateReadable node.disk

theorem foundIndex_congr (hfile : disk'.file = disk.file) : foundIndex disk' = foundIndex disk := by
  unfold foundIndex
  rw [findSnapshot_congr hfile]

/-- A step that leaves the log alone. -/
theorem LogKept.side {fits : Prop} (hkept : node.LogKept) (hkeeps : KeepsLog node node')
    (hwrote : Disk.Wrote (SideWrite fits node) node.disk node'.disk) : node'.LogKept := by
  have hholds := holds_of_side hkept.holds hwrote
  have hhard := hwrote.invariant HardStateReadable hkept.hard fun hreadable hside =>
    sideWrite_readable hside hreadable
  rcases hkept.found with hzero | ⟨hstuck, hfound⟩
  · refine ⟨?_, Or.inl (hkeeps.base hzero), hhard⟩
    rw [hkeeps.base hzero, hkeeps.entries, ← hzero]
    exact hholds
  · obtain ⟨hbase, hstuck'⟩ := hkeeps.stuck hstuck
    refine ⟨?_, Or.inr ⟨hstuck', ?_⟩, hhard⟩
    · rw [hbase, hkeeps.entries]
      exact hholds
    · rw [foundIndex_congr (file_of_side hwrote hstuck), hbase, hfound]

theorem LogKept.recoverable (hkept : node.LogKept) :
    Recoverable node.logs.lastIncludedIndex node.disk :=
  ⟨⟨_, hkept.holds⟩, hkept.found.imp_right And.right, hkept.hard⟩

theorem throughout_side {fits : Prop} {base : ℕ} (hstart : Recoverable base disk)
    (hstuck : base = 0 ∨ ¬ node.CanApply)
    (hwrote : Disk.Wrote (SideWrite fits node) disk disk') :
    Disk.Throughout (Recoverable base) disk disk' := by
  refine hwrote.throughout (Recoverable base) hstart fun hinv hside => ?_
  obtain ⟨⟨entries, hholds⟩, hfound, hhard⟩ := hinv
  refine ⟨⟨entries, hholds.of_get (sideWrite_get hside)⟩, ?_, sideWrite_readable hside hhard⟩
  rcases hstuck with hzero | hstuck
  · exact Or.inl hzero
  · exact hfound.imp_right (foundIndex_congr (sideWrite_file hside hstuck)).trans

/-- The three parts of handling a leader's request. -/
theorem LogKept.afterEntries (hkept : node.LogKept) {request : AppendEntriesRequest}
    (horder : node.Accepts request → node.InOrder request.entries) :
    Disk.Throughout (Recoverable node.logs.lastIncludedIndex) node.disk
        (lastNode (node.afterEntries env request)).disk ∧
      ∀ node', node.afterEntries env request = .ok node' → node'.LogKept := by
  have hstuck := hkept.found.imp_right And.left
  have hlogs : (node.followed env request).logs = node.logs := followed_keepsData.logs
  have happlied : (node.followed env request).lastApplied = node.lastApplied :=
    followed_keepsData.lastApplied
  have hwrote : Disk.Wrote (SideWrite False node) node.disk (node.followed env request).disk :=
    wrote_catchUp
  -- the disk passes three stretches: following the leader, storing, following the commit
  have hfirst := throughout_side hkept.recoverable hstuck hwrote
  have hfollowed := hkept.side (KeepsLog.of_eq hlogs happlied) hwrote
  unfold RaftNode.afterEntries
  split
  next =>
    refine ⟨Disk.Throughout.refl hkept.recoverable, fun node' hnode' => ?_⟩
    cases hnode'
    exact hkept
  next hge =>
    split
    next =>
      refine ⟨hfirst, fun node' hnode' => ?_⟩
      cases hnode'
      exact hfollowed
    next hok =>
      have haccepts : node.Accepts request :=
        ⟨not_lt.mp hge, logOk_followed.mp (not_not.mp hok)⟩
      have horder' : (node.followed env request).InOrder request.entries := by
        have := horder haccepts
        unfold InOrder at this ⊢
        rwa [hlogs]
      obtain ⟨stored, hstore, hholds, hbase, happlied', hthrough⟩ :=
        storeEntries_inOrder horder' hfollowed.holds
      have hcan : stored.CanApply ↔ node.CanApply := by
        unfold CanApply
        rw [hbase, happlied', hlogs, happlied]
      have hfound := hfollowed.recoverable.found
      rw [hlogs] at hbase hthrough hfound
      have hsecond : Disk.Throughout (Recoverable node.logs.lastIncludedIndex)
          (node.followed env request).disk stored.disk :=
        hthrough.mono fun disk hdisk =>
          ⟨hdisk.2.2, hfound.imp_right (foundIndex_congr hdisk.1).trans, fun entry => by
            rw [hdisk.2.1]
            exact hfollowed.hard entry⟩
      have hstored : stored.LogKept := by
        refine ⟨by rwa [hbase, ← hlogs], ?_, hsecond.finish.hard⟩
        rw [hbase, hcan]
        rcases hstuck with hzero | hstuck
        · exact Or.inl hzero
        · exact hsecond.finish.found.imp_right fun hfound => ⟨hstuck, hfound⟩
      have hwrote' := @wrote_followCommit env stored False _ request.leaderCommit
      rw [hstore]
      change Disk.Throughout _ _ (lastNode (stored.followCommit env request.leaderCommit)).disk ∧
        ∀ node', stored.followCommit env request.leaderCommit = .ok node' → node'.LogKept
      refine ⟨(hfirst.trans hsecond).trans (throughout_side hsecond.finish ?_ hwrote'),
        fun node' hfollow => ?_⟩
      · rwa [hcan]
      · rw [hfollow] at hwrote'
        exact hstored.side (movesCommit_of_followCommit hfollow).keepsLog hwrote'

/-- A crash at any moment leaves a disk from which the log can be found again. -/
theorem LogKept.diskLeft (hkept : node.LogKept) {input : Input} {lost : ℕ}
    (horder : node.StoresInOrder input) :
    Recoverable node.logs.lastIncludedIndex (node.diskLeft env input lost) := by
  have hthrough : Disk.Throughout (Recoverable node.logs.lastIncludedIndex) node.disk
      (node.diskAfter env input) := by
    rw [diskAfter_eq]
    cases hentries : input.entries? with
    | none =>
      have hwrote : Disk.Wrote (SideWrite False node) node.disk
          (lastNode (node.after env input)).disk := wrote_after hentries fun h => h.elim
      exact throughout_side hkept.recoverable (hkept.found.imp_right And.left) hwrote
    | some request =>
      obtain ⟨src, rfl⟩ := Input.eq_of_entries? hentries
      exact (hkept.afterEntries (horder request rfl)).1
  exact hthrough.cut (le_max_left _ _)

/-- What is found on the disk is the stored log past the snapshot. -/
theorem LogKept.create {config : Config} {base : ℕ} (hrecoverable : Recoverable base disk)
    (hcreate : create env config disk = .ok node) :
    node.LogKept ∧ base ≤ node.logs.lastIncludedIndex ∧
      ∀ entries, Holds disk base entries →
        node.logs.entries = entries.drop (node.logs.lastIncludedIndex - base) := by
  obtain ⟨snapshot, snapshotter, loaded, hardState, disk', hfind, hload, hhard, rfl⟩ :=
    create_spec hcreate
  have hindex := findSnapshot_index hfind
  obtain ⟨⟨entries, hholds⟩, hfound, hreadable⟩ := hrecoverable
  have hbase : base ≤ (snapshot.getD {}).lastIncludedIndex := by
    rcases hfound with hzero | hfound
    · omega
    · rw [hindex, hfound]
  obtain ⟨n, hn⟩ := Nat.exists_eq_add_of_le hbase
  have hloaded : ∀ entries, Holds disk base entries → loaded = entries.drop n := by
    intro entries hholds
    have hdrop := (hholds.drop n).loadEntries
    rw [← hn, hload] at hdrop
    exact Except.ok.inj hdrop
  -- only a missing hard state is written
  have hwrote : Disk.Wrote (fun w => ∃ hardState, w = .batch
      [(hardStateKey, some (.hardState hardState))]) disk disk' := by
    unfold Persister.loadHardState at hhard
    split at hhard
    next => cases hhard; exact Disk.Wrote.write ⟨_, rfl⟩
    next => cases hhard; exact Disk.Wrote.refl
    next => cases hhard
  have hside : ∀ hardState, SideWrite False
      (assemble config snapshot snapshotter loaded hardState disk)
        (.batch [(hardStateKey, some (.hardState hardState))]) :=
    fun hardState => .hardState fun h => h.elim
  have hget : ∀ index, disk'.get (getEntryKey index) = disk.get (getEntryKey index) := by
    intro index
    refine hwrote.invariant
      (fun disk' => disk'.get (getEntryKey index) = disk.get (getEntryKey index)) rfl
      fun hsame hw => ?_
    obtain ⟨hardState, rfl⟩ := hw
    rw [sideWrite_get (hside hardState), hsame]
  have hfile : disk'.file = disk.file := by
    refine hwrote.invariant (fun disk' => disk'.file = disk.file) rfl fun hsame hw => ?_
    obtain ⟨hardState, rfl⟩ := hw
    rw [Disk.file_write_batch, hsame]
  have hhard : HardStateReadable disk' := by
    refine hwrote.invariant HardStateReadable hreadable fun hreadable hw => ?_
    obtain ⟨hardState, rfl⟩ := hw
    exact sideWrite_readable (hside hardState) hreadable
  refine ⟨⟨?_, ?_, hhard⟩, hbase, fun entries hholds => ?_⟩
  · refine Persister.Holds.of_get ?_ hget
    have hdrop := hholds.drop n
    rw [← hn, ← hloaded entries hholds] at hdrop
    exact hdrop
  · by_cases hzero : (snapshot.getD {}).lastIncludedIndex = 0
    · exact Or.inl hzero
    · refine Or.inr ⟨?_, ?_⟩
      · exact fun hcan => hcan.elim hzero (Nat.lt_irrefl 0)
      · exact (foundIndex_congr hfile).trans hindex.symm
  · have hsub : (snapshot.getD {}).lastIncludedIndex - base = n := by omega
    exact (hloaded entries hholds).trans (by rw [← hsub]; rfl)

/-- Without a snapshot on the disk a start succeeds, with the log in memory. -/
theorem LogKept.exists_create (hkept : node.LogKept) (config : Config)
    (hfile : (node.disk.file snapshotFileName).getD [] = []) :
    ∃ node', RaftNode.create {} config node.disk = .ok node' ∧
      node'.logs.lastIncludedIndex = node.logs.lastIncludedIndex ∧
      node'.logs.entries = node.logs.entries := by
  have hfind : findSnapshot {} node.disk = .ok (none, newSnapshotter) := by
    unfold findSnapshot
    rw [getFileSize_of_empty hfile rfl]
    rfl
  have hzero : node.logs.lastIncludedIndex = 0 := by
    rcases hkept.found with hzero | ⟨-, hfound⟩
    · exact hzero
    · rw [← hfound, ← findSnapshot_index hfind]
      rfl
  have hload := hkept.holds.loadEntries
  rw [hzero] at hload
  obtain ⟨hardState, disk, hhard⟩ :
      ∃ hardState disk, Persister.loadHardState node.disk = .ok (hardState, disk) := by
    unfold Persister.loadHardState
    split
    next => exact ⟨_, _, rfl⟩
    next => exact ⟨_, _, rfl⟩
    next entry hentry => exact absurd hentry (hkept.hard entry)
  refine ⟨assemble config none newSnapshotter node.logs.entries hardState disk, ?_, hzero.symm, rfl⟩
  unfold RaftNode.create
  rw [hfind]
  dsimp only [bind, Except.bind, Option.getD_none]
  rw [hload, hhard]
  rfl

end RaftNode

namespace Life

variable [Platform] {life life' : Life}

/-- The condition on an event: entries come in order, no command is taken, and no
snapshot is installed.  In a step that a crash ends, only stored entries matter. -/
def KeepsLog (life : Life) : Event → Prop
  | .handle env input =>
    life.node.StoresInOrder input ∧ ¬ life.node.TakesCommand env input ∧
      ¬ life.node.InstallsSnapshot input
  | .restart _ input _ => life.node.StoresInOrder input

instance : ∀ {event : Event}, Decidable (KeepsLog life event)
  | .handle _ _ => inferInstanceAs (Decidable (_ ∧ ¬ _ ∧ ¬ _))
  | .restart _ _ _ => inferInstanceAs (Decidable (RaftNode.StoresInOrder _ _))

/-- **The step lemma.** -/
theorem logKept_step {event : Event} (hkept : life.node.LogKept) (hkeeps : life.KeepsLog event)
    (hstep : life.step event = some life') : life'.node.LogKept := by
  cases event with
  | handle env input =>
    obtain ⟨horder, hcommand, hsnapshot⟩ := hkeeps
    obtain ⟨node', hafter, rfl⟩ := Life.step_handle hstep
    cases hentries : input.entries? with
    | none =>
      have hwrote : Disk.Wrote (RaftNode.SideWrite False life.node) life.node.disk
          (RaftNode.lastNode (life.node.after env input)).disk :=
        RaftNode.wrote_after hentries fun h => h.elim
      rw [hafter] at hwrote
      exact hkept.side (RaftNode.after_keepsLog hentries hcommand hsnapshot hafter) hwrote
    | some request =>
      obtain ⟨src, rfl⟩ := Input.eq_of_entries? hentries
      exact (hkept.afterEntries (horder request rfl)).2 node' hafter
  | restart env input lost =>
    obtain ⟨node', hcreate, rfl⟩ := Life.step_restart hstep
    exact (RaftNode.LogKept.create (hkept.diskLeft hkeeps) hcreate).1

theorem logKept_run (hkept : life.node.LogKept) (hrun : Run Life.step KeepsLog life life') :
    life'.node.LogKept :=
  hrun.invariant (fun life => life.node.LogKept) hkept fun hkept hkeeps hstep =>
    logKept_step hkept hkeeps hstep

end Life

/-- **The stored log is the log in memory, and the next life starts with it.** -/
theorem logDurable [Platform] {config : Config} {life life' : Life}
    (hcreate : RaftNode.create env config {} = .ok life.node)
    (hrun : Run Life.step Life.KeepsLog life life') :
    life'.node.LogStored ∧
      (∀ env config node, RaftNode.create env config life'.node.disk = .ok node →
        life'.node.logs.lastIncludedIndex ≤ node.logs.lastIncludedIndex ∧
          ∀ index, node.logs.lastIncludedIndex < index →
            node.logs.getEntry index = life'.node.logs.getEntry index) ∧
      ∀ config, (life'.node.disk.file RaftNode.snapshotFileName).getD [] = [] →
        ∃ node, RaftNode.create {} config life'.node.disk = .ok node ∧
          node.logs.lastIncludedIndex = life'.node.logs.lastIncludedIndex ∧
          node.logs.entries = life'.node.logs.entries := by
  have hempty : RaftNode.Recoverable 0 ({} : Disk Payload) :=
    ⟨⟨[], fun k => by simp [Disk.get]⟩, Or.inl rfl, fun entry hget => by simp [Disk.get] at hget⟩
  have hkept := Life.logKept_run (RaftNode.LogKept.create hempty hcreate).1 hrun
  refine ⟨hkept.holds.loadEntries, fun env config node hcreate => ?_, fun config hfile => ?_⟩
  · obtain ⟨-, hbase, hentries⟩ := RaftNode.LogKept.create hkept.recoverable hcreate
    refine ⟨hbase, fun index hindex => ?_⟩
    rw [RaftLog.getEntry, RaftLog.getEntry, if_pos hindex, if_pos (by omega),
      hentries _ hkept.holds, List.getElem?_drop]
    congr 1
    omega
  · exact RaftNode.LogKept.exists_create hkept config hfile

/-! ## Lives that store an entry, or do not -/

/-- An entry that another member sends. -/
def received : LogEntry :=
  { term := 1, index := 1 }

/-- Member 2 sends an entry, and the node is started again. -/
def storeAndRestart : List Event :=
  [.handle late (.deliver 2 (.appendEntriesRequest
      { term := 1, leaderId := 2, entries := [received] })),
    .restart late .heartbeat 0]

theorem logDurable_storeAndRestart :
    ∃ life', @Run _ _ (@Life.step plainPlatform) Life.KeepsLog firstLife life' ∧
      life'.node.logs.entries = [received] ∧ life'.node.LogStored := by
  obtain ⟨life', hrun, hentries⟩ := Run.exists_of_exec (@Life.step plainPlatform)
    Life.KeepsLog firstLife storeAndRestart
    (fun life' => decide (life'.node.logs.entries = [received])) (by decide)
  exact ⟨life', hrun, of_decide_eq_true hentries,
    (@logDurable _ plainPlatform _ _ _
      (@Cluster.create_freshNode plainPlatform memberOfThree) hrun).1⟩

/-- Member 1 becomes the leader, and a client creates a directory. -/
def leadAndMakeDir : List Event :=
  [.handle late .electionTimeout,
    .handle late (.deliver 3 (vote 3 1)),
    .handle late (.makeDir { parentPath := "/", name := "a" })]

theorem exists_unstored_command :
    @RaftNode.create plainPlatform {} memberOfThree {} = .ok firstLife.node ∧
      ∃ life', Run (@Life.step plainPlatform) (fun _ _ => True) firstLife life' ∧
        ¬ life'.node.LogStored := by
  obtain ⟨life', hrun, hcheck⟩ := Run.exists_of_exec (@Life.step plainPlatform)
    (fun _ _ => True) firstLife leadAndMakeDir
    (fun life' => decide (Persister.loadEntries life'.node.disk
      life'.node.logs.lastIncludedIndex ≠ .ok life'.node.logs.entries)) (by decide)
  have hlost : Persister.loadEntries life'.node.disk life'.node.logs.lastIncludedIndex ≠
      .ok life'.node.logs.entries := of_decide_eq_true hcheck
  exact ⟨@Cluster.create_freshNode plainPlatform memberOfThree, life', hrun, hlost⟩

end Vosfs.Raft
