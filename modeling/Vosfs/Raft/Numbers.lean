import Vosfs.Raft.Determinism
import Vosfs.Raft.Entries

/-!
# The numbers of inodes

What the operations of the state machine do to the numbers in use and to the counter
`next_ino_`, and what a step of a node does to them (`grows_of_effect`).
-/

namespace Vosfs.Raft

namespace StateMachine

variable {sm sm' sm'' : StateMachine} {asLeader : Bool} {currentMs ino : ℕ} {entry : LogEntry}

/-! ## Applying an entry -/

theorem parent_of_checkMkdir {request : MakeDirRequest} {parentIno : ℕ} {parentInode : Inode}
    {path : String} (hcheck : sm.checkMkdir request = .ok (parentIno, parentInode, path)) :
    sm.inodes.lookup parentIno = some parentInode := by
  unfold StateMachine.checkMkdir at hcheck
  split at hcheck
  next =>
    split at hcheck
    next hinode =>
      split_ifs at hcheck
      cases hcheck
      exact hinode
    next => cases hcheck
  next => cases hcheck

theorem parent_of_checkUploadFile {request : UploadFileRequest} {parentIno : ℕ}
    {parentInode : Inode} {name : String}
    (hcheck : sm.checkUploadFile request = .ok (parentIno, parentInode, name)) :
    sm.inodes.lookup parentIno = some parentInode := by
  unfold StateMachine.checkUploadFile at hcheck
  split_ifs at hcheck
  split at hcheck
  next =>
    split at hcheck
    next =>
      split at hcheck
      next hinode =>
        split_ifs at hcheck
        cases hcheck
        exact hinode
      next => cases hcheck
    next => cases hcheck
  next => cases hcheck

theorem mem_inodes_link {parentIno : ℕ} {parentInode inode : Inode} {dirEntry : DirEntry}
    (hparent : parentIno ∈ sm.inodes) :
    ino ∈ (sm.link parentIno parentInode inode dirEntry).inodes ↔
      ino = inode.ino ∨ ino ∈ sm.inodes := by
  simp only [link, UnorderedMap.mem_emplace, AList.mem_insert]
  constructor
  · rintro (hnew | rfl | hold)
    · exact Or.inl hnew
    · exact Or.inr hparent
    · exact Or.inr hold
  · rintro (hnew | hold)
    · exact Or.inl hnew
    · exact Or.inr (Or.inr hold)

/-- An entry brings the number of the counter, for a directory, or the one it carries. -/
theorem mem_inodes_apply (hmem : ino ∈ (sm.apply asLeader currentMs entry).inodes) :
    ino ∈ sm.inodes ∨ (sm.acceptsMkdir entry = true ∧ ino = sm.nextIno) ∨
      ∃ request, entry.command = some (.uploadFile request) ∧ ino = request.ino := by
  rw [(sameTree_apply sm asLeader currentMs entry).inodes.mem_iff] at hmem
  rcases sm.addition_cases currentMs entry with haccept | haccept | hnone
  · obtain ⟨request, parentIno, parentInode, path, hcommand, hcheck⟩ :=
      exists_of_acceptsMkdir haccept
    have hparent := UnorderedMap.mem_iff_lookup.mpr ⟨_, parent_of_checkMkdir hcheck⟩
    rw [addition_mkdir currentMs hcommand hcheck] at hmem
    rcases (mem_inodes_link hparent).mp hmem with hnew | hold
    · exact Or.inr (Or.inl ⟨haccept, hnew⟩)
    · exact Or.inl hold
  · obtain ⟨request, parentIno, parentInode, name, hcommand, hcheck⟩ :=
      exists_of_acceptsUploadFile haccept
    have hparent := UnorderedMap.mem_iff_lookup.mpr ⟨_, parent_of_checkUploadFile hcheck⟩
    rw [addition_uploadFile currentMs hcommand hcheck] at hmem
    rcases (mem_inodes_link hparent).mp hmem with hnew | hold
    · exact Or.inr (Or.inr ⟨request, hcommand, hnew⟩)
    · exact Or.inl hold
  · rw [hnone] at hmem
    exact Or.inl hmem

theorem nextIno_applyEntryNoResponse :
    (sm.applyEntryNoResponse currentMs entry).nextIno =
      if sm.acceptsMkdir entry then u64 (sm.nextIno + 1) else sm.nextIno := by
  unfold applyEntryNoResponse acceptsMkdir
  rcases entry.command with - | (- | request | request)
  · rfl
  · rfl
  · dsimp only
    rw [← mkdirRespond_fst sm request {}]
    unfold mkdirRespond
    split
    next hcheck => simp [hcheck, Except.isOk, Except.toBool]
    next hcheck =>
      simp only [hcheck, Except.isOk, Except.toBool, ↓reduceIte]
      rfl
  · dsimp only
    rw [← uploadFileRespond_fst sm currentMs request {}]
    unfold uploadFileRespond
    cases sm.checkUploadFile request <;> rfl

theorem nextIno_applyEntry :
    (sm.applyEntry currentMs entry).nextIno =
      (sm.applyEntryNoResponse currentMs entry).nextIno := by
  obtain ⟨request, response, heq⟩ := sm.exists_applyEntry_eq currentMs entry
  rw [heq]
  rfl

/-- Only a new directory advances the counter. -/
theorem nextIno_apply :
    (sm.apply asLeader currentMs entry).nextIno =
      if sm.acceptsMkdir entry then u64 (sm.nextIno + 1) else sm.nextIno := by
  unfold apply
  split
  · rw [nextIno_applyEntry, nextIno_applyEntryNoResponse]
  · exact nextIno_applyEntryNoResponse

/-! ## Loading a snapshot -/

theorem mem_inodes_loadSnapshot {snapshot : Snapshot}
    (hmem : ino ∈ (sm.loadSnapshot snapshot).inodes) :
    ino = 0 ∨ ∃ inode ∈ snapshot.inodes, inode.ino = ino := by
  have hloaded : ∀ {ino}, ino ∈ snapshot.inodes.foldl
      (fun inodes inode => UnorderedMap.emplace inodes inode.ino inode) ∅ →
        ∃ inode ∈ snapshot.inodes, inode.ino = ino := by
    intro ino hmem
    obtain ⟨inode, hlookup⟩ := UnorderedMap.mem_iff_lookup.mp hmem
    rw [UnorderedMap.lookup_foldl_emplace, AList.lookup_empty, Option.none_or] at hlookup
    exact ⟨inode, List.mem_of_find?_eq_some hlookup, by simpa using List.find?_some hlookup⟩
  unfold loadSnapshot at hmem
  simp only at hmem
  split at hmem
  next =>
    rcases UnorderedMap.mem_emplace.mp hmem with hroot | hold
    · exact Or.inl hroot
    · exact Or.inr (hloaded hold)
  next => exact Or.inr (hloaded hmem)

/-- The counter after loading depends on the snapshot only. -/
theorem nextIno_loadSnapshot (sm sm' : StateMachine) (snapshot : Snapshot) :
    (sm.loadSnapshot snapshot).nextIno = (sm'.loadSnapshot snapshot).nextIno := by
  unfold loadSnapshot
  simp only
  split <;> rfl

/-! ## Growing -/

/-- The counter does not go back, and new numbers are below it or within `bound`. -/
structure Grows (bound : ℕ → Prop) (sm sm' : StateMachine) : Prop where
  inodes : ∀ ino ∈ sm'.inodes, ino ∈ sm.inodes ∨ bound ino ∨ ino < sm'.nextIno
  nextIno : sm.nextIno ≤ sm'.nextIno

variable {bound : ℕ → Prop}

theorem Grows.of_eq (hinodes : sm'.inodes = sm.inodes) (hnext : sm'.nextIno = sm.nextIno) :
    Grows bound sm sm' :=
  ⟨fun _ hmem => Or.inl (hinodes ▸ hmem), hnext.ge⟩

theorem Grows.trans (hfirst : Grows bound sm sm') (hsecond : Grows bound sm' sm'') :
    Grows bound sm sm'' where
  inodes ino hmem := by
    rcases hsecond.inodes ino hmem with hold | hnew
    · rcases hfirst.inodes ino hold with hold | hbound | hlt
      · exact Or.inl hold
      · exact Or.inr (Or.inl hbound)
      · exact Or.inr (Or.inr (hlt.trans_le hsecond.nextIno))
    · exact Or.inr hnew
  nextIno := hfirst.nextIno.trans hsecond.nextIno

/-- The file an entry uploads has a number within the bound. -/
def UploadsWithin (bound : ℕ → Prop) (entry : LogEntry) : Prop :=
  ∀ request, entry.command = some (.uploadFile request) → bound request.ino

theorem apply_grows (hfits : sm.nextIno + 1 < 2 ^ 64) (hbound : UploadsWithin bound entry) :
    Grows bound sm (sm.apply asLeader currentMs entry) ∧
      (sm.apply asLeader currentMs entry).nextIno ≤ sm.nextIno + 1 := by
  have hsucc : u64 (sm.nextIno + 1) = sm.nextIno + 1 := Nat.mod_eq_of_lt hfits
  have hnext := @nextIno_apply sm asLeader currentMs entry
  rw [hsucc] at hnext
  refine ⟨⟨fun ino hmem => ?_, ?_⟩, ?_⟩
  · rcases mem_inodes_apply hmem with hold | ⟨haccept, rfl⟩ | ⟨request, hcommand, rfl⟩
    · exact Or.inl hold
    · rw [if_pos haccept] at hnext
      exact Or.inr (Or.inr (by omega))
    · exact Or.inr (Or.inl (hbound request hcommand))
  · split at hnext <;> omega
  · split at hnext <;> omega

end StateMachine

/-! ## Steps of a node -/

namespace RaftNode

open StateMachine (Grows UploadsWithin)

variable {env : Env} {node node' : RaftNode} {bound : ℕ → Prop}

/-- How far the counter can go in a step. -/
def raises (node : RaftNode) : Input → ℕ
  | .deliver _ (.appendEntriesRequest request) => request.leaderCommit
  | .deliver _ (.appendEntriesResponse response) =>
    quorumIndex (node.recordMatch response.id response.lastLogIndex).matchIndex
  | .prepareUploadFile _ => 1
  | _ => 0

theorem getEntry_mem {log : RaftLog} {index : ℕ} {entry : LogEntry}
    (hentry : log.getEntry index = some entry) : entry ∈ log.entries := by
  unfold RaftLog.getEntry at hentry
  split at hentry
  next => exact List.mem_of_getElem? hentry
  next => cases hentry

variable [Platform]

theorem applyNext_stateMachine (happly : node.applyNext env = .ok node') :
    ∃ asLeader currentMs, ∃ entry ∈ node.logs.entries,
      node'.stateMachine = node.stateMachine.apply asLeader currentMs entry := by
  obtain ⟨entry, hentry, hround⟩ := round_of_applyNext happly
  refine ⟨decide (node.role = .leader), env.applyMs (node.lastApplied + 1), entry,
    getEntry_mem hentry, ?_⟩
  have happlied : (node.applyOne env entry).stateMachine =
      node.stateMachine.apply (decide (node.role = .leader))
        (env.applyMs (node.lastApplied + 1)) entry := by
    unfold applyOne applyToStateMachine StateMachine.apply
    by_cases hrole : node.role = .leader <;> simp [hrole]
  cases hround <;> exact happlied

theorem applyRounds_grows {rounds : ℕ} (happly : applyRounds env rounds node = .ok node')
    (hfits : node.stateMachine.nextIno + rounds < 2 ^ 64)
    (hbound : ∀ entry ∈ node.logs.entries, UploadsWithin bound entry) :
    Grows bound node.stateMachine node'.stateMachine := by
  induction rounds generalizing node with
  | zero => cases happly; exact Grows.of_eq rfl rfl
  | succ rounds ih =>
    obtain ⟨next, hnext, happly⟩ := exists_of_applyRounds happly
    obtain ⟨asLeader, currentMs, entry, hmem, hstate⟩ := applyNext_stateMachine hnext
    have hentries := (applyNext_applies hnext).entries
    obtain ⟨hfirst, hle⟩ := @StateMachine.apply_grows node.stateMachine asLeader currentMs
      entry bound (by omega) (hbound entry hmem)
    rw [← hstate] at hfirst hle
    exact hfirst.trans (ih happly (by omega) (hentries ▸ hbound))

theorem applyEntry_grows {commitIndex : ℕ}
    (happly : ({ node with commitIndex := commitIndex } : RaftNode).applyEntry env = .ok node')
    (hfits : node.stateMachine.nextIno + commitIndex < 2 ^ 64)
    (hbound : ∀ entry ∈ node.logs.entries, UploadsWithin bound entry) :
    Grows bound node.stateMachine node'.stateMachine := by
  have hrounds : node.stateMachine.nextIno + (commitIndex - node.lastApplied) < 2 ^ 64 := by omega
  have hgrows := @applyRounds_grows env { node with commitIndex := commitIndex } node' bound _ _
    happly hrounds hbound
  exact hgrows

theorem followCommit_grows {leaderCommit : ℕ}
    (hfollow : node.followCommit env leaderCommit = .ok node')
    (hfits : node.stateMachine.nextIno + leaderCommit < 2 ^ 64)
    (hbound : ∀ entry ∈ node.logs.entries, UploadsWithin bound entry) :
    Grows bound node.stateMachine node'.stateMachine := by
  unfold followCommit at hfollow
  split at hfollow
  next => exact applyEntry_grows hfollow (by omega) hbound
  next => cases hfollow; exact Grows.of_eq rfl rfl

theorem advanceCommit_grows (hadvance : node.advanceCommit env = .ok node')
    (hfits : node.stateMachine.nextIno + quorumIndex node.matchIndex < 2 ^ 64)
    (hbound : ∀ entry ∈ node.logs.entries, UploadsWithin bound entry) :
    Grows bound node.stateMachine node'.stateMachine := by
  unfold advanceCommit at hadvance
  split at hadvance
  next => exact applyEntry_grows hadvance hfits hbound
  next => cases hadvance; exact Grows.of_eq rfl rfl

theorem afterEntries_grows {request : AppendEntriesRequest}
    (hafter : node.afterEntries env request = .ok node')
    (hfits : node.stateMachine.nextIno + request.leaderCommit < 2 ^ 64)
    (hbound : ∀ entry ∈ node.logs.entries ++ request.entries, UploadsWithin bound entry) :
    Grows bound node.stateMachine node'.stateMachine := by
  have hfollowed : KeepsData node (node.followed env request) := followed_keepsData
  cases outcome_of_afterEntries hafter with
  | late => exact Grows.of_eq rfl rfl
  | rejected =>
    rw [hfollowed.stateMachine]
    exact Grows.of_eq rfl rfl
  | @stored stored _ _ hstore hfollow =>
    have hentries := entries_of_storeEntries hstore
    have hsame : stored.stateMachine = node.stateMachine := by
      obtain ⟨_, _, rfl⟩ := storeEntries_shape hstore
      exact hfollowed.stateMachine
    rw [hfollowed.logs] at hentries
    rw [← hsame] at hfits ⊢
    exact followCommit_grows hfollow hfits fun entry hmem => hbound entry (hentries hmem)

theorem prepareUploadFile_grows {sm sm' : StateMachine} {request : PrepareUploadFileRequest}
    {response : PrepareUploadFileResponse} (hfits : sm.nextIno + 1 < 2 ^ 64)
    (hprepare : sm.prepareUploadFile request = some (sm', response)) : Grows bound sm sm' := by
  have hsucc : u64 (sm.nextIno + 1) = sm.nextIno + 1 := Nat.mod_eq_of_lt hfits
  unfold StateMachine.prepareUploadFile at hprepare
  split_ifs at hprepare <;> cases hprepare
  · exact Grows.of_eq rfl rfl
  · exact ⟨fun _ hmem => Or.inl hmem, by simp only [hsucc]; omega⟩

/-- **The numbers after a step**, unless it installs a snapshot. -/
theorem grows_of_effect {input : Input} (heffect : Effect env node input node')
    (hfits : node.stateMachine.nextIno + node.raises input < 2 ^ 64)
    (hbound : ∀ entry ∈ node.logs.entries ++ input.carried, UploadsWithin bound entry) :
    Grows bound node.stateMachine node'.stateMachine ∨
      ∃ src request snapshot, input = .deliver src (.installSnapshotRequest request) ∧
        node.installed request = some snapshot ∧
        node'.stateMachine = node.stateMachine.loadSnapshot snapshot := by
  cases heffect with
  | keeps hkeeps =>
    exact Or.inl (Grows.of_eq (by rw [hkeeps.stateMachine]) (by rw [hkeeps.stateMachine]))
  | entries hafter => exact Or.inl (afterEntries_grows hafter hfits hbound)
  | @commits _ response _ hadvance =>
    have hgrows : Grows bound (node.recordMatch response.id response.lastLogIndex).stateMachine
        node'.stateMachine :=
      advanceCommit_grows hadvance hfits fun entry hmem =>
        hbound entry (List.mem_append_left _ hmem)
    exact Or.inl hgrows
  | installs hinstalled hlogs hstate => exact Or.inr ⟨_, _, _, rfl, hinstalled, hstate⟩
  | appends => exact Or.inl (Grows.of_eq rfl rfl)
  | prepares hserved hprepare => exact Or.inl (prepareUploadFile_grows hfits hprepare)

end RaftNode

end Vosfs.Raft
