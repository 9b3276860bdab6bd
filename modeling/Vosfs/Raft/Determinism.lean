import Vosfs.Raft.StateMachine

/-!
# Replicas of the tree

Two replicas start with one tree and apply one list of entries, each as leader or as
follower and at its own clock, while clients prepare uploads on either of them.

* `pathsApplySame`: the copies of `mkdir` and `upload_file` with and without a response
  do the same, exit by exit, so that leaders and followers do.
* `sameTree_apply`: all that an entry does to the tree is to add one inode and its entry
  in a directory, or nothing (`addition`).
* `sameTree_apply_iff`: applied to equal trees, an entry keeps them equal if and only if
  the replicas read one clock where an upload is accepted, and have one counter where a
  directory is created (`Fits`).
* `replicasAgree`: entries of the tree are never changed, so that what differs once
  differs to the end, and the trees end equal if and only if all entries fit.
-/

namespace Vosfs.Raft

namespace StateMachine

variable {sm sm' last last' : StateMachine}

/-- Equal inodes and equal directory entries. -/
structure SameTree (sm sm' : StateMachine) : Prop where
  inodes : UnorderedMap.Same sm.inodes sm'.inodes
  dirEntries : UnorderedMap.Same sm.dirEntries sm'.dirEntries

theorem SameTree.refl (sm : StateMachine) : SameTree sm sm :=
  ⟨UnorderedMap.Same.refl _, UnorderedMap.Same.refl _⟩

theorem SameTree.symm (h : SameTree sm sm') : SameTree sm' sm :=
  ⟨fun key => (h.inodes key).symm, fun key => (h.dirEntries key).symm⟩

theorem SameTree.trans {sm'' : StateMachine} (h : SameTree sm sm') (h' : SameTree sm' sm'') :
    SameTree sm sm'' :=
  ⟨fun key => (h.inodes key).trans (h'.inodes key),
    fun key => (h.dirEntries key).trans (h'.dirEntries key)⟩

theorem SameTree.of_eq (hinodes : sm.inodes = sm'.inodes)
    (hentries : sm.dirEntries = sm'.dirEntries) : SameTree sm sm' :=
  ⟨hinodes ▸ UnorderedMap.Same.refl _, hentries ▸ UnorderedMap.Same.refl _⟩

/-! ## The copies with and without a response -/

theorem mkdirRespond_fst (sm : StateMachine) (request : MakeDirRequest)
    (response : MakeDirResponse) : (sm.mkdirRespond request response).1 = sm.mkdir request := by
  unfold mkdirRespond checkMkdir mkdir
  cases hentry : sm.dirEntries.lookup request.parentPath with
  | none => simp only [hentry]
  | some parent =>
    simp only [hentry]
    cases hinode : sm.inodes.lookup parent.ino with
    | none => rfl
    | some parentInode =>
      dsimp only
      by_cases hdir : (!parentInode.isDir) = true
      · simp only [if_pos hdir]
      · by_cases hname : request.name.isEmpty ∨ '/' ∈ request.name.toList
        · simp only [if_neg hdir, if_pos hname]
        · by_cases hpath : childPath request.parentPath request.name ∈ sm.dirEntries
          · have hpath' := hpath
            unfold childPath at hpath'
            simp only [if_neg hdir, if_neg hname, if_pos hpath, if_pos hpath']
          · have hpath' := hpath
            unfold childPath at hpath'
            simp only [if_neg hdir, if_neg hname, if_neg hpath, if_neg hpath']
            rfl

theorem uploadFileRespond_fst (sm : StateMachine) (currentMs : ℕ) (request : UploadFileRequest)
    (response : UploadFileResponse) :
    (sm.uploadFileRespond currentMs request response).1 = sm.uploadFile currentMs request := by
  unfold uploadFileRespond checkUploadFile uploadFile
  by_cases hexists : request.ino ∈ sm.inodes ∨ request.path ∈ sm.dirEntries
  · simp only [if_pos hexists]
  · simp only [if_neg hexists]
    cases hsplit : splitPath request.path with
    | none => rfl
    | some found =>
      dsimp only
      cases hentry : sm.dirEntries.lookup found.1 with
      | none => rfl
      | some parent =>
        dsimp only
        cases hinode : sm.inodes.lookup parent.ino with
        | none => rfl
        | some parentInode =>
          dsimp only
          by_cases hdir : (!parentInode.isDir) = true
          · simp only [if_pos hdir]
          · by_cases hname : found.2.isEmpty ∨ '/' ∈ found.2.toList
            · simp only [if_neg hdir, if_pos hname]
            · simp only [if_neg hdir, if_neg hname]
              rfl

/-- An entry whose client waits on this node changes, besides, what the client is told. -/
theorem exists_applyEntry_eq (sm : StateMachine) (currentMs : ℕ) (entry : LogEntry) :
    ∃ request response, sm.applyEntry currentMs entry =
      (sm.applyEntryNoResponse currentMs entry).respond entry.index request response := by
  unfold applyEntry applyEntryNoResponse
  rcases entry.command with - | (- | request | request)
  · exact ⟨_, _, rfl⟩
  · exact ⟨_, _, rfl⟩
  · simp only [mkdirRespond_fst]
    exact ⟨_, _, rfl⟩
  · simp only [uploadFileRespond_fst]
    exact ⟨_, _, rfl⟩

/-- **The leader's path and a follower's apply the same.** -/
theorem pathsApplySame (sm : StateMachine) (currentMs : ℕ) (entry : LogEntry) :
    (sm.applyEntry currentMs entry).inodes =
        (sm.applyEntryNoResponse currentMs entry).inodes ∧
      (sm.applyEntry currentMs entry).dirEntries =
        (sm.applyEntryNoResponse currentMs entry).dirEntries ∧
      (sm.applyEntry currentMs entry).nextIno =
        (sm.applyEntryNoResponse currentMs entry).nextIno := by
  obtain ⟨request, response, heq⟩ := sm.exists_applyEntry_eq currentMs entry
  rw [heq]
  exact ⟨rfl, rfl, rfl⟩

/-! ## The checks read the tree only -/

theorem SameTree.checkMkdir (h : SameTree sm sm') (request : MakeDirRequest) :
    sm.checkMkdir request = sm'.checkMkdir request := by
  simp only [StateMachine.checkMkdir, h.dirEntries request.parentPath, h.inodes _,
    h.dirEntries.mem_iff]

theorem SameTree.checkUploadFile (h : SameTree sm sm') (request : UploadFileRequest) :
    sm.checkUploadFile request = sm'.checkUploadFile request := by
  simp only [StateMachine.checkUploadFile, h.dirEntries _, h.inodes _, h.inodes.mem_iff,
    h.dirEntries.mem_iff]

theorem path_of_checkMkdir {request : MakeDirRequest} {parentIno : ℕ} {parentInode : Inode}
    {path : String} (hcheck : sm.checkMkdir request = .ok (parentIno, parentInode, path)) :
    path ∉ sm.dirEntries := by
  unfold StateMachine.checkMkdir at hcheck
  split at hcheck
  next =>
    split at hcheck
    next =>
      split_ifs at hcheck with hdir hname hexists
      cases hcheck
      exact hexists
    next => cases hcheck
  next => cases hcheck

theorem path_eq_of_checkMkdir {request : MakeDirRequest} {parentIno : ℕ} {parentInode : Inode}
    {path : String} (hcheck : sm.checkMkdir request = .ok (parentIno, parentInode, path)) :
    path = childPath request.parentPath request.name := by
  unfold StateMachine.checkMkdir at hcheck
  split at hcheck
  next =>
    split at hcheck
    next =>
      split_ifs at hcheck
      cases hcheck
      rfl
    next => cases hcheck
  next => cases hcheck

theorem path_of_checkUploadFile {request : UploadFileRequest} {found : ℕ × Inode × String}
    (hcheck : sm.checkUploadFile request = .ok found) :
    request.ino ∉ sm.inodes ∧ request.path ∉ sm.dirEntries := by
  unfold StateMachine.checkUploadFile at hcheck
  split_ifs at hcheck with hexists
  exact not_or.mp hexists

/-! ## What an entry adds to the tree -/

/-- A new inode, and its entry in a directory. -/
structure Addition where
  parentIno : ℕ
  parentInode : Inode
  inode : Inode
  entry : DirEntry

/-- What an entry adds, if it passes the checks of its request. -/
def addition (sm : StateMachine) (currentMs : ℕ) (entry : LogEntry) : Option Addition :=
  match entry.command with
  | some (.mkdir request) =>
    match sm.checkMkdir request with
    | .error _ => none
    | .ok (parentIno, parentInode, path) =>
      some
        { parentIno := parentIno
          parentInode := parentInode
          inode := newDirectory sm.nextIno request.timestamp
          entry := newDirectoryEntry sm.nextIno request.name path request.timestamp }
  | some (.uploadFile request) =>
    match sm.checkUploadFile request with
    | .error _ => none
    | .ok (parentIno, parentInode, name) =>
      some
        { parentIno := parentIno
          parentInode := parentInode
          inode := newFile request currentMs
          entry := newFileEntry request name currentMs }
  | _ => none

/-- The state with what is added. -/
def extend (sm : StateMachine) : Option Addition → StateMachine
  | none => sm
  | some added => sm.link added.parentIno added.parentInode added.inode added.entry

theorem SameTree.link (h : SameTree sm sm') (parentIno : ℕ) (parentInode inode : Inode)
    (entry : DirEntry) :
    SameTree (sm.link parentIno parentInode inode entry)
      (sm'.link parentIno parentInode inode entry) :=
  ⟨(h.inodes.insert _ _).emplace _ _, h.dirEntries.emplace _ _⟩

theorem SameTree.extend (h : SameTree sm sm') (added : Option Addition) :
    SameTree (sm.extend added) (sm'.extend added) := by
  cases added with
  | none => exact h
  | some added => exact h.link ..

/-- Applied as leader or as follower. -/
def apply (sm : StateMachine) (asLeader : Bool) (currentMs : ℕ) (entry : LogEntry) :
    StateMachine :=
  if asLeader then sm.applyEntry currentMs entry else sm.applyEntryNoResponse currentMs entry

theorem sameTree_applyEntryNoResponse (sm : StateMachine) (currentMs : ℕ) (entry : LogEntry) :
    SameTree (sm.applyEntryNoResponse currentMs entry)
      (sm.extend (sm.addition currentMs entry)) := by
  unfold applyEntryNoResponse addition
  rcases entry.command with - | (- | request | request)
  · exact SameTree.refl sm
  · exact SameTree.refl sm
  · dsimp only
    rw [← mkdirRespond_fst sm request {}]
    unfold mkdirRespond
    cases sm.checkMkdir request with
    | error message => exact SameTree.refl sm
    | ok found => exact SameTree.of_eq rfl rfl
  · dsimp only
    rw [← uploadFileRespond_fst sm currentMs request {}]
    unfold uploadFileRespond
    cases sm.checkUploadFile request with
    | error message => exact SameTree.refl sm
    | ok found => exact SameTree.of_eq rfl rfl

theorem sameTree_applyEntry (sm : StateMachine) (currentMs : ℕ) (entry : LogEntry) :
    SameTree (sm.applyEntry currentMs entry) (sm.applyEntryNoResponse currentMs entry) := by
  obtain ⟨request, response, heq⟩ := sm.exists_applyEntry_eq currentMs entry
  rw [heq]
  exact SameTree.of_eq rfl rfl

theorem sameTree_apply (sm : StateMachine) (asLeader : Bool) (currentMs : ℕ)
    (entry : LogEntry) :
    SameTree (sm.apply asLeader currentMs entry) (sm.extend (sm.addition currentMs entry)) := by
  unfold apply
  cases asLeader with
  | false => exact sameTree_applyEntryNoResponse sm currentMs entry
  | true =>
    exact (sameTree_applyEntry sm currentMs entry).trans
      (sameTree_applyEntryNoResponse sm currentMs entry)

theorem path_of_addition {currentMs : ℕ} {entry : LogEntry} {added : Addition}
    (hadd : sm.addition currentMs entry = some added) : added.entry.path ∉ sm.dirEntries := by
  unfold addition at hadd
  split at hadd
  next request _ =>
    split at hadd
    next => cases hadd
    next hcheck =>
      cases hadd
      exact path_of_checkMkdir hcheck
  next request _ =>
    split at hadd
    next => cases hadd
    next hcheck =>
      cases hadd
      exact (path_of_checkUploadFile hcheck).2
  next => cases hadd

/-! ## One entry on two replicas -/

/-- The entry creates a directory. -/
def acceptsMkdir (sm : StateMachine) (entry : LogEntry) : Bool :=
  match entry.command with
  | some (.mkdir request) => (sm.checkMkdir request).isOk
  | _ => false

/-- The entry adds a file. -/
def acceptsUploadFile (sm : StateMachine) (entry : LogEntry) : Bool :=
  match entry.command with
  | some (.uploadFile request) => (sm.checkUploadFile request).isOk
  | _ => false

theorem addition_mkdir {request : MakeDirRequest} {parentIno : ℕ} {parentInode : Inode}
    {path : String} {entry : LogEntry} (currentMs : ℕ)
    (hcommand : entry.command = some (.mkdir request))
    (hcheck : sm.checkMkdir request = .ok (parentIno, parentInode, path)) :
    sm.addition currentMs entry =
      some
        { parentIno := parentIno
          parentInode := parentInode
          inode := newDirectory sm.nextIno request.timestamp
          entry := newDirectoryEntry sm.nextIno request.name path request.timestamp } := by
  simp only [addition, hcommand, hcheck]

theorem addition_uploadFile {request : UploadFileRequest} {parentIno : ℕ} {parentInode : Inode}
    {name : String} {entry : LogEntry} (currentMs : ℕ)
    (hcommand : entry.command = some (.uploadFile request))
    (hcheck : sm.checkUploadFile request = .ok (parentIno, parentInode, name)) :
    sm.addition currentMs entry =
      some
        { parentIno := parentIno
          parentInode := parentInode
          inode := newFile request currentMs
          entry := newFileEntry request name currentMs } := by
  simp only [addition, hcommand, hcheck]

theorem exists_of_acceptsMkdir {entry : LogEntry} (haccept : sm.acceptsMkdir entry = true) :
    ∃ request parentIno parentInode path, entry.command = some (.mkdir request) ∧
      sm.checkMkdir request = .ok (parentIno, parentInode, path) := by
  unfold acceptsMkdir at haccept
  split at haccept
  next request hcommand =>
    cases hcheck : sm.checkMkdir request with
    | error message => rw [hcheck] at haccept; cases haccept
    | ok found => exact ⟨request, found.1, found.2.1, found.2.2, hcommand, hcheck⟩
  next => cases haccept

theorem exists_of_acceptsUploadFile {entry : LogEntry}
    (haccept : sm.acceptsUploadFile entry = true) :
    ∃ request parentIno parentInode name, entry.command = some (.uploadFile request) ∧
      sm.checkUploadFile request = .ok (parentIno, parentInode, name) := by
  unfold acceptsUploadFile at haccept
  split at haccept
  next request hcommand =>
    cases hcheck : sm.checkUploadFile request with
    | error message => rw [hcheck] at haccept; cases haccept
    | ok found => exact ⟨request, found.1, found.2.1, found.2.2, hcommand, hcheck⟩
  next => cases haccept

theorem addition_cases (sm : StateMachine) (currentMs : ℕ) (entry : LogEntry) :
    sm.acceptsMkdir entry = true ∨ sm.acceptsUploadFile entry = true ∨
      sm.addition currentMs entry = none := by
  unfold acceptsMkdir acceptsUploadFile addition
  rcases entry.command with - | (- | request | request)
  · exact Or.inr (Or.inr rfl)
  · exact Or.inr (Or.inr rfl)
  · dsimp only
    cases sm.checkMkdir request with
    | error message => exact Or.inr (Or.inr rfl)
    | ok found => exact Or.inl rfl
  · dsimp only
    cases sm.checkUploadFile request with
    | error message => exact Or.inr (Or.inr rfl)
    | ok found => exact Or.inr (Or.inl rfl)

/-- An entry that a replica applies, with its state before and the time it reads. -/
structure Moment where
  before : StateMachine
  currentMs : ℕ
  entry : LogEntry

/-- What two replicas must have in common when they apply one entry. -/
structure Fits (moment moment' : Moment) : Prop where
  counter : moment.before.acceptsMkdir moment.entry = true →
    moment.before.nextIno = moment'.before.nextIno
  clock : moment.before.acceptsUploadFile moment.entry = true →
    moment.currentMs = moment'.currentMs

section OneEntry

variable {currentMs currentMs' : ℕ} {entry : LogEntry}

theorem SameTree.addition_none (h : SameTree sm sm')
    (hnone : sm.addition currentMs entry = none) : sm'.addition currentMs' entry = none := by
  rcases sm'.addition_cases currentMs' entry with haccept | haccept | hnone'
  · obtain ⟨request, parentIno, parentInode, path, hcommand, hcheck⟩ :=
      exists_of_acceptsMkdir haccept
    rw [← h.checkMkdir] at hcheck
    rw [addition_mkdir currentMs hcommand hcheck] at hnone
    cases hnone
  · obtain ⟨request, parentIno, parentInode, name, hcommand, hcheck⟩ :=
      exists_of_acceptsUploadFile haccept
    rw [← h.checkUploadFile] at hcheck
    rw [addition_uploadFile currentMs hcommand hcheck] at hnone
    cases hnone
  · exact hnone'

theorem addition_of_fits (h : SameTree sm sm')
    (hfits : Fits ⟨sm, currentMs, entry⟩ ⟨sm', currentMs', entry⟩) :
    sm.addition currentMs entry = sm'.addition currentMs' entry := by
  rcases sm.addition_cases currentMs entry with haccept | haccept | hnone
  · have hcounter : sm.nextIno = sm'.nextIno := hfits.counter haccept
    obtain ⟨request, parentIno, parentInode, path, hcommand, hcheck⟩ :=
      exists_of_acceptsMkdir haccept
    rw [addition_mkdir _ hcommand hcheck, hcounter,
      addition_mkdir _ hcommand (h.checkMkdir request ▸ hcheck)]
  · have hclock : currentMs = currentMs' := hfits.clock haccept
    obtain ⟨request, parentIno, parentInode, name, hcommand, hcheck⟩ :=
      exists_of_acceptsUploadFile haccept
    rw [addition_uploadFile _ hcommand hcheck, hclock,
      addition_uploadFile _ hcommand (h.checkUploadFile request ▸ hcheck)]
  · rw [hnone, h.addition_none hnone]

/-- Where an entry does not fit, two entries are added at one path. -/
theorem addition_of_not_fits (h : SameTree sm sm')
    (hfits : ¬ Fits ⟨sm, currentMs, entry⟩ ⟨sm', currentMs', entry⟩) :
    ∃ added added', sm.addition currentMs entry = some added ∧
      sm'.addition currentMs' entry = some added' ∧
      added.entry.path = added'.entry.path ∧ added.entry ≠ added'.entry := by
  have hcases : sm.acceptsMkdir entry = true ∧ sm.nextIno ≠ sm'.nextIno ∨
      sm.acceptsUploadFile entry = true ∧ currentMs ≠ currentMs' := by
    by_contra hnot
    push Not at hnot
    exact hfits ⟨hnot.1, hnot.2⟩
  rcases hcases with ⟨haccept, hne⟩ | ⟨haccept, hne⟩
  · obtain ⟨request, parentIno, parentInode, path, hcommand, hcheck⟩ :=
      exists_of_acceptsMkdir haccept
    exact ⟨_, _, addition_mkdir _ hcommand hcheck,
      addition_mkdir _ hcommand (h.checkMkdir request ▸ hcheck), rfl,
      fun heq => hne (congrArg DirEntry.ino heq)⟩
  · obtain ⟨request, parentIno, parentInode, name, hcommand, hcheck⟩ :=
      exists_of_acceptsUploadFile haccept
    exact ⟨_, _, addition_uploadFile _ hcommand hcheck,
      addition_uploadFile _ hcommand (h.checkUploadFile request ▸ hcheck), rfl,
      fun heq => hne (congrArg DirEntry.ctime heq)⟩

end OneEntry

theorem lookup_extend_of_lookup {path : String} {entry : DirEntry} (added : Option Addition)
    (hlookup : sm.dirEntries.lookup path = some entry) :
    (sm.extend added).dirEntries.lookup path = some entry := by
  cases added with
  | none => exact hlookup
  | some added =>
    simp only [extend, link, UnorderedMap.lookup_emplace]
    split
    next hnew =>
      obtain ⟨rfl, hnone⟩ := hnew
      rw [hlookup] at hnone
      cases hnone
    next => exact hlookup

theorem lookup_extend_path {added : Addition} (hfresh : added.entry.path ∉ sm.dirEntries) :
    (sm.extend (some added)).dirEntries.lookup added.entry.path = some added.entry := by
  simp only [extend, link, UnorderedMap.lookup_emplace]
  rw [if_pos ⟨trivial, AList.lookup_eq_none.mpr hfresh⟩]

/-! ## Runs of a replica -/

/-- A step of a replica: it applies an entry, as leader or as follower, registers a
client that waits for an entry, or prepares an upload. -/
inductive ReplicaStep
  | apply (asLeader : Bool) (currentMs : ℕ) (entry : LogEntry)
  | appendRequest (logIndex : ℕ) (request : PendingRequest)
  | prepareUploadFile (request : PrepareUploadFileRequest)

/-- The entry that is applied. -/
def ReplicaStep.entry? : ReplicaStep → Option LogEntry
  | .apply _ _ entry => some entry
  | _ => none

/-- The entries applied. -/
def entries (steps : List ReplicaStep) : List LogEntry :=
  steps.filterMap ReplicaStep.entry?

/-- The application of an entry, as the state finds it. -/
def moment? (sm : StateMachine) : ReplicaStep → Option Moment
  | .apply _ currentMs entry => some ⟨sm, currentMs, entry⟩
  | _ => none

section Runs

variable [Platform]

/-- What a member does with its file system: it applies entries, appends what clients ask for, and
prepares uploads. -/
def replicaStep (sm : StateMachine) : ReplicaStep → Option StateMachine
  | .apply asLeader currentMs entry => some (sm.apply asLeader currentMs entry)
  | .appendRequest logIndex request => some (sm.appendRequest logIndex request)
  | .prepareUploadFile request => (sm.prepareUploadFile request).map Prod.fst

/-- The state after all steps, unless one of them ends the process. -/
def replicate (sm : StateMachine) : List ReplicaStep → Option StateMachine
  | [] => some sm
  | step :: steps => (sm.replicaStep step).bind fun sm => sm.replicate steps

/-- The moments at which entries are applied. -/
def moments (sm : StateMachine) : List ReplicaStep → List Moment
  | [] => []
  | step :: steps =>
    (sm.moment? step).toList ++ ((sm.replicaStep step).map fun sm => sm.moments steps).getD []

variable {steps steps' : List ReplicaStep}

theorem prepareUploadFile_sameTree {request : PrepareUploadFileRequest}
    {response : PrepareUploadFileResponse}
    (hprepare : sm.prepareUploadFile request = some (sm', response)) : SameTree sm sm' := by
  unfold prepareUploadFile at hprepare
  split_ifs at hprepare <;> cases hprepare <;> exact SameTree.of_eq rfl rfl

/-- Between the entries the tree stays as it is. -/
theorem replicaStep_sameTree {step : ReplicaStep} (hstep : sm.replicaStep step = some sm')
    (hquiet : step.entry? = none) : SameTree sm sm' := by
  cases step with
  | apply asLeader currentMs entry => cases hquiet
  | appendRequest logIndex request => cases hstep; exact SameTree.of_eq rfl rfl
  | prepareUploadFile request =>
    obtain ⟨⟨next, response⟩, hprepare, rfl⟩ := Option.map_eq_some_iff.mp hstep
    exact prepareUploadFile_sameTree hprepare

omit [Platform] in
theorem entries_of_quiet {step : ReplicaStep} (hquiet : step.entry? = none) :
    entries (step :: steps) = entries steps :=
  List.filterMap_cons_none hquiet

theorem moments_of_quiet {step : ReplicaStep} (hstep : sm.replicaStep step = some sm')
    (hquiet : step.entry? = none) : sm.moments (step :: steps) = sm'.moments steps := by
  cases step with
  | apply => cases hquiet
  | appendRequest => simp only [moments, moment?, hstep]; rfl
  | prepareUploadFile => simp only [moments, moment?, hstep]; rfl

theorem replicate_of_entries_nil (hrun : sm.replicate steps = some last)
    (hentries : entries steps = []) : SameTree sm last ∧ sm.moments steps = [] := by
  induction steps generalizing sm with
  | nil => cases hrun; exact ⟨SameTree.refl _, rfl⟩
  | cons step steps ih =>
    obtain ⟨next, hstep, hrest⟩ := Option.bind_eq_some_iff.mp hrun
    have hquiet : step.entry? = none := by
      cases step with
      | apply => cases hentries
      | appendRequest => rfl
      | prepareUploadFile => rfl
    rw [entries_of_quiet hquiet] at hentries
    obtain ⟨hsame, hmoments⟩ := ih hrest hentries
    exact ⟨(replicaStep_sameTree hstep hquiet).trans hsame,
      (moments_of_quiet hstep hquiet).trans hmoments⟩

/-- A run up to its first entry. -/
theorem replicate_of_entries_cons {entry : LogEntry} {rest : List LogEntry}
    (hrun : sm.replicate steps = some last) (hentries : entries steps = entry :: rest) :
    ∃ before asLeader currentMs later, SameTree sm before ∧
      (before.apply asLeader currentMs entry).replicate later = some last ∧
      entries later = rest ∧
      sm.moments steps = ⟨before, currentMs, entry⟩ ::
        (before.apply asLeader currentMs entry).moments later := by
  induction steps generalizing sm with
  | nil => cases hentries
  | cons step steps ih =>
    obtain ⟨next, hstep, hrest⟩ := Option.bind_eq_some_iff.mp hrun
    by_cases hquiet : step.entry? = none
    · rw [entries_of_quiet hquiet] at hentries
      obtain ⟨before, asLeader, currentMs, later, hsame, hlater, hmore, hmoments⟩ :=
        ih hrest hentries
      exact ⟨before, asLeader, currentMs, later,
        (replicaStep_sameTree hstep hquiet).trans hsame, hlater, hmore,
        (moments_of_quiet hstep hquiet).trans hmoments⟩
    · cases step with
      | apply asLeader currentMs applied =>
        cases hstep
        cases hentries
        exact ⟨sm, asLeader, currentMs, steps, SameTree.refl sm, hrest, rfl, rfl⟩
      | appendRequest => exact absurd rfl hquiet
      | prepareUploadFile => exact absurd rfl hquiet

/-- An entry of the tree is never changed. -/
theorem lookup_of_replicate {path : String} {found : DirEntry}
    (hrun : sm.replicate steps = some last) (hlookup : sm.dirEntries.lookup path = some found) :
    last.dirEntries.lookup path = some found := by
  induction steps generalizing sm with
  | nil => cases hrun; exact hlookup
  | cons step steps ih =>
    obtain ⟨next, hstep, hrest⟩ := Option.bind_eq_some_iff.mp hrun
    refine ih hrest ?_
    cases step with
    | apply asLeader currentMs entry =>
      cases hstep
      rw [(sameTree_apply sm asLeader currentMs entry).dirEntries path]
      exact lookup_extend_of_lookup _ hlookup
    | appendRequest => rwa [← (replicaStep_sameTree hstep rfl).dirEntries path]
    | prepareUploadFile => rwa [← (replicaStep_sameTree hstep rfl).dirEntries path]

/-- **Replica determinism.** -/
theorem replicasAgree (hsame : SameTree sm sm') (hentries : entries steps = entries steps')
    (hrun : sm.replicate steps = some last) (hrun' : sm'.replicate steps' = some last') :
    SameTree last last' ↔
      ∀ pair ∈ (sm.moments steps).zip (sm'.moments steps'), Fits pair.1 pair.2 := by
  generalize hlist : entries steps = list at hentries
  induction list generalizing sm sm' steps steps' with
  | nil =>
    obtain ⟨hquiet, hmoments⟩ := replicate_of_entries_nil hrun hlist
    obtain ⟨hquiet', -⟩ := replicate_of_entries_nil hrun' hentries.symm
    simp only [hmoments, List.zip_nil_left, List.not_mem_nil, false_implies, implies_true, iff_true]
    exact (hquiet.symm.trans hsame).trans hquiet'
  | cons entry rest ih =>
    obtain ⟨before, asLeader, currentMs, later, hbefore, hlater, hrest, hmoments⟩ :=
      replicate_of_entries_cons hrun hlist
    obtain ⟨before', asLeader', currentMs', later', hbefore', hlater', hrest', hmoments'⟩ :=
      replicate_of_entries_cons hrun' hentries.symm
    have hsame : SameTree before before' := (hbefore.symm.trans hsame).trans hbefore'
    have happly := sameTree_apply before asLeader currentMs entry
    have happly' := sameTree_apply before' asLeader' currentMs' entry
    rw [hmoments, hmoments', List.zip_cons_cons, List.forall_mem_cons]
    by_cases hfits : Fits ⟨before, currentMs, entry⟩ ⟨before', currentMs', entry⟩
    · rw [← addition_of_fits hsame hfits] at happly'
      have hafter := (happly.trans (hsame.extend _)).trans happly'.symm
      rw [ih hafter hlater hlater' hrest hrest'.symm]
      exact (and_iff_right hfits).symm
    · refine ⟨fun hlast => ?_, fun h => absurd h.1 hfits⟩
      obtain ⟨added, added', hadd, hadd', hpath, hne⟩ := addition_of_not_fits hsame hfits
      rw [hadd] at happly
      rw [hadd'] at happly'
      have hfound : last.dirEntries.lookup added.entry.path = some added.entry :=
        lookup_of_replicate hlater (by
          rw [happly.dirEntries]
          exact lookup_extend_path (path_of_addition hadd))
      have hfound' : last'.dirEntries.lookup added'.entry.path = some added'.entry :=
        lookup_of_replicate hlater' (by
          rw [happly'.dirEntries]
          exact lookup_extend_path (path_of_addition hadd'))
      rw [← hpath, ← hlast.dirEntries, hfound] at hfound'
      exact absurd (Option.some.inj hfound') hne

end Runs

/-! ## Replicas with one data node -/

instance {moment moment' : Moment} : Decidable (Fits moment moment') :=
  decidable_of_iff ((_ → _) ∧ (_ → _)) ⟨fun h => ⟨h.1, h.2⟩, fun h => ⟨h.counter, h.clock⟩⟩

/-- An entry that adds the directory `"/a"`. -/
def makeDirectory : LogEntry :=
  { command := some (.mkdir { parentPath := "/", name := "a", timestamp := 7 }) }

/-- An entry that adds a file. -/
def uploadTo (ino : ℕ) (path : String) : LogEntry :=
  { command := some (.uploadFile { ino := ino, path := path }) }

/-- An upload of one block is prepared. -/
def prepareTo (path : String) : ReplicaStep :=
  .prepareUploadFile { remotePath := path, blocks := [{}] }

/-- The leader prepares an upload between two entries. -/
def leaderSteps : List ReplicaStep :=
  [.apply true 40 makeDirectory, prepareTo "/a/f", .apply true 50 (uploadTo 2 "/a/f")]

/-- The follower reads the same time for the uploaded file. -/
def followerSteps : List ReplicaStep :=
  [.apply false 60 makeDirectory, .apply false 50 (uploadTo 2 "/a/f")]

theorem replicasAgree_uploadOnce :
    ∃ last last', @replicate plainPlatform (create [7]) leaderSteps = some last ∧
      @replicate plainPlatform (create [7]) followerSteps = some last' ∧
      SameTree last last' :=
  ⟨_, _, rfl, rfl,
    (@replicasAgree (create [7]) (create [7]) _ _ plainPlatform leaderSteps followerSteps
      (SameTree.refl _) rfl rfl rfl).mpr (by decide)⟩

/-- The same entries are applied, and the trees end different. -/
def Disagree [Platform] (sm : StateMachine) (steps steps' : List ReplicaStep) : Prop :=
  entries steps = entries steps' ∧ ∃ last last', sm.replicate steps = some last ∧
    sm.replicate steps' = some last' ∧ ¬ SameTree last last'

/-- An upload is applied at two times; one replica prepared an upload before a directory
is created. -/
theorem exists_different_replicas :
    @Disagree plainPlatform (create [7]) [.apply true 50 (uploadTo 1 "/f")]
        [.apply false 60 (uploadTo 1 "/f")] ∧
      @Disagree plainPlatform (create [7]) [prepareTo "/f", .apply true 50 makeDirectory]
        [.apply false 50 makeDirectory] := by
  refine ⟨⟨rfl, _, _, rfl, rfl, fun hsame => ?_⟩, rfl, _, _, rfl, rfl, fun hsame => ?_⟩
  · exact absurd (hsame.dirEntries "/f") (by decide)
  · exact absurd (hsame.dirEntries "/a") (by decide)

end StateMachine

end Vosfs.Raft
