import Vosfs.FileSystem.Tree
import Vosfs.Raft.Resumptions

/-!
# Applying entries one after another

The entries that a node applies in a step follow on those it has applied (`applyAll`), and are
commands to the file system in this order, as long as the numbers they take are free
(`NumbersFree`).

Clients that wait for an entry are resumed with a response that says `kOk` only if the command
fits the namespace that the entry finds (`Shows.confirms_of_applyAll`).  A slot is filled with a
response that fails, and stays so until the entry under its index is applied (`Unanswered`).
-/

namespace Vosfs.Raft

/-! ## Positions -/

/-- The entries with their positions, which follow on `index`. -/
def positions (index : ℕ) : List LogEntry → List (ℕ × LogEntry)
  | [] => []
  | entry :: rest => (index + 1, entry) :: positions (index + 1) rest

theorem map_snd_positions (index : ℕ) (entries : List LogEntry) :
    (positions index entries).map Prod.snd = entries := by
  induction entries generalizing index with
  | nil => rfl
  | cons entry rest ih => rw [positions, List.map_cons, ih]

theorem mem_positions {index k : ℕ} {entry : LogEntry} {entries : List LogEntry} :
    (k, entry) ∈ positions index entries ↔
      ∃ j, k = index + j + 1 ∧ entries[j]? = some entry := by
  induction entries generalizing index with
  | nil => simp [positions]
  | cons first rest ih =>
    rw [positions, List.mem_cons, ih, Prod.mk.injEq]
    constructor
    · rintro (⟨rfl, rfl⟩ | ⟨j, rfl, hget⟩)
      · exact ⟨0, rfl, rfl⟩
      · exact ⟨j + 1, by omega, hget⟩
    · rintro ⟨j, rfl, hget⟩
      cases j with
      | zero =>
        cases hget
        exact Or.inl ⟨rfl, rfl⟩
      | succ j => exact Or.inr ⟨j, by omega, hget⟩

/-- The response says that the command was accepted. -/
def PendingResponse.isOk : PendingResponse → Bool
  | .notSet => false
  | .mkdir response => decide (response.statusCode = .ok)
  | .uploadFile response => decide (response.statusCode = .ok)

/-- The response says that this was added. -/
def PendingResponse.Confirms (added : Insertion (List BlockInfo)) : PendingResponse → Prop
  | .notSet => False
  | .mkdir response =>
    response.message = "创建目录成功：" ++ added.path ∧ added.kind = .directory
  | .uploadFile response =>
    response.message = "文件上传成功：" ++ added.path ∧ added.kind.isDirectory = false

namespace StateMachine

variable {sm sm' : StateMachine} {asLeader : Bool} {applyMs : ℕ → ℕ} {index : ℕ}
  {entries more : List LogEntry} {ns : Namespace (List BlockInfo)}

/-! ## Entries in order -/

/-- The entry at an index is applied when the clock shows `applyMs` of the index. -/
def applyAll (asLeader : Bool) (applyMs : ℕ → ℕ) :
    ℕ → StateMachine → List LogEntry → StateMachine
  | _, sm, [] => sm
  | index, sm, entry :: rest =>
    applyAll asLeader applyMs (index + 1) (sm.apply asLeader (applyMs (index + 1)) entry) rest

/-- Each entry finds the number free that it takes. -/
def NumbersFree (asLeader : Bool) (applyMs : ℕ → ℕ) : ℕ → StateMachine → List LogEntry → Prop
  | _, _, [] => True
  | index, sm, entry :: rest =>
    sm.NumberFree entry ∧
      NumbersFree asLeader applyMs (index + 1) (sm.apply asLeader (applyMs (index + 1)) entry) rest

instance decidableNumbersFree (asLeader : Bool) (applyMs : ℕ → ℕ) :
    ∀ (index : ℕ) (sm : StateMachine) (entries : List LogEntry),
      Decidable (NumbersFree asLeader applyMs index sm entries)
  | _, _, [] => inferInstanceAs (Decidable True)
  | index, sm, entry :: rest =>
    have := decidableNumbersFree asLeader applyMs (index + 1)
      (sm.apply asLeader (applyMs (index + 1)) entry) rest
    inferInstanceAs (Decidable (_ ∧ _))

theorem path_of_ls {request : ListDirRequest} (hok : (sm.ls request).statusCode = .ok) :
    (sm.ls request).path = request.path := by
  unfold ls at hok ⊢
  split at hok
  next => cases hok
  next hlookup =>
    split_ifs at hok with hdir
    simp only [if_neg hdir]
    split at hok
    next => cases hok
    next => rfl

theorem remotePath_prepareDownloadFile (sm : StateMachine) (request : PrepareDownloadFileRequest) :
    (sm.prepareDownloadFile request).remotePath = request.remotePath := by
  unfold prepareDownloadFile
  dsimp only
  split
  · rfl
  · split <;> rfl

theorem remotePath_of_prepareUploadFile [Platform] {request : PrepareUploadFileRequest}
    {response : PrepareUploadFileResponse}
    (hprepare : sm.prepareUploadFile request = some (sm', response)) :
    response.remotePath = request.remotePath := by
  unfold prepareUploadFile at hprepare
  split_ifs at hprepare <;> cases hprepare <;> rfl

theorem Shows.applyAll (h : Shows sm ns)
    (hfree : NumbersFree asLeader applyMs index sm entries) :
    Shows (StateMachine.applyAll asLeader applyMs index sm entries)
      ((entries.map LogEntry.command).foldl fileSystem.apply ns) := by
  induction entries generalizing index sm ns with
  | nil => exact h
  | cons entry rest ih => exact ih (h.apply hfree.1 asLeader _) hfree.2

/-! ## Clients that wait -/

/-- Nobody who waits for an entry past the index has a response that says `kOk`. -/
def Unanswered (index : ℕ) (sm : StateMachine) : Prop :=
  ∀ later, index < later → ∀ slot ∈ sm.pendingRequests.lookup later, slot.response.isOk = false

/-- What the leader tells the client of an entry. -/
def responseTo (sm : StateMachine) (currentMs : ℕ) (entry : LogEntry) (pending : PendingRequest) :
    PendingResponse :=
  match entry.command with
  | some (.mkdir request) =>
    .mkdir (sm.mkdirRespond request pending.response.mutableMkdir).2
  | some (.uploadFile request) =>
    .uploadFile (sm.uploadFileRespond currentMs request pending.response.mutableUploadFile).2
  | _ => pending.response

/-- Applied as leader, an entry is applied, and its client is told so. -/
theorem applyEntry_eq_respond (sm : StateMachine) (currentMs : ℕ) (entry : LogEntry) :
    sm.applyEntry currentMs entry =
      let pending := (sm.pendingRequests.lookup entry.index).getD {}
      (sm.applyEntryNoResponse currentMs entry).respond entry.index pending
        (sm.responseTo currentMs entry pending) := by
  unfold applyEntry applyEntryNoResponse responseTo
  rcases entry.command with - | (- | request | request)
  · rfl
  · rfl
  · simp only [mkdirRespond_fst]
  · simp only [uploadFileRespond_fst]

theorem applyEntryNoResponse_keepsSlots (sm : StateMachine) (currentMs : ℕ) (entry : LogEntry) :
    (sm.applyEntryNoResponse currentMs entry).pendingRequests = sm.pendingRequests ∧
      (sm.applyEntryNoResponse currentMs entry).resumed = sm.resumed := by
  unfold applyEntryNoResponse
  rcases entry.command with - | (- | request | request)
  · exact ⟨rfl, rfl⟩
  · exact ⟨rfl, rfl⟩
  · dsimp only
    rw [← mkdirRespond_fst sm request {}]
    unfold mkdirRespond
    split <;> exact ⟨rfl, rfl⟩
  · dsimp only
    rw [← uploadFileRespond_fst sm currentMs request {}]
    unfold uploadFileRespond
    dsimp only
    split <;> exact ⟨rfl, rfl⟩

theorem Shows.confirms_of_mkdirRespond (h : Shows sm ns) {request : MakeDirRequest}
    {response : MakeDirResponse} (hok : (sm.mkdirRespond request response).2.statusCode = .ok) :
    ∃ added ∈ insertionOf (some (.mkdir request)), ns.Fits added ∧
      (PendingResponse.mkdir (sm.mkdirRespond request response).2).Confirms added := by
  unfold mkdirRespond at hok ⊢
  cases hcheck : sm.checkMkdir request with
  | error message =>
    rw [hcheck] at hok
    cases hok
  | ok found =>
    obtain ⟨added, hadded, hfits⟩ := (h.checkMkdir_isOk request).mp (by rw [hcheck]; rfl)
    refine ⟨added, hadded, hfits, ?_⟩
    cases hadded
    obtain ⟨parentIno, parentInode, path⟩ := found
    obtain rfl := path_eq_of_checkMkdir hcheck
    exact ⟨rfl, rfl⟩

theorem Shows.confirms_of_uploadFileRespond (h : Shows sm ns) {request : UploadFileRequest}
    {response : UploadFileResponse} {currentMs : ℕ}
    (hnumber : request.ino ∈ sm.inodes → request.path ∈ sm.dirEntries)
    (hok : (sm.uploadFileRespond currentMs request response).2.statusCode = .ok) :
    ∃ added ∈ insertionOf (some (.uploadFile request)), ns.Fits added ∧
      (PendingResponse.uploadFile
        (sm.uploadFileRespond currentMs request response).2).Confirms added := by
  unfold uploadFileRespond at hok ⊢
  cases hcheck : sm.checkUploadFile request with
  | error message =>
    rw [hcheck] at hok
    cases hok
  | ok found =>
    obtain ⟨added, hadded, hfits⟩ := (h.checkUploadFile_isOk hnumber).mp (by rw [hcheck]; rfl)
    refine ⟨added, hadded, hfits, ?_⟩
    obtain ⟨_, -, rfl⟩ := Option.map_eq_some_iff.mp hadded
    exact ⟨rfl, rfl⟩

/-- A client is told that something was added only if its command fits. -/
theorem Shows.confirms_of_responseTo (h : Shows sm ns) {entry : LogEntry}
    (hnumber : sm.NumberFree entry) {currentMs : ℕ} {pending : PendingRequest}
    (hpending : pending.response.isOk = false)
    (hok : (sm.responseTo currentMs entry pending).isOk = true) :
    ∃ added ∈ insertionOf entry.command, ns.Fits added ∧
      (sm.responseTo currentMs entry pending).Confirms added := by
  have hupload := hnumber.2
  unfold responseTo at hok ⊢
  rcases hcommand : entry.command with - | (- | request | request) <;> rw [hcommand] at hok
  · exact absurd hok (by simp [hpending])
  · exact absurd hok (by simp [hpending])
  · exact h.confirms_of_mkdirRespond (of_decide_eq_true hok)
  · exact h.confirms_of_uploadFileRespond (hupload request (uploadRequest?_eq_some hcommand))
      (of_decide_eq_true hok)

theorem resumed_apply (asLeader : Bool) (currentMs : ℕ) (entry : LogEntry)
    {told : ℕ × PendingResponse} (htold : told ∈ (sm.apply asLeader currentMs entry).resumed) :
    told ∈ sm.resumed ∨ told = (entry.index, sm.responseTo currentMs entry
      ((sm.pendingRequests.lookup entry.index).getD {})) := by
  obtain ⟨-, hresumed⟩ := applyEntryNoResponse_keepsSlots sm currentMs entry
  cases asLeader with
  | false =>
    rw [apply, if_neg (by decide), hresumed] at htold
    exact Or.inl htold
  | true =>
    rw [apply, if_pos rfl, applyEntry_eq_respond] at htold
    simp only [respond, hresumed] at htold
    split at htold
    · rcases List.mem_append.mp htold with hold | hnew
      · exact Or.inl hold
      · exact Or.inr (List.mem_singleton.mp hnew)
    · exact Or.inl htold

theorem pendingRequests_apply (asLeader : Bool) (currentMs : ℕ) (entry : LogEntry) {later : ℕ}
    (hne : later ≠ entry.index) :
    (sm.apply asLeader currentMs entry).pendingRequests.lookup later =
      sm.pendingRequests.lookup later := by
  obtain ⟨hpending, -⟩ := applyEntryNoResponse_keepsSlots sm currentMs entry
  cases asLeader with
  | false => rw [apply, if_neg (by decide), hpending]
  | true =>
    rw [apply, if_pos rfl, applyEntry_eq_respond]
    simp only [respond, hpending]
    exact AList.lookup_insert_ne hne

/-- The entries stand under the indices that follow. -/
def InOrder (index : ℕ) (entries : List LogEntry) : Prop :=
  ∀ k entry, entries[k]? = some entry → entry.index = index + k + 1

theorem InOrder.tail {entry : LogEntry} {rest : List LogEntry}
    (horder : InOrder index (entry :: rest)) : InOrder (index + 1) rest := by
  intro k next hget
  have hindex := horder (k + 1) next hget
  omega

theorem Unanswered.apply (hslots : Unanswered index sm) {entry : LogEntry}
    (hindex : entry.index = index + 1) (asLeader : Bool) (currentMs : ℕ) :
    Unanswered (index + 1) (sm.apply asLeader currentMs entry) := by
  intro later hlater slot hslot
  rw [pendingRequests_apply asLeader currentMs entry (by omega)] at hslot
  exact hslots later (by omega) slot hslot

theorem Unanswered.applyAll (hslots : Unanswered index sm) (horder : InOrder index entries) :
    Unanswered (index + entries.length)
      (StateMachine.applyAll asLeader applyMs index sm entries) := by
  induction entries generalizing index sm with
  | nil => exact hslots
  | cons entry rest ih =>
    have hindex : entry.index = index + 1 := horder 0 entry rfl
    have hrest := ih (hslots.apply hindex asLeader (applyMs (index + 1))) horder.tail
    rw [List.length_cons, ← Nat.add_assoc, Nat.add_right_comm]
    exact hrest

/-- **Who is told that something was added.**  The command fits the namespace that is left by those
before it. -/
theorem Shows.confirms_of_applyAll (h : Shows sm ns)
    (hfree : NumbersFree asLeader applyMs index sm entries) (hslots : Unanswered index sm)
    (horder : InOrder index entries) {told : ℕ × PendingResponse}
    (htold : told ∈ (StateMachine.applyAll asLeader applyMs index sm entries).resumed)
    (hok : told.2.isOk = true) :
    told ∈ sm.resumed ∨ ∃ k entry, entries[k]? = some entry ∧ told.1 = index + k + 1 ∧
      ∃ added ∈ insertionOf entry.command,
        (((entries.take k).map LogEntry.command).foldl fileSystem.apply ns).Fits added ∧
          told.2.Confirms added := by
  induction entries generalizing index sm ns with
  | nil => exact Or.inl htold
  | cons entry rest ih =>
    have hindex : entry.index = index + 1 := horder 0 entry rfl
    have hnext := ih (h.apply hfree.1 asLeader _) hfree.2 (hslots.apply hindex asLeader _)
      horder.tail htold
    rcases hnext with hearlier | ⟨k, later, hget, hposition, hfits⟩
    · rcases resumed_apply asLeader _ entry hearlier with hold | rfl
      · exact Or.inl hold
      · refine Or.inr ⟨0, entry, rfl, hindex, ?_⟩
        refine h.confirms_of_responseTo hfree.1 ?_ hok
        cases hlookup : sm.pendingRequests.lookup entry.index with
        | none => rfl
        | some slot => exact hslots entry.index (by omega) slot hlookup
    · exact Or.inr ⟨k + 1, later, hget, by omega, hfits⟩

end StateMachine

end Vosfs.Raft
