import Vosfs.Auth.Accounts

/-!
# What the answers say

A registration is answered `kOk` exactly if it inserted its row, whatever ran between its query
and its insertion: the column is unique, and the insertion fails if the name was taken in the
meantime.  So of several registrations of a free name one is answered `kOk`
(`Ledger.Counts`).

A deletion is answered `kOk` whenever its statement was executed, even if it found no row.
Answers say what was done exactly if no deletion misses (`accountsReport`).
-/

namespace Vosfs.Auth

open Raft (StatusCode)

namespace Accounts

variable [Platform] {s s' start : Accounts} {action : AccountAction}

/-- The status of the request that is answered in this critical section, if one is. -/
def answer (s : Accounts) : AccountAction → Option StatusCode
  | .registerUser io request =>
    match handleRegisterUserRequest s.user io request with
    | .error response => some response.statusCode
    | .ok _ => none
  | .insertUser io _ newUser => some (insertUser s.user io newUser).2.statusCode
  | .deleteUser io request => some (handleDeleteUserRequest s.user io request).2.statusCode
  | _ => none

/-- The registration that the critical section belongs to. -/
def registration : AccountAction → Option RegisterUserRequest
  | .registerUser _ request => some request
  | .insertUser _ request _ => some request
  | _ => none

/-- The answer says what the request did in this critical section.  The first section of a
registration changes nothing, also where it gives no answer yet (`queried`). -/
structure Reports (s : Accounts) (action : AccountAction) (s' : Accounts) : Prop where
  registered : ∀ request ∈ registration action, s.answer action = some .ok ↔
    ∃ uid newUser, newUser.userName = request.userName ∧
      s'.user.rows = s.user.rows ++ [(uid, newUser)]
  deleted : ∀ io request, action = .deleteUser io request → (s.answer action = some .ok ↔
    ∃ row ∈ s.user.rows, tokenUid io.now request.token = some (row.1 : ℤ) ∧
      row.2.password = request.password ∧ s'.user.rows = s.user.rows.filter (· ≠ row))
  unchanged : ∀ status ∈ s.answer action, status ≠ .ok → s'.user = s.user
  queried : ∀ io request, action = .registerUser io request → s'.user = s.user

/-- A deletion that is executed finds the row with the uid and the password. -/
def FindsRow (s : Accounts) : AccountAction → Prop
  | .deleteUser io request =>
    ∀ uid ∈ tokenUid io.now request.token, io.prepares = true → io.steps = true →
      ∃ row ∈ s.user.rows, (row.1 : ℤ) = uid ∧ row.2.password = request.password
  | _ => True

/-- The row of a registration that waits has its name. -/
def NamesKept (s : Accounts) : Prop :=
  ∀ waiting ∈ s.registering, waiting.2.userName = waiting.1.userName

theorem NamesKept.step (h : s.NamesKept) (hstep : s.step action = some s') : s'.NamesKept := by
  intro waiting hwaiting
  rcases step_cases hstep with hframe | ⟨io, request, newUser, user', -, -, -, rfl⟩
  · exact (hframe.registering waiting hwaiting).elim (h waiting) fun hmakes => hmakes.userName
  · exact h waiting (List.mem_of_mem_erase hwaiting)

/-! ## Registrations -/

/-- The checks of the arguments. -/
structure Valid (request : RegisterUserRequest) : Prop where
  userName : request.userName ≠ ""
  password : request.password ≠ ""
  role : request.role.IsValid
  secret : request.role = Role.admin → request.adminSecret = defaultAdminSecret

omit [Platform] in
theorem registerUser_cases (user : UserTable) (io : StatementIo) (request : RegisterUserRequest) :
    (∃ newUser, handleRegisterUserRequest user io request = .ok newUser) ∨
      ∃ response, handleRegisterUserRequest user io request = .error response ∧
        response.statusCode ≠ .ok ∧
        (Valid request → io.prepares = true →
          ∃ row ∈ user.rows, row.2.userName = request.userName) := by
  unfold handleRegisterUserRequest
  split
  next hempty =>
    refine Or.inr ⟨_, rfl, nofun, fun hvalid => ?_⟩
    rcases (Bool.or_eq_true _ _).mp hempty with hname | hpassword
    · exact absurd (String.isEmpty_iff.mp hname) hvalid.userName
    · exact absurd (String.isEmpty_iff.mp hpassword) hvalid.password
  next =>
    split
    next hrole => exact Or.inr ⟨_, rfl, nofun, fun hvalid => absurd hvalid.role hrole⟩
    next =>
      split
      next hsecret =>
        exact Or.inr ⟨_, rfl, nofun, fun hvalid => absurd (hvalid.secret hsecret.1) hsecret.2⟩
      next =>
        split
        next hfails =>
          exact Or.inr ⟨_, rfl, nofun, fun _ hprepares => by simp [hprepares] at hfails⟩
        next =>
          split
          next htaken =>
            refine Or.inr ⟨_, rfl, nofun, fun _ _ => ?_⟩
            have hany := ((Bool.and_eq_true _ _).mp htaken).2
            obtain ⟨row, hrow, hname⟩ := List.any_eq_true.mp hany
            exact ⟨row, hrow, of_decide_eq_true hname⟩
          next => exact Or.inl ⟨_, rfl⟩

omit [Platform] in
theorem not_inserted (huser : s'.user = s.user) {request : RegisterUserRequest} :
    ¬ ∃ uid newUser, newUser.userName = request.userName ∧
      s'.user.rows = s.user.rows ++ [(uid, newUser)] := by
  rintro ⟨uid, newUser, -, hrows⟩
  have hlength := congrArg List.length hrows
  rw [huser, List.length_append, List.length_singleton] at hlength
  omega

/-- The query of a registration changes nothing, and its answer is a refusal. -/
theorem reports_registerUser {io : StatementIo} {request : RegisterUserRequest}
    (hstep : s.step (.registerUser io request) = some s') :
    Reports s (.registerUser io request) s' := by
  have hrefused : s.answer (.registerUser io request) ≠ some .ok := by
    dsimp only [answer]
    rcases registerUser_cases s.user io request with ⟨newUser, hok⟩ | ⟨response, herror, hstatus, -⟩
    · rw [hok]
      nofun
    · rw [herror]
      exact fun heq => hstatus (Option.some.inj heq)
  have huser : s'.user = s.user := by
    dsimp only [step] at hstep
    split at hstep <;> cases hstep <;> rfl
  refine ⟨fun _ _ => ?_, nofun, fun _ _ _ => huser, fun _ _ _ => huser⟩
  exact iff_of_false hrefused (not_inserted huser)

/-- The insertion makes the row of the request, or it is refused and changes nothing. -/
theorem reports_insertUser (h : s.NamesKept) {io : StatementIo} {request : RegisterUserRequest}
    {newUser : User} (hstep : s.step (.insertUser io request newUser) = some s') :
    Reports s (.insertUser io request newUser) s' := by
  dsimp only [step] at hstep
  split at hstep
  next hwaiting =>
    have huser : s'.user = (insertUser s.user io newUser).1 := by
      cases hstep
      rfl
    rcases insertUser_cases s.user io newUser with ⟨user', hinsert, hmade, hok⟩ | ⟨hkept, hrefused⟩
    · refine ⟨fun _ hrequest => ?_, nofun, fun status hstatus hne => ?_, nofun⟩
      · cases hrequest
        refine iff_of_true (congrArg some hok) ⟨s.user.sequence + 1, newUser, h _ hwaiting, ?_⟩
        rw [huser, hmade, (AutoTable.insert_eq_some hinsert).1]
      · exact absurd (Option.some.inj (hstatus.symm.trans (congrArg some hok))) hne
    · have hsame : s'.user = s.user := huser.trans hkept
      refine ⟨fun _ _ => ?_, nofun, fun _ _ _ => hsame, nofun⟩
      exact iff_of_false (fun heq => hrefused (Option.some.inj heq)) (not_inserted hsame)
  next => cases hstep

/-! ## Deletions -/

/-- The statement was executed, or the table is as it was. -/
theorem deleteUser_executes (user : UserTable) (io : StatementIo) (request : DeleteUserRequest) :
    (∃ uid, tokenUid io.now request.token = some uid ∧ io.prepares = true ∧ io.steps = true ∧
      (handleDeleteUserRequest user io request).2.statusCode = .ok ∧
      (handleDeleteUserRequest user io request).1 =
        user.delete fun row => (row.1 : ℤ) = uid && row.2.password = request.password) ∨
    ((∀ uid ∈ tokenUid io.now request.token, ¬ (io.prepares = true ∧ io.steps = true)) ∧
      (handleDeleteUserRequest user io request).1 = user ∧
      (handleDeleteUserRequest user io request).2.statusCode ≠ .ok) := by
  unfold handleDeleteUserRequest
  split
  next hnone => exact Or.inr ⟨by simp [hnone], rfl, nofun⟩
  next uid huid =>
    split
    next hfails =>
      refine Or.inr ⟨fun _ _ hworks => ?_, rfl, nofun⟩
      simp [hworks.1, hworks.2] at hfails
    next hworks =>
      have hworks : io.prepares = true ∧ io.steps = true := by simpa using hworks
      exact Or.inl ⟨uid, huid, hworks.1, hworks.2, rfl, rfl⟩

omit [Platform] in
/-- The deletion removes the one row with the uid and the password. -/
theorem rows_delete {uid : ℤ} {password : String} {user : UserTable} {row : ℕ × User}
    (hrow : row ∈ user.rows) (hkey : (row.1 : ℤ) = uid) (hpassword : row.2.password = password) :
    (user.delete fun row => (row.1 : ℤ) = uid && row.2.password = password).rows =
      user.rows.filter (· ≠ row) := by
  refine List.filter_congr fun other hother => ?_
  by_cases hsame : other = row
  · simp [hsame, hkey, hpassword]
  · have huid : (other.1 : ℤ) ≠ uid := fun heq =>
      hsame (AutoTable.eq_of_key hother hrow (Int.ofNat.inj (heq.trans hkey.symm)))
    simp [hsame, huid]

theorem reports_deleteUser_iff {io : StatementIo} {request : DeleteUserRequest}
    (hstep : s.step (.deleteUser io request) = some s') :
    Reports s (.deleteUser io request) s' ↔ s.FindsRow (.deleteUser io request) := by
  have huser : s'.user = (handleDeleteUserRequest s.user io request).1 := by
    cases hstep
    rfl
  rcases deleteUser_executes s.user io request with
    ⟨uid, huid, hprepares, hsteps, hok, hdeleted⟩ | ⟨hstops, hkept, hrefused⟩
  · constructor
    · intro hreports uid' huid' _ _
      obtain ⟨row, hrow, hkey, hpassword, -⟩ :=
        (hreports.deleted io request rfl).mp (congrArg some hok)
      exact ⟨row, hrow, Option.some.inj (hkey.symm.trans huid'), hpassword⟩
    · intro hfinds
      obtain ⟨row, hrow, hkey, hpassword⟩ := hfinds uid huid hprepares hsteps
      refine ⟨nofun, ?_, fun status hstatus hne => ?_, nofun⟩
      · rintro _ _ ⟨⟩
        refine iff_of_true (congrArg some hok) ⟨row, hrow, hkey ▸ huid, hpassword, ?_⟩
        rw [huser, hdeleted, rows_delete hrow hkey hpassword]
      · exact absurd (Option.some.inj (hstatus.symm.trans (congrArg some hok))) hne
  · have hsame : s'.user = s.user := huser.trans hkept
    refine iff_of_true ⟨nofun, ?_, fun _ _ _ => hsame, nofun⟩ fun uid huid hprepares hsteps =>
      absurd ⟨hprepares, hsteps⟩ (hstops uid huid)
    rintro _ _ ⟨⟩
    refine iff_of_false (fun heq => hrefused (Option.some.inj heq)) ?_
    rintro ⟨row, hrow, -, -, hrows⟩
    rw [hsame] at hrows
    rw [hrows] at hrow
    simp at hrow

theorem reports_iff (h : s.NamesKept) (hstep : s.step action = some s') :
    Reports s action s' ↔ s.FindsRow action := by
  cases action with
  | registerUser io request => exact iff_of_true (reports_registerUser hstep) trivial
  | insertUser io request newUser => exact iff_of_true (reports_insertUser h hstep) trivial
  | deleteUser io request => exact reports_deleteUser_iff hstep
  | loginUser io request => exact iff_of_true ⟨nofun, nofun, nofun, nofun⟩ trivial
  | updateLastAccess io uid response => exact iff_of_true ⟨nofun, nofun, nofun, nofun⟩ trivial
  | create => exact iff_of_true ⟨nofun, nofun, nofun, nofun⟩ trivial

/-! ## Registrations of one name -/

/-- A row has the name. -/
def Taken (name : String) (user : UserTable) : Prop :=
  ∃ row ∈ user.rows, row.2.userName = name

/-- No other step makes or removes a row with the name. -/
theorem Frame.taken_iff (hframe : Frame s action s') {name : String}
    (hkeeps : ∀ row ∈ s.user.rows, row.2.userName = name → ¬ Deletes row action) :
    Taken name s'.user ↔ Taken name s.user := by
  constructor
  · rintro ⟨row, hrow, hname⟩
    obtain ⟨original, hmem, -, hsame⟩ := hframe.rows row hrow
    exact ⟨original, hmem, hsame.userName.symm.trans hname⟩
  · rintro ⟨row, hrow, hname⟩
    have hkept := (hframe.removed row hrow).resolve_right (hkeeps row hrow hname)
    obtain ⟨row', hrow', hkey⟩ := List.mem_map.mp hkept
    obtain ⟨original, hmem, huid, hsame⟩ := hframe.rows row' hrow'
    obtain rfl := AutoTable.eq_of_key hmem hrow (huid.trans hkey)
    exact ⟨row', hrow', hsame.userName.trans hname⟩

/-- Where no row is made, no registration is answered `kOk`. -/
theorem Frame.answer_ne (hframe : Frame s action s') (hreports : Reports s action s')
    {request : RegisterUserRequest} (hrequest : request ∈ registration action) :
    s.answer action ≠ some .ok := by
  intro hok
  obtain ⟨uid, newUser, -, hrows⟩ := (hreports.registered request hrequest).mp hok
  have hnew : (uid, newUser) ∈ s'.user.rows := by
    rw [hrows]
    exact List.mem_append_right _ List.mem_cons_self
  obtain ⟨original, hmem, hkey, -⟩ := hframe.rows _ hnew
  -- the key would occur twice
  have hnodup : s'.user.keys.Nodup := AutoTable.keys_nodup
  rw [AutoTable.keys, hrows, List.map_append] at hnodup
  exact (List.disjoint_of_nodup_append hnodup) (List.mem_map_of_mem hmem)
    (List.mem_singleton.mpr hkey)

omit [Platform] in
/-- An insertion that works fails only at a name that is taken. -/
theorem taken_of_insertUser {user : UserTable} {io : StatementIo} {newUser : User}
    (hprepares : io.prepares = true) (hsteps : io.steps = true) (hspace : user.sequence < maxKey)
    (hrefused : (insertUser user io newUser).2.statusCode ≠ .ok) :
    Taken newUser.userName user := by
  by_contra hfree
  have hinsert : ∃ user', user.insert newUser = some user' := by
    unfold AutoTable.insert
    rw [dif_pos ⟨hspace, fun row hrow hname => hfree ⟨row, hrow, hname⟩⟩]
    exact ⟨_, rfl⟩
  obtain ⟨user', huser'⟩ := hinsert
  refine hrefused ?_
  simp [insertUser, hprepares, hsteps, huser']

end Accounts

/-- The accounts, and as history the requests that were answered, the last one first. -/
structure Ledger where
  accounts : Accounts
  answers : List (AccountAction × StatusCode) := []

namespace Ledger

open Accounts (answer registration Valid Taken Deletes NamesKept)

variable [Platform] {l l' : Ledger} {action : AccountAction} {name : String}

/-- A critical section, whose answer is recorded if it gives one. -/
def step (l : Ledger) (action : AccountAction) : Option Ledger :=
  (l.accounts.step action).map fun accounts =>
    { accounts := accounts
      answers := ((l.accounts.answer action).map (action, ·)).toList ++ l.answers }

/-- A registration of the name was answered `kOk`. -/
def accepts (name : String) (entry : AccountAction × StatusCode) : Bool :=
  (registration entry.1).any (fun request => request.userName = name) && entry.2 = .ok

/-- A registration of the name whose arguments pass the checks was answered. -/
def Answers (l : Ledger) (name : String) : Prop :=
  ∃ entry ∈ l.answers, ∃ request ∈ registration entry.1, request.userName = name ∧ Valid request

/-- No call of the database fails in a registration of the name, but for the constraint on the
column, and the name does not become free again. -/
def Succeeds (name : String) (l : Ledger) : AccountAction → Prop
  | .registerUser io request => request.userName = name → io.prepares = true ∧ io.steps = true
  | .insertUser io request _ => request.userName = name →
      io.prepares = true ∧ io.steps = true ∧ l.accounts.user.sequence < maxKey
  | action => ∀ row ∈ l.accounts.user.rows, row.2.userName = name → ¬ Deletes row action

/-- One registration of a name that is taken was answered `kOk`, and none of a free one. -/
structure Counts (name : String) (l : Ledger) : Prop where
  namesKept : l.accounts.NamesKept
  taken : Taken name l.accounts.user → l.answers.countP (accepts name) = 1
  free : ¬ Taken name l.accounts.user → l.answers.countP (accepts name) = 0
  answered : l.Answers name → Taken name l.accounts.user

theorem step_eq (hstep : l.step action = some l') :
    ∃ accounts, l.accounts.step action = some accounts ∧ l' = ⟨accounts,
      ((l.accounts.answer action).map (action, ·)).toList ++ l.answers⟩ := by
  obtain ⟨accounts, haccounts, rfl⟩ := Option.map_eq_some_iff.mp hstep
  exact ⟨accounts, haccounts, rfl⟩

/-- The name is kept from one section to the next. -/
theorem Succeeds.keeps (hsucceeds : l.Succeeds name action) :
    ∀ row ∈ l.accounts.user.rows, row.2.userName = name → ¬ Deletes row action := by
  cases action with
  | registerUser io request => exact fun _ _ _ hdeletes => hdeletes
  | insertUser io request newUser => exact fun _ _ _ hdeletes => hdeletes
  | _ => exact hsucceeds

/-- A registration that is refused finds the name taken. -/
theorem taken_of_refused (h : l.accounts.NamesKept) (hsucceeds : l.Succeeds name action)
    {accounts : Accounts} (hstep : l.accounts.step action = some accounts) {status : StatusCode}
    (hanswer : l.accounts.answer action = some status) (hstatus : status ≠ .ok)
    {request : RegisterUserRequest} (hrequest : request ∈ registration action)
    (hname : request.userName = name) (hvalid : Valid request) : Taken name l.accounts.user := by
  subst hname
  cases action with
  | registerUser io request' =>
    cases hrequest
    rcases Accounts.registerUser_cases l.accounts.user io request with
      ⟨newUser, hok⟩ | ⟨response, -, -, htaken⟩
    · dsimp only [answer] at hanswer
      rw [hok] at hanswer
      cases hanswer
    · exact htaken hvalid (hsucceeds rfl).1
  | insertUser io request' newUser =>
    cases hrequest
    obtain ⟨hprepares, hsteps, hspace⟩ := hsucceeds rfl
    dsimp only [Accounts.step] at hstep
    split at hstep
    next hwaiting =>
      have hrefused : (insertUser l.accounts.user io newUser).2.statusCode ≠ .ok := fun hok =>
        hstatus ((Option.some.inj hanswer).symm.trans hok)
      rw [← h _ hwaiting]
      exact Accounts.taken_of_insertUser hprepares hsteps hspace hrefused
    next => cases hstep
  | _ => cases hrequest

omit [Platform] in
theorem accepts_eq_false {entry : AccountAction × StatusCode}
    (hrefused : ∀ request ∈ registration entry.1, request.userName = name → entry.2 ≠ .ok) :
    accepts name entry = false := by
  unfold accepts
  cases hregistration : registration entry.1 with
  | none => rfl
  | some request =>
    by_cases hname : request.userName = name
    · simp [hrefused request hregistration hname]
    · simp [hname]

/-- A step that makes no row. -/
theorem Counts.frame (h : l.Counts name) (hsucceeds : l.Succeeds name action)
    {accounts : Accounts} (hstep : l.accounts.step action = some accounts)
    (hframe : Accounts.Frame l.accounts action accounts)
    (hrefused : ∀ request ∈ registration action, l.accounts.answer action ≠ some .ok) :
    Counts name ⟨accounts, ((l.accounts.answer action).map (action, ·)).toList ++ l.answers⟩ := by
  have htaken := hframe.taken_iff hsucceeds.keeps
  have hcount : (((l.accounts.answer action).map (action, ·)).toList ++ l.answers).countP
      (accepts name) = l.answers.countP (accepts name) := by
    cases hanswer : l.accounts.answer action with
    | none => rfl
    | some status =>
      have hnew : accepts name (action, status) = false :=
        accepts_eq_false fun request hrequest _ hok =>
          hrefused request hrequest (hanswer.trans (congrArg some hok))
      simp [hnew]
  refine ⟨h.namesKept.step hstep, fun hnow => ?_, fun hnow => ?_, ?_⟩
  · exact hcount.trans (h.taken (htaken.mp hnow))
  · exact hcount.trans (h.free (htaken.not.mp hnow))
  · rintro ⟨entry, hentry, request, hrequest, hname, hvalid⟩
    refine htaken.mpr ?_
    rcases List.mem_append.mp hentry with hnew | hold
    · obtain ⟨status, hstatus, rfl⟩ := Option.map_eq_some_iff.mp (Option.mem_toList.mp hnew)
      have hne : status ≠ .ok := fun hok =>
        hrefused request hrequest (hstatus.trans (congrArg some hok))
      exact taken_of_refused h.namesKept hsucceeds hstep hstatus hne hrequest hname hvalid
    · exact h.answered ⟨entry, hold, request, hrequest, hname, hvalid⟩

omit [Platform] in
/-- The name is free, and nothing was answered. -/
theorem Counts.initial {start : Accounts} (hnames : start.NamesKept)
    (hfree : ¬ Taken name start.user) : Counts name ⟨start, []⟩ where
  namesKept := hnames
  taken htaken := absurd htaken hfree
  free _ := List.countP_nil
  answered := by
    rintro ⟨entry, hentry, -⟩
    exact absurd hentry List.not_mem_nil

/-- An insertion makes the first row with its name. -/
theorem Counts.insert (h : l.Counts name) {io : StatementIo} {request : RegisterUserRequest}
    {newUser : User} {accounts : Accounts}
    (hstep : l.accounts.step (.insertUser io request newUser) = some accounts)
    (hok : l.accounts.answer (.insertUser io request newUser) = some .ok)
    (hnewName : newUser.userName = request.userName) {user' : UserTable}
    (hinsert : l.accounts.user.insert newUser = some user') (huser : accounts.user = user') :
    Counts name ⟨accounts, ((l.accounts.answer (.insertUser io request newUser)).map
      (AccountAction.insertUser io request newUser, ·)).toList ++ l.answers⟩ := by
  have hrows := (AutoTable.insert_eq_some hinsert).1
  have htaken : Taken name accounts.user ↔
      Taken name l.accounts.user ∨ request.userName = name := by
    unfold Taken
    rw [huser, hrows, ← hnewName]
    simp only [List.mem_append, List.mem_singleton, or_and_right, exists_or, exists_eq_left]
  have hfree : request.userName = name → ¬ Taken name l.accounts.user := by
    rintro rfl ⟨row, hrow, hname⟩
    unfold AutoTable.insert at hinsert
    split at hinsert
    next hfits => exact hfits.2 row hrow (hname.trans hnewName.symm)
    next => cases hinsert
  rw [hok]
  have hcount : (((some StatusCode.ok).map
      (AccountAction.insertUser io request newUser, ·)).toList ++ l.answers).countP (accepts name) =
      l.answers.countP (accepts name) + if request.userName = name then 1 else 0 := by
    simp [accepts, registration, List.countP_cons]
  refine ⟨h.namesKept.step hstep, fun hnow => hcount.trans ?_, fun hnow => hcount.trans ?_, ?_⟩
  · by_cases hname : request.userName = name
    · rw [if_pos hname, h.free (hfree hname)]
    · rw [if_neg hname, h.taken ((htaken.mp hnow).resolve_right hname)]
  · have hnone := htaken.not.mp hnow
    rw [not_or] at hnone
    rw [if_neg hnone.2, h.free hnone.1]
  · rintro ⟨entry, hentry, request', hrequest, hname, hvalid⟩
    refine htaken.mpr ?_
    rcases List.mem_append.mp hentry with hnew | hold
    · cases Option.mem_toList.mp hnew
      cases hrequest
      exact Or.inr hname
    · exact Or.inl (h.answered ⟨entry, hold, request', hrequest, hname, hvalid⟩)

theorem Counts.step (h : l.Counts name) (hsucceeds : l.Succeeds name action)
    (hstep : l.step action = some l') : l'.Counts name := by
  obtain ⟨accounts, haccounts, rfl⟩ := step_eq hstep
  rcases Accounts.step_cases haccounts with
    hframe | ⟨io, request, newUser, user', rfl, hwaiting, hinsert, rfl⟩
  · refine h.frame hsucceeds haccounts hframe fun request hrequest => ?_
    cases action with
    | registerUser io request' =>
      exact hframe.answer_ne (Accounts.reports_registerUser haccounts) hrequest
    | insertUser io request' newUser =>
      exact hframe.answer_ne (Accounts.reports_insertUser h.namesKept haccounts) hrequest
    | _ => cases hrequest
  · have hname := h.namesKept _ hwaiting
    have hok : l.accounts.answer (.insertUser io request newUser) = some .ok :=
      ((Accounts.reports_insertUser h.namesKept haccounts).registered request rfl).mpr
        ⟨_, newUser, hname, (AutoTable.insert_eq_some hinsert).1⟩
    exact h.insert haccounts hok hname hinsert rfl

end Ledger

namespace Accounts

variable [Platform] {start : Accounts}

/-- **Account operations report what they did**, exactly if a deletion that is executed finds
its row.  Of the registrations of a free name that were answered, one was answered `kOk`. -/
theorem accountsReport (hstart : start.registering = []) :
    (∀ s, Run step (fun _ _ => True) start s → ∀ action s', s.step action = some s' →
      (Reports s action s' ↔ s.FindsRow action)) ∧
    ∀ name, ¬ Taken name start.user → ∀ l : Ledger,
      Run Ledger.step (Ledger.Succeeds name) ⟨start, []⟩ l → l.Answers name →
        l.answers.countP (Ledger.accepts name) = 1 := by
  have hnames : start.NamesKept := by
    unfold NamesKept
    rw [hstart]
    exact nofun
  constructor
  · intro s hrun action s' hstep
    have hkept : s.NamesKept := hrun.invariant NamesKept hnames fun h _ hstep => h.step hstep
    exact reports_iff hkept hstep
  · intro name hfree l hrun hanswers
    have hcounts : l.Counts name := hrun.invariant (Ledger.Counts name) (.initial hnames hfree)
      fun h hsucceeds hstep => h.step hsucceeds hstep
    exact hcounts.taken (hcounts.answered hanswers)

end Accounts

/-! ### Two registrations, and a wrong password -/

namespace Accounts

instance (row : ℕ × User) : ∀ action, Decidable (@Deletes alicePlatform row action)
  | .deleteUser _ _ => inferInstanceAs (Decidable (_ ∧ _))
  | .registerUser _ _ | .insertUser _ _ _ | .loginUser _ _ | .updateLastAccess _ _ _ | .create =>
    inferInstanceAs (Decidable False)

instance (name : String) (l : Ledger) :
    ∀ action, Decidable (@Ledger.Succeeds alicePlatform name l action)
  | .registerUser _ _ => inferInstanceAs (Decidable (_ → _ ∧ _))
  | .insertUser _ _ _ => inferInstanceAs (Decidable (_ → _ ∧ _ ∧ _))
  | .deleteUser _ _ | .loginUser _ _ | .updateLastAccess _ _ _ | .create =>
    inferInstanceAs (Decidable (∀ row ∈ l.accounts.user.rows, _ → ¬ _))

/-- Both queries come before the first insertion. -/
def twiceAlice : List AccountAction :=
  [.registerUser {} aliceRegisters, .registerUser {} aliceRegisters,
    .insertUser {} aliceRegisters alice, .insertUser {} aliceRegisters alice]

theorem accountsReport_twice :
    ∃ l : Ledger, @Run _ _ (@Ledger.step alicePlatform) (@Ledger.Succeeds alicePlatform "alice")
        ⟨{}, []⟩ l ∧ l.answers.length = 2 ∧ l.answers.countP (Ledger.accepts "alice") = 1 := by
  obtain ⟨l, hrun, hcheck⟩ := Run.exists_of_exec (@Ledger.step alicePlatform)
    (@Ledger.Succeeds alicePlatform "alice") ⟨{}, []⟩ twiceAlice
    (fun l => decide (l.answers.length = 2 ∧ (registration (l.answers.headD (.create, .ok)).1) =
      some aliceRegisters)) (by decide +kernel)
  obtain ⟨hlength, hlast⟩ := of_decide_eq_true hcheck
  have hvalid : Valid aliceRegisters :=
    ⟨by decide, by decide, Or.inr rfl, fun hadmin => absurd hadmin (by decide)⟩
  have hanswers : l.Answers "alice" := by
    obtain ⟨accounts, answers⟩ := l
    cases answers with
    | nil => cases hlength
    | cons entry rest =>
      exact ⟨entry, List.mem_cons_self, aliceRegisters, hlast, rfl, hvalid⟩
  have hfree : ¬ Taken "alice" ({} : Accounts).user := by
    rintro ⟨row, hrow, -⟩
    exact List.not_mem_nil hrow
  exact ⟨l, hrun, hlength, (@accountsReport alicePlatform {} rfl).2 "alice" hfree l hrun hanswers⟩

/-- The token is valid, the password is not. -/
def aliceMistypes : AccountAction :=
  .deleteUser {} { token := "token", password := "wonder" }

theorem exists_missed_deletion :
    ∃ s s', Run (@step alicePlatform) (fun _ _ => True) {} s ∧
      @step alicePlatform s aliceMistypes = some s' ∧
      @answer alicePlatform s aliceMistypes = some .ok ∧ s'.user.rows = s.user.rows ∧
      ¬ @Reports alicePlatform s aliceMistypes s' := by
  obtain ⟨s, s', hrun, hstep, hcheck⟩ := Run.exists_step_of_exec (@step alicePlatform)
    (fun _ _ => True) {} aliceComes aliceMistypes
    (fun s s' => decide (@answer alicePlatform s aliceMistypes = some .ok ∧
      s'.user.rows = s.user.rows)) (by decide +kernel)
  obtain ⟨hok, hsame⟩ := of_decide_eq_true hcheck
  refine ⟨s, s', hrun, hstep, hok, hsame, fun hreports => ?_⟩
  obtain ⟨row, hrow, -, -, hrows⟩ :=
    (@Reports.deleted alicePlatform _ _ _ hreports _ _ rfl).mp hok
  rw [hsame] at hrows
  rw [hrows] at hrow
  simp at hrow

end Accounts

end Vosfs.Auth
