import Vosfs.Auth.AuthNode
import Vosfs.Library.Run

/-!
# The integrity of accounts

Handlers run in any order, each from one critical section to the next, and the node may be
created again on its database.  `registered` and `issued` remember which request has made which
row, and which token was signed for which row.

No row is changed but for its last access, and no uid is given twice.  So a token stands for the
row it was signed for as long as there is one with its uid, and a row disappears only with such
a token and its password (`accountsIntact`).

Tokens are not forged: one that verifies was issued (`Unforged`).
-/

namespace Vosfs.Auth

/-- A token with the request and the row it was signed for. -/
structure Issue where
  request : LoginUserByNameRequest
  row : ℕ × User
  token : String

/-- The user table, the handlers between their critical sections, and as history the rows that were
registered and the tokens that were issued. -/
structure Accounts where
  user : UserTable := ∅
  /-- The handlers that insert a row next. -/
  registering : List (RegisterUserRequest × User) := []
  /-- The handlers that record an access to a row next. -/
  loggingIn : List (ℕ × LoginUserByNameResponse) := []
  registered : List (RegisterUserRequest × ℕ × User) := []
  issued : List Issue := []

/-- A critical section of a handler, or a restart of the process. -/
inductive AccountAction
  | registerUser (io : StatementIo) (request : RegisterUserRequest)
  | insertUser (io : StatementIo) (request : RegisterUserRequest) (newUser : User)
  | deleteUser (io : StatementIo) (request : DeleteUserRequest)
  | loginUser (io : StatementIo) (request : LoginUserByNameRequest)
  | updateLastAccess (io : StatementIo) (uid : ℕ) (response : LoginUserByNameResponse)
  | create

/-- Two rows of one account: only the last access may differ. -/
structure User.Same (user user' : User) : Prop where
  userName : user'.userName = user.userName
  password : user'.password = user.password
  role : user'.role = user.role
  status : user'.status = user.status
  quota : user'.quota = user.quota

theorem User.Same.rfl {user : User} : user.Same user :=
  ⟨Eq.refl _, Eq.refl _, Eq.refl _, Eq.refl _, Eq.refl _⟩

theorem User.Same.trans {first second third : User} (h : first.Same second)
    (h' : second.Same third) : first.Same third where
  userName := h'.userName.trans h.userName
  password := h'.password.trans h.password
  role     := h'.role.trans h.role
  status   := h'.status.trans h.status
  quota    := h'.quota.trans h.quota

theorem User.Same.symm {user user' : User} (h : user.Same user') : user'.Same user where
  userName := h.userName.symm
  password := h.password.symm
  role     := h.role.symm
  status   := h.status.symm
  quota    := h.quota.symm

/-! ## Handlers -/

/-- What is inserted carries the values of the request. -/
structure RegisterUserRequest.Makes (request : RegisterUserRequest) (user : User) : Prop where
  userName : user.userName = request.userName
  password : user.password = request.password
  role : user.role = request.role
  status : user.status = .enabled
  quota : user.quota = defaultUserQuotaBytes
  secret : user.role = .admin → request.adminSecret = defaultAdminSecret

theorem makes_of_register {user : UserTable} {io : StatementIo} {request : RegisterUserRequest}
    {newUser : User} (hregister : handleRegisterUserRequest user io request = .ok newUser) :
    request.Makes newUser := by
  unfold handleRegisterUserRequest at hregister
  split_ifs at hregister with _ _ hsecret
  cases hregister
  exact ⟨rfl, rfl, rfl, rfl, rfl, fun hadmin => by_contra fun hwrong => hsecret ⟨hadmin, hwrong⟩⟩

theorem insertUser_cases (user : UserTable) (io : StatementIo) (newUser : User) :
    (∃ user', user.insert newUser = some user' ∧ (insertUser user io newUser).1 = user' ∧
      (insertUser user io newUser).2.statusCode = .ok) ∨
    (insertUser user io newUser).1 = user ∧ (insertUser user io newUser).2.statusCode ≠ .ok := by
  unfold insertUser
  split
  · exact Or.inr ⟨rfl, nofun⟩
  · split
    next => exact Or.inr ⟨rfl, nofun⟩
    next user' hinsert =>
      split at hinsert
      · exact Or.inl ⟨user', hinsert, rfl, rfl⟩
      · cases hinsert

theorem updateLastAccess_cases (user : UserTable) (io : StatementIo) (uid : ℕ)
    (response : LoginUserByNameResponse) :
    (updateLastAccess user io uid response).1 = user ∨
      (updateLastAccess user io uid response).1 = user.update uid
        (fun row => { row with lastAccessTime := io.now, lastAccessIp := io.peerIp })
        fun _ => rfl := by
  unfold updateLastAccess
  split
  · exact Or.inl rfl
  · dsimp only
    split
    · exact Or.inr rfl
    · exact Or.inl rfl

section Tokens

variable [Platform]

theorem deleteUser_cases (user : UserTable) (io : StatementIo) (request : DeleteUserRequest) :
    (∃ uid, tokenUid io.now request.token = some uid ∧
      (handleDeleteUserRequest user io request).1 =
        user.delete fun row => (row.1 : ℤ) = uid && row.2.password = request.password) ∨
    (handleDeleteUserRequest user io request).1 = user ∧
      (handleDeleteUserRequest user io request).2.statusCode ≠ .ok := by
  unfold handleDeleteUserRequest
  split
  next => exact Or.inr ⟨rfl, nofun⟩
  next uid huid =>
    split
    · exact Or.inr ⟨rfl, nofun⟩
    · exact Or.inl ⟨uid, huid, rfl⟩

/-- A token carries the uid, the role and the quota of an enabled row with the name, the password
and the role that were given. -/
structure Issue.Sound (issue : Issue) : Prop where
  userName : issue.row.2.userName = issue.request.userName
  password : issue.row.2.password = issue.request.password
  role : issue.row.2.role = issue.request.role
  enabled : issue.row.2.status = .enabled
  token : ∃ now, issue.token = makeToken now issue.row.1 issue.row.2.role issue.row.2.quota

theorem sound_of_login {user : UserTable} {io : StatementIo} {request : LoginUserByNameRequest}
    {row : ℕ × User} {response : LoginUserByNameResponse}
    (hlogin : handleLoginUserByUserNameRequest user io request = .ok (row, response)) :
    row ∈ user.rows ∧ Issue.Sound { request := request, row := row, token := response.token } := by
  unfold handleLoginUserByUserNameRequest at hlogin
  split at hlogin
  next => cases hlogin
  next =>
    split at hlogin
    next => cases hlogin
    next found hfound =>
      split_ifs at hlogin hfound with hstatus
      cases hlogin
      have hmatch := List.find?_some hfound
      simp only [Bool.and_eq_true, decide_eq_true_eq] at hmatch
      obtain ⟨⟨hname, hpassword⟩, hrole⟩ := hmatch
      refine ⟨List.mem_of_find?_eq_some hfound, hname, hpassword, hrole, ?_, io.now, ?_⟩
      · rw [not_or, not_or, not_not] at hstatus
        exact hstatus.1.resolve_right fun hother => hother.elim hstatus.2.1 hstatus.2.2
      · rw [hrole]

end Tokens

/-! ## Runs -/

namespace Accounts

section Runs

variable [Platform]

/-- `none`: the handler has not come so far. -/
def step (s : Accounts) : AccountAction → Option Accounts
  | .registerUser io request =>
    match handleRegisterUserRequest s.user io request with
    | .error _ => some s
    | .ok newUser => some { s with registering := (request, newUser) :: s.registering }
  | .insertUser io request newUser =>
    if (request, newUser) ∈ s.registering then
      let (user, response) := insertUser s.user io newUser
      some
        { s with
          user := user
          registering := s.registering.erase (request, newUser)
          registered :=
            if response.statusCode = .ok then (request, user.sequence, newUser) :: s.registered
            else s.registered }
    else
      none
  | .deleteUser io request =>
    some { s with user := (handleDeleteUserRequest s.user io request).1 }
  | .loginUser io request =>
    match handleLoginUserByUserNameRequest s.user io request with
    | .error _ => some s
    | .ok (row, response) =>
      some
        { s with
          loggingIn := (row.1, response) :: s.loggingIn
          issued := { request := request, row := row, token := response.token } :: s.issued }
  | .updateLastAccess io uid response =>
    if (uid, response) ∈ s.loggingIn then
      some
        { s with
          user := (updateLastAccess s.user io uid response).1
          loggingIn := s.loggingIn.erase (uid, response) }
    else
      none
  | .create => some { s with registering := [], loggingIn := [] }

/-- A token that verifies was issued. -/
def Unforged (s : Accounts) : AccountAction → Prop
  | .deleteUser io request =>
    (Platform.verify defaultJwtIssuer defaultJwtIssuerSecret io.now request.token).isSome →
      ∃ issue ∈ s.issued, issue.token = request.token
  | _ => True

variable {s s' : Accounts} {action : AccountAction}

/-- What holds of the accounts at any time. -/
structure Intact (s : Accounts) : Prop where
  uids : s.user.keys.Nodup
  userNames : (s.user.rows.map fun row => row.2.userName).Nodup
  /-- No uid is given twice, even after the row has gone. -/
  registeredOnce : (s.registered.map fun entry => entry.2.1).Nodup
  registered : ∀ entry ∈ s.registered, entry.1.Makes entry.2.2
  asRegistered : ∀ row ∈ s.user.rows, ∃ entry ∈ s.registered,
    entry.2.1 = row.1 ∧ entry.2.2.Same row.2
  issued : ∀ issue ∈ s.issued, issue.Sound ∧ ∃ entry ∈ s.registered,
    entry.2.1 = issue.row.1 ∧ entry.2.2.Same issue.row.2

/-- What holds of a step. -/
structure Respects (s : Accounts) (action : AccountAction) (s' : Accounts) : Prop where
  kept : ∀ row ∈ s.user.rows, ∀ row' ∈ s'.user.rows, row'.1 = row.1 → row.2.Same row'.2
  issued : ∀ issue ∈ s'.issued, issue ∈ s.issued ∨ issue.row ∈ s.user.rows ∧ issue.Sound
  removed : ∀ row ∈ s.user.rows, row.1 ∉ s'.user.keys → ∃ io request,
    action = .deleteUser io request ∧ request.password = row.2.password ∧
      ∃ issue ∈ s.issued, issue.token = request.token ∧ issue.row.1 = row.1 ∧
        issue.row.2.Same row.2

/-- The invariant: `Intact`, every registered uid is at most the last key that was given, and a row
that waits to be inserted is that of its request. -/
structure Sound (s : Accounts) : Prop extends Intact s where
  numbered : ∀ entry ∈ s.registered, entry.2.1 ≤ s.user.sequence
  registering : ∀ waiting ∈ s.registering, waiting.1.Makes waiting.2

theorem Sound.initial : Sound {} where
  uids           := List.nodup_nil
  userNames      := List.nodup_nil
  registeredOnce := List.nodup_nil
  registered _ h   := absurd h List.not_mem_nil
  asRegistered _ h := absurd h List.not_mem_nil
  issued _ h       := absurd h List.not_mem_nil
  numbered _ h     := absurd h List.not_mem_nil
  registering _ h  := absurd h List.not_mem_nil

/-- The request names the uid of the row, by its token, and the password. -/
def Deletes (row : ℕ × User) : AccountAction → Prop
  | .deleteUser io request =>
    tokenUid io.now request.token = some (row.1 : ℤ) ∧ request.password = row.2.password
  | _ => False

/-- A step that makes no row. -/
structure Frame (s : Accounts) (action : AccountAction) (s' : Accounts) : Prop where
  registered : s'.registered = s.registered
  sequence : s'.user.sequence = s.user.sequence
  rows : ∀ row ∈ s'.user.rows, ∃ original ∈ s.user.rows,
    original.1 = row.1 ∧ original.2.Same row.2
  removed : ∀ row ∈ s.user.rows, row.1 ∈ s'.user.keys ∨ Deletes row action
  registering : ∀ waiting ∈ s'.registering,
    waiting ∈ s.registering ∨ waiting.1.Makes waiting.2
  issued : ∀ issue ∈ s'.issued, issue ∈ s.issued ∨ issue.row ∈ s.user.rows ∧ issue.Sound

theorem Frame.rfl : Frame s action s where
  registered  := Eq.refl _
  sequence    := Eq.refl _
  rows        := fun row hrow => ⟨row, hrow, Eq.refl _, .rfl⟩
  removed     := fun _ hrow => Or.inl (List.mem_map_of_mem hrow)
  registering := fun _ hwaiting => Or.inl hwaiting
  issued      := fun _ hissue => Or.inl hissue

/-- A change of the table that makes no row. -/
theorem Frame.of_user {user : UserTable} {loggingIn : List (ℕ × LoginUserByNameResponse)}
    (hsequence : user.sequence = s.user.sequence)
    (hrows : ∀ row ∈ user.rows, ∃ original ∈ s.user.rows,
      original.1 = row.1 ∧ original.2.Same row.2)
    (hremoved : ∀ row ∈ s.user.rows, row.1 ∈ user.keys ∨ Deletes row action) :
    Frame s action { s with user := user, loggingIn := loggingIn } where
  registered  := Eq.refl _
  sequence    := hsequence
  rows        := hrows
  removed     := hremoved
  registering := fun _ hwaiting => Or.inl hwaiting
  issued      := fun _ hissue => Or.inl hissue

theorem frame_registerUser {io : StatementIo} {request : RegisterUserRequest}
    (hstep : s.step (.registerUser io request) = some s') :
    Frame s (.registerUser io request) s' := by
  dsimp only [step] at hstep
  split at hstep
  next => cases hstep; exact .rfl
  next newUser hregister =>
    cases hstep
    refine { Frame.rfl with registering := fun waiting hwaiting => ?_ }
    rcases List.mem_cons.mp hwaiting with rfl | hbefore
    · exact Or.inr (makes_of_register hregister)
    · exact Or.inl hbefore

/-- The second section of a registration is the only one that makes a row. -/
theorem insertUser_step {io : StatementIo} {request : RegisterUserRequest} {newUser : User}
    (hstep : s.step (.insertUser io request newUser) = some s') :
    Frame s (.insertUser io request newUser) s' ∨ ∃ user',
      (request, newUser) ∈ s.registering ∧ s.user.insert newUser = some user' ∧
        s' = { s with
          user := user'
          registering := s.registering.erase (request, newUser)
          registered := (request, user'.sequence, newUser) :: s.registered } := by
  dsimp only [step] at hstep
  split at hstep
  next hwaiting =>
    rcases insertUser_cases s.user io newUser with ⟨user', hinsert, huser, hok⟩ | ⟨huser, hfailed⟩
    · refine Or.inr ⟨user', hwaiting, hinsert, ?_⟩
      rw [if_pos hok, huser] at hstep
      cases hstep
      rfl
    · left
      rw [if_neg hfailed, huser] at hstep
      cases hstep
      exact { Frame.rfl with
        registering := fun waiting hmem => Or.inl (List.mem_of_mem_erase hmem) }
  next => cases hstep

/-- The statement deletes the rows with the token's uid and the password sent. -/
theorem frame_deleteUser {io : StatementIo} {request : DeleteUserRequest}
    (hstep : s.step (.deleteUser io request) = some s') : Frame s (.deleteUser io request) s' := by
  cases hstep
  rcases deleteUser_cases s.user io request with ⟨uid, huid, huser⟩ | ⟨huser, -⟩
  · rw [huser]
    refine Frame.of_user rfl (fun row hrow => ?_) fun row hrow => ?_
    · exact ⟨row, (AutoTable.mem_delete.mp hrow).1, rfl, .rfl⟩
    · by_cases hhit : (row.1 : ℤ) = uid ∧ row.2.password = request.password
      · exact Or.inr ⟨hhit.1 ▸ huid, hhit.2.symm⟩
      · left
        refine List.mem_map_of_mem (AutoTable.mem_delete.mpr ⟨hrow, ?_⟩)
        rwa [← Bool.decide_and, decide_eq_false_iff_not]
  · rw [huser]
    exact .rfl

theorem frame_loginUser {io : StatementIo} {request : LoginUserByNameRequest}
    (hstep : s.step (.loginUser io request) = some s') : Frame s (.loginUser io request) s' := by
  dsimp only [step] at hstep
  split at hstep
  next => cases hstep; exact .rfl
  next row response hlogin =>
    cases hstep
    refine { Frame.rfl with issued := fun issue hissue => ?_ }
    rcases List.mem_cons.mp hissue with rfl | hbefore
    · exact Or.inr (sound_of_login hlogin)
    · exact Or.inl hbefore

/-- Only the time of the last access differs, which `User.Same` does not compare. -/
theorem frame_updateLastAccess {io : StatementIo} {uid : ℕ} {response : LoginUserByNameResponse}
    (hstep : s.step (.updateLastAccess io uid response) = some s') :
    Frame s (.updateLastAccess io uid response) s' := by
  dsimp only [step] at hstep
  split at hstep
  next hwaiting =>
    cases hstep
    rcases updateLastAccess_cases s.user io uid response with huser | huser
    · have hsame : Frame s (.updateLastAccess io uid response) s := .rfl
      rw [huser]
      exact Frame.of_user rfl hsame.rows hsame.removed
    · rw [huser]
      refine Frame.of_user rfl (fun row hrow => ?_) fun row hrow => Or.inl ?_
      · obtain ⟨original, hmem, hkey, hsame | hchanged⟩ := AutoTable.exists_of_mem_update hrow
        · exact ⟨original, hmem, hkey.symm, hsame ▸ .rfl⟩
        · refine ⟨original, hmem, hkey.symm, ?_⟩
          rw [hchanged]
          exact ⟨rfl, rfl, rfl, rfl, rfl⟩
      · rw [AutoTable.keys_update]
        exact List.mem_map_of_mem hrow
  next => cases hstep

/-- A new process has no handlers: the table and the tokens outlive it. -/
theorem frame_create (hstep : s.step .create = some s') : Frame s .create s' := by
  cases hstep
  exact { Frame.rfl with registering := fun _ hwaiting => absurd hwaiting List.not_mem_nil }

/-- A row is inserted, or none is made. -/
theorem step_cases (hstep : s.step action = some s') :
    Frame s action s' ∨ ∃ io request newUser user',
      action = .insertUser io request newUser ∧ (request, newUser) ∈ s.registering ∧
        s.user.insert newUser = some user' ∧
        s' = { s with
          user := user'
          registering := s.registering.erase (request, newUser)
          registered := (request, user'.sequence, newUser) :: s.registered } := by
  cases action with
  | registerUser io request => exact Or.inl (frame_registerUser hstep)
  | insertUser io request newUser =>
    rcases insertUser_step hstep with hframe | ⟨user', hinserts⟩
    · exact Or.inl hframe
    · exact Or.inr ⟨io, request, newUser, user', rfl, hinserts⟩
  | deleteUser io request => exact Or.inl (frame_deleteUser hstep)
  | loginUser io request => exact Or.inl (frame_loginUser hstep)
  | updateLastAccess io uid response => exact Or.inl (frame_updateLastAccess hstep)
  | create => exact Or.inl (frame_create hstep)

theorem Frame.sound (hframe : Frame s action s') (h : s.Sound) : s'.Sound where
  uids           := AutoTable.keys_nodup
  userNames      := s'.user.unique
  registeredOnce := hframe.registered ▸ h.registeredOnce
  registered     := hframe.registered ▸ h.registered
  asRegistered   := by
    intro row hrow
    obtain ⟨original, hmem, hkey, hsame⟩ := hframe.rows row hrow
    obtain ⟨entry, hentry, huid, hregistered⟩ := h.asRegistered original hmem
    exact ⟨entry, hframe.registered ▸ hentry, huid.trans hkey, hregistered.trans hsame⟩
  issued         := by
    intro issue hissue
    rw [hframe.registered]
    rcases hframe.issued issue hissue with hbefore | ⟨hrow, hsound⟩
    · exact h.issued issue hbefore
    · exact ⟨hsound, h.asRegistered issue.row hrow⟩
  numbered       := by
    rw [hframe.registered, hframe.sequence]
    exact h.numbered
  registering    := fun waiting hwaiting =>
    (hframe.registering waiting hwaiting).elim (h.registering waiting) id

/-- The new row has a new uid. -/
theorem Sound.insert {request : RegisterUserRequest} {newUser : User} {user' : UserTable}
    (h : s.Sound) (hwaiting : (request, newUser) ∈ s.registering)
    (hinsert : s.user.insert newUser = some user') :
    Sound { s with
      user := user'
      registering := s.registering.erase (request, newUser)
      registered := (request, user'.sequence, newUser) :: s.registered } := by
  obtain ⟨hrows, hsequence⟩ := AutoTable.insert_eq_some hinsert
  exact
    { uids           := AutoTable.keys_nodup
      userNames      := user'.unique
      registeredOnce := by
        refine List.nodup_cons.mpr ⟨fun hmem => ?_, h.registeredOnce⟩
        obtain ⟨entry, hentry, huid : entry.2.1 = user'.sequence⟩ := List.mem_map.mp hmem
        have hnumber := h.numbered entry hentry
        omega
      registered     := List.forall_mem_cons.mpr ⟨h.registering _ hwaiting, h.registered⟩
      asRegistered   := by
        intro row hrow
        rw [hrows] at hrow
        rcases List.mem_append.mp hrow with hold | hnew
        · obtain ⟨entry, hentry, hsame⟩ := h.asRegistered row hold
          exact ⟨entry, List.mem_cons_of_mem _ hentry, hsame⟩
        · obtain rfl := List.mem_singleton.mp hnew
          exact ⟨_, List.mem_cons_self, hsequence, .rfl⟩
      issued         := fun issue hissue => (h.issued issue hissue).imp_right
        fun ⟨entry, hentry, hsame⟩ => ⟨entry, List.mem_cons_of_mem _ hentry, hsame⟩
      numbered       := by
        refine List.forall_mem_cons.mpr ⟨le_rfl, fun entry hentry => ?_⟩
        have hnumber := h.numbered entry hentry
        exact hnumber.trans (hsequence ▸ Nat.le_succ _)
      registering    := fun waiting hmem => h.registering waiting (List.mem_of_mem_erase hmem) }

theorem Sound.step (h : s.Sound) (hstep : s.step action = some s') : s'.Sound := by
  rcases step_cases hstep with hframe | ⟨io, request, newUser, user', -, hwaiting, hinsert, rfl⟩
  · exact hframe.sound h
  · exact h.insert hwaiting hinsert

/-! ## Rows that disappear -/

/-- The uid of an issued token is the uid of its row. -/
theorem tokenUid_of_issued (hdecodes : Platform.Decodes) (h : s.Sound) {issue : Issue}
    (hissue : issue ∈ s.issued) {now : ℕ} {uid : ℤ} (huid : tokenUid now issue.token = some uid) :
    uid = issue.row.1 := by
  obtain ⟨hsound, entry, hentry, hrow, -⟩ := h.issued issue hissue
  obtain ⟨issuedAt, htoken⟩ := hsound.token
  have hbound : issue.row.1 < 2 ^ 63 := by
    have hnumber := h.numbered entry hentry
    have hcapacity := s.user.capacity
    unfold maxKey at hcapacity
    omega
  obtain ⟨payload, hverify, claim, hclaim, hread⟩ : ∃ payload,
      Platform.verify defaultJwtIssuer defaultJwtIssuerSecret now issue.token = some payload ∧
        ∃ claim, payload.getPayloadClaim "uid" = some claim ∧ stoll claim = some uid := by
    simpa [tokenUid, Option.bind_eq_some_iff] using huid
  rw [htoken] at hverify
  obtain rfl := hdecodes _ _ _ _ _ hverify
  obtain rfl : toString issue.row.1 = claim := Option.some.inj hclaim
  rw [stoll_toString hbound] at hread
  exact (Option.some.inj hread).symm

/-- A token with the uid of a row was issued for this row. -/
theorem Sound.exists_issue (h : s.Sound) (hdecodes : Platform.Decodes) {io : StatementIo}
    {request : DeleteUserRequest} (hunforged : s.Unforged (.deleteUser io request))
    {row : ℕ × User} (hrow : row ∈ s.user.rows)
    (huid : tokenUid io.now request.token = some (row.1 : ℤ)) :
    ∃ issue ∈ s.issued, issue.token = request.token ∧ issue.row.1 = row.1 ∧
      issue.row.2.Same row.2 := by
  have hverified : (Platform.verify defaultJwtIssuer defaultJwtIssuerSecret io.now
      request.token).isSome := by
    obtain ⟨payload, hverify, -⟩ := Option.bind_eq_some_iff.mp huid
    rw [hverify]
    rfl
  obtain ⟨issue, hissue, htoken⟩ := hunforged hverified
  have hkey : issue.row.1 = row.1 :=
    (Int.ofNat.inj (tokenUid_of_issued hdecodes h hissue (htoken ▸ huid))).symm
  obtain ⟨-, entry, hentry, hentry_uid, hissued⟩ := h.issued issue hissue
  obtain ⟨entry', hentry', hentry_uid', hregistered⟩ := h.asRegistered row hrow
  -- both rows come from one registration, since no uid is given twice
  obtain rfl : entry = entry' := List.inj_on_of_nodup_map h.registeredOnce hentry hentry'
    (hentry_uid.trans (hkey.trans hentry_uid'.symm))
  exact ⟨issue, hissue, htoken, hkey, hissued.symm.trans hregistered⟩

/-- A row that is gone after a step was deleted under its uid and its password. -/
theorem deletes_of_step (hstep : s.step action = some s') {row : ℕ × User}
    (hrow : row ∈ s.user.rows) (hgone : row.1 ∉ s'.user.keys) : Deletes row action := by
  rcases step_cases hstep with hframe | ⟨io, request, newUser, user', -, -, hinsert, rfl⟩
  · exact (hframe.removed row hrow).resolve_left hgone
  · refine absurd ?_ hgone
    rw [AutoTable.keys, (AutoTable.insert_eq_some hinsert).1, List.map_append]
    exact List.mem_append_left _ (List.mem_map_of_mem hrow)

/-- No row changes but for its last access. -/
theorem Sound.respects (h : s.Sound) (hdecodes : Platform.Decodes)
    (hunforged : s.Unforged action) (hstep : s.step action = some s') :
    s.Respects action s' where
  kept    := by
    intro row hrow row' hrow' hkey
    rcases step_cases hstep with hframe | ⟨io, request, newUser, user', -, -, hinsert, rfl⟩
    · obtain ⟨original, hmem, huid, hsame⟩ := hframe.rows row' hrow'
      rwa [AutoTable.eq_of_key hmem hrow (huid.trans hkey)] at hsame
    · have hold : row ∈ user'.rows := by
        rw [(AutoTable.insert_eq_some hinsert).1]
        exact List.mem_append_left _ hrow
      rw [AutoTable.eq_of_key hrow' hold hkey]
      exact .rfl
  issued  := by
    rcases step_cases hstep with hframe | ⟨io, request, newUser, user', -, -, -, rfl⟩
    · exact hframe.issued
    · exact fun issue hissue => Or.inl hissue
  removed := by
    intro row hrow hgone
    have hdeletes := deletes_of_step hstep hrow hgone
    obtain ⟨io, request, rfl⟩ : ∃ io request, action = .deleteUser io request := by
      cases action with
      | deleteUser io request => exact ⟨io, request, rfl⟩
      | _ => exact hdeletes.elim
    exact ⟨io, request, rfl, hdeletes.2,
      h.exists_issue hdecodes hunforged hrow hdeletes.1⟩

/-- **The integrity of accounts.** -/
theorem accountsIntact (hdecodes : Platform.Decodes) (hrun : Run step Unforged {} s) :
    s.Intact ∧ ∀ action s', s.Unforged action → s.step action = some s' → s.Respects action s' := by
  have hsound : s.Sound := hrun.invariant Sound .initial fun h _ hstep => h.step hstep
  exact ⟨hsound.toIntact, fun action s' hunforged hstep =>
    hsound.respects hdecodes hunforged hstep⟩

end Runs

/-! ### A user who comes and goes -/

/-- What the token of the first user says, issued at time 0. -/
def alicePayload : Payload :=
  makePayload 0 1 Role.user defaultUserQuotaBytes

/-- One payload has a token. -/
@[reducible] def alicePlatform : Platform where
  sign secret payload :=
    if secret = defaultJwtIssuerSecret ∧ payload = alicePayload then "token" else ""
  verify issuer secret now token :=
    if issuer = alicePayload.issuer ∧ secret = defaultJwtIssuerSecret ∧
        now < alicePayload.expiresAt ∧ token = "token" then some alicePayload else none
  formatTime _ := ""

theorem alicePlatform_decodes : @Platform.Decodes alicePlatform := by
  intro issuer secret now payload payload' hverify
  dsimp only [Platform.verify, Platform.sign] at hverify
  split at hverify
  next hsigned =>
    split at hverify
    next => exact (Option.some.inj hverify).symm.trans hsigned.2.symm
    next => cases hverify
  next =>
    split at hverify
    next hknown => exact absurd hknown.2.2.2 (by decide)
    next => cases hverify

/-- A registration as an ordinary user. -/
def aliceRegisters : RegisterUserRequest :=
  { userName := "alice", password := "wonderland", role := .user }

/-- The row of that registration. -/
def alice : User where
  userName := "alice"
  avatar := []
  password := "wonderland"
  role := .user
  status := .enabled
  quota := defaultUserQuotaBytes
  createTime := 0
  modifyTime := 0
  lastAccessTime := 0
  lastAccessIp := ""

/-- Registering and logging in. -/
def aliceComes : List AccountAction :=
  [.registerUser {} aliceRegisters, .insertUser {} aliceRegisters alice,
    .loginUser {} { userName := "alice", password := "wonderland", role := .user }]

/-- The deletion of that row, with its token. -/
def aliceGoes : AccountAction :=
  .deleteUser {} { token := "token", password := "wonderland" }

instance (s : Accounts) : ∀ action, Decidable (@Unforged alicePlatform s action)
  | .deleteUser _ _ => inferInstanceAs (Decidable (_ → ∃ issue ∈ s.issued, _))
  | .registerUser _ _ | .insertUser _ _ _ | .loginUser _ _ | .updateLastAccess _ _ _ | .create =>
    .isTrue trivial

theorem accountsIntact_alice :
    ∃ s s', @Run _ _ (@step alicePlatform) (@Unforged alicePlatform) {} s ∧
      @step alicePlatform s aliceGoes = some s' ∧ s.user.keys = [1] ∧ s'.user.keys = [] ∧
      @Intact alicePlatform s ∧ @Respects alicePlatform s aliceGoes s' := by
  obtain ⟨s, s', hrun, hstep, hcheck⟩ := Run.exists_step_of_exec (@step alicePlatform)
    (@Unforged alicePlatform) {} aliceComes aliceGoes
    (fun s s' => decide (s.user.keys = [1] ∧ s'.user.keys = [] ∧
      @Unforged alicePlatform s aliceGoes)) (by decide +kernel)
  obtain ⟨hbefore, hafter, hunforged⟩ := of_decide_eq_true hcheck
  have hintact := @accountsIntact alicePlatform _ alicePlatform_decodes hrun
  exact ⟨s, s', hrun, hstep, hbefore, hafter, hintact.1, hintact.2 _ _ hunforged hstep⟩

end Accounts

end Vosfs.Auth
