import Vosfs.Library.AutoTable
import Vosfs.Library.Conversions
import Vosfs.Raft.Message

/-!
# Accounts

The authentication node keeps the accounts in one table of a database.  A handler uses the
database in critical sections, one for each statement it executes; between two of them other
handlers run.  Registering and logging in have two critical sections and are split there,
deleting has one.
-/

namespace Vosfs.Auth

open Raft (StatusCode)

/-! ## Messages -/

/-- A value of `User_Role`, which is not checked on the wire. -/
abbrev Role := ℤ

/-- The first value of the enumeration, which is also the default. -/
def Role.admin : Role := 0

/-- An ordinary user. -/
def Role.user : Role := 1

/-- `Role_IsValid`: the number is one of the enumeration. -/
def Role.IsValid (role : Role) : Prop :=
  role = admin ∨ role = user

instance (role : Role) : Decidable role.IsValid :=
  inferInstanceAs (Decidable (_ ∨ _))

/-- A value of `User_Status`, as the database holds it. -/
abbrev Status := ℤ

/-- The account can log in. -/
def Status.enabled : Status := 0

/-- The account was disabled. -/
def Status.disabled : Status := 1

/-- The account was deleted. -/
def Status.deleted : Status := 2

/-- `Status_IsValid`: the number is one of the enumeration. -/
def Status.IsValid (status : Status) : Prop :=
  status = enabled ∨ status = disabled ∨ status = deleted

instance (status : Status) : Decidable status.IsValid :=
  inferInstanceAs (Decidable (_ ∨ _ ∨ _))

/-- `RegisterUserRequest`, with the defaults of its fields. -/
structure RegisterUserRequest where
  userName : String := ""
  password : String := ""
  role : Role := .admin
  adminSecret : String := ""
  deriving DecidableEq

/-- `RegisterUserResponse`. -/
structure RegisterUserResponse where
  statusCode : StatusCode := .ok
  message : String := ""

/-- `DeleteUserRequest`: the token names the user. -/
structure DeleteUserRequest where
  token : String := ""
  password : String := ""

/-- `DeleteUserResponse`. -/
structure DeleteUserResponse where
  statusCode : StatusCode := .ok
  message : String := ""

/-- `LoginUserByNameRequest`. -/
structure LoginUserByNameRequest where
  userName : String := ""
  password : String := ""
  role : Role := .admin

/-- `LoginUserByNameResponse`: a token, and what the row says about the user. -/
structure LoginUserByNameResponse where
  statusCode : StatusCode := .ok
  message : String := ""
  token : String := ""
  userName : String := ""
  avatar : List UInt8 := []
  createTime : String := ""
  deriving DecidableEq

/-! ## Tokens -/

/-- What is signed.  The claims are named strings. -/
structure Payload where
  issuer : String
  expiresAt : ℕ
  claims : List (String × String)
  deriving DecidableEq

/-- The claim with the name, if the token has one. -/
def Payload.getPayloadClaim (payload : Payload) (name : String) : Option String :=
  payload.claims.lookup name

/-- What the code takes from `jwt-cpp` and from `kosio`: signing with a secret, verifying at some
time with an issuer and a secret, and printing a time. -/
class Platform where
  sign : String → Payload → String
  verify : String → String → ℕ → String → Option Payload
  formatTime : ℕ → String

/-- A token that verifies has the payload that was signed. -/
def Platform.Decodes [Platform] : Prop :=
  ∀ issuer secret now payload payload',
    verify issuer secret now (sign secret payload) = some payload' → payload' = payload

/-- The issuer that tokens are made for and must name. -/
def defaultJwtIssuer : String := "vosfs-issuer"

/-- The secret that tokens are signed with. -/
def defaultJwtIssuerSecret : String := "vosfs-secret"

/-- How long a token is valid. -/
def defaultTokenValidTimeInSecond : ℕ := 3600

/-- The quota of a user who registers. -/
def defaultUserQuotaBytes : ℕ := 100 * 1024 * 1024 * 1024

/-- What an administrator has to send with the registration. -/
def defaultAdminSecret : String := "123456"

/-! ## The table -/

/-- A row of the table `user`, without its key. -/
structure User where
  userName : String
  avatar : List UInt8
  password : String
  role : Role
  status : Status
  quota : ℕ
  createTime : ℕ
  modifyTime : ℕ
  lastAccessTime : ℕ
  lastAccessIp : String
  deriving DecidableEq

/-- The key is the uid. -/
abbrev UserTable := AutoTable User.userName

/-- What happens around a statement: the time on the clock that the handler reads, the peer, and
whether the database prepares and executes the statement. -/
structure StatementIo where
  now : ℕ := 0
  peerIp : String := ""
  prepares : Bool := true
  steps : Bool := true

/-! ## Handlers -/

/-- The row that is inserted next.  A query that fails counts as one that finds nothing. -/
def handleRegisterUserRequest (user : UserTable) (io : StatementIo)
    (request : RegisterUserRequest) : Except RegisterUserResponse User :=
  if request.userName.isEmpty || request.password.isEmpty then
    .error { statusCode := .invalidArgument, message := "用户名或密码不能为空" }
  else if ¬request.role.IsValid then
    .error { statusCode := .invalidArgument, message := "无效用户权限值" }
  else if request.role = Role.admin ∧ request.adminSecret ≠ defaultAdminSecret then
    .error { statusCode := .invalidArgument, message := "管理员密钥错误" }
  else if !io.prepares then
    .error { statusCode := .internal, message := "服务器数据库错误，无法查询用户是否存在" }
  else if io.steps && user.rows.any fun row => row.2.userName = request.userName then
    .error { statusCode := .invalidArgument, message := "用户名已存在" }
  else
    .ok
      { userName := request.userName
        avatar := []
        password := request.password
        role := request.role
        status := .enabled
        quota := defaultUserQuotaBytes
        createTime := io.now
        modifyTime := io.now
        lastAccessTime := io.now
        lastAccessIp := io.peerIp }

/-- The rest of `handle_register_user_request`. -/
def insertUser (user : UserTable) (io : StatementIo) (newUser : User) :
    UserTable × RegisterUserResponse :=
  if !io.prepares then
    (user, { statusCode := .internal, message := "数据库 SQL 准备失败，无法创建用户" })
  else
    match if io.steps then user.insert newUser else none with
    | none => (user, { statusCode := .internal, message := "数据库 SQL 执行失败，无法创建用户" })
    | some user' => (user', { statusCode := .ok, message := "注册成功" })

section Tokens

variable [Platform]

/-- The uid of a token, unless there is an exception. -/
def tokenUid (now : ℕ) (token : String) : Option ℤ := do
  let decoded ← Platform.verify defaultJwtIssuer defaultJwtIssuerSecret now token
  stoll (← decoded.getPayloadClaim "uid")

/-- What a token says: who it is for, and until when. -/
def makePayload (now uid : ℕ) (role : Role) (quota : ℕ) : Payload where
  issuer := defaultJwtIssuer
  expiresAt := now + defaultTokenValidTimeInSecond
  claims := [("uid", toString uid), ("role", toString role), ("quota", toString quota)]

/-- The payload, signed. -/
def makeToken (now uid : ℕ) (role : Role) (quota : ℕ) : String :=
  Platform.sign defaultJwtIssuerSecret (makePayload now uid role quota)

/-- The one critical section of a deletion: the statement deletes by uid and password, and is
answered `kOk` whether or not a row matched. -/
def handleDeleteUserRequest (user : UserTable) (io : StatementIo) (request : DeleteUserRequest) :
    UserTable × DeleteUserResponse :=
  match tokenUid io.now request.token with
  | none => (user, { statusCode := .permissionDenied, message := "无效 Token" })
  | some uid =>
    if !io.prepares || !io.steps then
      (user, { statusCode := .internal, message := "服务器数据库错误，无法删除用户" })
    else
      (user.delete fun row => (row.1 : ℤ) = uid && row.2.password = request.password,
        { statusCode := .ok, message := "注销成功" })

/-- The row that is found, and the answer as it stands before the last access is recorded. -/
def handleLoginUserByUserNameRequest (user : UserTable) (io : StatementIo)
    (request : LoginUserByNameRequest) :
    Except LoginUserByNameResponse ((ℕ × User) × LoginUserByNameResponse) :=
  if !io.prepares then
    .error { statusCode := .internal, message := "服务器数据库错误，无法查询用户" }
  else
    match if io.steps then user.rows.find? fun row => row.2.userName = request.userName &&
        row.2.password = request.password && row.2.role = request.role else none with
    | none => .error { statusCode := .internal, message := "用户名或密码错误" }
    | some row =>
      if ¬row.2.status.IsValid ∨ row.2.status = .disabled ∨ row.2.status = .deleted then
        .error { statusCode := .permissionDenied, message := "用户被禁用，请联系管理员" }
      else
        .ok (row,
          { token := makeToken io.now row.1 request.role row.2.quota
            userName := request.userName
            avatar := row.2.avatar
            createTime := Platform.formatTime row.2.createTime })

end Tokens

/-- The rest of `handle_login_user_by_user_name_request`.  Without the update the answer is still
that the login succeeded. -/
def updateLastAccess (user : UserTable) (io : StatementIo) (uid : ℕ)
    (response : LoginUserByNameResponse) : UserTable × LoginUserByNameResponse :=
  if !io.prepares then
    (user, { statusCode := .internal, message := "服务器数据库错误，无法更新用户数据" })
  else
    (if io.steps then
      user.update uid (fun row => { row with lastAccessTime := io.now, lastAccessIp := io.peerIp })
        fun _ => rfl
    else user, { response with statusCode := .ok, message := "登录成功" })

end Vosfs.Auth
