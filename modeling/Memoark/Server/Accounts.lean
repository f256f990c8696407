import Memoark.Program.Returns
import Memoark.Server.FirstAdmin
import Memoark.Server.MemoMessages
import Memoark.Server.ReadMemos

/-! `CreateUser`, `UpdateUser` and `DeleteUser` of `user_service.go` side by side, one statement at a
time, over a user table and a user cache that may lag behind it. -/
namespace Memoark.Server.Accounts
open Store Program Memoark.System

structure User where
  ID : Nat
  RowStatus : RowStatus
  CreatedTs : Int
  UpdatedTs : Int
  Username : String
  Role : UserRole
  Email : String
  Nickname : String
  PasswordHash : String
  AvatarURL : String
  Description : String
  deriving DecidableEq

structure UpdateUser where
  ID : Nat
  UpdatedTs : Option Int
  RowStatus : Option RowStatus
  Username : Option String
  Role : Option UserRole
  Email : Option String
  Nickname : Option String
  AvatarURL : Option String
  PasswordHash : Option String
  Description : Option String

def UpdateUser.apply (update : UpdateUser) (user : User) : User where
  ID := user.ID
  RowStatus := update.RowStatus.getD user.RowStatus
  CreatedTs := user.CreatedTs
  UpdatedTs := update.UpdatedTs.getD user.UpdatedTs
  Username := update.Username.getD user.Username
  Role := update.Role.getD user.Role
  Email := update.Email.getD user.Email
  Nickname := update.Nickname.getD user.Nickname
  PasswordHash := update.PasswordHash.getD user.PasswordHash
  AvatarURL := update.AvatarURL.getD user.AvatarURL
  Description := update.Description.getD user.Description

structure RequestedUser where
  Name : String
  Role : FirstAdmin.Api.Role
  Username : String
  Email : String
  DisplayName : String
  AvatarUrl : String
  Description : String
  Password : String
  State : Api.State

inductive Request where
  | createUser (user : Option RequestedUser) (validateOnly : Bool)
  /-- With the paths of the update mask. -/
  | updateUser (user : Option RequestedUser) (paths : List String)
  | deleteUser (name : String)

structure InstanceGeneralSetting where
  DisallowUserRegistration : Bool
  DisallowPasswordAuth : Bool
  DisallowChangeUsername : Bool
  DisallowChangeNickname : Bool

structure UserMessage where
  Name : String
  State : Api.State
  CreateTime : Option Api.Timestamp
  UpdateTime : Option Api.Timestamp
  Role : FirstAdmin.Api.Role
  Username : String
  DisplayName : String
  AvatarUrl : String
  Description : String
  Email : String

inductive Answer where
  | user (message : UserMessage)
  | empty

def convertUserRoleToStore : FirstAdmin.Api.Role → UserRole
  | .ADMIN => .ADMIN
  | _ => .USER

def convertUserRoleFromStore : UserRole → FirstAdmin.Api.Role
  | .ADMIN => .ADMIN
  | .USER => .USER

def lastBase64 : List Char → Option (List Char × List Char)
  | [] => none
  | c :: chars =>
    match lastBase64 chars with
    | some (before, data) => some (c :: before, data)
    | none =>
      if ";base64,".toList.isPrefixOf (c :: chars) ∧ (c :: chars).length > 8 then
        some ([], (c :: chars).drop 8)
      else none

/-- `^data:(.+);base64,(.+)`: the type is as long as it can be, on the first line. -/
def extractImageInfo (dataURI : String) : Except String (String × String) :=
  let line := dataURI.toList.takeWhile (· ≠ '\n')
  let parts :=
    if "data:".toList.isPrefixOf line then
      match line.drop 5 with
      | [] => none
      | c :: chars => (lastBase64 chars).map fun (before, data) => (c :: before, data)
    else none
  match parts with
  | some (imageType, data) => .ok (String.ofList imageType, String.ofList data)
  | none => .error "invalid data URI format"

def allowedAvatarTypes : List String :=
  ["image/png", "image/jpeg", "image/jpg", "image/gif", "image/webp"]

def canViewerAccessUserEmail (viewer user : User) : Bool :=
  viewer.Role = .ADMIN || viewer.ID = user.ID

def convertUserFromStore (user viewer : User) : UserMessage where
  Name := buildUserName user.Username
  State := convertStateFromStore user.RowStatus
  CreateTime := timestamp user.CreatedTs
  UpdateTime := timestamp user.UpdatedTs
  Role := convertUserRoleFromStore user.Role
  Username := user.Username
  DisplayName := user.Nickname
  AvatarUrl :=
    match extractImageInfo user.AvatarURL with
    | .ok _ => "/file/" ++ buildUserName user.Username ++ "/avatar"
    | .error _ => user.AvatarURL
  Description := user.Description
  Email := if canViewerAccessUserEmail viewer user then user.Email else ""

inductive CreateStep where
  | listUsers
  | hashFirstPassword
  /-- `CreateUserIfNoUsers`, before it holds `userCreateMu`. -/
  | lockUserCreate (passwordHash : String)
  | listUsersLocked (passwordHash : String)
  | createUserLocked (passwordHash : String)
  | getInstanceGeneralSetting
  | hashPassword (roleToAssign : UserRole)
  | createUser (roleToAssign : UserRole) (passwordHash : String)

inductive UpdateStep where
  | resolveUserByName
  | fetchCurrentUser (user : User)
  | getInstanceGeneralSetting (user currentUser : User)
  | readPaths (user currentUser : User) (setting : InstanceGeneralSetting)
  | updateUser (currentUser : User) (update : UpdateUser)

inductive DeleteStep where
  | resolveUserByName
  | fetchCurrentUser (user : User)
  | deleteUser (user : User)
  | deleteAttachmentStorage

inductive Step where
  | fetchCreator (user : Option RequestedUser) (validateOnly : Bool)
  | create (user : RequestedUser) (validateOnly : Bool) (next : CreateStep)
  | update (user : RequestedUser) (paths : List String) (next : UpdateStep)
  | delete (name : String) (next : DeleteStep)

def Step.locked : Step → Bool
  | create _ _ (.listUsersLocked _) => true
  | create _ _ (.createUserLocked _) => true
  | _ => false

def Step.failure (err : String) : Step → Status
  | fetchCreator _ _ => ⟨.Internal, err⟩
  | create _ _ next =>
    match next with
    | .listUsers => ⟨.Internal, "failed to list users: " ++ err⟩
    | .hashFirstPassword => ⟨.Internal, "failed to generate password hash: " ++ err⟩
    | .lockUserCreate _ => ⟨.Internal, "failed to create first user: " ++ err⟩
    | .listUsersLocked _ => ⟨.Internal, "failed to create first user: " ++ err⟩
    | .createUserLocked _ => ⟨.Internal, "failed to create first user: " ++ err⟩
    | .getInstanceGeneralSetting =>
      ⟨.Internal, "failed to get instance general setting, error: " ++ err⟩
    | .hashPassword _ => ⟨.Internal, "failed to generate password hash: " ++ err⟩
    | .createUser _ _ => ⟨.Internal, "failed to create user: " ++ err⟩
  | update _ _ next =>
    match next with
    | .resolveUserByName =>
      ⟨.InvalidArgument, "invalid user name: resolve user by name: GetUser failed: " ++ err⟩
    | .fetchCurrentUser _ => ⟨.Internal, "failed to get user: " ++ err⟩
    | .getInstanceGeneralSetting _ _ =>
      ⟨.Internal, "failed to get instance general setting: " ++ err⟩
    | .readPaths _ _ _ => ⟨.Internal, "failed to generate password hash: " ++ err⟩
    | .updateUser _ _ => ⟨.Internal, "failed to update user: " ++ err⟩
  | delete _ next =>
    match next with
    | .resolveUserByName =>
      ⟨.InvalidArgument, "invalid user name: resolve user by name: GetUser failed: " ++ err⟩
    | .fetchCurrentUser _ => ⟨.Internal, "failed to get user: " ++ err⟩
    | .deleteUser _ => ⟨.Internal, "failed to delete user: " ++ err⟩
    | .deleteAttachmentStorage => ⟨.Internal, err⟩

inductive Call where
  | idle
  /-- `userID` is 0 for a call without a token. -/
  | running (userID : Nat) (next : Step)
  | returned (result : Except Status Answer)

def Call.locked : Call → Bool
  | running _ next => next.locked
  | _ => false

inductive Label where
  | start (n userID : Nat) (request : Request)
  /-- The next statement, with the hash that bcrypt computes, the time, and the setting that is
  read. -/
  | step (n : Nat) (passwordHash : String) (now : Int) (setting : InstanceGeneralSetting)
  /-- The attachments of a deleted user are removed, but for those that fail. -/
  | deleteAttachmentStorage (n : Nat) (failed : List (Nat × String))
  | fails (n : Nat) (err : String)
  /-- A reader, or the writer of a row, caches what it has got from the table before. -/
  | cache (user : User)
  | evict (id : Nat)

structure State where
  /-- The table, in the order of the inserts. -/
  users : List User
  nextID : Nat
  userCache : Nat → Option User
  /-- All that the rows have been. -/
  versions : List User
  userCreateMu : Option Nat
  calls : Nat → Call

def checkCreate : Option RequestedUser → Except Status RequestedUser
  | none => .error ⟨.InvalidArgument, "user is required"⟩
  | some user =>
    if !FirstAdmin.validateWritableUsername user.Username then
      .error ⟨.InvalidArgument, "invalid username: " ++ user.Username⟩
    else if user.Password = "" then .error ⟨.InvalidArgument, "password must not be empty"⟩
    else .ok user

def validated (user : RequestedUser) (roleToAssign : UserRole) : UserMessage where
  Name := ""
  State := .unspecified
  CreateTime := none
  UpdateTime := none
  Role := convertUserRoleFromStore roleToAssign
  Username := user.Username
  DisplayName := user.DisplayName
  AvatarUrl := ""
  Description := ""
  Email := user.Email

def checkAvatar (avatarUrl : String) : Except Status Unit :=
  if avatarUrl = "" then .ok ()
  else
    match extractImageInfo avatarUrl with
    | .error err => .error ⟨.InvalidArgument, "invalid avatar format: " ++ err⟩
    | .ok (imageType, _) =>
      if imageType ∈ allowedAvatarTypes then .ok ()
      else .error ⟨.InvalidArgument, "invalid avatar image type: " ++ imageType ++
        ". Only PNG, JPEG, GIF, and WebP are allowed"⟩

def readPath (setting : InstanceGeneralSetting) (currentUser : User) (user : RequestedUser)
    (passwordHash : String) (update : UpdateUser) (field : String) : Except Status UpdateUser :=
  match field with
  | "username" =>
    if setting.DisallowChangeUsername then
      .error ⟨.PermissionDenied, "permission denied: disallow change username"⟩
    else if !FirstAdmin.validateWritableUsername user.Username then
      .error ⟨.InvalidArgument, "invalid username: " ++ user.Username⟩
    else .ok { update with Username := some user.Username }
  | "display_name" =>
    if setting.DisallowChangeNickname then
      .error ⟨.PermissionDenied, "permission denied: disallow change nickname"⟩
    else .ok { update with Nickname := some user.DisplayName }
  | "email" => .ok { update with Email := some user.Email }
  | "avatar_url" =>
    (checkAvatar user.AvatarUrl).map fun _ => { update with AvatarURL := some user.AvatarUrl }
  | "description" => .ok { update with Description := some user.Description }
  | "role" =>
    if currentUser.Role ≠ .ADMIN then .error ⟨.PermissionDenied, "permission denied"⟩
    else .ok { update with Role := some (convertUserRoleToStore user.Role) }
  | "password" =>
    if user.Password = "" then .error ⟨.InvalidArgument, "password must not be empty"⟩
    else .ok { update with PasswordHash := some passwordHash }
  | "state" =>
    if currentUser.Role ≠ .ADMIN then .error ⟨.PermissionDenied, "permission denied"⟩
    else .ok { update with RowStatus := some (convertStateToStore user.State) }
  | field => .error ⟨.InvalidArgument, "invalid update path: " ++ field⟩

def readPaths (setting : InstanceGeneralSetting) (currentUser : User) (user : RequestedUser)
    (passwordHash : String) (update : UpdateUser) (paths : List String) :
    Except Status UpdateUser :=
  paths.foldlM (readPath setting currentUser user passwordHash) update

def checkCurrentUser (user : User) : Except String (Option User) → Except Status User
  | .error err => .error ⟨.Internal, "failed to get user: " ++ err⟩
  | .ok none => .error ⟨.Unauthenticated, "user not authenticated"⟩
  | .ok (some currentUser) =>
    if currentUser.ID ≠ user.ID ∧ currentUser.Role ≠ .ADMIN then
      .error ⟨.PermissionDenied, "permission denied"⟩
    else .ok currentUser

section calls

variable (s : State)

def resolveUserByName (name : String) : Except Status User :=
  match getNameParentToken name "users/" with
  | .error err => .error ⟨.InvalidArgument, "invalid user name: " ++ err⟩
  | .ok username =>
    match s.users.find? (·.Username = username) with
    | none => .error ⟨.NotFound, "user not found"⟩
    | some user => .ok user

variable (n userID : Nat)

/-- `GetUser` with an ID, which reads the cache first. -/
def fetchCurrentUser : Except String (Option User) :=
  if userID = 0 then .ok none
  else
    match (s.userCache userID).or (s.users.find? (·.ID = userID)) with
    | none => .error ("user " ++ toString userID ++ " not found")
    | some user => .ok (if user.RowStatus = .archived then none else some user)

def State.return (result : Except Status Answer) : State :=
  { s with
    userCreateMu := if (s.calls n).locked then none else s.userCreateMu
    calls := update s.calls n (.returned result) }

def State.move (next : Step) : State := { s with calls := update s.calls n (.running userID next) }

def State.continue (result : Except Status Step) : State :=
  match result with
  | .ok next => s.move n userID next
  | .error err => s.return n (.error err)

def insertUser (user : RequestedUser) (role : UserRole) (passwordHash : String) (now : Int) :
    Option State :=
  let row : User := ⟨s.nextID, .normal, now, now, user.Username, role, user.Email,
    user.DisplayName, passwordHash, "", ""⟩
  if s.users.any (·.Username = user.Username) then none
  else some ({ s with
    users := s.users ++ [row]
    nextID := s.nextID + 1
    versions := s.versions ++ [row] }.return n (.ok (.user (convertUserFromStore row row))))

def updateRow (currentUser : User) (update : UpdateUser) : Option State :=
  let users := s.users.map fun user => if user.ID = update.ID then update.apply user else user
  if s.users.any (fun user => user.ID ≠ update.ID ∧ some user.Username = update.Username) then none
  else (users.find? (·.ID = update.ID)).map fun user =>
    { s with users, versions := s.versions ++ users }.return n
      (.ok (.user (convertUserFromStore user currentUser)))

def deleteRow (name : String) (user : User) : State :=
  { s with users := s.users.filter (·.ID ≠ user.ID) }.move n userID
    (.delete name .deleteAttachmentStorage)

/-- `CreateUser` once the current user is read; that the read fails is ignored. -/
def afterCreator (user : Option RequestedUser) (validateOnly : Bool) (currentUser : Option User) :
    State :=
  match checkCreate user with
  | .error err => s.return n (.error err)
  | .ok user =>
    if currentUser.any (·.Role = .ADMIN) then
      -- An administrator may create users with any role.
      let roleToAssign :=
        match user.Role with
        | .ROLE_UNSPECIFIED => .USER
        | role => convertUserRoleToStore role
      if validateOnly then s.return n (.ok (.user (validated user roleToAssign)))
      else s.move n userID (.create user validateOnly (.hashPassword roleToAssign))
    else s.move n userID (.create user validateOnly .listUsers)

def nextCreate (user : RequestedUser) (validateOnly : Bool) (hash : String) (now : Int)
    (setting : InstanceGeneralSetting) : CreateStep → Option State
  | .listUsers =>
    if s.users.isEmpty then
      if validateOnly then some (s.return n (.ok (.user (validated user .ADMIN))))
      else some (s.move n userID (.create user validateOnly .hashFirstPassword))
    else some (s.move n userID (.create user validateOnly .getInstanceGeneralSetting))
  | .hashFirstPassword =>
    some (s.move n userID (.create user validateOnly (.lockUserCreate hash)))
  | .lockUserCreate passwordHash =>
    if s.userCreateMu = none then
      some { s.move n userID (.create user validateOnly (.listUsersLocked passwordHash)) with
        userCreateMu := some n }
    else none
  | .listUsersLocked passwordHash =>
    if s.users.isEmpty then
      some (s.move n userID (.create user validateOnly (.createUserLocked passwordHash)))
    else
      some { s.move n userID (.create user validateOnly .getInstanceGeneralSetting) with
        userCreateMu := none }
  | .createUserLocked passwordHash => insertUser s n user .ADMIN passwordHash now
  | .getInstanceGeneralSetting =>
    if setting.DisallowUserRegistration then
      some (s.return n (.error ⟨.PermissionDenied, "user registration is not allowed"⟩))
    else if setting.DisallowPasswordAuth then
      some (s.return n (.error ⟨.PermissionDenied, "password signup is not allowed"⟩))
    else if validateOnly then some (s.return n (.ok (.user (validated user .USER))))
    else some (s.move n userID (.create user validateOnly (.hashPassword .USER)))
  | .hashPassword roleToAssign =>
    some (s.move n userID (.create user validateOnly (.createUser roleToAssign hash)))
  | .createUser roleToAssign passwordHash => insertUser s n user roleToAssign passwordHash now

def nextUpdate (user : RequestedUser) (paths : List String) (hash : String) (now : Int)
    (setting : InstanceGeneralSetting) : UpdateStep → Option State
  | .resolveUserByName =>
    some (s.continue n userID ((resolveUserByName s user.Name).map fun found =>
      .update user paths (.fetchCurrentUser found)))
  | .fetchCurrentUser found =>
    some (s.continue n userID ((checkCurrentUser found (fetchCurrentUser s userID)).map
      fun currentUser => .update user paths (.getInstanceGeneralSetting found currentUser)))
  | .getInstanceGeneralSetting found currentUser =>
    some (s.move n userID (.update user paths (.readPaths found currentUser setting)))
  | .readPaths found currentUser setting =>
    some (s.continue n userID
      ((readPaths setting currentUser user hash
        ⟨found.ID, some now, none, none, none, none, none, none, none, none⟩ paths).map
          fun update => .update user paths (.updateUser currentUser update)))
  | .updateUser currentUser update => updateRow s n currentUser update

def nextDelete (name : String) : DeleteStep → Option State
  | .resolveUserByName =>
    some (s.continue n userID ((resolveUserByName s name).map fun found =>
      .delete name (.fetchCurrentUser found)))
  | .fetchCurrentUser found =>
    some (s.continue n userID ((checkCurrentUser found (fetchCurrentUser s userID)).map
      fun _ => .delete name (.deleteUser found)))
  | .deleteUser found => some (deleteRow s n userID name found)
  | .deleteAttachmentStorage => none

def next (hash : String) (now : Int) (setting : InstanceGeneralSetting) : Step → Option State
  | .fetchCreator user validateOnly =>
    some (afterCreator s n userID user validateOnly ((fetchCurrentUser s userID).toOption.getD none))
  | .create user validateOnly step => nextCreate s n userID user validateOnly hash now setting step
  | .update user paths step => nextUpdate s n userID user paths hash now setting step
  | .delete name step => nextDelete s n userID name step

def begin : Request → State
  | .createUser user validateOnly => s.move n userID (.fetchCreator user validateOnly)
  | .updateUser user paths =>
    match user with
    | none => s.return n (.error ⟨.InvalidArgument, "user is required"⟩)
    | some user =>
      if paths = [] then s.return n (.error ⟨.InvalidArgument, "update mask is empty"⟩)
      else s.move n userID (.update user paths .resolveUserByName)
  | .deleteUser name => s.move n userID (.delete name .resolveUserByName)

def deleted : List (Nat × String) → Except Status Answer
  | [] => .ok .empty
  | (id, err) :: failed => .error ⟨.Internal,
    "user was deleted but attachment storage cleanup failed for " ++
      toString (failed.length + 1) ++ " attachment(s), first attachment_id=" ++ toString id ++
      ": " ++ err⟩

end calls

def step (s : State) : Label → Option State
  | .start n userID request =>
    match s.calls n with
    | .idle => some (begin s n userID request)
    | _ => none
  | .step n hash now setting =>
    match s.calls n with
    | .running userID step => next s n userID hash now setting step
    | _ => none
  | .deleteAttachmentStorage n failed =>
    match s.calls n with
    | .running _ (.delete _ .deleteAttachmentStorage) => some (s.return n (deleted failed))
    | _ => none
  | .fails n err =>
    match s.calls n with
    | .running userID (.fetchCreator user validateOnly) =>
      some (afterCreator s n userID user validateOnly none)
    | .running _ step => some (s.return n (.error (step.failure err)))
    | _ => none
  | .cache user =>
    if user ∈ s.versions then
      some { s with userCache := update s.userCache user.ID (some user) }
    else none
  | .evict id => some { s with userCache := update s.userCache id none }

/-- An instance at rest: ids are keys, and the cache is not behind the table. -/
structure AtRest (s : State) : Prop where
  ids : (s.users.map User.ID).Nodup
  nextID : ∀ user ∈ s.users, user.ID < s.nextID
  cached : ∀ id user, s.userCache id = some user → user ∈ s.users ∧ user.ID = id
  versions : s.versions = s.users
  userCreateMu : s.userCreateMu = none
  calls : ∀ n, s.calls n = .idle

def system (start : State) : LabelledSystem State Label := ⟨(· = start), step⟩

def CalledBy (callers : Nat → Prop) (_ : State) : Label → Prop
  | .start _ userID _ => callers userID
  | _ => True

def IsAvatar (avatarUrl : String) : Prop :=
  avatarUrl = "" ∨ ∃ imageType ∈ allowedAvatarTypes, ∃ data,
    extractImageInfo avatarUrl = .ok (imageType, data)

section confined

variable (callers : Nat → Prop) (start : State)

def Acts (user : User) : Prop := callers user.ID ∧ user.RowStatus = .normal

/-- What becomes of a user: the role and the status stay, and so does all of a user who does not
act. -/
structure Keeps (user user' : User) : Prop where
  id : user'.ID = user.ID
  rowStatus : user'.RowStatus = user.RowStatus
  role : user'.Role = user.Role
  createdTs : user'.CreatedTs = user.CreatedTs
  username : user'.Username = user.Username ∨
    FirstAdmin.validateWritableUsername user'.Username = true
  avatar : user'.AvatarURL = user.AvatarURL ∨ IsAvatar user'.AvatarURL
  untouched : ¬Acts callers user → user' = user

structure Registered (user : User) : Prop where
  id : start.nextID ≤ user.ID
  rowStatus : user.RowStatus = .normal
  role : user.Role = .USER
  username : FirstAdmin.validateWritableUsername user.Username = true
  avatar : IsAvatar user.AvatarURL

def Known (user : User) : Prop :=
  (∃ user₀ ∈ start.users, Keeps callers user₀ user) ∨ Registered start user

/-- Users who do not act are there as they were, and every other row is one of a user who acts, or
of a new user without rights. -/
structure Confined (s : State) : Prop where
  kept : ∀ user ∈ start.users, ¬Acts callers user → user ∈ s.users
  known : ∀ user ∈ s.users, Known callers start user

def ActsAs (userID : Nat) : Prop := ∀ user ∈ start.users, user.ID = userID → Acts callers user

structure UpdateUser.Harmless (update : UpdateUser) : Prop where
  rowStatus : update.RowStatus = none
  role : update.Role = none
  username : ∀ username ∈ update.Username, FirstAdmin.validateWritableUsername username = true
  avatar : ∀ avatarUrl ∈ update.AvatarURL, IsAvatar avatarUrl

/-- What a call knows; the table is never empty. -/
def CreateStep.Sound : CreateStep → Prop
  | listUsers => True
  | getInstanceGeneralSetting => True
  | hashPassword roleToAssign => roleToAssign = .USER
  | createUser roleToAssign _ => roleToAssign = .USER
  | _ => False

def UpdateStep.Sound (userID : Nat) : UpdateStep → Prop
  | resolveUserByName => True
  | fetchCurrentUser _ => True
  | getInstanceGeneralSetting user currentUser =>
    ActsAs callers start userID ∧ user.ID = userID ∧ currentUser.Role = .USER
  | readPaths user currentUser _ =>
    ActsAs callers start userID ∧ user.ID = userID ∧ currentUser.Role = .USER
  | updateUser _ update => ActsAs callers start userID ∧ update.ID = userID ∧ update.Harmless

def DeleteStep.Sound (userID : Nat) : DeleteStep → Prop
  | deleteUser user => ActsAs callers start userID ∧ user.ID = userID
  | _ => True

def Step.Sound (userID : Nat) : Step → Prop
  | fetchCreator _ _ => True
  | create user _ next =>
    FirstAdmin.validateWritableUsername user.Username = true ∧ next.Sound
  | update _ _ next => next.Sound callers start userID
  | delete _ next => next.Sound callers start userID

def Call.Sound : Call → Prop
  | running userID next => callers userID ∧ next.Sound callers start userID
  | _ => True

structure Inv (s : State) : Prop where
  kept : ∀ user ∈ start.users, ¬Acts callers user → user ∈ s.users
  rows : ∀ user ∈ s.users, user ∈ s.versions
  cached : ∀ id user, s.userCache id = some user → user ∈ s.versions ∧ user.ID = id
  known : ∀ user ∈ s.versions, Known callers start user
  nextID : start.nextID ≤ s.nextID
  calls : ∀ n, (s.calls n).Sound callers start

/-- The callers are no administrators, and some user does not act. -/
structure Ordinary : Prop where
  atRest : AtRest start
  role : ∀ user ∈ start.users, callers user.ID → user.Role = .USER
  other : ∃ user ∈ start.users, ¬Acts callers user

end confined

section paths

variable {setting : InstanceGeneralSetting} {currentUser : User} {user : RequestedUser}
  {hash : String} {update update' : UpdateUser}

theorem valid_of_checkCreate {requested : Option RequestedUser}
    (h : checkCreate requested = .ok user) :
    FirstAdmin.validateWritableUsername user.Username = true := by
  rw [checkCreate.eq_def] at h
  split at h
  · cases h
  · split at h
    · cases h
    · rename_i hvalid
      split at h
      · cases h
      · cases h
        simpa using hvalid

theorem isAvatar_of_checkAvatar {avatarUrl : String} (h : checkAvatar avatarUrl = .ok ()) :
    IsAvatar avatarUrl := by
  rw [checkAvatar] at h
  split at h
  · rename_i hempty
    exact .inl hempty
  · split at h
    · cases h
    · rename_i imageType data himage
      split at h
      · rename_i hallowed
        exact .inr ⟨imageType, hallowed, data, himage⟩
      · cases h

theorem UpdateUser.Harmless.readPath (h : update.Harmless) (hrole : currentUser.Role ≠ .ADMIN)
    {field : String} (hread : readPath setting currentUser user hash update field = .ok update') :
    update'.Harmless ∧ update'.ID = update.ID := by
  unfold Accounts.readPath at hread
  split at hread
  · split at hread
    · cases hread
    · split at hread
      · cases hread
      · rename_i hvalid
        cases hread
        refine ⟨{ h with username := ?_ }, rfl⟩
        simpa using hvalid
  · split at hread
    · cases hread
    · cases hread
      exact ⟨{ h with }, rfl⟩
  · cases hread
    exact ⟨{ h with }, rfl⟩
  · obtain ⟨_, hcheck, rfl⟩ := map_ok hread
    refine ⟨{ h with avatar := ?_ }, rfl⟩
    simpa using isAvatar_of_checkAvatar hcheck
  · cases hread
    exact ⟨{ h with }, rfl⟩
  · rw [if_pos hrole] at hread
    cases hread
  · split at hread
    · cases hread
    · cases hread
      exact ⟨{ h with }, rfl⟩
  · rw [if_pos hrole] at hread
    cases hread
  · cases hread

theorem UpdateUser.Harmless.readPaths (h : update.Harmless) (hrole : currentUser.Role ≠ .ADMIN)
    {paths : List String}
    (hread : readPaths setting currentUser user hash update paths = .ok update') :
    update'.Harmless ∧ update'.ID = update.ID := by
  rw [Accounts.readPaths] at hread
  induction paths generalizing update with
  | nil =>
    cases hread
    exact ⟨h, rfl⟩
  | cons field paths ih =>
    rw [List.foldlM_cons] at hread
    obtain ⟨next, hnext, hrest⟩ := bind_ok hread
    obtain ⟨hharmless, hid⟩ := h.readPath hrole hnext
    obtain ⟨hharmless', hid'⟩ := ih hharmless hrest
    exact ⟨hharmless', hid'.trans hid⟩

end paths

section steps

variable {callers : Nat → Prop} {start s s' : State} {n userID : Nat}

theorem AtRest.eq_of_id (h : AtRest start) {user user' : User} (hu : user ∈ start.users)
    (hu' : user' ∈ start.users) (hid : user.ID = user'.ID) : user = user' :=
  List.inj_on_of_nodup_map h.ids hu hu' hid

theorem Keeps.refl (user : User) : Keeps callers user user :=
  ⟨rfl, rfl, rfl, rfl, .inl rfl, .inl rfl, fun _ => rfl⟩

theorem getD_of {α : Type} {P : α → Prop} {column : Option α} {old : α} (hold : P old)
    (hset : ∀ value ∈ column, P value) : P (column.getD old) := by
  cases column with
  | none => exact hold
  | some value => exact hset value rfl

theorem Known.apply {user : User} {update : UpdateUser} (h : Known callers start user)
    (hacts : ActsAs callers start user.ID) (hupdate : update.Harmless) :
    Known callers start (update.apply user) := by
  have hstatus : (update.apply user).RowStatus = user.RowStatus := by
    rw [UpdateUser.apply, hupdate.rowStatus, Option.getD_none]
  have hrole : (update.apply user).Role = user.Role := by
    rw [UpdateUser.apply, hupdate.role, Option.getD_none]
  rcases h with ⟨user₀, huser₀, hkeeps⟩ | hregistered
  · left
    refine ⟨user₀, huser₀, hkeeps.id, hstatus.trans hkeeps.rowStatus, hrole.trans hkeeps.role,
      hkeeps.createdTs, ?_, ?_, ?_⟩
    · exact getD_of (P := fun username => username = user₀.Username ∨
          FirstAdmin.validateWritableUsername username = true) hkeeps.username
        fun username hname => .inr (hupdate.username username hname)
    · exact getD_of (P := fun avatarUrl => avatarUrl = user₀.AvatarURL ∨ IsAvatar avatarUrl)
        hkeeps.avatar fun avatarUrl hurl => .inr (hupdate.avatar avatarUrl hurl)
    · intro hother
      exact absurd (hacts user₀ huser₀ hkeeps.id.symm) hother
  · right
    refine ⟨hregistered.id, hstatus.trans hregistered.rowStatus, hrole.trans hregistered.role,
      ?_, ?_⟩
    · exact getD_of (P := (FirstAdmin.validateWritableUsername · = true)) hregistered.username
        hupdate.username
    · exact getD_of (P := IsAvatar) hregistered.avatar hupdate.avatar

theorem fetchCurrentUser_some {user : User}
    (h : fetchCurrentUser s userID = .ok (some user)) :
    ((s.userCache userID).or (s.users.find? (·.ID = userID)) = some user) ∧
      user.RowStatus = .normal := by
  rw [fetchCurrentUser] at h
  split at h
  · cases h
  · split at h
    · cases h
    · rename_i found hfound
      split at h
      · cases h
      · rename_i hstatus
        cases h
        refine ⟨hfound, ?_⟩
        cases hrow : user.RowStatus with
        | normal => rfl
        | archived => exact absurd hrow hstatus

/-- The current user of a call may be read from an old version of the row, and is still no
administrator and not archived. -/
theorem Inv.currentUser (ho : Ordinary callers start) (h : Inv callers start s)
    (hcaller : callers userID) {user : User}
    (hcurrent : fetchCurrentUser s userID = .ok (some user)) :
    user.ID = userID ∧ user.Role = .USER ∧ ActsAs callers start userID := by
  obtain ⟨hread, hstatus⟩ := fetchCurrentUser_some hcurrent
  obtain ⟨hversion, rfl⟩ : user ∈ s.versions ∧ user.ID = userID := by
    rcases Option.or_eq_some_iff.mp hread with hcached | ⟨-, hrow⟩
    · exact h.cached userID user hcached
    · have hid := List.find?_some hrow
      exact ⟨h.rows user (List.mem_of_find?_eq_some hrow), of_decide_eq_true hid⟩
  rcases h.known user hversion with ⟨user₀, huser₀, hkeeps⟩ | hregistered
  · rw [hkeeps.id] at hcaller
    refine ⟨rfl, hkeeps.role.trans (ho.role user₀ huser₀ hcaller), ?_⟩
    intro user₁ huser₁ hid
    have heq : user₁ = user₀ := ho.atRest.eq_of_id huser₁ huser₀ (hid.trans hkeeps.id)
    rw [heq]
    exact ⟨hcaller, hkeeps.rowStatus.symm.trans hstatus⟩
  · refine ⟨rfl, hregistered.role, ?_⟩
    intro user₁ huser₁ hid
    have hbound := ho.atRest.nextID user₁ huser₁
    have hnew := hregistered.id
    omega

theorem Inv.checkCurrentUser (ho : Ordinary callers start) (h : Inv callers start s)
    (hcaller : callers userID) {user currentUser : User}
    (hcheck : checkCurrentUser user (fetchCurrentUser s userID) = .ok currentUser) :
    ActsAs callers start userID ∧ user.ID = userID ∧ currentUser.Role = .USER := by
  rw [Accounts.checkCurrentUser.eq_def] at hcheck
  split at hcheck
  · cases hcheck
  · cases hcheck
  · rename_i current hcurrent
    obtain ⟨hid, hrole, hacts⟩ := h.currentUser ho hcaller hcurrent
    split at hcheck
    · cases hcheck
    · rename_i hallowed
      cases hcheck
      refine ⟨hacts, ?_, hrole⟩
      by_contra hne
      apply hallowed
      rw [hid, hrole]
      exact ⟨fun heq => hne heq.symm, nofun⟩

theorem Inv.put (h : Inv callers start s) (mu : Option Nat) {call : Call}
    (hcall : call.Sound callers start) :
    Inv callers start { s with userCreateMu := mu, calls := update s.calls n call } :=
  { h with calls := forall_update hcall h.calls }

theorem Inv.return (h : Inv callers start s) (result : Except Status Answer) :
    Inv callers start (s.return n result) := h.put _ trivial

theorem Inv.move (h : Inv callers start s) (hcaller : callers userID) {next : Step}
    (hnext : next.Sound callers start userID) : Inv callers start (s.move n userID next) :=
  h.put _ ⟨hcaller, hnext⟩

theorem Inv.continue (h : Inv callers start s) (hcaller : callers userID)
    {result : Except Status Step}
    (hnext : ∀ next, result = .ok next → next.Sound callers start userID) :
    Inv callers start (s.continue n userID result) := by
  cases result with
  | error err => exact h.return _
  | ok next => exact h.move hcaller (hnext next rfl)

theorem Inv.write (h : Inv callers start s) {users new : List User} {nextID : Nat}
    (hkept : ∀ user ∈ start.users, ¬Acts callers user → user ∈ users)
    (hrows : ∀ user ∈ users, user ∈ s.versions ∨ user ∈ new)
    (hnew : ∀ user ∈ new, Known callers start user) (hid : start.nextID ≤ nextID) :
    Inv callers start { s with users, nextID, versions := s.versions ++ new } where
  kept := hkept
  rows user huser := List.mem_append.mpr (hrows user huser)
  cached id user hcached := by
    obtain ⟨hversion, hid⟩ := h.cached id user hcached
    exact ⟨List.mem_append_left new hversion, hid⟩
  known user huser := by
    rcases List.mem_append.mp huser with huser | huser
    · exact h.known user huser
    · exact hnew user huser
  nextID := hid
  calls := h.calls

theorem Inv.cacheEntry (h : Inv callers start s) {id : Nat} {entry : Option User}
    (hentry : ∀ user, entry = some user → user ∈ s.versions ∧ user.ID = id) :
    Inv callers start { s with userCache := update s.userCache id entry } where
  kept := h.kept
  rows := h.rows
  cached id' user hcached := by
    have hread : update s.userCache id entry id' = some user := hcached
    by_cases hid : id' = id
    · subst hid
      rw [update_self] at hread
      exact hentry user hread
    · rw [update_of_ne hid] at hread
      exact h.cached id' user hread
  known := h.known
  nextID := h.nextID
  calls := h.calls

theorem Inv.insertUser (h : Inv callers start s) {user : RequestedUser} {hash : String} {now : Int}
    (hvalid : FirstAdmin.validateWritableUsername user.Username = true)
    (hs : insertUser s n user .USER hash now = some s') : Inv callers start s' := by
  rw [Accounts.insertUser] at hs
  split at hs
  · cases hs
  · cases hs
    apply Inv.return
    apply h.write
    · intro user₀ huser₀ hother
      exact List.mem_append_left _ (h.kept user₀ huser₀ hother)
    · intro row hrow
      exact (List.mem_append.mp hrow).imp_left (h.rows row)
    · intro row hrow
      rw [List.mem_singleton.mp hrow]
      exact .inr ⟨h.nextID, rfl, rfl, hvalid, .inl rfl⟩
    · exact Nat.le_succ_of_le h.nextID

theorem Inv.updateRow (h : Inv callers start s) {currentUser : User} {update : UpdateUser}
    (hacts : ActsAs callers start update.ID) (hupdate : update.Harmless)
    (hs : updateRow s n currentUser update = some s') : Inv callers start s' := by
  rw [Accounts.updateRow] at hs
  split at hs
  · cases hs
  · obtain ⟨row, -, rfl⟩ := Option.map_eq_some_iff.mp hs
    apply Inv.return
    apply h.write
    · intro user huser hother
      have hne : user.ID ≠ update.ID := fun hid => hother (hacts user huser hid)
      refine List.mem_map.mpr ⟨user, h.kept user huser hother, if_neg hne⟩
    · intro user huser
      exact .inr huser
    · intro user huser
      obtain ⟨old, hold, rfl⟩ := List.mem_map.mp huser
      have hknown := h.known old (h.rows old hold)
      split
      · rename_i hid
        rw [← hid] at hacts
        exact hknown.apply hacts hupdate
      · exact hknown
    · exact h.nextID

theorem Inv.deleteRow (h : Inv callers start s) (hcaller : callers userID) {name : String}
    {user : User} (hacts : ActsAs callers start user.ID) :
    Inv callers start (deleteRow s n userID name user) := by
  have hdeleted : Inv callers start { s with users := s.users.filter (·.ID ≠ user.ID) } :=
    { h with
      kept := by
        intro user₀ huser₀ hother
        have hne : user₀.ID ≠ user.ID := fun hid => hother (hacts user₀ huser₀ hid)
        exact List.mem_filter.mpr ⟨h.kept user₀ huser₀ hother, decide_eq_true hne⟩
      rows := fun row hrow => h.rows row (List.mem_of_mem_filter hrow) }
  exact hdeleted.move hcaller trivial

theorem Inv.afterCreator (h : Inv callers start s) (hcaller : callers userID)
    (user : Option RequestedUser) (validateOnly : Bool) {currentUser : Option User}
    (hrole : ∀ current ∈ currentUser, current.Role = .USER) :
    Inv callers start (afterCreator s n userID user validateOnly currentUser) := by
  rw [Accounts.afterCreator]
  split
  · exact h.return _
  · rename_i requested hcheck
    have hvalid := valid_of_checkCreate hcheck
    split
    · rename_i hadmin
      obtain ⟨current, hcurrent, hadmin⟩ := Option.any_eq_true _ _ |>.mp hadmin
      rw [hrole current hcurrent] at hadmin
      cases hadmin
    · exact h.move hcaller ⟨hvalid, trivial⟩

theorem Inv.nextCreate (ho : Ordinary callers start) (h : Inv callers start s)
    (hcaller : callers userID) {user : RequestedUser} {validateOnly : Bool} {hash : String}
    {now : Int} {setting : InstanceGeneralSetting} {step : CreateStep}
    (hsound : (Step.create user validateOnly step).Sound callers start userID)
    (hs : nextCreate s n userID user validateOnly hash now setting step = some s') :
    Inv callers start s' := by
  obtain ⟨hvalid, hstep⟩ := hsound
  cases step with
  | listUsers =>
    have hne : s.users.isEmpty = false := by
      obtain ⟨user, huser, hother⟩ := ho.other
      exact List.isEmpty_eq_false_iff.mpr (List.ne_nil_of_mem (h.kept user huser hother))
    simp only [Accounts.nextCreate, hne, Bool.false_eq_true, if_false] at hs
    cases hs
    exact h.move hcaller ⟨hvalid, trivial⟩
  | getInstanceGeneralSetting =>
    simp only [Accounts.nextCreate] at hs
    split at hs
    · cases hs
      exact h.return _
    · split at hs
      · cases hs
        exact h.return _
      · split at hs
        · cases hs
          exact h.return _
        · cases hs
          exact h.move hcaller ⟨hvalid, rfl⟩
  | hashPassword role =>
    cases hs
    exact h.move hcaller ⟨hvalid, hstep⟩
  | createUser role passwordHash =>
    obtain rfl : role = .USER := hstep
    exact h.insertUser hvalid hs
  | hashFirstPassword => cases hstep
  | lockUserCreate passwordHash => cases hstep
  | listUsersLocked passwordHash => cases hstep
  | createUserLocked passwordHash => cases hstep

theorem Inv.nextUpdate (ho : Ordinary callers start) (h : Inv callers start s)
    (hcaller : callers userID) {user : RequestedUser} {paths : List String} {hash : String}
    {now : Int} {setting : InstanceGeneralSetting} {step : UpdateStep}
    (hsound : step.Sound callers start userID)
    (hs : nextUpdate s n userID user paths hash now setting step = some s') :
    Inv callers start s' := by
  cases step with
  | resolveUserByName =>
    cases hs
    apply h.continue hcaller
    intro next hnext
    obtain ⟨found, -, rfl⟩ := map_ok hnext
    trivial
  | fetchCurrentUser found =>
    cases hs
    apply h.continue hcaller
    intro next hnext
    obtain ⟨currentUser, hcheck, rfl⟩ := map_ok hnext
    exact h.checkCurrentUser ho hcaller hcheck
  | getInstanceGeneralSetting found currentUser =>
    cases hs
    exact h.move hcaller hsound
  | readPaths found currentUser setting =>
    obtain ⟨hacts, hid, hrole⟩ := hsound
    cases hs
    apply h.continue hcaller
    intro next hnext
    obtain ⟨update, hread, rfl⟩ := map_ok hnext
    have hempty : UpdateUser.Harmless
        ⟨found.ID, some now, none, none, none, none, none, none, none, none⟩ :=
      ⟨rfl, rfl, nofun, nofun⟩
    have hadmin : currentUser.Role ≠ .ADMIN := by
      rw [hrole]
      exact nofun
    obtain ⟨hharmless, hupdate⟩ := hempty.readPaths hadmin hread
    exact ⟨hacts, hupdate.trans hid, hharmless⟩
  | updateUser currentUser update =>
    obtain ⟨hacts, rfl, hharmless⟩ := hsound
    exact h.updateRow hacts hharmless hs

theorem Inv.nextDelete (ho : Ordinary callers start) (h : Inv callers start s)
    (hcaller : callers userID) {name : String} {step : DeleteStep}
    (hsound : step.Sound callers start userID)
    (hs : nextDelete s n userID name step = some s') : Inv callers start s' := by
  cases step with
  | resolveUserByName =>
    cases hs
    apply h.continue hcaller
    intro next hnext
    obtain ⟨found, -, rfl⟩ := map_ok hnext
    trivial
  | fetchCurrentUser found =>
    cases hs
    apply h.continue hcaller
    intro next hnext
    obtain ⟨currentUser, hcheck, rfl⟩ := map_ok hnext
    obtain ⟨hacts, hid, -⟩ := h.checkCurrentUser ho hcaller hcheck
    exact ⟨hacts, hid⟩
  | deleteUser found =>
    obtain ⟨hacts, rfl⟩ := hsound
    cases hs
    exact h.deleteRow hcaller hacts
  | deleteAttachmentStorage => cases hs

theorem Inv.next (ho : Ordinary callers start) (h : Inv callers start s) {hash : String}
    {now : Int} {setting : InstanceGeneralSetting} {step : Step}
    (hcall : s.calls n = .running userID step)
    (hs : next s n userID hash now setting step = some s') : Inv callers start s' := by
  have hsound := h.calls n
  rw [hcall] at hsound
  obtain ⟨hcaller, hstep⟩ := hsound
  cases step with
  | fetchCreator user validateOnly =>
    cases hs
    apply h.afterCreator hcaller
    intro current hcurrent
    cases hfetch : fetchCurrentUser s userID with
    | error err =>
      rw [hfetch] at hcurrent
      cases hcurrent
    | ok found =>
      rw [hfetch] at hcurrent
      cases hcurrent
      exact (h.currentUser ho hcaller hfetch).2.1
  | create user validateOnly step => exact h.nextCreate ho hcaller hstep hs
  | update user paths step => exact h.nextUpdate ho hcaller hstep hs
  | delete name step => exact h.nextDelete ho hcaller hstep hs

theorem Inv.begin (h : Inv callers start s) (hcaller : callers userID) (request : Request) :
    Inv callers start (begin s n userID request) := by
  cases request with
  | createUser user validateOnly => exact h.move hcaller trivial
  | updateUser user paths =>
    unfold Accounts.begin
    dsimp only
    split
    · exact h.return _
    · split
      · exact h.return _
      · exact h.move hcaller trivial
  | deleteUser name => exact h.move hcaller trivial

theorem Inv.step (ho : Ordinary callers start) {l : Label} (h : Inv callers start s)
    (hl : CalledBy callers s l) (hs : step s l = some s') : Inv callers start s' := by
  cases l with
  | start n userID request =>
    simp only [Accounts.step] at hs
    split at hs
    · cases hs
      exact h.begin hl request
    · cases hs
  | step n hash now setting =>
    simp only [Accounts.step] at hs
    split at hs
    · rename_i hcall
      exact h.next ho hcall hs
    · cases hs
  | deleteAttachmentStorage n failed =>
    simp only [Accounts.step] at hs
    split at hs
    · cases hs
      exact h.return _
    · cases hs
  | fails n err =>
    simp only [Accounts.step] at hs
    split at hs
    · rename_i userID user validateOnly hcall
      have hsound := h.calls n
      rw [hcall] at hsound
      cases hs
      exact h.afterCreator hsound.1 user validateOnly nofun
    · cases hs
      exact h.return _
    · cases hs
  | cache user =>
    simp only [Accounts.step] at hs
    split at hs
    · rename_i hversion
      cases hs
      apply h.cacheEntry
      intro cached hcached
      cases hcached
      exact ⟨hversion, rfl⟩
    · cases hs
  | evict id =>
    cases hs
    exact h.cacheEntry nofun

theorem Inv.of_atRest (h : AtRest start) : Inv callers start start where
  kept _ huser _ := huser
  rows user huser := by
    rw [h.versions]
    exact huser
  cached id user hcached := by
    rw [h.versions]
    exact h.cached id user hcached
  known user huser := by
    rw [h.versions] at huser
    exact .inl ⟨user, huser, .refl user⟩
  nextID := Nat.le_refl _
  calls n := by
    rw [h.calls n]
    trivial

end steps

/-- Whatever the calls and their interleaving, and however old what the cache holds: as long as no
administrator calls, users who do not act stay as they are, no user gets other rights, and those that
are created have none. -/
theorem users_confined {callers : Nat → Prop} {start s : State} (ho : Ordinary callers start)
    (h : (system start).Reaches (CalledBy callers) s) : Confined callers start s := by
  have hinv : Inv callers start s := by
    refine h.invariant ?_ fun _ _ _ hi hl hs => hi.step ho hl hs
    rintro _ rfl
    exact Inv.of_atRest ho.atRest
  exact ⟨hinv.kept, fun user huser => hinv.known user (hinv.rows user huser)⟩

def ann : User := ⟨1, .normal, 0, 0, "ann", .ADMIN, "", "", "h1", "", ""⟩

def bob : User := ⟨2, .normal, 0, 0, "bob", .USER, "", "", "h2", "", ""⟩

def carol : User := ⟨3, .archived, 0, 0, "carol", .USER, "", "", "h3", "", ""⟩

def staff : State := ⟨[ann, bob, carol], 4, fun _ => none, [ann, bob, carol], none, fun _ => .idle⟩

theorem staff_ordinary : Ordinary (· ≠ 1) staff where
  atRest := ⟨by decide, by decide, nofun, rfl, rfl, fun _ => rfl⟩
  role := by
    intro user huser hcaller
    have hcases : user = ann ∨ user = bob ∨ user = carol := by simpa [staff] using huser
    rcases hcases with rfl | rfl | rfl
    · exact absurd rfl hcaller
    · rfl
    · rfl
  other := ⟨ann, .head _, fun h => h.1 rfl⟩

def openRegistration : InstanceGeneralSetting := ⟨false, false, false, false⟩

def renamed (name username : String) : RequestedUser :=
  ⟨name, .ADMIN, username, "", "", "", "", "secret", .normal⟩

/-- Bob takes another name and then asks for another role, carol deletes herself, and dave registers
as an administrator. -/
def evening : List Label :=
  [.start 0 2 (.updateUser (some (renamed "users/bob" "rob")) ["username"]),
    .start 1 3 (.deleteUser "users/carol"), .step 1 "" 1 openRegistration,
    .step 0 "" 1 openRegistration, .step 0 "" 1 openRegistration, .step 0 "" 1 openRegistration,
    .step 0 "" 1 openRegistration, .step 0 "" 1 openRegistration, .cache bob,
    .step 1 "" 2 openRegistration,
    .start 2 2 (.updateUser (some (renamed "users/rob" "rob")) ["role"]),
    .step 2 "" 3 openRegistration, .step 2 "" 3 openRegistration, .step 2 "" 3 openRegistration,
    .step 2 "" 3 openRegistration, .start 3 0 (.createUser (some (renamed "" "dave")) false),
    .step 3 "" 4 openRegistration, .step 3 "" 4 openRegistration, .step 3 "" 4 openRegistration,
    .step 3 "h4" 4 openRegistration, .step 3 "" 4 openRegistration]

theorem users_confined_evening :
    ∃ s, (system staff).run staff evening = some s ∧
      s.users.map (fun user => (user.Username, user.Role, user.RowStatus)) =
        [("ann", .ADMIN, .normal), ("rob", .USER, .normal), ("carol", .USER, .archived),
          ("dave", .USER, .normal)] ∧
      Confined (· ≠ 1) staff s := by
  have hrun : ∃ s, (system staff).run staff evening = some s ∧
      s.users.map (fun user => (user.Username, user.Role, user.RowStatus)) =
        [("ann", .ADMIN, .normal), ("rob", .USER, .normal), ("carol", .USER, .archived),
          ("dave", .USER, .normal)] :=
    ⟨_, rfl, rfl⟩
  obtain ⟨s, hs, husers⟩ := hrun
  have hcallers : ∀ l ∈ evening, ∀ s, CalledBy (· ≠ 1) s l := by
    simp [evening, CalledBy]
  have hreach := LabelledSystem.Reaches.run (.init rfl)
    (LabelledSystem.meets_of_forall (S := system staff) hcallers staff) hs
  exact ⟨s, hs, husers, users_confined staff_ordinary hreach⟩

end Memoark.Server.Accounts
