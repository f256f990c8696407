import Memoark.Server.CreateMemoComment

/-! Unauthenticated calls of `CreateUser` (`server/router/api/v1/user_service.go`) side by side, with
`CreateUserIfNoUsers` and `CreateUser` of `store/user.go`: one database step at a time. -/
namespace Memoark.Server.FirstAdmin
open Memoark.System

inductive Role where
  | ADMIN | USER
  deriving DecidableEq

namespace Api

inductive Role where
  | ROLE_UNSPECIFIED | ADMIN | USER

end Api

structure RequestedUser where
  Username : String
  Email : String
  DisplayName : String
  Password : String
  Role : Api.Role

structure CreateUserRequest where
  User : Option RequestedUser
  ValidateOnly : Bool

structure InstanceGeneralSetting where
  DisallowUserRegistration : Bool
  DisallowPasswordAuth : Bool
  deriving DecidableEq

def InstanceGeneralSetting.Allows (setting : InstanceGeneralSetting) : Prop :=
  setting.DisallowUserRegistration = false ∧ setting.DisallowPasswordAuth = false

structure User where
  ID : Nat
  Username : String
  Role : FirstAdmin.Role
  Email : String
  Nickname : String
  PasswordHash : String
  /-- The setting against which the request has been checked; not a column. -/
  checked : Option InstanceGeneralSetting
  deriving DecidableEq

inductive Step where
  | listUsers
  | hashFirstPassword
  /-- `CreateUserIfNoUsers`, before it holds `userCreateMu`. -/
  | lockUserCreate (passwordHash : String)
  | listUsersLocked (passwordHash : String)
  | createUserLocked (passwordHash : String)
  | getInstanceGeneralSetting
  | hashPassword (setting : InstanceGeneralSetting)
  | createUser (setting : InstanceGeneralSetting) (passwordHash : String)

def Step.failure (err : String) : Step → Status
  | listUsers => ⟨.Internal, "failed to list users: " ++ err⟩
  | hashFirstPassword => ⟨.Internal, "failed to generate password hash: " ++ err⟩
  | lockUserCreate _ => ⟨.Internal, "failed to create first user: " ++ err⟩
  | listUsersLocked _ => ⟨.Internal, "failed to create first user: " ++ err⟩
  | createUserLocked _ => ⟨.Internal, "failed to create first user: " ++ err⟩
  | getInstanceGeneralSetting =>
    ⟨.Internal, "failed to get instance general setting, error: " ++ err⟩
  | hashPassword _ => ⟨.Internal, "failed to generate password hash: " ++ err⟩
  | createUser _ _ => ⟨.Internal, "failed to create user: " ++ err⟩

def Step.locked : Step → Bool
  | listUsersLocked _ => true
  | createUserLocked _ => true
  | _ => false

structure Answer where
  Username : String
  Role : FirstAdmin.Role
  deriving DecidableEq

inductive Call where
  | idle
  | running (request : RequestedUser) (validateOnly : Bool) (next : Step)
  | returned (result : Except Status Answer)

def Call.locked : Call → Bool
  | running _ _ next => next.locked
  | _ => false

inductive Label where
  | start (call : Nat) (request : CreateUserRequest)
  /-- The next step, with the hash that bcrypt computes or the setting that is read in it. -/
  | step (call : Nat) (passwordHash : String) (setting : InstanceGeneralSetting)
  | fails (call : Nat) (err : String)

structure State where
  /-- The table, in the order of the inserts. -/
  users : List User
  nextID : Nat
  userCreateMu : Option Nat
  calls : Nat → Call

def isNumericUsername (username : String) : Bool :=
  username ≠ "" && username.toList.all fun char => '0' ≤ char && char ≤ '9'

def validateWritableUsername (username : String) : Bool :=
  !(username = "" || isNumericUsername username || !UIDMatcher username)

section calls

variable (s : State) (n : Nat)

def State.move (call : Call) : State := { s with calls := update s.calls n call }

def State.return (result : Except Status Answer) : State :=
  { s with
    userCreateMu := if (s.calls n).locked then none else s.userCreateMu
    calls := update s.calls n (.returned result) }

def begin (request : CreateUserRequest) : State :=
  match request.User with
  | none => s.return n (.error ⟨.InvalidArgument, "user is required"⟩)
  | some user =>
    if !validateWritableUsername user.Username then
      s.return n (.error ⟨.InvalidArgument, "invalid username: " ++ user.Username⟩)
    else if user.Password = "" then
      s.return n (.error ⟨.InvalidArgument, "password must not be empty"⟩)
    else s.move n (.running user request.ValidateOnly .listUsers)

def insertUser (request : RequestedUser) (role : Role) (passwordHash : String)
    (checked : Option InstanceGeneralSetting) : Option State :=
  if s.users.any (·.Username = request.Username) then none
  else some { s with
    users := s.users ++
      [⟨s.nextID, request.Username, role, request.Email, request.DisplayName, passwordHash, checked⟩]
    nextID := s.nextID + 1 }

/-- One step of a call without a current user: `request.Role` is not read. -/
def next (request : RequestedUser) (validateOnly : Bool) (hash : String)
    (setting : InstanceGeneralSetting) : Step → Option State
  | .listUsers =>
    if s.users.isEmpty then
      if validateOnly then some (s.return n (.ok ⟨request.Username, .ADMIN⟩))
      else some (s.move n (.running request validateOnly .hashFirstPassword))
    else some (s.move n (.running request validateOnly .getInstanceGeneralSetting))
  | .hashFirstPassword => some (s.move n (.running request validateOnly (.lockUserCreate hash)))
  | .lockUserCreate passwordHash =>
    if s.userCreateMu = none then
      some { s.move n (.running request validateOnly (.listUsersLocked passwordHash)) with
        userCreateMu := some n }
    else none
  | .listUsersLocked passwordHash =>
    if s.users.isEmpty then
      some (s.move n (.running request validateOnly (.createUserLocked passwordHash)))
    else
      some { s.move n (.running request validateOnly .getInstanceGeneralSetting) with
        userCreateMu := none }
  | .createUserLocked passwordHash =>
    (insertUser s request .ADMIN passwordHash none).map fun s =>
      s.return n (.ok ⟨request.Username, .ADMIN⟩)
  | .getInstanceGeneralSetting =>
    if setting.DisallowUserRegistration then
      some (s.return n (.error ⟨.PermissionDenied, "user registration is not allowed"⟩))
    else if setting.DisallowPasswordAuth then
      some (s.return n (.error ⟨.PermissionDenied, "password signup is not allowed"⟩))
    else if validateOnly then some (s.return n (.ok ⟨request.Username, .USER⟩))
    else some (s.move n (.running request validateOnly (.hashPassword setting)))
  | .hashPassword setting =>
    some (s.move n (.running request validateOnly (.createUser setting hash)))
  | .createUser setting passwordHash =>
    (insertUser s request .USER passwordHash (some setting)).map fun s =>
      s.return n (.ok ⟨request.Username, .USER⟩)

end calls

def step (s : State) : Label → Option State
  | .start n request =>
    match s.calls n with
    | .idle => some (begin s n request)
    | _ => none
  | .step n hash setting =>
    match s.calls n with
    | .running request validateOnly step => next s n request validateOnly hash setting step
    | _ => none
  | .fails n err =>
    match s.calls n with
    | .running _ _ step => some (s.return n (.error (step.failure err)))
    | _ => none

def fresh : State := ⟨[], 1, none, fun _ => .idle⟩

def system : LabelledSystem State Label := ⟨(· = fresh), step⟩

structure Registered (user : User) : Prop where
  role : user.Role = .USER
  allowed : ∃ setting, user.checked = some setting ∧ setting.Allows

def OneAdmin : List User → Prop
  | [] => True
  | first :: others => first.Role = .ADMIN ∧ ∀ user ∈ others, Registered user

section invariant

def Step.Sound (users : List User) : Step → Prop
  | createUserLocked _ => users = []
  | getInstanceGeneralSetting => users ≠ []
  | hashPassword setting => users ≠ [] ∧ setting.Allows
  | createUser setting _ => users ≠ [] ∧ setting.Allows
  | _ => True

def Call.Sound (users : List User) : Call → Prop
  | running _ _ next => next.Sound users
  | _ => True

structure Inv (s : State) : Prop where
  oneAdmin : OneAdmin s.users
  sound : ∀ n, (s.calls n).Sound s.users
  mutex : ∀ n, (s.calls n).locked = true → s.userCreateMu = some n

end invariant

section steps

variable {s s' : State} {n : Nat}

@[simp] theorem calls_move_self (call : Call) : (s.move n call).calls n = call := update_self ..

@[simp] theorem calls_move_of_ne {m : Nat} (call : Call) (h : m ≠ n) :
    (s.move n call).calls m = s.calls m := update_of_ne h

@[simp] theorem calls_return_self (result : Except Status Answer) :
    (s.return n result).calls n = .returned result := update_self ..

@[simp] theorem calls_return_of_ne {m : Nat} (result : Except Status Answer) (h : m ≠ n) :
    (s.return n result).calls m = s.calls m := update_of_ne h

theorem OneAdmin.snoc {users : List User} {user : User} (h : OneAdmin users) (hne : users ≠ [])
    (huser : Registered user) : OneAdmin (users ++ [user]) := by
  cases users with
  | nil => exact absurd rfl hne
  | cons first others =>
    refine ⟨h.1, ?_⟩
    intro u hu
    rcases List.mem_append.mp hu with hu | hu
    · exact h.2 u hu
    · rw [List.mem_singleton.mp hu]
      exact huser

theorem Call.Sound.append {users new : List User} {call : Call} (h : call.Sound users)
    (hcall : users = [] → call.locked = false) : call.Sound (users ++ new) := by
  cases call with
  | running request validateOnly step =>
    cases step with
    | createUserLocked hash => cases hcall h
    | getInstanceGeneralSetting => exact List.append_ne_nil_of_left_ne_nil h new
    | hashPassword setting => exact ⟨List.append_ne_nil_of_left_ne_nil h.1 new, h.2⟩
    | createUser setting hash => exact ⟨List.append_ne_nil_of_left_ne_nil h.1 new, h.2⟩
    | _ => trivial
  | _ => trivial

theorem Inv.move (h : Inv s) {call : Call} (hsound : call.Sound s.users)
    (hlocked : call.locked = true → (s.calls n).locked = true) : Inv (s.move n call) where
  oneAdmin := h.oneAdmin
  sound := forall_update hsound h.sound
  mutex m hm := by
    by_cases hmn : m = n
    · subst hmn
      rw [calls_move_self] at hm
      exact h.mutex m (hlocked hm)
    · rw [calls_move_of_ne call hmn] at hm
      exact h.mutex m hm

theorem Inv.locked_inj (h : Inv s) {m : Nat} (hn : (s.calls n).locked = true)
    (hm : (s.calls m).locked = true) : m = n := by
  have hmutex := h.mutex n hn
  rw [h.mutex m hm] at hmutex
  exact Option.some.inj hmutex

theorem Inv.mutex_return (h : Inv s) (result : Except Status Answer) {m : Nat}
    (hm : ((s.return n result).calls m).locked = true) :
    (s.return n result).userCreateMu = some m := by
  have hmn : m ≠ n := by
    rintro rfl
    rw [calls_return_self] at hm
    cases hm
  rw [calls_return_of_ne result hmn] at hm
  rw [State.return]
  dsimp only
  split
  · rename_i hn
    exact absurd (h.locked_inj hn hm) hmn
  · exact h.mutex m hm

theorem Inv.return (h : Inv s) (result : Except Status Answer) : Inv (s.return n result) where
  oneAdmin := h.oneAdmin
  sound := forall_update trivial h.sound
  mutex _ := h.mutex_return result

theorem Inv.lock (h : Inv s) {call : Call} (hsound : call.Sound s.users)
    (hfree : s.userCreateMu = none) : Inv { s.move n call with userCreateMu := some n } where
  oneAdmin := h.oneAdmin
  sound := forall_update hsound h.sound
  mutex m hm := by
    by_cases hmn : m = n
    · rw [hmn]
    · have hcalls : ((s.move n call).calls m).locked = true := hm
      rw [calls_move_of_ne call hmn] at hcalls
      have hheld := h.mutex m hcalls
      rw [hfree] at hheld
      cases hheld

theorem Inv.unlock (h : Inv s) {call : Call} (hsound : call.Sound s.users)
    (hcall : call.locked = false) (hn : (s.calls n).locked = true) :
    Inv { s.move n call with userCreateMu := none } where
  oneAdmin := h.oneAdmin
  sound := forall_update hsound h.sound
  mutex m hm := by
    have hcalls : ((s.move n call).calls m).locked = true := hm
    by_cases hmn : m = n
    · subst hmn
      rw [calls_move_self, hcall] at hcalls
      cases hcalls
    · rw [calls_move_of_ne call hmn] at hcalls
      exact absurd (h.locked_inj hn hcalls) hmn

theorem Inv.insertUser (h : Inv s) {request : RequestedUser} {role : Role} {hash : String}
    {checked : Option InstanceGeneralSetting} {result : Except Status Answer}
    (hone : OneAdmin (s.users ++
      [⟨s.nextID, request.Username, role, request.Email, request.DisplayName, hash, checked⟩]))
    (hothers : ∀ m, m ≠ n → ∀ user, (s.calls m).Sound (s.users ++ [user]))
    (hs : (insertUser s request role hash checked).map (fun s => s.return n result) = some s') :
    Inv s' := by
  obtain ⟨t, ht, rfl⟩ := Option.map_eq_some_iff.mp hs
  rw [FirstAdmin.insertUser] at ht
  split at ht
  · cases ht
  · cases ht
    refine ⟨hone, fun m => ?_, fun m => h.mutex_return result⟩
    by_cases hmn : m = n
    · subst hmn
      rw [calls_return_self]
      trivial
    · rw [calls_return_of_ne result hmn]
      exact hothers m hmn _

theorem Inv.next (h : Inv s) {request : RequestedUser} {validateOnly : Bool} {hash : String}
    {setting : InstanceGeneralSetting} {step : Step}
    (hcall : s.calls n = .running request validateOnly step)
    (hs : next s n request validateOnly hash setting step = some s') : Inv s' := by
  have hsound := h.sound n
  rw [hcall] at hsound
  cases step with
  | listUsers =>
    simp only [FirstAdmin.next] at hs
    split at hs
    · split at hs <;> cases hs
      · exact h.return _
      · exact h.move trivial nofun
    · rename_i hne
      cases hs
      exact h.move (mt List.isEmpty_iff.mpr hne) nofun
  | hashFirstPassword =>
    cases hs
    exact h.move trivial nofun
  | lockUserCreate passwordHash =>
    simp only [FirstAdmin.next] at hs
    split at hs
    · rename_i hfree
      cases hs
      exact h.lock trivial hfree
    · cases hs
  | listUsersLocked passwordHash =>
    have hlocked : (s.calls n).locked = true := by rw [hcall]; rfl
    simp only [FirstAdmin.next] at hs
    split at hs
    · rename_i hempty
      cases hs
      exact h.move (List.isEmpty_iff.mp hempty) fun _ => hlocked
    · rename_i hne
      cases hs
      exact h.unlock (mt List.isEmpty_iff.mpr hne) rfl hlocked
  | createUserLocked passwordHash =>
    have hempty : s.users = [] := hsound
    have hlocked : (s.calls n).locked = true := by rw [hcall]; rfl
    refine h.insertUser (n := n) ?_ (fun m hm user => ?_) hs
    · rw [hempty]
      exact ⟨rfl, nofun⟩
    · refine (h.sound m).append fun _ => ?_
      exact Bool.eq_false_iff.mpr fun hm' => hm (h.locked_inj hlocked hm')
  | getInstanceGeneralSetting =>
    have hne : s.users ≠ [] := hsound
    simp only [FirstAdmin.next] at hs
    split at hs
    · cases hs
      exact h.return _
    · split at hs
      · cases hs
        exact h.return _
      · rename_i hregistration hpassword
        split at hs <;> cases hs
        · exact h.return _
        · exact h.move ⟨hne, by simpa using hregistration, by simpa using hpassword⟩ nofun
  | hashPassword setting =>
    cases hs
    exact h.move hsound nofun
  | createUser setting passwordHash =>
    obtain ⟨hne, hallows⟩ : s.users ≠ [] ∧ setting.Allows := hsound
    refine h.insertUser (n := n) (h.oneAdmin.snoc hne ⟨rfl, setting, rfl, hallows⟩) ?_ hs
    intro m _ user
    exact (h.sound m).append fun hempty => absurd hempty hne

theorem Inv.begin (h : Inv s) (request : CreateUserRequest) : Inv (begin s n request) := by
  rw [FirstAdmin.begin]
  split
  · exact h.return _
  · split
    · exact h.return _
    · split
      · exact h.return _
      · exact h.move trivial nofun

theorem Inv.step {l : Label} (h : Inv s) (hs : step s l = some s') : Inv s' := by
  cases l with
  | start n request =>
    simp only [FirstAdmin.step] at hs
    split at hs <;> cases hs
    exact h.begin request
  | step n hash setting =>
    simp only [FirstAdmin.step] at hs
    split at hs
    · rename_i hcall
      exact h.next hcall hs
    · cases hs
  | fails n err =>
    simp only [FirstAdmin.step] at hs
    split at hs <;> cases hs
    exact h.return _

end steps

theorem OneAdmin.count {users : List User} (h : OneAdmin users) (hne : users ≠ []) :
    users.countP (·.Role = .ADMIN) = 1 := by
  cases users with
  | nil => exact absurd rfl hne
  | cons first others =>
    have hothers : others.countP (·.Role = .ADMIN) = 0 := by
      rw [List.countP_eq_zero]
      intro user huser
      simp [(h.2 user huser).role]
    rw [List.countP_cons, hothers, if_pos (by simp [h.1])]

/-- Whatever the requests and their interleaving, the first user that is created is the only
administrator, and the others are created as users, where registration is allowed. -/
theorem createUser_oneAdmin {s : State} (h : system.Reaches (fun _ _ => True) s) :
    OneAdmin s.users ∧ (s.users ≠ [] → s.users.countP (·.Role = .ADMIN) = 1) := by
  have hinv : Inv s := by
    refine h.invariant ?_ fun _ _ _ hi _ hs => hi.step hs
    rintro _ rfl
    exact ⟨trivial, fun _ => trivial, nofun⟩
  exact ⟨hinv.oneAdmin, hinv.oneAdmin.count⟩

def setupRequest (username : String) : CreateUserRequest :=
  ⟨some ⟨username, "", "", "secret", .ADMIN⟩, false⟩

def openRegistration : InstanceGeneralSetting := ⟨false, false⟩

/-- Both requests see an empty table; the second waits for the lock and is then a registration. -/
def race : List Label :=
  [.start 0 (setupRequest "ann"), .start 1 (setupRequest "bob"), .step 0 "" openRegistration,
    .step 1 "" openRegistration, .step 1 "h1" openRegistration, .step 0 "h0" openRegistration,
    .step 1 "" openRegistration, .step 1 "" openRegistration, .step 1 "" openRegistration,
    .step 0 "" openRegistration, .step 0 "" openRegistration, .step 0 "" openRegistration,
    .step 0 "h2" openRegistration, .step 0 "" openRegistration]

theorem createUser_oneAdmin_race :
    ∃ s, system.run fresh race = some s ∧
      s.users.map (fun user => (user.Username, user.Role)) = [("bob", .ADMIN), ("ann", .USER)] ∧
      OneAdmin s.users := by
  have hrun : ∃ s, system.run fresh race = some s ∧
      s.users.map (fun user => (user.Username, user.Role)) = [("bob", .ADMIN), ("ann", .USER)] :=
    ⟨_, rfl, rfl⟩
  obtain ⟨s, hs, husers⟩ := hrun
  have hreach := LabelledSystem.Reaches.run (.init rfl)
    (LabelledSystem.meets_true (S := system) _ _) hs
  exact ⟨s, hs, husers, (createUser_oneAdmin hreach).1⟩

end Memoark.Server.FirstAdmin
