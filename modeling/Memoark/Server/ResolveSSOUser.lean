import Memoark.Server.MemoMessages
import Memoark.System.Runs

/-! `resolveSSOUser` of `server/router/api/v1/auth_service.go`: any number of sign-ins with one
external identity, split into their database steps. -/
namespace Memoark.Server.SSO
open Memoark.System

structure UserIdentity where
  ID : Nat
  UserID : Nat
  Provider : String
  ExternUID : String
  deriving DecidableEq

inductive Call where
  | idle
  /-- `getLinkedSSOUser`, for a signed-in user or for none. -/
  | lookup (currentUser : Option Nat)
  | getLinkedUser (currentUser : Option Nat) (identity : UserIdentity)
  | getInstanceGeneralSetting
  | createUser
  | createUserIdentity (userID : Nat)
  /-- The linkage has been refused. -/
  | deleteUser (userID : Nat)
  | reloadWinner
  | getWinner (userID : Nat)
  /-- `bindSSOIdentityToUser`. -/
  | findForProvider (currentUser : Nat)
  | bind (currentUser : Nat)
  | lookupWinner (currentUser : Nat)
  | getBindWinner (currentUser : Nat) (identity : UserIdentity)
  | reloadForProvider (currentUser : Nat)
  | returned (result : Except Status Nat)

inductive Label where
  | start (call : Nat) (currentUser : Option Nat)
  /-- The next step; the setting is read where the step reads it. -/
  | step (call : Nat) (disallowUserRegistration : Bool)
  /-- There is no random password, password hash or username. -/
  | noRandom (call : Nat)

structure State where
  users : List Nat
  nextUserID : Nat
  identities : List UserIdentity
  nextIdentityID : Nat
  calls : Nat → Call
  /-- The users that the calls have created. -/
  created : List Nat
  /-- The users that someone can be signed in as. -/
  accounts : List Nat

def alreadyLinked : Status :=
  ⟨.AlreadyExists, "identity provider account is already linked to another user"⟩

def providerLinked : Status :=
  ⟨.AlreadyExists,
    "identity provider is already linked to another external account for this user"⟩

def registrationNotAllowed : Status :=
  ⟨.PermissionDenied, "user registration is not allowed"⟩

def noWinner : Status :=
  ⟨.Internal, "user identity conflict reported but no winning row found"⟩

def linkedUserNotFound (identity : UserIdentity) : Status :=
  ⟨.Internal, s!"linked user {identity.UserID} not found for identity {identity.ID}"⟩

def winnerNotFound (userID : Nat) : Status :=
  ⟨.Internal, s!"linked user {userID} not found after race"⟩

section calls

variable (provider externUID : String)

def UserIdentity.links (i : UserIdentity) : Bool :=
  i.Provider = provider && i.ExternUID = externUID

/-- `GetUserIdentity` by provider and external id. -/
def State.linkage (s : State) : Option UserIdentity :=
  s.identities.find? (UserIdentity.links provider externUID)

def State.ofProvider (s : State) (userID : Nat) : Option UserIdentity :=
  s.identities.find? fun i => i.UserID = userID && i.Provider = provider

/-- `UNIQUE (provider, extern_uid)` and `UNIQUE (user_id, provider)`. -/
def State.conflicts (s : State) (userID : Nat) : Bool :=
  s.identities.any fun i =>
    i.links provider externUID || (i.UserID = userID && i.Provider = provider)

def State.move (s : State) (c : Nat) (call : Call) : State :=
  { s with calls := update s.calls c call }

def State.fail (s : State) (c : Nat) (err : Status) : State := s.move c (.returned (.error err))

def State.succeed (s : State) (c userID : Nat) : State :=
  { s with
    calls := update s.calls c (.returned (.ok userID))
    accounts := userID :: s.accounts }

def State.link (s : State) (c userID : Nat) (refused : Call) : State :=
  if s.conflicts provider externUID userID then s.move c refused
  else { s.succeed c userID with
    identities := s.identities ++ [⟨s.nextIdentityID, userID, provider, externUID⟩]
    nextIdentityID := s.nextIdentityID + 1 }

def State.compare (s : State) (c currentUser : Nat) (existing : UserIdentity) : State :=
  if existing.ExternUID = externUID then s.succeed c currentUser else s.fail c providerLinked

def callStep (s : State) (c : Nat) (disallowUserRegistration : Bool) : Call → Option State
  | .lookup currentUser =>
    match s.linkage provider externUID, currentUser with
    | some identity, _ => some (s.move c (.getLinkedUser currentUser identity))
    | none, some user => some (s.move c (.findForProvider user))
    | none, none => some (s.move c .getInstanceGeneralSetting)
  | .getLinkedUser currentUser identity =>
    if s.users.contains identity.UserID then
      if currentUser.any (· ≠ identity.UserID) then some (s.fail c alreadyLinked)
      else some (s.succeed c identity.UserID)
    else some (s.fail c (linkedUserNotFound identity))
  | .getInstanceGeneralSetting =>
    if disallowUserRegistration then some (s.fail c registrationNotAllowed)
    else some (s.move c .createUser)
  | .createUser =>
    some { s with
      users := s.nextUserID :: s.users
      nextUserID := s.nextUserID + 1
      calls := update s.calls c (.createUserIdentity s.nextUserID)
      created := s.nextUserID :: s.created }
  | .createUserIdentity userID => some (s.link provider externUID c userID (.deleteUser userID))
  | .deleteUser userID =>
    some { s with
      users := s.users.filter (· ≠ userID)
      identities := s.identities.filter (·.UserID ≠ userID)
      calls := update s.calls c .reloadWinner }
  | .reloadWinner =>
    match s.linkage provider externUID with
    | some winner => some (s.move c (.getWinner winner.UserID))
    | none => some (s.fail c noWinner)
  | .getWinner userID =>
    if s.users.contains userID then some (s.succeed c userID)
    else some (s.fail c (winnerNotFound userID))
  | .findForProvider currentUser =>
    match s.ofProvider provider currentUser with
    | some existing => some (s.compare externUID c currentUser existing)
    | none => some (s.move c (.bind currentUser))
  | .bind currentUser =>
    some (s.link provider externUID c currentUser (.lookupWinner currentUser))
  | .lookupWinner currentUser =>
    match s.linkage provider externUID with
    | some winner => some (s.move c (.getBindWinner currentUser winner))
    | none => some (s.move c (.reloadForProvider currentUser))
  | .getBindWinner currentUser identity =>
    if s.users.contains identity.UserID then
      if identity.UserID ≠ currentUser then some (s.fail c alreadyLinked)
      else some (s.succeed c currentUser)
    else some (s.fail c (linkedUserNotFound identity))
  | .reloadForProvider currentUser =>
    match s.ofProvider provider currentUser with
    | some existing => some (s.compare externUID c currentUser existing)
    | none => some (s.fail c noWinner)
  | _ => none

def step (s : State) : Label → Option State
  | .start c currentUser =>
    match s.calls c with
    | .idle =>
      if currentUser.all (s.accounts.contains ·) then some (s.move c (.lookup currentUser))
      else none
    | _ => none
  | .step c disallowUserRegistration =>
    callStep provider externUID s c disallowUserRegistration (s.calls c)
  | .noRandom c =>
    match s.calls c with
    | .createUser => some (s.fail c ⟨.Internal, "failed to generate random password"⟩)
    | _ => none

/-- Before the first call: the external identity has no linkage; new ids are new. -/
structure Init (s : State) : Prop where
  unlinked : ∀ i ∈ s.identities, i.links provider externUID = false
  users : ∀ u ∈ s.users, u < s.nextUserID
  identities : ∀ i ∈ s.identities, i.UserID < s.nextUserID
  calls : ∀ c, s.calls c = .idle
  created : s.created = []
  accounts : s.accounts = s.users

def system : LabelledSystem State Label := ⟨Init provider externUID, step provider externUID⟩

end calls

end Memoark.Server.SSO
