import Memoark.System.Runs

/-! The logout of `contexts/AuthContext.tsx` with the token refreshes of `connect.ts` beside it: one
tab with its tokens (`auth-state.ts`) and the cookie, and the refresh tokens that the server accepts
for its session (`server/router/api/v1/auth_service.go`). Times are in milliseconds. -/
namespace Memoark.Web.Logout
open Memoark.System LabelledSystem

structure AccessToken where
  expiresAt : Int
  deriving DecidableEq

def AccessTokenDuration : Int := 15 * 60 * 1000

def REQUEST_TOKEN_EXPIRY_BUFFER_MS : Int := 30 * 1000

inductive Refresh where
  /-- With the token id of the cookie. -/
  | requested (cookie : Option Nat)
  | validated (oldTokenID : Nat)
  | added (oldTokenID newTokenID : Nat)
  | removed (newTokenID : Nat)
  | answered (newTokenID : Nat) (token : AccessToken)
  /-- The cookie is set, the client has still to adopt the access token. -/
  | received (token : AccessToken)
  | refused

inductive LogoutCall where
  | notCalled
  /-- The interceptor waits for a refresh, before the request or before its retry. -/
  | refreshing (isRetryAttempt : Bool)
  | refreshed (isRetryAttempt : Bool) (success : Bool)
  | requested (token : Option AccessToken) (cookie : Option Nat) (isRetryAttempt : Bool)
  | signedOut
  | unauthenticated (isRetryAttempt : Bool)
  /-- `signOut` has returned or thrown. -/
  | returned
  | resolved

structure State where
  now : Int
  accessToken : Option AccessToken
  /-- The token in the local storage. -/
  stored : Option AccessToken
  cookie : Option Nat
  refresh : Option Refresh
  logout : LogoutCall
  /-- The ids of the session's refresh tokens that the server accepts. -/
  accepted : List Nat
  nextTokenID : Nat

inductive Label where
  | tick (duration : Nat)
  /-- A refresh on focus or for another request, before the logout. -/
  | refreshAccessToken
  | validate
  | addUserRefreshToken
  | removeUserRefreshToken
  | answerRefresh
  | receiveRefresh
  | adopt
  | logout
  | resume
  | signOut
  | receiveSignOut
  | clearAccessToken

namespace State

variable (s : State)

def getAccessToken : Option AccessToken :=
  match s.accessToken with
  | some token => some token
  | none => s.stored.filter (s.now < ·.expiresAt)

/-- `getAccessToken` keeps what it finds in the local storage. -/
def loadAccessToken : State := { s with accessToken := s.getAccessToken }

def setAccessToken (token : AccessToken) : State :=
  { s with accessToken := some token, stored := some token }

def isTokenExpired (bufferMs : Int) : Bool :=
  match s.accessToken with
  | none => true
  | some token => token.expiresAt - bufferMs ≤ s.now

def hasStoredToken : Bool := s.accessToken.isSome || s.stored.isSome

def startRefresh : State :=
  match s.refresh with
  | some _ => s
  | none => { s with refresh := some (.requested s.cookie) }

def settleRefresh (success : Bool) : State :=
  { s with
    refresh := none
    logout :=
      match s.logout with
      | .refreshing isRetryAttempt => .refreshed isRetryAttempt success
      | logout => logout }

def sendSignOut (token : Option AccessToken) (isRetryAttempt : Bool) : State :=
  { s with logout := .requested token s.cookie isRetryAttempt }

/-- `authServiceClient.signOut`, up to its request or to the refresh before it. -/
def beginSignOut : State :=
  let s := s.loadAccessToken
  match s.accessToken with
  | none =>
    if s.hasStoredToken then { s.startRefresh with logout := .refreshing false }
    else s.sendSignOut none false
  | some token =>
    -- Preflight refresh: avoid sending requests with expired access tokens.
    if s.isTokenExpired REQUEST_TOKEN_EXPIRY_BUFFER_MS then
      { s.startRefresh with logout := .refreshing false }
    else s.sendSignOut (some token) false

def refreshedToken (success : Bool) : Option AccessToken :=
  if success then s.getAccessToken else none

def resumeSignOut (isRetryAttempt success : Bool) : State :=
  match s.refreshedToken success with
  | some token => s.loadAccessToken.sendSignOut (some token) isRetryAttempt
  | none =>
    if isRetryAttempt then { s with logout := .returned }
    else s.sendSignOut s.accessToken false

def authenticated (token : Option AccessToken) : Bool := token.any (s.now < ·.expiresAt)

def remove (tokenID : Nat) : State := { s with accepted := s.accepted.filter (· ≠ tokenID) }

def handleSignOut (token : Option AccessToken) (cookie : Option Nat) (isRetryAttempt : Bool) :
    State :=
  if s.authenticated token then
    match cookie with
    | some tokenID => { s.remove tokenID with logout := .signedOut }
    | none => { s with logout := .signedOut }
  else { s with logout := .unauthenticated isRetryAttempt }

def stepRefresh : Label → Option Refresh → Option State
  | .validate, some (.requested cookie) =>
    match cookie.filter (· ∈ s.accepted) with
    | some tokenID => some { s with refresh := some (.validated tokenID) }
    | none => some { s with refresh := some .refused }
  | .addUserRefreshToken, some (.validated oldTokenID) =>
    -- Add before remove to handle race conditions.
    some { s with
      accepted := s.accepted ++ [s.nextTokenID]
      nextTokenID := s.nextTokenID + 1
      refresh := some (.added oldTokenID s.nextTokenID) }
  | .removeUserRefreshToken, some (.added oldTokenID newTokenID) =>
    some { s.remove oldTokenID with refresh := some (.removed newTokenID) }
  | .answerRefresh, some (.removed newTokenID) =>
    some { s with refresh := some (.answered newTokenID ⟨s.now + AccessTokenDuration⟩) }
  | .receiveRefresh, some (.answered newTokenID token) =>
    some { s with cookie := some newTokenID, refresh := some (.received token) }
  | .receiveRefresh, some .refused => some (s.settleRefresh false)
  | .adopt, some (.received token) => some ((s.setAccessToken token).settleRefresh true)
  | _, _ => none

def stepLogout : Label → LogoutCall → Option State
  | .logout, .notCalled => some s.beginSignOut
  | .resume, .refreshed isRetryAttempt success => some (s.resumeSignOut isRetryAttempt success)
  | .signOut, .requested token cookie isRetryAttempt =>
    some (s.handleSignOut token cookie isRetryAttempt)
  | .receiveSignOut, .signedOut => some { s with cookie := none, logout := .returned }
  | .receiveSignOut, .unauthenticated isRetryAttempt =>
    if isRetryAttempt then some { s with logout := .returned }
    else some { s.startRefresh with logout := .refreshing true }
  | .clearAccessToken, .returned =>
    some { s with accessToken := none, stored := none, logout := .resolved }
  | _, _ => none

end State

def step (s : State) : Label → Option State
  | .tick duration => some { s with now := s.now + duration }
  | .refreshAccessToken =>
    match s.logout with
    | .notCalled => some s.startRefresh
    | _ => none
  | label => (s.stepRefresh label s.refresh).or (s.stepLogout label s.logout)

structure Init (s : State) : Prop where
  refresh : s.refresh = none
  logout : s.logout = .notCalled

def system : LabelledSystem State Label := ⟨Init, step⟩

/-- Once the logout has resolved and no refresh is in flight, the tab has no access token and the
server accepts no refresh token of the session. -/
def LoggedOut (s : State) : Prop :=
  s.logout = .resolved → s.refresh = none → s.getAccessToken = none ∧ s.accepted = []

/-- The server has validated the old token and may still add a new one. -/
def Refresh.isValidated : Refresh → Bool
  | .validated _ => true
  | _ => false

def Refresh.succeeds : Refresh → Bool
  | .requested _ => false
  | .refused => false
  | _ => true

/-- `SignOut` is not refused at its retry, and takes away the last token that the server accepts
while no refresh is about to add one; and `clearAccessToken` comes when no refresh that the server
has accepted is still to be adopted. -/
def InOrder (s : State) : Label → Prop
  | .signOut =>
    match s.logout with
    | .requested token cookie isRetryAttempt =>
      if s.authenticated token then
        (∀ tokenID ∈ s.accepted, cookie = some tokenID) ∧ s.refresh.all (!·.isValidated) = true
      else isRetryAttempt = false
    | _ => True
  | .resume =>
    match s.logout with
    | .refreshed isRetryAttempt success =>
      isRetryAttempt = true → (s.refreshedToken success).isSome = true
    | _ => True
  | .clearAccessToken => s.refresh.all (!·.succeeds) = true
  | _ => True

/-- The server accepts no token, and will accept none. -/
structure Revoked (s : State) : Prop where
  accepted : s.accepted = []
  refresh : s.refresh.all (!·.isValidated) = true

/-- No access token is there, and none will come. -/
structure Cleared (s : State) : Prop where
  accessToken : s.accessToken = none
  stored : s.stored = none
  refresh : s.refresh.all (!·.succeeds) = true

def Inv (s : State) : Prop :=
  match s.logout with
  | .unauthenticated isRetryAttempt => isRetryAttempt = false
  | .signedOut => Revoked s
  | .returned => Revoked s
  | .resolved => Revoked s ∧ Cleared s
  | _ => True

section steps

variable {s s' : State} {label : Label}

theorem not_accepted (h : s.accepted = []) (cookie : Option Nat) :
    cookie.filter (· ∈ s.accepted) = none := by
  rw [h]
  cases cookie <;> rfl

theorem Revoked.stepRefresh (h : Revoked s) (hstep : s.stepRefresh label s.refresh = some s') :
    Revoked s' := by
  obtain ⟨haccepted, hrefresh⟩ := h
  unfold State.stepRefresh at hstep
  split at hstep
  · rw [not_accepted haccepted] at hstep
    obtain rfl := Option.some.inj hstep
    exact ⟨haccepted, rfl⟩
  · rename_i hvalidated
    rw [hvalidated] at hrefresh
    cases hrefresh
  · obtain rfl := Option.some.inj hstep
    refine ⟨?_, rfl⟩
    change s.accepted.filter _ = []
    rw [haccepted]
    rfl
  · obtain rfl := Option.some.inj hstep
    exact ⟨haccepted, rfl⟩
  · obtain rfl := Option.some.inj hstep
    exact ⟨haccepted, rfl⟩
  · obtain rfl := Option.some.inj hstep
    exact ⟨haccepted, rfl⟩
  · obtain rfl := Option.some.inj hstep
    exact ⟨haccepted, rfl⟩
  · cases hstep

theorem Cleared.stepRefresh (hrevoked : Revoked s) (h : Cleared s)
    (hstep : s.stepRefresh label s.refresh = some s') : Cleared s' := by
  obtain ⟨haccepted, -⟩ := hrevoked
  obtain ⟨htoken, hstored, hrefresh⟩ := h
  unfold State.stepRefresh at hstep
  split at hstep
  · rw [not_accepted haccepted] at hstep
    obtain rfl := Option.some.inj hstep
    exact ⟨htoken, hstored, rfl⟩
  · rename_i hphase
    rw [hphase] at hrefresh
    cases hrefresh
  · rename_i hphase
    rw [hphase] at hrefresh
    cases hrefresh
  · rename_i hphase
    rw [hphase] at hrefresh
    cases hrefresh
  · rename_i hphase
    rw [hphase] at hrefresh
    cases hrefresh
  · obtain rfl := Option.some.inj hstep
    exact ⟨htoken, hstored, rfl⟩
  · rename_i hphase
    rw [hphase] at hrefresh
    cases hrefresh
  · cases hstep

theorem logout_stepRefresh (hstep : s.stepRefresh label s.refresh = some s') :
    s'.logout = s.logout ∨ ∃ isRetryAttempt success, s'.logout = .refreshed isRetryAttempt success := by
  have hsettle : ∀ (t : State) success, (t.settleRefresh success).logout = t.logout ∨
      ∃ isRetryAttempt result, (t.settleRefresh success).logout = .refreshed isRetryAttempt result := by
    intro t success
    unfold State.settleRefresh
    cases t.logout with
    | refreshing isRetryAttempt => exact .inr ⟨isRetryAttempt, success, rfl⟩
    | _ => exact .inl rfl
  unfold State.stepRefresh at hstep
  split at hstep
  · split at hstep
    · obtain rfl := Option.some.inj hstep
      exact .inl rfl
    · obtain rfl := Option.some.inj hstep
      exact .inl rfl
  · obtain rfl := Option.some.inj hstep
    exact .inl rfl
  · obtain rfl := Option.some.inj hstep
    exact .inl rfl
  · obtain rfl := Option.some.inj hstep
    exact .inl rfl
  · obtain rfl := Option.some.inj hstep
    exact .inl rfl
  · obtain rfl := Option.some.inj hstep
    exact hsettle s false
  · rename_i token _
    obtain rfl := Option.some.inj hstep
    exact hsettle (s.setAccessToken token) true
  · cases hstep

theorem Inv.stepRefresh (h : Inv s) (hstep : s.stepRefresh label s.refresh = some s') : Inv s' := by
  unfold Inv
  rcases logout_stepRefresh hstep with hsame | ⟨isRetryAttempt, success, hlogout⟩
  · rw [hsame]
    unfold Inv at h
    split at h
    · exact h
    · exact h.stepRefresh hstep
    · exact h.stepRefresh hstep
    · exact ⟨h.1.stepRefresh hstep, h.2.stepRefresh h.1 hstep⟩
    · trivial
  · rw [hlogout]
    trivial

/-- What the logout does before its request is refused or accepted leaves it before that. -/
theorem Inv.stepLogout (h : Inv s) (hlabel : InOrder s label)
    (hstep : s.stepLogout label s.logout = some s') : Inv s' := by
  unfold State.stepLogout at hstep
  split at hstep
  · obtain rfl := Option.some.inj hstep
    unfold State.beginSignOut
    dsimp only
    split
    · split
      · trivial
      · trivial
    · split
      · trivial
      · trivial
  · rename_i isRetryAttempt success hlogout
    obtain rfl := Option.some.inj hstep
    simp only [InOrder, hlogout] at hlabel
    unfold State.resumeSignOut
    split
    · trivial
    · rename_i hnone
      split
      · rename_i hretry
        have hsome := hlabel hretry
        rw [hnone] at hsome
        cases hsome
      · trivial
  · rename_i token cookie isRetryAttempt hlogout
    obtain rfl := Option.some.inj hstep
    simp only [InOrder, hlogout] at hlabel
    unfold State.handleSignOut
    split
    · rename_i hauthenticated
      rw [if_pos hauthenticated] at hlabel
      obtain ⟨hlast, hrefresh⟩ := hlabel
      cases cookie with
      | some tokenID =>
        refine Revoked.mk ?_ hrefresh
        refine List.filter_eq_nil_iff.mpr fun id hid => ?_
        have heq := Option.some.inj (hlast id hid)
        simp [heq]
      | none =>
        refine Revoked.mk ?_ hrefresh
        refine List.eq_nil_iff_forall_not_mem.mpr fun id hid => ?_
        cases hlast id hid
    · rename_i hrefused
      rw [if_neg hrefused] at hlabel
      exact hlabel
  · rename_i hlogout
    obtain rfl := Option.some.inj hstep
    simp only [Inv, hlogout] at h
    exact ⟨h.accepted, h.refresh⟩
  · rename_i isRetryAttempt hlogout
    simp only [Inv, hlogout] at h
    rw [h] at hstep
    obtain rfl := Option.some.inj hstep
    trivial
  · rename_i hlogout
    obtain rfl := Option.some.inj hstep
    simp only [Inv, hlogout] at h
    exact ⟨⟨h.accepted, h.refresh⟩, rfl, rfl, hlabel⟩
  · cases hstep

theorem Inv.step (h : Inv s) (hlabel : InOrder s label) (hstep : step s label = some s') :
    Inv s' := by
  have hor : ∀ label', label = label' →
      (s.stepRefresh label' s.refresh).or (s.stepLogout label' s.logout) = some s' → Inv s' := by
    rintro _ rfl hor
    rcases Option.or_eq_some_iff.mp hor with hrefresh | ⟨-, hlogout⟩
    · exact h.stepRefresh hrefresh
    · exact h.stepLogout hlabel hlogout
  cases label with
  | tick duration =>
    obtain rfl := Option.some.inj hstep
    unfold Inv at h ⊢
    dsimp only
    split at h
    · exact h
    · exact ⟨h.accepted, h.refresh⟩
    · exact ⟨h.accepted, h.refresh⟩
    · exact ⟨⟨h.1.accepted, h.1.refresh⟩, h.2.accessToken, h.2.stored, h.2.refresh⟩
    · trivial
  | refreshAccessToken =>
    unfold Logout.step at hstep
    dsimp only at hstep
    split at hstep
    · rename_i hlogout
      obtain rfl := Option.some.inj hstep
      have hsame : s.startRefresh.logout = .notCalled := by
        unfold State.startRefresh
        split
        · exact hlogout
        · exact hlogout
      unfold Inv
      rw [hsame]
      trivial
    · cases hstep
  | _ => exact hor _ rfl hstep

end steps

/-- In a run whose steps are in order the logout is final. -/
theorem loggedOut_of_inOrder {s : State} (h : system.Reaches InOrder s) : LoggedOut s := by
  have hinv : Inv s := by
    refine h.invariant (fun s hs => ?_) fun _ _ _ hs hlabel hstep => hs.step hlabel hstep
    unfold Inv
    rw [hs.logout]
    trivial
  intro hresolved _
  unfold Inv at hinv
  rw [hresolved] at hinv
  obtain ⟨hrevoked, hcleared⟩ := hinv
  refine ⟨?_, hrevoked.accepted⟩
  unfold State.getAccessToken
  rw [hcleared.accessToken, hcleared.stored]
  rfl

def signedIn : State := ⟨0, some ⟨100000⟩, some ⟨100000⟩, some 1, none, .notCalled, [1], 2⟩

theorem signedIn_init : Init signedIn := ⟨rfl, rfl⟩

/-- The refresh comes to the server after the logout. -/
theorem loggedOut_of_inOrder_refused :
    LoggedOut ⟨0, none, none, none, none, .resolved, [], 2⟩ := by
  have hmeets : system.Meets InOrder signedIn [.refreshAccessToken, .logout, .signOut, .validate,
      .receiveSignOut, .receiveRefresh, .clearAccessToken] := by
    refine ⟨trivial, trivial, ⟨?_, rfl⟩, trivial, trivial, trivial, rfl, trivial⟩
    decide
  exact loggedOut_of_inOrder (.run (.init signedIn_init) hmeets rfl)

/-- The server has answered a refresh when it handles the logout, and the answer comes after it. -/
theorem refresh_outlives_logout :
    ∃ s, system.Reaches (fun _ _ => True) s ∧ s.logout = .resolved ∧ s.refresh = none ∧
      s.getAccessToken = some ⟨900000⟩ ∧ s.cookie = some 2 ∧ s.accepted = [2] ∧ ¬LoggedOut s := by
  have hmeets := meets_true (S := system) signedIn [.refreshAccessToken, .validate,
    .addUserRefreshToken, .removeUserRefreshToken, .answerRefresh, .logout, .signOut,
    .receiveSignOut, .clearAccessToken, .receiveRefresh, .adopt]
  refine ⟨_, .run (.init signedIn_init) hmeets rfl, rfl, rfl, rfl, rfl, rfl, ?_⟩
  intro h
  cases (h rfl rfl).2

end Memoark.Web.Logout
