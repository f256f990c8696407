import Memoark.Store.UserTokens
import Memoark.System.ReadThrough

/-! The user settings of `store/user_setting.go` whose changes edit the cached message: what
`GetUserSetting` returns is the message in the cache itself, not a copy. -/
namespace Memoark.Store.UserSettings
open Memoark.System
open Memoark.Store.UserTokens (Token updateLastUsed)

inductive Key where
  | SHORTCUTS
  | REFRESH_TOKENS
  | PERSONAL_ACCESS_TOKENS
  | WEBHOOKS
  deriving DecidableEq

structure Shortcut where
  Id : String
  Title : String
  Filter : String
  deriving DecidableEq

structure Webhook where
  Id : String
  Title : String
  Url : String
  deriving DecidableEq

abbrev Message : Key → Type
  | .SHORTCUTS => List Shortcut
  | .REFRESH_TOKENS => List Token
  | .PERSONAL_ACCESS_TOKENS => List Token
  | .WEBHOOKS => List Webhook

structure Slot where
  UserID : Nat
  Key : Key
  deriving DecidableEq

abbrev Settings := ReadThrough.State fun slot : Slot => Message slot.Key

/-- What fails in a call: the listing of the rows, and the encoding or the write of a row. A write
that fails changes no row. -/
structure SettingFaults where
  ListUserSettings : Option String
  UpsertUserSetting : Option String

def GetUserSetting (faults : SettingFaults) (slot : Slot) (s : Settings) :
    Except String (Option (Message slot.Key)) × Settings :=
  match s.cache slot with
  | some message => (.ok (some message), s)
  | none =>
    match faults.ListUserSettings with
    | some err => (.error err, s)
    | none => (.ok (s.rows slot), s.fill slot)

def UpsertUserSetting (faults : SettingFaults) (slot : Slot) (message : Message slot.Key)
    (s : Settings) : Except String Unit × Settings :=
  match faults.UpsertUserSetting with
  | some err => (.error err, s)
  | none => (.ok (), s.write slot message)

def editSetting (slot : Slot) (inPlace : Message slot.Key → Message slot.Key) (s : Settings) :
    Option (Message slot.Key) → Settings
  | some message => s.edit slot (inPlace message)
  | none => s

/-- What the changes of a setting have in common: the message that is read is edited in place,
then a message is written. -/
def changeUserSetting {ε α : Type} (faults : SettingFaults) (slot : Slot)
    (readError writeError : String → ε) (inPlace : Message slot.Key → Message slot.Key)
    (change : Option (Message slot.Key) → Except ε (Message slot.Key × α)) (s : Settings) :
    Except ε α × Settings :=
  match GetUserSetting faults slot s with
  | (.error err, s) => (.error (readError err), s)
  | (.ok setting, s) =>
    let s := editSetting slot inPlace s setting
    match change setting with
    | .error err => (.error err, s)
    | .ok (message, response) =>
      match UpsertUserSetting faults slot message s with
      | (.error err, s) => (.error (writeError err), s)
      | (.ok (), s) => (.ok response, s)

/-- The loop of `AddUserWebhook` and what follows it, on a new slice. -/
def addWebhook (webhook : Webhook) (existingWebhooks : List Webhook) : List Webhook :=
  let updatedWebhooks := existingWebhooks.map fun existing =>
    if existing.Id = webhook.Id then webhook else existing
  if existingWebhooks.any (·.Id = webhook.Id) then updatedWebhooks else updatedWebhooks ++ [webhook]

/-- The loop of `UpdateUserWebhook`, with its `break`. -/
def replaceWebhook (webhook : Webhook) : List Webhook → List Webhook
  | [] => []
  | existing :: webhooks =>
    if existing.Id = webhook.Id then webhook :: webhooks
    else existing :: replaceWebhook webhook webhooks

def UpdatePATLastUsed (faults : SettingFaults) (userID : Nat) (tokenID : String) (lastUsed : Int) :
    Settings → Except String Unit × Settings :=
  changeUserSetting faults ⟨userID, .PERSONAL_ACCESS_TOKENS⟩ id id (updateLastUsed tokenID lastUsed)
    fun setting => .ok (updateLastUsed tokenID lastUsed (setting.getD []), ())

def AddUserWebhook (faults : SettingFaults) (userID : Nat) (webhook : Webhook) :
    Settings → Except String Unit × Settings :=
  changeUserSetting faults ⟨userID, .WEBHOOKS⟩ id id id
    fun setting => .ok (addWebhook webhook (setting.getD []), ())

def UpdateUserWebhook (faults : SettingFaults) (userID : Nat) (webhook : Webhook) :
    Settings → Except String Unit × Settings :=
  changeUserSetting faults ⟨userID, .WEBHOOKS⟩ id id (replaceWebhook webhook)
    fun setting => .ok (replaceWebhook webhook (setting.getD []), ())

/-- The message that a call can read; `none` if there is none, or none that can be read. -/
def available (faults : SettingFaults) (slot : Slot) (s : Settings) : Option (Message slot.Key) :=
  if s.cache slot = none ∧ faults.ListUserSettings ≠ none then none else s.read slot

section changes

variable {ε α : Type} {faults : SettingFaults} {slot : Slot} {s : Settings}

theorem getUserSetting_cases (faults : SettingFaults) (slot : Slot) (s : Settings) :
    (∃ err, GetUserSetting faults slot s = (.error err, s) ∧ available faults slot s = none) ∨
      GetUserSetting faults slot s = (.ok (available faults slot s), s.fill slot) := by
  unfold GetUserSetting available
  cases hcache : s.cache slot with
  | some message =>
    right
    have hread : s.read slot = some message := by rw [ReadThrough.State.read, hcache, Option.some_or]
    have hfill : s.fill slot = s := by
      rw [ReadThrough.State.fill, hread, ← hcache, Function.update_eq_self]
    rw [if_neg (by simp), hread, hfill]
  | none =>
    have hread : s.read slot = s.rows slot := by
      rw [ReadThrough.State.read, hcache, Option.none_or]
    cases hfault : faults.ListUserSettings with
    | some err => exact .inl ⟨err, rfl, if_pos ⟨rfl, Option.some_ne_none err⟩⟩
    | none =>
      right
      rw [if_neg (by simp), hread]

theorem read_of_available {message : Message slot.Key}
    (h : available faults slot s = some message) : s.read slot = some message := by
  unfold available at h
  split at h
  · cases h
  · exact h

theorem changeUserSetting_failed {readError writeError : String → ε}
    {inPlace : Message slot.Key → Message slot.Key}
    {change : Option (Message slot.Key) → Except ε (Message slot.Key × α)}
    (hget : GetUserSetting faults slot s = (.ok (available faults slot s), s.fill slot))
    (h : (changeUserSetting faults slot readError writeError inPlace change s).1.isOk = false) :
    (changeUserSetting faults slot readError writeError inPlace change s).2 =
      editSetting slot inPlace (s.fill slot) (available faults slot s) := by
  unfold changeUserSetting at h ⊢
  rw [hget] at h ⊢
  dsimp only at h ⊢
  cases hchange : change (available faults slot s) with
  | error err => rfl
  | ok changed =>
    rw [hchange] at h
    dsimp only at h ⊢
    unfold UpsertUserSetting at h ⊢
    cases hfault : faults.UpsertUserSetting with
    | some err => rfl
    | none =>
      rw [hfault] at h
      cases h

theorem changeUserSetting_alike_iff {readError writeError : String → ε}
    {inPlace : Message slot.Key → Message slot.Key}
    {change : Option (Message slot.Key) → Except ε (Message slot.Key × α)}
    (h : (changeUserSetting faults slot readError writeError inPlace change s).1.isOk = false) :
    ReadThrough.Alike s (changeUserSetting faults slot readError writeError inPlace change s).2 ↔
      ∀ message, available faults slot s = some message → inPlace message = message := by
  rcases getUserSetting_cases faults slot s with ⟨err, hget, hnone⟩ | hget
  · have hstate : (changeUserSetting faults slot readError writeError inPlace change s).2 = s := by
      unfold changeUserSetting
      rw [hget]
    rw [hstate, hnone]
    exact ⟨fun _ message h => (Option.some_ne_none message h.symm).elim, fun _ => .refl s⟩
  · rw [changeUserSetting_failed hget h]
    cases havailable : available faults slot s with
    | none =>
      exact ⟨fun _ message h => (Option.some_ne_none message h.symm).elim,
        fun _ => ReadThrough.alike_fill s slot⟩
    | some message =>
      have hedit : (s.fill slot).edit slot (inPlace message) = s.edit slot (inPlace message) := by
        rw [ReadThrough.State.edit, ReadThrough.State.edit, ReadThrough.State.fill,
          Function.update_idem]
      rw [editSetting, hedit, ReadThrough.alike_edit_iff (read_of_available havailable)]
      constructor
      · intro heq message' hmessage
        rw [← Option.some.inj hmessage]
        exact heq
      · intro hall
        exact hall message rfl

end changes

section edits

theorem replaceWebhook_eq_self {webhook : Webhook} {webhooks : List Webhook} :
    replaceWebhook webhook webhooks = webhooks ↔
      ∀ existing, webhooks.find? (·.Id = webhook.Id) = some existing → existing = webhook := by
  induction webhooks with
  | nil => simp [replaceWebhook]
  | cons first webhooks ih =>
    by_cases hid : first.Id = webhook.Id
    · rw [replaceWebhook, if_pos hid, List.find?_cons_of_pos (by simpa using hid), List.cons.injEq]
      constructor
      · intro h existing hexisting
        rw [← Option.some.inj hexisting, h.1]
      · intro h
        exact ⟨(h first rfl).symm, rfl⟩
    · rw [replaceWebhook, if_neg hid, List.find?_cons_of_neg (by simpa using hid), List.cons.injEq,
        ← ih]
      exact and_iff_right rfl

theorem updateLastUsed_eq_self {tokenID : String} {lastUsed : Int} {tokens : List Token} :
    updateLastUsed tokenID lastUsed tokens = tokens ↔
      ∀ token, tokens.find? (·.TokenId = tokenID) = some token → token.LastUsedAt = some lastUsed := by
  induction tokens with
  | nil => simp [updateLastUsed]
  | cons first tokens ih =>
    by_cases hid : first.TokenId = tokenID
    · rw [updateLastUsed, if_pos hid, List.find?_cons_of_pos (by simpa using hid), List.cons.injEq]
      constructor
      · intro h token htoken
        rw [← Option.some.inj htoken, ← h.1]
      · intro h
        have hused := h first rfl
        exact ⟨by rw [← hused], rfl⟩
    · rw [updateLastUsed, if_neg hid, List.find?_cons_of_neg (by simpa using hid), List.cons.injEq,
        ← ih]
      exact and_iff_right rfl

end edits

end Memoark.Store.UserSettings
