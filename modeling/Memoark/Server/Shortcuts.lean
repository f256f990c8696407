import Memoark.Server.MemoMessages
import Memoark.Store.UserSettings

/-! The changes of user settings that edit the cached message (`shortcut_service.go`,
`store/user_setting.go`), and what a failed one leaves to later readers. -/
namespace Memoark.Server.Shortcuts
open Memoark.System
open Memoark.Store
open Memoark.Store.UserSettings

structure User where
  ID : Nat
  Username : String

structure Service where
  ResolveUserByName : String → Except String (Option User)
  /-- The ID of the user who calls. -/
  fetchCurrentUser : Except String (Option Nat)
  CompileToStatement : String → Except String Unit
  GenUUID : String

structure V1Shortcut where
  Name : String
  Title : String
  Filter : String

def BuildUserName (username : String) : String := "users/" ++ username

def constructShortcutName (username shortcutID : String) : String :=
  BuildUserName username ++ "/shortcuts/" ++ shortcutID

def shortcutResponse (user : User) (shortcut : Shortcut) : V1Shortcut where
  Name := constructShortcutName user.Username shortcut.Id
  Title := shortcut.Title
  Filter := shortcut.Filter

section checks

variable (service : Service)

def validateFilter (filterStr : String) : Except String Unit :=
  if filterStr = "" then .error "filter cannot be empty"
  else (service.CompileToStatement filterStr).mapError ("failed to compile filter: " ++ ·)

def checkCurrentUser (userID : Nat) : Except Status Unit :=
  match service.fetchCurrentUser with
  | .error err => .error ⟨.Internal, "failed to get current user: " ++ err⟩
  | .ok currentUser =>
    if currentUser = some userID then .ok () else .error ⟨.PermissionDenied, "permission denied"⟩

def extractUserAndShortcutIDFromName (name : String) : Except String (User × String) :=
  match (name.toList.splitOn '/').map String.ofList with
  | [users, username, shortcuts, shortcutID] =>
    if users ≠ "users" ∨ shortcuts ≠ "shortcuts" then
      .error ("invalid shortcut name format: " ++ name)
    else
      match service.ResolveUserByName (BuildUserName username) with
      | .error err => .error err
      | .ok none => .error ("user not found: " ++ username)
      | .ok (some user) =>
        if shortcutID = "" then .error ("empty shortcut ID in name: " ++ name)
        else .ok (user, shortcutID)
  | _ => .error ("invalid shortcut name format: " ++ name)

structure CreateShortcutRequest where
  Parent : String
  Shortcut : V1Shortcut
  ValidateOnly : Bool

structure UpdateShortcutRequest where
  Shortcut : V1Shortcut
  UpdateMask : Option (List String)

structure DeleteShortcutRequest where
  Name : String

def checkCreateShortcut (request : CreateShortcutRequest) : Except Status (User × Shortcut) := do
  let user ← match service.ResolveUserByName request.Parent with
    | .error err => .error ⟨.InvalidArgument, "invalid user name: " ++ err⟩
    | .ok none => .error ⟨.NotFound, "user not found"⟩
    | .ok (some user) => .ok user
  checkCurrentUser service user.ID
  let newShortcut : Shortcut := ⟨service.GenUUID, request.Shortcut.Title, request.Shortcut.Filter⟩
  if newShortcut.Title = "" then throw ⟨.InvalidArgument, "title is required"⟩
  (validateFilter service newShortcut.Filter).mapError
    fun err => ⟨.InvalidArgument, "invalid filter: " ++ err⟩
  return (user, newShortcut)

def checkUpdateShortcut (request : UpdateShortcutRequest) : Except Status (User × String) := do
  let (user, shortcutID) ← (extractUserAndShortcutIDFromName service request.Shortcut.Name).mapError
    fun err => ⟨.InvalidArgument, "invalid shortcut name: " ++ err⟩
  checkCurrentUser service user.ID
  if request.UpdateMask.getD [] = [] then throw ⟨.InvalidArgument, "update mask is required"⟩
  return (user, shortcutID)

def checkDeleteShortcut (request : DeleteShortcutRequest) : Except Status (User × String) := do
  let (user, shortcutID) ← (extractUserAndShortcutIDFromName service request.Name).mapError
    fun err => ⟨.InvalidArgument, "invalid shortcut name: " ++ err⟩
  checkCurrentUser service user.ID
  return (user, shortcutID)

end checks

section edits

variable (service : Service) (new : V1Shortcut)

/-- The loop over the mask: each field is assigned before the next one is checked. -/
def updateFields (shortcut : Shortcut) : List String → Except Status Unit × Shortcut
  | [] => (.ok (), shortcut)
  | field :: fields =>
    if field = "title" then
      if new.Title = "" then (.error ⟨.InvalidArgument, "title is required"⟩, shortcut)
      else updateFields { shortcut with Title := new.Title } fields
    else if field = "filter" then
      match validateFilter service new.Filter with
      | .error err => (.error ⟨.InvalidArgument, "invalid filter: " ++ err⟩, shortcut)
      | .ok () => updateFields { shortcut with Filter := new.Filter } fields
    else updateFields shortcut fields

def updateShortcuts (shortcutID : String) (fields : List String) :
    List Shortcut → Except Status Unit × List Shortcut
  | [] => (.ok (), [])
  | shortcut :: shortcuts =>
    if shortcut.Id = shortcutID then
      match updateFields service new shortcut fields with
      | (.error status, shortcut) => (.error status, shortcut :: shortcuts)
      | (.ok (), shortcut) =>
        let (result, shortcuts) := updateShortcuts shortcutID fields shortcuts
        (result, shortcut :: shortcuts)
    else
      let (result, shortcuts) := updateShortcuts shortcutID fields shortcuts
      (result, shortcut :: shortcuts)

end edits

section handlers

variable (service : Service) (faults : SettingFaults)

def notFound {α : Type} : Except Status α := .error ⟨.NotFound, "shortcut not found"⟩

def upsertError (err : String) : Status := ⟨.Internal, "failed to upsert user setting: " ++ err⟩

def CreateShortcut (request : CreateShortcutRequest) (s : Settings) :
    Except Status V1Shortcut × Settings :=
  match checkCreateShortcut service request with
  | .error status => (.error status, s)
  | .ok (user, newShortcut) =>
    if request.ValidateOnly then (.ok (shortcutResponse user newShortcut), s)
    else
      changeUserSetting faults ⟨user.ID, .SHORTCUTS⟩ (⟨.Unknown, ·⟩) upsertError (· ++ [newShortcut])
        (fun setting =>
          .ok (setting.getD [] ++ [newShortcut], shortcutResponse user newShortcut)) s

def UpdateShortcut (request : UpdateShortcutRequest) (s : Settings) :
    Except Status V1Shortcut × Settings :=
  match checkUpdateShortcut service request with
  | .error status => (.error status, s)
  | .ok (user, shortcutID) =>
    let edit := updateShortcuts service request.Shortcut shortcutID (request.UpdateMask.getD [])
    changeUserSetting faults ⟨user.ID, .SHORTCUTS⟩ (⟨.Unknown, ·⟩) (⟨.Unknown, ·⟩)
      (fun shortcuts => (edit shortcuts).2)
      (fun setting =>
        match setting with
        | none => notFound
        | some shortcuts => do
          (edit shortcuts).1
          match ((edit shortcuts).2.filter (·.Id = shortcutID)).getLast? with
          | none => notFound
          | some foundShortcut =>
            return ((edit shortcuts).2, shortcutResponse user foundShortcut)) s

def DeleteShortcut (request : DeleteShortcutRequest) (s : Settings) :
    Except Status Unit × Settings :=
  match checkDeleteShortcut service request with
  | .error status => (.error status, s)
  | .ok (user, shortcutID) =>
    changeUserSetting faults ⟨user.ID, .SHORTCUTS⟩ (⟨.Unknown, ·⟩) upsertError
      (fun shortcuts =>
        if shortcuts.any (·.Id = shortcutID) then shortcuts.filter (·.Id ≠ shortcutID) else shortcuts)
      (fun setting =>
        match setting with
        | none => notFound
        | some shortcuts =>
          if shortcuts.any (·.Id = shortcutID) then
            .ok (shortcuts.filter (·.Id ≠ shortcutID), ())
          else notFound) s

end handlers

section calls

inductive Call where
  | CreateShortcut (request : CreateShortcutRequest)
  | UpdateShortcut (request : UpdateShortcutRequest)
  | DeleteShortcut (request : DeleteShortcutRequest)
  | AddUserWebhook (userID : Nat) (webhook : Webhook)
  | UpdateUserWebhook (userID : Nat) (webhook : Webhook)
  | UpdatePATLastUsed (userID : Nat) (tokenID : String) (lastUsed : Int)

def outcome {ε α : Type} (result : Except ε α × Settings) : Bool × Settings :=
  (!result.1.isOk, result.2)

def Call.run (service : Service) (faults : SettingFaults) (s : Settings) : Call → Bool × Settings
  | CreateShortcut request => outcome (Shortcuts.CreateShortcut service faults request s)
  | UpdateShortcut request => outcome (Shortcuts.UpdateShortcut service faults request s)
  | DeleteShortcut request => outcome (Shortcuts.DeleteShortcut service faults request s)
  | AddUserWebhook userID webhook => outcome (UserSettings.AddUserWebhook faults userID webhook s)
  | UpdateUserWebhook userID webhook =>
    outcome (UserSettings.UpdateUserWebhook faults userID webhook s)
  | UpdatePATLastUsed userID tokenID lastUsed =>
    outcome (UserSettings.UpdatePATLastUsed faults userID tokenID lastUsed s)

end calls

section conditions

variable (service : Service) (new : V1Shortcut)

def rejects (field : String) : Bool :=
  if field = "title" then new.Title = ""
  else field = "filter" && !(validateFilter service new.Filter).isOk

def accepted (fields : List String) : List String := fields.takeWhile (!rejects service new ·)

def reached (shortcutID : String) (fields : List String) (shortcuts : List Shortcut) :
    List Shortcut :=
  if fields.any (rejects service new) then (shortcuts.find? (·.Id = shortcutID)).toList
  else shortcuts.filter (·.Id = shortcutID)

structure Agrees (fields : List String) (shortcut : Shortcut) : Prop where
  title : "title" ∈ fields → shortcut.Title = new.Title
  filter : "filter" ∈ fields → shortcut.Filter = new.Filter

/-- The edits in place that a failing call comes to make change nothing. -/
def Harmless (faults : SettingFaults) (s : Settings) : Call → Prop
  | .CreateShortcut request => ∀ user newShortcut,
    checkCreateShortcut service request = .ok (user, newShortcut) →
      available faults ⟨user.ID, .SHORTCUTS⟩ s = none
  | .UpdateShortcut request => ∀ user shortcutID,
    checkUpdateShortcut service request = .ok (user, shortcutID) →
      ∀ shortcuts, available faults ⟨user.ID, .SHORTCUTS⟩ s = some shortcuts →
        ∀ shortcut ∈ reached service request.Shortcut shortcutID (request.UpdateMask.getD []) shortcuts,
          Agrees request.Shortcut
            (accepted service request.Shortcut (request.UpdateMask.getD [])) shortcut
  | .DeleteShortcut request => ∀ user shortcutID,
    checkDeleteShortcut service request = .ok (user, shortcutID) →
      ∀ shortcuts, available faults ⟨user.ID, .SHORTCUTS⟩ s = some shortcuts →
        ∀ shortcut ∈ shortcuts, shortcut.Id ≠ shortcutID
  | .AddUserWebhook _ _ => True
  | .UpdateUserWebhook userID webhook =>
    ∀ webhooks, available faults ⟨userID, .WEBHOOKS⟩ s = some webhooks →
      ∀ existing, webhooks.find? (·.Id = webhook.Id) = some existing → existing = webhook
  | .UpdatePATLastUsed userID tokenID lastUsed =>
    ∀ tokens, available faults ⟨userID, .PERSONAL_ACCESS_TOKENS⟩ s = some tokens →
      ∀ token, tokens.find? (·.TokenId = tokenID) = some token → token.LastUsedAt = some lastUsed

end conditions

section updates

variable {service : Service} {new : V1Shortcut} {shortcutID : String} {fields : List String}

def assigned (new : V1Shortcut) (fields : List String) (shortcut : Shortcut) : Shortcut :=
  { shortcut with
    Title := if "title" ∈ fields then new.Title else shortcut.Title
    Filter := if "filter" ∈ fields then new.Filter else shortcut.Filter }

theorem assigned_eq_self {shortcut : Shortcut} :
    assigned new fields shortcut = shortcut ↔ Agrees new fields shortcut := by
  constructor
  · intro h
    constructor
    · intro hmem
      have htitle := congrArg Shortcut.Title h
      simpa [assigned, hmem] using htitle.symm
    · intro hmem
      have hfilter := congrArg Shortcut.Filter h
      simpa [assigned, hmem] using hfilter.symm
  · intro h
    have htitle : (assigned new fields shortcut).Title = shortcut.Title := by
      by_cases hmem : "title" ∈ fields
      · simpa [assigned, hmem] using (h.title hmem).symm
      · simp [assigned, hmem]
    have hfilter : (assigned new fields shortcut).Filter = shortcut.Filter := by
      by_cases hmem : "filter" ∈ fields
      · simpa [assigned, hmem] using (h.filter hmem).symm
      · simp [assigned, hmem]
    cases shortcut with
    | mk Id Title Filter => exact congrArg₂ (Shortcut.mk Id) htitle hfilter

theorem assigned_cons (field : String) (fields : List String) (shortcut : Shortcut) :
    assigned new (field :: fields) shortcut = assigned new fields (assigned new [field] shortcut) := by
  have htitle : (assigned new (field :: fields) shortcut).Title =
      (assigned new fields (assigned new [field] shortcut)).Title := by
    by_cases hmem : "title" ∈ fields
    · simp [assigned, hmem]
    · simp [assigned, hmem]
  have hfilter : (assigned new (field :: fields) shortcut).Filter =
      (assigned new fields (assigned new [field] shortcut)).Filter := by
    by_cases hmem : "filter" ∈ fields
    · simp [assigned, hmem]
    · simp [assigned, hmem]
  exact congrArg₂ (Shortcut.mk shortcut.Id) htitle hfilter

theorem updateFields_spec (service : Service) (new : V1Shortcut) (shortcut : Shortcut)
    (fields : List String) :
    (updateFields service new shortcut fields).2 =
        assigned new (accepted service new fields) shortcut ∧
      (updateFields service new shortcut fields).1.isOk = !fields.any (rejects service new) := by
  induction fields generalizing shortcut with
  | nil => exact ⟨rfl, rfl⟩
  | cons field fields ih =>
    -- a rejected field ends the loop, any other one goes on with the field assigned
    have hstop : rejects service new field = true →
        accepted service new (field :: fields) = [] ∧
          (field :: fields).any (rejects service new) = true := by
      intro h
      exact ⟨by rw [accepted, List.takeWhile_cons, h]; rfl, by rw [List.any_cons, h]; rfl⟩
    have hnext : rejects service new field = false →
        assigned new (accepted service new (field :: fields)) shortcut =
            assigned new (accepted service new fields) (assigned new [field] shortcut) ∧
          (field :: fields).any (rejects service new) = fields.any (rejects service new) := by
      intro h
      refine ⟨?_, by rw [List.any_cons, h, Bool.false_or]⟩
      rw [accepted, List.takeWhile_cons, h, ← assigned_cons]
      rfl
    rw [updateFields]
    by_cases htitle : field = "title"
    · subst htitle
      rw [if_pos rfl]
      by_cases hempty : new.Title = ""
      · obtain ⟨haccepted, hany⟩ := hstop (by simp [rejects, hempty])
        rw [if_pos hempty, haccepted, hany]
        exact ⟨(assigned_eq_self.mpr ⟨by simp, by simp⟩).symm, rfl⟩
      · obtain ⟨hassigned, hany⟩ := hnext (by simp [rejects, hempty])
        rw [if_neg hempty, hassigned, hany]
        exact ih { shortcut with Title := new.Title }
    · rw [if_neg htitle]
      by_cases hfilter : field = "filter"
      · subst hfilter
        rw [if_pos rfl]
        cases hvalid : validateFilter service new.Filter with
        | error err =>
          obtain ⟨haccepted, hany⟩ := hstop (by simp [rejects, hvalid, Except.isOk, Except.toBool])
          rw [haccepted, hany]
          exact ⟨(assigned_eq_self.mpr ⟨by simp, by simp⟩).symm, rfl⟩
        | ok _ =>
          obtain ⟨hassigned, hany⟩ := hnext (by simp [rejects, hvalid, Except.isOk, Except.toBool])
          rw [hassigned, hany]
          exact ih { shortcut with Filter := new.Filter }
      · obtain ⟨hassigned, hany⟩ := hnext (by simp [rejects, htitle, hfilter])
        have hother : assigned new [field] shortcut = shortcut :=
          assigned_eq_self.mpr ⟨by simp [Ne.symm htitle], by simp [Ne.symm hfilter]⟩
        rw [if_neg hfilter, hassigned, hany, hother]
        exact ih shortcut

theorem updateShortcuts_eq_self {shortcuts : List Shortcut} :
    (updateShortcuts service new shortcutID fields shortcuts).2 = shortcuts ↔
      ∀ shortcut ∈ reached service new shortcutID fields shortcuts,
        Agrees new (accepted service new fields) shortcut := by
  induction shortcuts with
  | nil => simp [updateShortcuts, reached]
  | cons shortcut shortcuts ih =>
    rw [updateShortcuts]
    by_cases hid : shortcut.Id = shortcutID
    · obtain ⟨hassigned, hok⟩ := updateFields_spec service new shortcut fields
      rw [if_pos hid]
      cases hupdate : updateFields service new shortcut fields with
      | mk result edited =>
        rw [hupdate] at hassigned hok
        have hself : edited = shortcut ↔ Agrees new (accepted service new fields) shortcut := by
          rw [← assigned_eq_self, ← hassigned]
        cases result with
        | error status =>
          have hany : fields.any (rejects service new) = true := by
            simpa [Except.isOk, Except.toBool] using hok
          have hreached : reached service new shortcutID fields (shortcut :: shortcuts) = [shortcut] := by
            rw [reached, if_pos hany, List.find?_cons_of_pos (by simpa using hid)]
            rfl
          simp [hreached, hself]
        | ok _ =>
          have hany : fields.any (rejects service new) = false := by
            simpa [Except.isOk, Except.toBool] using hok
          have hreached : reached service new shortcutID fields (shortcut :: shortcuts) =
              shortcut :: reached service new shortcutID fields shortcuts := by
            rw [reached, reached, hany, if_neg Bool.false_ne_true, if_neg Bool.false_ne_true,
              List.filter_cons_of_pos (by simpa using hid)]
          rw [hreached, List.forall_mem_cons, ← ih, ← hself]
          simp
    · have hreached : reached service new shortcutID fields (shortcut :: shortcuts) =
          reached service new shortcutID fields shortcuts := by
        rw [reached, reached, List.find?_cons_of_neg (by simpa using hid),
          List.filter_cons_of_neg (by simpa using hid)]
      rw [if_neg hid, hreached, ← ih]
      simp

end updates

section failures

variable {service : Service} {faults : SettingFaults} {s : Settings}

theorem createShortcut_unnoticed_iff {request : CreateShortcutRequest}
    (h : (CreateShortcut service faults request s).1.isOk = false) :
    ReadThrough.Alike s (CreateShortcut service faults request s).2 ↔
      Harmless service faults s (.CreateShortcut request) := by
  unfold CreateShortcut at h ⊢
  rw [Harmless]
  cases hcheck : checkCreateShortcut service request with
  | error status => exact ⟨fun _ user newShortcut h => (by cases h), fun _ => .refl s⟩
  | ok checked =>
    obtain ⟨user, newShortcut⟩ := checked
    rw [hcheck] at h
    dsimp only at h ⊢
    by_cases hvalidate : request.ValidateOnly = true
    · rw [if_pos hvalidate] at h
      cases h
    · rw [if_neg hvalidate] at h ⊢
      rw [changeUserSetting_alike_iff h]
      constructor
      · rintro hall _ _ heq
        cases heq
        cases havailable : available faults ⟨user.ID, .SHORTCUTS⟩ s with
        | none => rfl
        | some shortcuts =>
          have hlength := congrArg List.length (hall shortcuts havailable)
          simp at hlength
      · intro hnone shortcuts havailable
        rw [hnone user newShortcut rfl] at havailable
        cases havailable

theorem updateShortcut_unnoticed_iff {request : UpdateShortcutRequest}
    (h : (UpdateShortcut service faults request s).1.isOk = false) :
    ReadThrough.Alike s (UpdateShortcut service faults request s).2 ↔
      Harmless service faults s (.UpdateShortcut request) := by
  unfold UpdateShortcut at h ⊢
  rw [Harmless]
  cases hcheck : checkUpdateShortcut service request with
  | error status => exact ⟨fun _ user shortcutID h => (by cases h), fun _ => .refl s⟩
  | ok checked =>
    obtain ⟨user, shortcutID⟩ := checked
    rw [hcheck] at h
    dsimp only at h ⊢
    rw [changeUserSetting_alike_iff h]
    constructor
    · rintro hall _ _ heq shortcuts havailable
      cases heq
      exact updateShortcuts_eq_self.mp (hall shortcuts havailable)
    · intro hall shortcuts havailable
      exact updateShortcuts_eq_self.mpr (hall user shortcutID rfl shortcuts havailable)

theorem deleteShortcut_unnoticed_iff {request : DeleteShortcutRequest}
    (h : (DeleteShortcut service faults request s).1.isOk = false) :
    ReadThrough.Alike s (DeleteShortcut service faults request s).2 ↔
      Harmless service faults s (.DeleteShortcut request) := by
  unfold DeleteShortcut at h ⊢
  rw [Harmless]
  cases hcheck : checkDeleteShortcut service request with
  | error status => exact ⟨fun _ user shortcutID h => (by cases h), fun _ => .refl s⟩
  | ok checked =>
    obtain ⟨user, shortcutID⟩ := checked
    rw [hcheck] at h
    dsimp only at h ⊢
    rw [changeUserSetting_alike_iff h]
    have hself : ∀ shortcuts : List Shortcut,
        (if shortcuts.any (·.Id = shortcutID) then shortcuts.filter (·.Id ≠ shortcutID)
          else shortcuts) = shortcuts ↔ ∀ shortcut ∈ shortcuts, shortcut.Id ≠ shortcutID := by
      intro shortcuts
      by_cases hany : shortcuts.any (·.Id = shortcutID) = true
      · obtain ⟨shortcut, hmem, hid⟩ := List.any_eq_true.mp hany
        rw [if_pos hany, List.filter_eq_self]
        simp
      · rw [if_neg hany]
        simpa using hany
    constructor
    · rintro hall _ _ heq shortcuts havailable
      cases heq
      exact (hself shortcuts).mp (hall shortcuts havailable)
    · intro hall shortcuts havailable
      exact (hself shortcuts).mpr (hall user shortcutID rfl shortcuts havailable)

/-- A failed change of a setting goes unnoticed by all later readers, from the cache or from the
database, exactly if the edits in place that it has made change nothing. -/
theorem failed_change_unnoticed_iff {service : Service} {faults : SettingFaults} {s : Settings}
    {call : Call} (h : (call.run service faults s).1 = true) :
    ReadThrough.Alike s (call.run service faults s).2 ↔ Harmless service faults s call := by
  cases call with
  | CreateShortcut request => exact createShortcut_unnoticed_iff (by simpa [Call.run, outcome] using h)
  | UpdateShortcut request => exact updateShortcut_unnoticed_iff (by simpa [Call.run, outcome] using h)
  | DeleteShortcut request => exact deleteShortcut_unnoticed_iff (by simpa [Call.run, outcome] using h)
  | AddUserWebhook userID webhook =>
    have hfails : (UserSettings.AddUserWebhook faults userID webhook s).1.isOk = false := by
      simpa [Call.run, outcome] using h
    have hiff := changeUserSetting_alike_iff hfails
    exact hiff.trans ⟨fun _ => trivial, fun _ _ _ => rfl⟩
  | UpdateUserWebhook userID webhook =>
    have hfails : (UserSettings.UpdateUserWebhook faults userID webhook s).1.isOk = false := by
      simpa [Call.run, outcome] using h
    have hiff := changeUserSetting_alike_iff hfails
    exact hiff.trans (forall_congr' fun webhooks => imp_congr_right fun _ => replaceWebhook_eq_self)
  | UpdatePATLastUsed userID tokenID lastUsed =>
    have hfails : (UserSettings.UpdatePATLastUsed faults userID tokenID lastUsed s).1.isOk = false := by
      simpa [Call.run, outcome] using h
    have hiff := changeUserSetting_alike_iff hfails
    exact hiff.trans (forall_congr' fun tokens => imp_congr_right fun _ => updateLastUsed_eq_self)

end failures

section examples

def owner : Service where
  ResolveUserByName name := .ok (if name = "users/ann" then some ⟨1, "ann"⟩ else none)
  fetchCurrentUser := .ok (some 1)
  CompileToStatement _ := .ok ()
  GenUUID := "b"

def noFaults : SettingFaults := ⟨none, none⟩

def stored : Shortcut := ⟨"a", "Work", "pinned"⟩

def settings : Settings where
  rows := Function.update (fun _ => none) ⟨1, .SHORTCUTS⟩ (some [stored])
  cache := Function.update (fun _ => none) ⟨1, .SHORTCUTS⟩ (some [stored])

def renameAndClear : Call :=
  .UpdateShortcut ⟨⟨"users/ann/shortcuts/a", "Home", ""⟩, some ["title", "filter"]⟩

def clear : Call := .UpdateShortcut ⟨⟨"users/ann/shortcuts/a", "Home", ""⟩, some ["filter", "title"]⟩

/-- With the invalid field first, nothing has been edited. -/
theorem failed_change_unnoticed_clear :
    (clear.run owner noFaults settings).1 = true ∧
      (ReadThrough.Alike settings (clear.run owner noFaults settings).2 ↔
        Harmless owner noFaults settings clear) := by
  have hfails : (clear.run owner noFaults settings).1 = true := by decide +kernel
  exact ⟨hfails, failed_change_unnoticed_iff hfails⟩

/-- The update is refused for its filter, and the readers of the cache see its title. -/
theorem failed_rename_seen :
    (renameAndClear.run owner noFaults settings).1 = true ∧
      settings.read ⟨1, .SHORTCUTS⟩ = some [⟨"a", "Work", "pinned"⟩] ∧
      (renameAndClear.run owner noFaults settings).2.read ⟨1, .SHORTCUTS⟩ =
        some [⟨"a", "Home", "pinned"⟩] ∧
      ¬ReadThrough.Alike settings (renameAndClear.run owner noFaults settings).2 := by
  have hbefore : settings.read ⟨1, .SHORTCUTS⟩ = some [⟨"a", "Work", "pinned"⟩] := by decide +kernel
  have hafter : (renameAndClear.run owner noFaults settings).2.read ⟨1, .SHORTCUTS⟩ =
      some [⟨"a", "Home", "pinned"⟩] := by decide +kernel
  refine ⟨by decide +kernel, hbefore, hafter, fun h => ?_⟩
  have hread := h.read ⟨1, .SHORTCUTS⟩
  rw [hbefore, hafter] at hread
  exact absurd hread (by decide)

end examples

end Memoark.Server.Shortcuts
