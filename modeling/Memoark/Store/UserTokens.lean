import Memoark.System.Runs

/-! The token lists of `store/user_setting.go`: each operation reads a stored list, changes its
copy and writes the whole list back, without a lock. -/
namespace Memoark.Store.UserTokens
open Memoark.System

inductive Key where
  | REFRESH_TOKENS | PERSONAL_ACCESS_TOKENS
  deriving DecidableEq

structure Token where
  TokenId : String
  LastUsedAt : Option Int
  deriving DecidableEq

inductive Operation where
  | AddUserRefreshToken (token : Token)
  | RemoveUserRefreshToken (tokenID : String)
  | AddUserPersonalAccessToken (token : Token)
  | RemoveUserPersonalAccessToken (tokenID : String)
  | UpdatePATLastUsed (tokenID : String) (lastUsed : Int)

def addToken (token : Token) (tokens : List Token) : List Token := tokens ++ [token]

def removeToken (tokenID : String) (existingTokens : List Token) : List Token :=
  existingTokens.filter fun token => token.TokenId ≠ tokenID

def updateLastUsed (tokenID : String) (lastUsed : Int) : List Token → List Token
  | [] => []
  | token :: tokens =>
    if token.TokenId = tokenID then { token with LastUsedAt := some lastUsed } :: tokens
    else token :: updateLastUsed tokenID lastUsed tokens

namespace Operation

def key : Operation → Key
  | AddUserRefreshToken _ => .REFRESH_TOKENS
  | RemoveUserRefreshToken _ => .REFRESH_TOKENS
  | AddUserPersonalAccessToken _ => .PERSONAL_ACCESS_TOKENS
  | RemoveUserPersonalAccessToken _ => .PERSONAL_ACCESS_TOKENS
  | UpdatePATLastUsed _ _ => .PERSONAL_ACCESS_TOKENS

def change : Operation → List Token → List Token
  | AddUserRefreshToken token => addToken token
  | RemoveUserRefreshToken tokenID => removeToken tokenID
  | AddUserPersonalAccessToken token => addToken token
  | RemoveUserPersonalAccessToken tokenID => removeToken tokenID
  | UpdatePATLastUsed tokenID lastUsed => updateLastUsed tokenID lastUsed

def decides : Operation → Option (String × Bool)
  | AddUserRefreshToken token => some (token.TokenId, true)
  | RemoveUserRefreshToken tokenID => some (tokenID, false)
  | AddUserPersonalAccessToken token => some (token.TokenId, true)
  | RemoveUserPersonalAccessToken tokenID => some (tokenID, false)
  | UpdatePATLastUsed _ _ => none

end Operation

inductive Call where
  | idle
  /-- After `GetUserSetting`, with the list it returned. -/
  | holding (operation : Operation) (tokens : List Token)

inductive Label where
  | getUserSetting (call : Nat) (operation : Operation)
  | upsertUserSetting (call : Nat)
  /-- A database error ends the operation. -/
  | fail (call : Nat)

structure State where
  settings : Key → Option (List Token)
  calls : Nat → Call
  /-- The operations that have returned without an error, the newest first. -/
  completed : List Operation

/-- `GetUserRefreshTokens` and `GetUserPersonalAccessTokens`: no tokens without a setting. -/
def State.tokens (s : State) (key : Key) : List Token := (s.settings key).getD []

/-- `UpsertUserSetting` with the changed list, and the end of the operation. -/
def State.upsert (s : State) (c : Nat) (operation : Operation) (tokens : List Token) : State where
  settings := update s.settings operation.key (some (operation.change tokens))
  calls := update s.calls c .idle
  completed := operation :: s.completed

theorem State.tokens_upsert_self (s : State) (c : Nat) (operation : Operation)
    (tokens : List Token) :
    (s.upsert c operation tokens).tokens operation.key = operation.change tokens := by
  simp only [State.tokens, State.upsert, update_self, Option.getD_some]

theorem State.tokens_upsert_of_ne (s : State) (c : Nat) {operation : Operation}
    (tokens : List Token) {key : Key} (h : key ≠ operation.key) :
    (s.upsert c operation tokens).tokens key = s.tokens key := by
  simp only [State.tokens, State.upsert, update_of_ne h]

def empty : State := ⟨fun _ => none, fun _ => .idle, []⟩

def step (s : State) : Label → Option State
  | .getUserSetting c operation =>
    match s.calls c with
    | .idle => some { s with calls := update s.calls c (.holding operation (s.tokens operation.key)) }
    | .holding _ _ => none
  | .upsertUserSetting c =>
    match s.calls c with
    | .holding operation tokens => some (s.upsert c operation tokens)
    | .idle => none
  | .fail c =>
    match s.calls c with
    | .holding _ _ => some { s with calls := update s.calls c .idle }
    | .idle => none

def system : LabelledSystem State Label := ⟨(· = empty), step⟩

def ids (tokens : List Token) : List String := tokens.map (·.TokenId)

def present (key : Key) (id : String) : List Operation → Bool
  | [] => false
  | operation :: earlier =>
    match operation.decides with
    | some (tokenID, added) =>
      if operation.key = key ∧ tokenID = id then added else present key id earlier
    | none => present key id earlier

/-- A token added and not removed is stored once, and no other token is stored. -/
def Kept (s : State) : Prop :=
  ∀ key id, (ids (s.tokens key)).count id = if present key id s.completed then 1 else 0

def Operation.New (tokens : List Token) : Operation → Prop
  | .AddUserRefreshToken token => token.TokenId ∉ ids tokens
  | .AddUserPersonalAccessToken token => token.TokenId ∉ ids tokens
  | _ => True

def Undisturbed (s : State) : Label → Prop
  | .upsertUserSetting c =>
    match s.calls c with
    | .holding operation tokens =>
      ids tokens = ids (s.tokens operation.key) ∧ operation.New (s.tokens operation.key)
    | .idle => True
  | _ => True

theorem ids_updateLastUsed (tokenID : String) (lastUsed : Int) (tokens : List Token) :
    ids (updateLastUsed tokenID lastUsed tokens) = ids tokens := by
  induction tokens with
  | nil => rfl
  | cons token tokens ih =>
    rw [updateLastUsed]
    split
    · rfl
    · exact congrArg (token.TokenId :: ·) ih

theorem ids_removeToken (tokenID : String) (tokens : List Token) :
    ids (removeToken tokenID tokens) = (ids tokens).filter fun id => id ≠ tokenID := by
  rw [ids, ids, removeToken, List.filter_map]
  rfl

theorem count_addToken {token : Token} {tokens : List Token} (id : String)
    (hnew : token.TokenId ∉ ids tokens) :
    (ids (addToken token tokens)).count id =
      if token.TokenId = id then 1 else (ids tokens).count id := by
  rw [ids, addToken, List.map_append, List.count_append]
  by_cases hid : token.TokenId = id
  · have hzero : (ids tokens).count id = 0 := List.count_eq_zero.mpr (hid ▸ hnew)
    rw [ids] at hzero
    rw [if_pos hid, hzero, hid.symm]
    simp
  · rw [if_neg hid, ids]
    simp [hid]

theorem count_removeToken (tokenID id : String) (tokens : List Token) :
    (ids (removeToken tokenID tokens)).count id =
      if tokenID = id then 0 else (ids tokens).count id := by
  rw [ids_removeToken]
  by_cases hid : tokenID = id
  · rw [if_pos hid, List.count_eq_zero]
    simp [hid]
  · have hne : id ≠ tokenID := fun h => hid h.symm
    rw [if_neg hid, List.count_filter (by simpa using hne)]

theorem count_change {operation : Operation} {tokens stored : List Token} (id : String)
    (hids : ids tokens = ids stored) (hnew : operation.New stored) :
    (ids (operation.change tokens)).count id =
      match operation.decides with
      | some (tokenID, added) =>
        if tokenID = id then (if added then 1 else 0) else (ids stored).count id
      | none => (ids stored).count id := by
  rw [← hids]
  cases operation with
  | AddUserRefreshToken token => exact count_addToken id (by rw [hids]; exact hnew)
  | AddUserPersonalAccessToken token => exact count_addToken id (by rw [hids]; exact hnew)
  | RemoveUserRefreshToken tokenID => exact count_removeToken tokenID id tokens
  | RemoveUserPersonalAccessToken tokenID => exact count_removeToken tokenID id tokens
  | UpdatePATLastUsed tokenID lastUsed =>
    exact congrArg (List.count id) (ids_updateLastUsed tokenID lastUsed tokens)

theorem Kept.upsert {s : State} {operation : Operation} {tokens : List Token} (h : Kept s)
    (c : Nat) (hids : ids tokens = ids (s.tokens operation.key))
    (hnew : operation.New (s.tokens operation.key)) : Kept (s.upsert c operation tokens) := by
  intro key id
  have hcount := h key id
  by_cases hkey : key = operation.key
  · subst hkey
    rw [s.tokens_upsert_self, count_change id hids hnew, hcount, State.upsert, present]
    cases operation.decides with
    | none => rfl
    | some decided => by_cases hid : decided.1 = id <;> simp [hid]
  · have hpresent : present key id (operation :: s.completed) = present key id s.completed := by
      rw [present]
      cases operation.decides with
      | none => rfl
      | some decided => exact if_neg fun h => hkey h.1.symm
    rw [s.tokens_upsert_of_ne c tokens hkey, hcount, State.upsert, hpresent]

theorem Kept.step {s s' : State} {l : Label} (h : Kept s) (hl : Undisturbed s l)
    (hs : step s l = some s') : Kept s' := by
  cases l with
  | getUserSetting c operation =>
    simp only [UserTokens.step] at hs
    split at hs <;> cases hs
    exact h
  | upsertUserSetting c =>
    simp only [UserTokens.step] at hs
    split at hs <;> cases hs
    rename_i hcall
    simp only [Undisturbed, hcall] at hl
    exact h.upsert c hl.1 hl.2
  | fail c =>
    simp only [UserTokens.step] at hs
    split at hs <;> cases hs
    exact h

/-- Along every run whose writes find the tokens that were read, no removal is undone and no
addition is lost. -/
theorem kept_of_undisturbed {s : State} (h : system.Reaches Undisturbed s) : Kept s := by
  refine h.invariant ?_ fun _ _ _ hk hl hs => hk.step hl hs
  rintro s rfl key id
  rfl

def secret : Token := ⟨"secret", none⟩

def useThenRemove : List Label :=
  [.getUserSetting 0 (.AddUserPersonalAccessToken secret), .upsertUserSetting 0,
    .getUserSetting 1 (.UpdatePATLastUsed "secret" 1), .upsertUserSetting 1,
    .getUserSetting 2 (.RemoveUserPersonalAccessToken "secret"), .upsertUserSetting 2]

/-- A token that is added, used and removed, one operation after the other. -/
theorem kept_useThenRemove : ∃ s, system.run empty useThenRemove = some s ∧ Kept s := by
  have hm : system.Meets Undisturbed empty useThenRemove :=
    ⟨trivial, ⟨rfl, by simp [Operation.New, ids, State.tokens, empty]⟩, trivial, ⟨rfl, trivial⟩,
      trivial, ⟨rfl, trivial⟩, trivial⟩
  exact ⟨_, rfl, kept_of_undisturbed (.run (.init rfl) hm rfl)⟩

/-- Call 1 reads the list to note that a token is used; call 2 removes the token and returns;
then call 1 writes back the list with the token. -/
theorem lastUsed_restores_removed_token :
    ∃ s, system.Reaches (fun _ _ => True) s ∧ (∀ c, s.calls c = .idle) ∧
      (ids (s.tokens .PERSONAL_ACCESS_TOKENS)).count "secret" = 1 ∧ ¬Kept s := by
  have hrun : ∃ s, system.run empty
      [.getUserSetting 0 (.AddUserPersonalAccessToken secret), .upsertUserSetting 0,
        .getUserSetting 1 (.UpdatePATLastUsed "secret" 1),
        .getUserSetting 2 (.RemoveUserPersonalAccessToken "secret"), .upsertUserSetting 2,
        .upsertUserSetting 1] = some s ∧ (∀ c, s.calls c = .idle) ∧
      (ids (s.tokens .PERSONAL_ACCESS_TOKENS)).count "secret" = 1 ∧
      present .PERSONAL_ACCESS_TOKENS "secret" s.completed = false := by
    refine ⟨_, rfl, ?_, by decide +kernel, by decide +kernel⟩
    exact fun | 0 => rfl | 1 => rfl | 2 => rfl | _ + 3 => rfl
  obtain ⟨s, hs, hidle, hstored, hremoved⟩ := hrun
  refine ⟨s, .run (.init rfl) (LabelledSystem.meets_true _ _) hs, hidle, hstored, fun h => ?_⟩
  have hkept := h .PERSONAL_ACCESS_TOKENS "secret"
  rw [hstored, hremoved] at hkept
  exact absurd hkept (by decide)

end Memoark.Store.UserTokens
