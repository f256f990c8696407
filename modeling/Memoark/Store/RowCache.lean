import Memoark.System.ReadThrough

/-! The rows of users and user settings behind the caches of `store/user.go` and
`store/user_setting.go`, with each operation split into its database and cache steps. -/
namespace Memoark.Store.RowCache
open Memoark.System Memoark.System.Version

/-- `userCacheKey` and `getUserSettingCacheKey`, each in its own cache. -/
inductive Key where
  | user (id : Nat)
  | setting (userID : Nat) (key : String)
  deriving DecidableEq

structure FindUserSetting where
  userID : Option Nat
  key : Option String

def FindUserSetting.selects (find : FindUserSetting) : Key → Bool
  | .user _ => false
  | .setting userID key => find.userID.all (· == userID) && find.key.all (· == key)

variable {α : Type}

abbrev Written (α : Type) := Key → Option (Version (Option α))

/-- A call in progress. A reader remembers, for each key, the newest version whose mutation had
returned when the reader started. -/
inductive Call (α : Type) where
  | idle
  /-- `GetUser` by id and `GetUserSetting`, which look into the cache. -/
  | getting (floor : Key → Version (Option α)) (key : Key)
  | listing (floor : Key → Version (Option α)) (key : Key)
  /-- `ListUsers` and `ListUserSettings`, or a getter that takes the first row of the list. -/
  | finding (floor : Key → Version (Option α)) (find : Key → α → Bool) (getter : Bool)
  /-- The rows that are still to be cached, and what the getter returns then. -/
  | filling (floor : Key → Version (Option α)) (rows : List (Key × Version α))
      (result : Option (Key × Version (Option α)))
  | yielded (floor : Key → Version (Option α)) (result : Option (Key × Version (Option α)))
  | updating (id : Nat) (change : α → α)
  | upserting (userID : Nat) (key : String) (value : α)
  | deletingUser (id : Nat)
  /-- `DeleteUserSettings`, which lists the settings, caches the list, and deletes. -/
  | listingSettings (find : FindUserSetting)
  | fillingSettings (find : FindUserSetting) (rows : List (Key × Version α)) (existing : List Key)
  /-- A row is written; the cache is next. -/
  | storing (key : Key) (version : Version α)
  /-- The entries that are still to be removed from the cache. -/
  | removing (keys : List Key) (written : Written α)

inductive Label (α : Type) where
  | startGet (call : Nat) (key : Key)
  | startFind (call : Nat) (find : Key → α → Bool) (getter : Bool)
  | startUpdateUser (call : Nat) (id : Nat) (change : α → α)
  | startUpsertUserSetting (call : Nat) (userID : Nat) (key : String) (value : α)
  | startDeleteUser (call : Nat) (id : Nat)
  | startDeleteUserSettings (call : Nat) (delete : FindUserSetting)
  | cacheGet (call : Nat)
  /-- With the keys of the rows that a list returns or a deletion deletes. -/
  | database (call : Nat) (keys : List Key)
  | cacheStep (call : Nat)
  | finish (call : Nat)
  /-- An error ends a call before its database step. -/
  | fail (call : Nat)
  /-- An entry expires, is evicted, or is between the delete and the store of a `Set`. -/
  | expire (key : Key)

structure State (α : Type) where
  db : Key → Version (Option α)
  cache : Key → Option (Version α)
  calls : Nat → Call α
  /-- The newest versions that their mutations have put into the cache or removed from it. -/
  installed : Key → Version (Option α)
  /-- The newest versions whose mutations have returned. -/
  acknowledged : Key → Version (Option α)

/-- Before the first call; what is cached is what is stored. -/
structure Init (s : State α) : Prop where
  cache : ∀ k v, s.cache k = some v → v.row = s.db k
  calls : ∀ c, s.calls c = .idle
  installed : s.installed = s.db
  acknowledged : s.acknowledged = s.db

def State.move (s : State α) (c : Nat) (call : Call α) : State α :=
  { s with calls := update s.calls c call }

def rowOf (db : Key → Version (Option α)) (k : Key) : Option (Key × Version α) :=
  (db k).value.map fun x => (k, ⟨(db k).number, x⟩)

def rowsOf (db : Key → Version (Option α)) (keys : List Key) : List (Key × Version α) :=
  keys.filterMap (rowOf db)

def asResult (r : Key × Version α) : Key × Version (Option α) := (r.1, r.2.row)

def deleteRows (keys : List Key) (db : Key → Version (Option α)) : Written α := fun k =>
  if k ∈ keys ∧ (db k).value.isSome then some ⟨(db k).number + 1, none⟩ else none

def overwrite (db : Key → Version (Option α)) (written : Written α) : Key → Version (Option α) :=
  fun k => (written k).getD (db k)

def single (k : Key) (v : Version (Option α)) : Written α := fun j => if j = k then some v else none

def Written.only (k : Key) (written : Written α) : Written α := fun j =>
  if j = k then written j else none

def newestOf (f : Key → Version (Option α)) (written : Written α) : Key → Version (Option α) :=
  fun k =>
    match written k with
    | some v => newest (f k) v
    | none => f k

def databaseStep (s : State α) (c : Nat) (keys : List Key) : Call α → Option (State α)
  | .listing floor key =>
    let rows := (rowOf s.db key).toList
    some (s.move c (.filling floor (rows ++ rows) (some (key, s.db key))))
  | .finding floor find getter =>
    let rows := rowsOf s.db keys
    let first := if getter then rows.head? else none
    if rows.all fun r => find r.1 r.2.value then
      some (s.move c (.filling floor (rows ++ first.toList) (first.map asResult)))
    else none
  | .updating id change =>
    match (s.db (.user id)).value with
    | some x =>
      let version := ⟨(s.db (.user id)).number + 1, change x⟩
      some { s with
        db := update s.db (.user id) version.row
        calls := update s.calls c (.storing (.user id) version) }
    | none => none
  | .upserting userID key value =>
    let version := ⟨(s.db (.setting userID key)).number + 1, value⟩
    some { s with
      db := update s.db (.setting userID key) version.row
      calls := update s.calls c (.storing (.setting userID key) version) }
  | .deletingUser id =>
    if keys.all (FindUserSetting.selects ⟨some id, none⟩) then
      let written := deleteRows (.user id :: keys) s.db
      some { s with
        db := overwrite s.db written
        calls := update s.calls c (.removing (.user id :: keys) written) }
    else none
  | .listingSettings find =>
    if keys.all find.selects then
      some (s.move c (.fillingSettings find (rowsOf s.db keys) ((rowsOf s.db keys).map (·.1))))
    else none
  | .fillingSettings find [] existing =>
    if keys.all find.selects then
      let written := deleteRows keys s.db
      some { s with
        db := overwrite s.db written
        calls := update s.calls c (.removing existing written) }
    else none
  | _ => none

def cacheStep (s : State α) (c : Nat) : Call α → Option (State α)
  | .filling floor (r :: rows) result =>
    some { s with
      cache := update s.cache r.1 (some r.2)
      calls := update s.calls c (.filling floor rows result) }
  | .fillingSettings find (r :: rows) existing =>
    some { s with
      cache := update s.cache r.1 (some r.2)
      calls := update s.calls c (.fillingSettings find rows existing) }
  | .storing key version =>
    some { s with
      cache := update s.cache key (some version)
      installed := newestOf s.installed (single key version.row)
      calls := update s.calls c (.removing [] (single key version.row)) }
  | .removing (key :: keys) written =>
    some { s with
      cache := update s.cache key none
      installed := newestOf s.installed (written.only key)
      calls := update s.calls c (.removing keys written) }
  | _ => none

def finishStep (s : State α) (c : Nat) : Call α → Option (State α)
  | .filling floor [] result => some (s.move c (.yielded floor result))
  | .removing [] written =>
    some { s with
      acknowledged := newestOf s.acknowledged written
      calls := update s.calls c .idle }
  | _ => none

def Call.canFail : Call α → Bool
  | .listing _ _ | .finding _ _ _ | .updating _ _ | .upserting _ _ _ | .deletingUser _ => true
  | .listingSettings _ | .fillingSettings _ [] _ => true
  | _ => false

def start (s : State α) (c : Nat) (call : Call α) : Option (State α) :=
  match s.calls c with
  | .idle => some (s.move c call)
  | _ => none

def step (s : State α) : Label α → Option (State α)
  | .startGet c key => start s c (.getting s.acknowledged key)
  | .startFind c find getter => start s c (.finding s.acknowledged find getter)
  | .startUpdateUser c id change => start s c (.updating id change)
  | .startUpsertUserSetting c userID key value => start s c (.upserting userID key value)
  | .startDeleteUser c id => start s c (.deletingUser id)
  | .startDeleteUserSettings c delete => start s c (.listingSettings delete)
  | .cacheGet c =>
    match s.calls c with
    | .getting floor key =>
      match s.cache key with
      | some version => some (s.move c (.filling floor [] (some (key, version.row))))
      | none => some (s.move c (.listing floor key))
    | _ => none
  | .database c keys => databaseStep s c keys (s.calls c)
  | .cacheStep c => cacheStep s c (s.calls c)
  | .finish c => finishStep s c (s.calls c)
  | .fail c => if (s.calls c).canFail then some (s.move c .idle) else none
  | .expire key => some { s with cache := update s.cache key none }

def system : LabelledSystem (State α) (Label α) := ⟨Init, step⟩

/-- A getter returns no version older than one whose mutation had returned when it started, and
no row that had been deleted. -/
def Coherent (s : State α) : Prop :=
  ∀ c floor key v, s.calls c = .yielded floor (some (key, v)) → AsNew (floor key) v

def Call.stores : Call α → Option (Key × Version α)
  | .filling _ (r :: _) _ => some r
  | .fillingSettings _ (r :: _) _ => some r
  | .storing key version => some (key, version)
  | _ => none

/-- No row is cached that is older than what a mutation has cached or removed, and
`DeleteUserSettings` deletes no row that it has not listed. -/
def Undelayed (s : State α) : Label α → Prop
  | .cacheStep c => ∀ r, (s.calls c).stores = some r → AsNew (s.installed r.1) r.2.row
  | .database c keys =>
    match s.calls c with
    | .fillingSettings _ [] existing => ∀ k ∈ keys, (s.db k).value.isSome → k ∈ existing
    | _ => True
  | _ => True

section lemmas

variable {f db : Key → Version (Option α)} {written : Written α}

theorem newestOf_le {g : Key → Version (Option α)} (hf : AllAsNew f g)
    (hw : ∀ k v, written k = some v → AsNew v (g k)) : AllAsNew (newestOf f written) g := by
  intro k
  unfold newestOf
  split
  · rename_i v hv
    exact (hf k).newest (hw k v hv)
  · exact hf k

theorem le_newestOf (f : Key → Version (Option α)) (written : Written α) :
    AllAsNew f (newestOf f written) := by
  intro k
  unfold newestOf
  split
  · exact asNew_newest_left _ _
  · exact .refl _

theorem written_le_newestOf {k : Key} {v : Version (Option α)} (h : written k = some v) :
    AsNew v (newestOf f written k) := by
  unfold newestOf
  rw [h]
  exact asNew_newest_right _ _

theorem deleteRows_spec {keys : List Key} {k : Key} {v : Version (Option α)}
    (h : deleteRows keys db k = some v) :
    k ∈ keys ∧ (db k).value.isSome ∧ v = ⟨(db k).number + 1, none⟩ := by
  obtain ⟨⟨hk, hsome⟩, hv⟩ := Option.ite_none_right_eq_some.mp h
  exact ⟨hk, hsome, (Option.some.inj hv).symm⟩

theorem le_overwrite_deleteRows (db : Key → Version (Option α)) (keys : List Key) :
    AllAsNew db (overwrite db (deleteRows keys db)) := by
  intro k
  unfold overwrite
  cases hw : deleteRows keys db k with
  | none => exact .refl _
  | some v =>
    obtain ⟨_, _, rfl⟩ := deleteRows_spec hw
    exact .next rfl

theorem overwrite_of_some {k : Key} {v : Version (Option α)} (h : written k = some v) :
    overwrite db written k = v := by rw [overwrite, h, Option.getD_some]

theorem single_spec {k j : Key} {v w : Version (Option α)} (h : single k v j = some w) :
    j = k ∧ w = v := by
  obtain ⟨hj, hw⟩ := Option.ite_none_right_eq_some.mp h
  exact ⟨hj, (Option.some.inj hw).symm⟩

theorem rowOf_spec {k : Key} {r : Key × Version α} (h : rowOf db k = some r) :
    r.1 = k ∧ r.2.row = db k := by
  obtain ⟨x, hx, rfl⟩ := Option.map_eq_some_iff.mp h
  exact ⟨rfl, by rw [Version.row, ← hx]⟩

theorem rowsOf_spec {keys : List Key} {r : Key × Version α} (h : r ∈ rowsOf db keys) :
    r.2.row = db r.1 := by
  obtain ⟨k, _, hr⟩ := List.mem_filterMap.mp h
  obtain ⟨hk, hrow⟩ := rowOf_spec hr
  rw [hk, hrow]

end lemmas

end Memoark.Store.RowCache
