import Mathlib.Data.List.Perm.Basic
import Memoark.Go.Sync
import Memoark.Server.Pagination
import Memoark.Server.UpdateMemo

/-! The statistics of `user_service_stats.go`: of one user, and of all users whose memos are seen. -/
namespace Memoark.Server
open Store

namespace Api

structure MemoTypeStats where
  linkCount : Int32
  codeCount : Int32
  todoCount : Int32
  undoCount : Int32

structure UserStats where
  name : String
  memoCreatedTimestamps : List Timestamp
  memoUpdatedTimestamps : List Timestamp
  memoTypeStats : MemoTypeStats
  tagCount : String → Option Int32
  pinnedMemos : List String
  totalMemoCount : Int32

structure UserStats.Agrees (a b : UserStats) : Prop where
  name : a.name = b.name
  memoCreatedTimestamps : a.memoCreatedTimestamps.Perm b.memoCreatedTimestamps
  memoUpdatedTimestamps : a.memoUpdatedTimestamps.Perm b.memoUpdatedTimestamps
  memoTypeStats : a.memoTypeStats = b.memoTypeStats
  tagCount : a.tagCount = b.tagCount
  pinnedMemos : a.pinnedMemos.Perm b.pinnedMemos
  totalMemoCount : a.totalMemoCount = b.totalMemoCount

end Api

section batches

def listBatches (db : Database) (find : FindMemo) (offset : Nat) : List (List Memo) :=
  let memos := db.listMemos { find with limit := some 1000, offset := some offset }
  if memos = [] then [] else memos :: listBatches db find (offset + 1000)
termination_by (db.listMemos find.unlimited).length - offset
decreasing_by
  rename_i hne
  have hlt : offset < (db.listMemos find.unlimited).length := by
    by_contra hle
    apply hne
    show db.listMemos { find with limit := some 1000, offset := some offset } = []
    rw [Database.listMemos_slice, List.drop_eq_nil_of_le (by omega)]
    rfl
  omega

def countTag (tagCount : String → Option Int32) (tag : String) : String → Option Int32 :=
  fun t => if t = tag then some ((tagCount tag).getD 0 + 1) else tagCount t

def statsName (username : String) : String := buildUserName username ++ "/stats"

def pinnedName (username : String) (memoID : Nat) : String :=
  buildUserName username ++ "/memos/" ++ toString memoID

end batches

section all

def emptyStats : Api.UserStats where
  name := ""
  memoCreatedTimestamps := []
  memoUpdatedTimestamps := []
  memoTypeStats := ⟨0, 0, 0, 0⟩
  tagCount := fun _ => none
  pinnedMemos := []
  totalMemoCount := 0

def countTypes (stats : Api.MemoTypeStats) : Option MemoPayload.Property → Api.MemoTypeStats
  | none => stats
  | some property =>
    { linkCount := if property.hasLink then stats.linkCount + 1 else stats.linkCount
      codeCount := if property.hasCode then stats.codeCount + 1 else stats.codeCount
      todoCount := if property.hasTaskList then stats.todoCount + 1 else stats.todoCount
      undoCount := if property.hasIncompleteTasks then stats.undoCount + 1 else stats.undoCount }

def countListed (stats : Api.UserStats) (memo : Memo) : Api.UserStats :=
  { stats with
    memoCreatedTimestamps := stats.memoCreatedTimestamps ++ [timestamp memo.createdTs]
    memoUpdatedTimestamps := stats.memoUpdatedTimestamps ++ [timestamp memo.updatedTs]
    totalMemoCount := stats.totalMemoCount + 1
    tagCount := memo.payload.tags.foldl countTag stats.tagCount
    memoTypeStats := countTypes stats.memoTypeStats memo.payload.property }

structure StatsMaps where
  userMemoStatMap : List (Nat × Api.UserStats)
  pinnedMemoIDsByUserID : Nat → List Nat

def withUser (stats : List (Nat × Api.UserStats)) (userID : Nat) : List (Nat × Api.UserStats) :=
  if userID ∈ stats.map (·.1) then stats else stats ++ [(userID, emptyStats)]

def gather (maps : StatsMaps) (memo : Memo) : StatsMaps where
  userMemoStatMap := (withUser maps.userMemoStatMap memo.creatorId).map fun entry =>
    if entry.1 = memo.creatorId then (entry.1, countListed entry.2 memo) else entry
  pinnedMemoIDsByUserID :=
    if memo.pinned then fun userID =>
      if userID = memo.creatorId then maps.pinnedMemoIDsByUserID userID ++ [memo.id]
      else maps.pinnedMemoIDsByUserID userID
    else maps.pinnedMemoIDsByUserID

structure ListAllUserStatsRequest where
  state : Api.State
  filter : String

def statsFilters (services : Services) (request : ListAllUserStatsRequest) :
    Except Status (List (MemoRecord → Bool)) :=
  if request.filter ≠ "" then
    ((services.compileFilter request.filter).mapError
      fun err => ⟨.InvalidArgument, "invalid filter: " ++ err⟩).map ([·])
  else .ok []

/-- The memos that are counted; `none` is an empty answer. -/
def findAllStats (services : Services) (db : Database) (userID : Nat)
    (request : ListAllUserStatsRequest) : Except Status (Option FindMemo) := do
  let currentUser ← currentUser db userID "failed to get user"
  let filters ← statsFilters services request
  let find : FindMemo :=
    { excludeComments := true
      excludeContent := true
      rowStatus := some (convertStateToStore request.state)
      filters }
  match request.state, currentUser with
  -- Archived memos are only visible to their creator.
  | .archived, none => .ok none
  | .archived, some user => .ok (some { find with creatorId := some user.id })
  | _, user => .ok (some (visibilityStep user find))

def listUsernamesByID (db : Database) (userIDs : List Nat) (userID : Nat) : Option String :=
  (listUsersByID db userIDs userID).map (·.username)

def nameStats (usernamesByID : Nat → Option String) (pinnedMemoIDsByUserID : Nat → List Nat)
    (entry : Nat × Api.UserStats) : Except Status Api.UserStats :=
  match usernamesByID entry.1 with
  | none => .error ⟨.Internal, "failed to resolve user stats name"⟩
  | some username =>
    .ok { entry.2 with
      name := statsName username
      pinnedMemos :=
        entry.2.pinnedMemos ++ (pinnedMemoIDsByUserID entry.1).map (pinnedName username) }

def gatherAll (batches : List (List Memo)) : StatsMaps :=
  batches.foldl (fun maps memos => memos.foldl gather maps) ⟨[], fun _ => []⟩

def listAllUserStats (range : Go.RangeOrder (Nat × Api.UserStats)) (services : Services)
    (db : Database) (userID : Nat) (request : ListAllUserStatsRequest) :
    Except Status (List Api.UserStats) := do
  match ← findAllStats services db userID request with
  | none => .ok []
  | some find =>
    let maps := gatherAll (listBatches db find 0)
    let entries := range.arrange maps.userMemoStatMap
    entries.mapM (nameStats (listUsernamesByID db (entries.map (·.1))) maps.pinnedMemoIDsByUserID)

end all

section single

structure Counts where
  createdTimestamps : List Api.Timestamp := []
  updatedTimestamps : List Api.Timestamp := []
  tagCount : String → Option Int32 := fun _ => none
  linkCount : Int32 := 0
  codeCount : Int32 := 0
  todoCount : Int32 := 0
  undoCount : Int32 := 0
  pinnedMemos : List String := []
  totalMemoCount : Int32 := 0

def countProperty (counts : Counts) : Option MemoPayload.Property → Counts
  | none => counts
  | some property =>
    { counts with
      linkCount := if property.hasLink then counts.linkCount + 1 else counts.linkCount
      codeCount := if property.hasCode then counts.codeCount + 1 else counts.codeCount
      todoCount := if property.hasTaskList then counts.todoCount + 1 else counts.todoCount
      undoCount := if property.hasIncompleteTasks then counts.undoCount + 1
        else counts.undoCount }

def countMemo (username : String) (counts : Counts) (memo : Memo) : Counts :=
  let counts := countProperty
    { counts with
      createdTimestamps := counts.createdTimestamps ++ [timestamp memo.createdTs]
      updatedTimestamps := counts.updatedTimestamps ++ [timestamp memo.updatedTs]
      tagCount := memo.payload.tags.foldl countTag counts.tagCount }
    memo.payload.property
  if memo.pinned then
    { counts with pinnedMemos := counts.pinnedMemos ++ [pinnedName username memo.id] }
  else counts

def countBatch (username : String) (counts : Counts) (memos : List Memo) : Counts :=
  memos.foldl (countMemo username)
    { counts with totalMemoCount := counts.totalMemoCount + Int32.ofNat memos.length }

def resolveUserByName (db : Database) (name : String) : Except String (Option UserRecord) :=
  (getNameParentToken name "users/").map fun username => db.users.find? (·.username = username)

def findUserStats (userID : Nat) (currentUser : Option UserRecord) : FindMemo where
  creatorId := some userID
  excludeComments := true
  excludeContent := true
  rowStatus := some .normal
  visibilityList :=
    match currentUser with
    | none => [.Public]
    | some user => if user.id ≠ userID then [.Public, .Protected] else []

def getUserStats (db : Database) (userID : Nat) (name : String) : Except Status Api.UserStats := do
  let found ← (resolveUserByName db name).mapError
    fun err => ⟨.InvalidArgument, "invalid user name: " ++ err⟩
  match found with
  | none => .error ⟨.NotFound, "user not found"⟩
  | some user =>
    let currentUser ← currentUser db userID "failed to get user"
    let counts := (listBatches db (findUserStats user.id currentUser) 0).foldl
      (countBatch user.username) {}
    .ok {
      name := statsName user.username
      memoCreatedTimestamps := counts.createdTimestamps
      memoUpdatedTimestamps := counts.updatedTimestamps
      tagCount := counts.tagCount
      pinnedMemos := counts.pinnedMemos
      totalMemoCount := counts.totalMemoCount
      memoTypeStats := ⟨counts.linkCount, counts.codeCount, counts.todoCount, counts.undoCount⟩ }

end single

section counted

variable {username : String} {memos memos' : List Memo} {memo : Memo}

def tally (tags : List String) (tag : String) : Option Int32 :=
  if tag ∈ tags then some (Int32.ofNat (tags.count tag)) else none

def countWhere (p : MemoPayload.Property → Bool) (memos : List Memo) : Int32 :=
  Int32.ofNat (memos.countP fun memo => memo.payload.property.any p)

def typesOf (memos : List Memo) : Api.MemoTypeStats where
  linkCount := countWhere (·.hasLink) memos
  codeCount := countWhere (·.hasCode) memos
  todoCount := countWhere (·.hasTaskList) memos
  undoCount := countWhere (·.hasIncompleteTasks) memos

def pinnedIDs (memos : List Memo) : List Nat := (memos.filter (·.pinned)).map (·.id)

def statsOf (username : String) (memos : List Memo) : Api.UserStats where
  name := statsName username
  memoCreatedTimestamps := memos.map (timestamp ·.createdTs)
  memoUpdatedTimestamps := memos.map (timestamp ·.updatedTs)
  memoTypeStats := typesOf memos
  tagCount := tally (memos.flatMap (·.payload.tags))
  pinnedMemos := (pinnedIDs memos).map (pinnedName username)
  totalMemoCount := Int32.ofNat memos.length

theorem statsOf_agrees (username : String) (h : memos.Perm memos') :
    (statsOf username memos).Agrees (statsOf username memos') := by
  have htags := h.flatMap_right (·.payload.tags)
  have hwhere : ∀ p, countWhere p memos = countWhere p memos' := by
    intro p
    unfold countWhere
    rw [h.countP_eq]
  constructor
  · rfl
  · exact h.map _
  · exact h.map _
  · have htypes : typesOf memos = typesOf memos' := by
      unfold typesOf
      simp only [hwhere]
    exact htypes
  · have htally : tally (memos.flatMap (·.payload.tags)) =
        tally (memos'.flatMap (·.payload.tags)) := by
      funext tag
      unfold tally
      rw [htags.count_eq]
      simp only [htags.mem_iff]
    exact htally
  · exact ((h.filter _).map _).map _
  · have hlength : Int32.ofNat memos.length = Int32.ofNat memos'.length := by rw [h.length_eq]
    exact hlength

theorem countTag_tally (tags : List String) (tag : String) :
    countTag (tally tags) tag = tally (tags ++ [tag]) := by
  have hget : (tally tags tag).getD 0 = Int32.ofNat (tags.count tag) := by
    unfold tally
    split
    · rfl
    · rename_i hmem
      rw [List.count_eq_zero_of_not_mem hmem]
      rfl
  funext t
  unfold countTag
  rw [hget]
  by_cases ht : t = tag
  · subst ht
    have hmem : t ∈ tags ++ [t] := by simp
    have hcount : (tags ++ [t]).count t = tags.count t + 1 := by simp
    rw [if_pos rfl, tally, if_pos hmem, hcount, Int32.ofNat_add]
    rfl
  · rw [if_neg ht]
    unfold tally
    simp [ht, List.count_append, Ne.symm ht]

theorem foldl_countTag (tags tags' : List String) :
    tags'.foldl countTag (tally tags) = tally (tags ++ tags') := by
  induction tags' generalizing tags with
  | nil => rw [List.append_nil, List.foldl_nil]
  | cons tag tags' ih =>
    rw [List.foldl_cons, countTag_tally, ih, List.append_assoc, List.singleton_append]

theorem countWhere_snoc (p : MemoPayload.Property → Bool) (memos : List Memo) (memo : Memo) :
    countWhere p (memos ++ [memo]) =
      if memo.payload.property.any p then countWhere p memos + 1 else countWhere p memos := by
  unfold countWhere
  rw [List.countP_append, List.countP_singleton]
  split
  · rw [Int32.ofNat_add]
    rfl
  · rw [Nat.add_zero]

def listedOf (memos : List Memo) : Api.UserStats :=
  { statsOf "" memos with name := "", pinnedMemos := [] }

theorem countTypes_typesOf (memos : List Memo) (memo : Memo) :
    countTypes (typesOf memos) memo.payload.property = typesOf (memos ++ [memo]) := by
  unfold typesOf
  simp only [countWhere_snoc]
  cases memo.payload.property with
  | none => rfl
  | some property => rfl

theorem countListed_listedOf (memos : List Memo) (memo : Memo) :
    countListed (listedOf memos) memo = listedOf (memos ++ [memo]) := by
  have htypes := countTypes_typesOf memos memo
  have htags := foldl_countTag (memos.flatMap (·.payload.tags)) memo.payload.tags
  have htotal : Int32.ofNat (memos ++ [memo]).length = Int32.ofNat memos.length + 1 := by
    rw [List.length_append, Int32.ofNat_add]
    rfl
  simp only [listedOf, statsOf, countListed, htypes, htags, htotal, List.map_append,
    List.map_singleton, List.flatMap_append, List.flatMap_singleton]

def countsOf (username : String) (total : Int32) (memos : List Memo) : Counts where
  createdTimestamps := memos.map (timestamp ·.createdTs)
  updatedTimestamps := memos.map (timestamp ·.updatedTs)
  tagCount := tally (memos.flatMap (·.payload.tags))
  linkCount := countWhere (·.hasLink) memos
  codeCount := countWhere (·.hasCode) memos
  todoCount := countWhere (·.hasTaskList) memos
  undoCount := countWhere (·.hasIncompleteTasks) memos
  pinnedMemos := (pinnedIDs memos).map (pinnedName username)
  totalMemoCount := total

theorem pinnedIDs_snoc (memos : List Memo) (memo : Memo) :
    pinnedIDs (memos ++ [memo]) = if memo.pinned then pinnedIDs memos ++ [memo.id]
      else pinnedIDs memos := by
  unfold pinnedIDs
  cases hpinned : memo.pinned <;> simp [hpinned]

theorem countMemo_countsOf (total : Int32) (memos : List Memo) (memo : Memo) :
    countMemo username (countsOf username total memos) memo =
      countsOf username total (memos ++ [memo]) := by
  have htags := foldl_countTag (memos.flatMap (·.payload.tags)) memo.payload.tags
  simp only [countMemo, countsOf, htags, countWhere_snoc, pinnedIDs_snoc, List.map_append,
    List.map_singleton, List.flatMap_append, List.flatMap_singleton]
  cases memo.payload.property with
  | none => cases memo.pinned <;> simp [countProperty]
  | some property => cases memo.pinned <;> simp [countProperty]

theorem foldl_countMemo (total : Int32) (memos memos' : List Memo) :
    memos'.foldl (countMemo username) (countsOf username total memos) =
      countsOf username total (memos ++ memos') := by
  induction memos' generalizing memos with
  | nil => rw [List.append_nil, List.foldl_nil]
  | cons memo memos' ih =>
    rw [List.foldl_cons, countMemo_countsOf, ih, List.append_assoc, List.singleton_append]

theorem foldl_countBatch (batches : List (List Memo)) (memos : List Memo) :
    batches.foldl (countBatch username) (countsOf username (Int32.ofNat memos.length) memos) =
      countsOf username (Int32.ofNat (memos ++ batches.flatten).length)
        (memos ++ batches.flatten) := by
  induction batches generalizing memos with
  | nil => rw [List.flatten_nil, List.append_nil, List.foldl_nil]
  | cons batch batches ih =>
    have hbatch : countBatch username (countsOf username (Int32.ofNat memos.length) memos) batch =
        countsOf username (Int32.ofNat (memos ++ batch).length) (memos ++ batch) := by
      rw [List.length_append, Int32.ofNat_add]
      exact foldl_countMemo _ memos batch
    rw [List.foldl_cons, hbatch, ih, List.flatten_cons, List.append_assoc]

end counted

section gathered

variable {memos : List Memo} {maps : StatsMaps}

def memosOf (memos : List Memo) (userID : Nat) : List Memo :=
  memos.filter (·.creatorId = userID)

structure Gathered (memos : List Memo) (maps : StatsMaps) : Prop where
  nodup : (maps.userMemoStatMap.map (·.1)).Nodup
  users : ∀ userID, userID ∈ maps.userMemoStatMap.map (·.1) ↔ memosOf memos userID ≠ []
  stats : ∀ entry ∈ maps.userMemoStatMap, entry.2 = listedOf (memosOf memos entry.1)
  pinned : ∀ userID, maps.pinnedMemoIDsByUserID userID = pinnedIDs (memosOf memos userID)

theorem memosOf_snoc (memos : List Memo) (memo : Memo) (userID : Nat) :
    memosOf (memos ++ [memo]) userID =
      if userID = memo.creatorId then memosOf memos userID ++ [memo] else memosOf memos userID := by
  unfold memosOf
  by_cases h : userID = memo.creatorId
  · simp [h]
  · simp [h, Ne.symm h]

theorem withUser_keys (stats : List (Nat × Api.UserStats)) (userID : Nat) :
    (withUser stats userID).map (·.1) =
      if userID ∈ stats.map (·.1) then stats.map (·.1) else stats.map (·.1) ++ [userID] := by
  unfold withUser
  split
  · rfl
  · simp

theorem Gathered.step (h : Gathered memos maps) (memo : Memo) :
    Gathered (memos ++ [memo]) (gather maps memo) := by
  have hkeys : (gather maps memo).userMemoStatMap.map (·.1) =
      (withUser maps.userMemoStatMap memo.creatorId).map (·.1) := by
    simp only [gather, List.map_map]
    apply List.map_congr_left
    intro entry _
    simp only [Function.comp_apply]
    split <;> rfl
  -- A user that is new has no memos so far.
  have hentry : ∀ entry ∈ withUser maps.userMemoStatMap memo.creatorId,
      entry.2 = listedOf (memosOf memos entry.1) := by
    intro entry hmem
    unfold withUser at hmem
    split at hmem
    · exact h.stats entry hmem
    · rename_i hnew
      rcases List.mem_append.mp hmem with hmem | hmem
      · exact h.stats entry hmem
      · obtain rfl := List.mem_singleton.mp hmem
        have hnone : memosOf memos memo.creatorId = [] := by
          by_contra hne
          exact hnew ((h.users _).mpr hne)
        rw [hnone]
        rfl
  constructor
  · rw [hkeys, withUser_keys]
    split
    · exact h.nodup
    · rename_i hnew
      exact List.nodup_append.mpr ⟨h.nodup, List.nodup_singleton _, by
        intro a ha b hb hab
        rw [List.mem_singleton] at hb
        exact hnew (hb ▸ hab ▸ ha)⟩
  · intro userID
    rw [hkeys, withUser_keys, memosOf_snoc]
    have husers := h.users userID
    by_cases hid : userID = memo.creatorId
    · subst hid
      simp only [if_true]
      split <;> simp_all
    · rw [if_neg hid]
      split
      · exact husers
      · simp only [List.mem_append, List.mem_singleton, hid, or_false]
        exact husers
  · intro entry hmem
    obtain ⟨entry', hmem', rfl⟩ := List.mem_map.mp hmem
    have hstats := hentry entry' hmem'
    rw [memosOf_snoc]
    by_cases hid : entry'.1 = memo.creatorId
    · rw [if_pos hid, if_pos hid, hstats, countListed_listedOf]
    · rw [if_neg hid, if_neg hid]
      exact hstats
  · intro userID
    have hpinned := h.pinned userID
    rw [memosOf_snoc]
    unfold gather
    dsimp only
    by_cases hid : userID = memo.creatorId
    · rw [if_pos hid, pinnedIDs_snoc, ← hpinned]
      split
      · exact if_pos hid
      · rfl
    · rw [if_neg hid, ← hpinned]
      split
      · exact if_neg hid
      · rfl

theorem Gathered.run (h : Gathered memos maps) (memos' : List Memo) :
    Gathered (memos ++ memos') (memos'.foldl gather maps) := by
  induction memos' generalizing memos maps with
  | nil =>
    rw [List.append_nil]
    exact h
  | cons memo memos' ih =>
    rw [List.foldl_cons, List.append_cons]
    exact ih (h.step memo)

theorem gatherAll_gathered (batches : List (List Memo)) :
    Gathered batches.flatten (gatherAll batches) := by
  have hempty : Gathered [] ⟨[], fun _ => []⟩ := by
    constructor
    · exact List.nodup_nil
    · intro userID
      simp [memosOf]
    · intro entry hmem
      cases hmem
    · intro userID
      rfl
  unfold gatherAll
  rw [← List.foldl_flatten]
  exact hempty.run batches.flatten

end gathered

section listings

variable {services : Services} {db : Database} {find : FindMemo} {viewer : Option UserRecord}
  {u : UserRecord} {row : MemoRecord}

theorem listBatches_flatten (db : Database) (find : FindMemo) (offset : Nat) :
    (listBatches db find offset).flatten = (db.listMemos find.unlimited).drop offset := by
  induction offset using listBatches.induct db find with
  | case1 offset memos hempty =>
    have hnil : ((db.listMemos find.unlimited).drop offset).take 1000 = [] := by
      rw [← Database.listMemos_slice]
      exact hempty
    rw [listBatches, if_pos hempty, List.flatten_nil]
    rcases List.take_eq_nil_iff.mp hnil with hzero | hnil
    · cases hzero
    · exact hnil.symm
  | case2 offset memos hne ih =>
    rw [listBatches, if_neg hne, List.flatten_cons, ih, Database.listMemos_slice, ← List.drop_drop,
      List.take_append_drop]

structure Shown (db : Database) (viewer : Option UserRecord) (row : MemoRecord) : Prop where
  normal : row.rowStatus = .normal
  topLevel : none ∈ db.parents row
  visible : VisibleTo viewer row

def findAll (viewer : Option UserRecord) : FindMemo :=
  visibilityStep viewer
    { excludeComments := true, excludeContent := true, rowStatus := some .normal }

theorem findAllStats_normal {userID : Nat} (hviewer : fetchCurrentUser db userID = .ok viewer) :
    findAllStats services db userID ⟨.normal, ""⟩ = .ok (some (findAll viewer)) := by
  rw [findAllStats, currentUser, hviewer]
  rfl

theorem findAll_shape (viewer : Option UserRecord) :
    (findAll viewer).excludeComments = true ∧ (findAll viewer).excludeContent = true := by
  cases viewer with
  | none => exact ⟨rfl, rfl⟩
  | some user => exact ⟨rfl, rfl⟩

theorem findAll_matchesRow (viewer : Option UserRecord) (row : MemoRecord) :
    (findAll viewer).matchesRow row = true ↔ row.rowStatus = .normal ∧ VisibleTo viewer row := by
  cases viewer with
  | none =>
    cases hrow : row.rowStatus <;>
      simp [findAll, VisibleTo, visibilityStep, FindMemo.matchesRow, asked, askedIn, hrow]
  | some user =>
    cases hrow : row.rowStatus <;> cases hvisibility : row.visibility <;>
      simp [findAll, VisibleTo, visibilityStep, FindMemo.matchesRow, asked, askedIn, relationFilter,
        hrow, hvisibility]

theorem findUserStats_matchesRow (userID : Nat) (viewer : Option UserRecord) (row : MemoRecord) :
    (findUserStats userID viewer).matchesRow row =
      (decide (row.creatorId = userID) && (findAll viewer).matchesRow row) := by
  rw [Bool.eq_iff_iff, Bool.and_eq_true, findAll_matchesRow, decide_eq_true_eq]
  by_cases hcreator : row.creatorId = userID
  · subst hcreator
    cases viewer with
    | none =>
      cases hrow : row.rowStatus <;>
        simp [findUserStats, VisibleTo, FindMemo.matchesRow, asked, askedIn, hrow]
    | some user =>
      by_cases hid : user.id = row.creatorId
      · cases hrow : row.rowStatus <;>
          simp [findUserStats, VisibleTo, FindMemo.matchesRow, asked, askedIn, hrow, hid]
      · have hother : row.creatorId ≠ user.id := Ne.symm hid
        cases hrow : row.rowStatus <;> cases hvisibility : row.visibility <;>
          simp [findUserStats, VisibleTo, FindMemo.matchesRow, asked, askedIn, hrow, hvisibility,
            hid, hother]
  · have hother : userID ≠ row.creatorId := Ne.symm hcreator
    simp [findUserStats, FindMemo.matchesRow, asked, hcreator, hother]

theorem filter_flatMap_key {α β : Type} {f : α → List β} {p : β → Bool} {q : α → Bool}
    (rows : List α) (h : ∀ row, ∀ b ∈ f row, p b = q row) :
    (rows.flatMap f).filter p = (rows.filter q).flatMap f := by
  induction rows with
  | nil => rfl
  | cons row rows ih =>
    have hrow := h row
    rw [List.flatMap_cons, List.filter_append, ih, List.filter_cons]
    cases hq : q row with
    | true =>
      have hall : (f row).filter p = f row := by
        apply List.filter_eq_self.mpr
        intro b hb
        rw [hrow b hb, hq]
      rw [hall, if_pos rfl, List.flatMap_cons]
    | false =>
      have hnone : (f row).filter p = [] := by
        apply List.filter_eq_nil_iff.mpr
        intro b hb
        rw [hrow b hb, hq]
        exact Bool.false_ne_true
      rw [hnone, if_neg Bool.false_ne_true, List.nil_append]

theorem rows_findUserStats (db : Database) (userID : Nat) (viewer : Option UserRecord) :
    memosOf (db.rows (findAll viewer)) userID = db.rows (findUserStats userID viewer) := by
  have hparent : (findAll viewer).matchesParent = (findUserStats userID viewer).matchesParent := by
    funext parent
    unfold FindMemo.matchesParent
    rw [(findAll_shape viewer).1]
    rfl
  unfold memosOf Database.rows
  rw [filter_flatMap_key (q := fun row => row.creatorId = userID), List.filter_filter, hparent]
  · congr 1
    apply List.filter_congr
    intro row _
    rw [findUserStats_matchesRow]
  · intro row memo hmemo
    obtain ⟨parent, -, rfl⟩ := List.mem_map.mp hmemo
    rfl

theorem memosOf_perm (db : Database) (userID : Nat) (viewer : Option UserRecord) :
    (db.listMemos (findUserStats userID viewer).unlimited).Perm
      (memosOf (db.listMemos (findAll viewer).unlimited) userID) := by
  have hselected : (findAll viewer).selected = (findUserStats userID viewer).selected := by
    funext memo
    unfold FindMemo.selected
    rw [(findAll_shape viewer).2]
    rfl
  have hcreator : ((fun memo : Memo => decide (memo.creatorId = userID)) ∘
      (findUserStats userID viewer).selected) = fun memo => decide (memo.creatorId = userID) := rfl
  have hall := (Database.answers_listMemos db (findAll viewer)).perm.filter
    fun memo => memo.creatorId = userID
  have hone := (Database.answers_listMemos db (findUserStats userID viewer)).perm
  rw [List.filter_map, hselected, hcreator] at hall
  have hrows := rows_findUserStats db userID viewer
  unfold memosOf at hrows
  rw [hrows] at hall
  exact hone.trans hall.symm

theorem memosOf_ne_nil (hrow : row ∈ db.memos) (h : Shown db viewer row) :
    memosOf (db.listMemos (findAll viewer).unlimited) row.creatorId ≠ [] := by
  have hmatches : (findAll viewer).unlimited.matchesRow row = true :=
    (findAll_matchesRow viewer row).mpr ⟨h.normal, h.visible⟩
  have hparent : (findAll viewer).unlimited.matchesParent none = true := by
    simp [FindMemo.matchesParent]
  have hmem := @Database.mem_listMemos_of_row db (findAll viewer).unlimited rfl row hrow hmatches none
    h.topLevel hparent
  have hcreator : ((findAll viewer).unlimited.selected (row.withParent none)).creatorId =
      row.creatorId := by
    unfold FindMemo.selected
    split <;> rfl
  exact List.ne_nil_of_mem (List.mem_filter.mpr ⟨hmem, decide_eq_true hcreator⟩)

theorem exists_shown {userID : Nat}
    (h : memosOf (db.listMemos (findAll viewer).unlimited) userID ≠ []) :
    ∃ row ∈ db.memos, Shown db viewer row ∧ row.creatorId = userID := by
  obtain ⟨memo, hmemo⟩ := List.exists_mem_of_ne_nil _ h
  obtain ⟨hmemo, hcreator⟩ := List.mem_filter.mp hmemo
  obtain ⟨row, hrow, hmatches, parent, hparent, hnone, rfl⟩ := Database.exists_of_mem_listMemos hmemo
  obtain ⟨hnormal, hvisible⟩ := (findAll_matchesRow viewer row).mp hmatches
  have hparentNone : parent = none := by
    simpa [FindMemo.matchesParent, FindMemo.unlimited, (findAll_shape viewer).1] using hnone
  subst hparentNone
  refine ⟨row, hrow, ⟨hnormal, hparent, hvisible⟩, ?_⟩
  have hid := of_decide_eq_true hcreator
  unfold FindMemo.selected at hid
  split at hid <;> exact hid

end listings

section agreement

variable {range : Go.RangeOrder (Nat × Api.UserStats)} {services : Services} {db : Database}
  {userID : Nat} {name : String} {viewer : Option UserRecord} {u : UserRecord}

theorem statsName_inj {a b : String} (h : statsName a = statsName b) : a = b := by
  unfold statsName buildUserName at h
  have hlist := congrArg String.toList h
  simp only [String.toList_append] at hlist
  exact String.toList_inj.mp
    (List.append_cancel_left (List.append_cancel_right hlist))

theorem getUserStats_eq (hviewer : fetchCurrentUser db userID = .ok viewer)
    (hname : resolveUserByName db name = .ok (some u)) :
    getUserStats db userID name =
      .ok (statsOf u.username (db.listMemos (findUserStats u.id viewer).unlimited)) := by
  have hcounts := @foldl_countBatch u.username (listBatches db (findUserStats u.id viewer) 0) []
  have hempty : countsOf u.username (Int32.ofNat ([] : List Memo).length) [] = {} := rfl
  rw [hempty, List.nil_append, listBatches_flatten, List.drop_zero] at hcounts
  rw [getUserStats, hname, currentUser, hviewer]
  simp only [Except.mapError, bind, Except.bind, hcounts]
  rfl

theorem resolveUserByName_mem (hname : resolveUserByName db name = .ok (some u)) :
    u ∈ db.users := by
  obtain ⟨username, -, hfind⟩ := Program.map_ok hname
  exact List.mem_of_find?_eq_some hfind

theorem gathered_all (db : Database) (viewer : Option UserRecord) :
    Gathered (db.listMemos (findAll viewer).unlimited)
      (gatherAll (listBatches db (findAll viewer) 0)) := by
  have hgathered := gatherAll_gathered (listBatches db (findAll viewer) 0)
  rw [listBatches_flatten, List.drop_zero] at hgathered
  exact hgathered

theorem nameStats_ok_iff {memos : List Memo} {maps : StatsMaps} (h : Gathered memos maps)
    {entries : List (Nat × Api.UserStats)} (hperm : entries.Perm maps.userMemoStatMap)
    {entry : Nat × Api.UserStats} (hentry : entry ∈ entries) (stats : Api.UserStats) :
    nameStats (listUsernamesByID db (entries.map (·.1))) maps.pinnedMemoIDsByUserID entry =
        .ok stats ↔
      ∃ creator, db.getUser entry.1 = some creator ∧
        stats = statsOf creator.username (memosOf memos entry.1) := by
  have hstats := h.stats entry (hperm.subset hentry)
  have hpinned := h.pinned entry.1
  have huser : listUsernamesByID db (entries.map (·.1)) entry.1 =
      (db.getUser entry.1).map (·.username) := by
    unfold listUsernamesByID
    rw [listUsersByID_of_mem (List.mem_map_of_mem hentry)]
  unfold nameStats
  rw [huser, hstats, hpinned]
  cases db.getUser entry.1 with
  | none => simp
  | some creator =>
    have hnamed : ({ listedOf (memosOf memos entry.1) with
        name := statsName creator.username
        pinnedMemos := (listedOf (memosOf memos entry.1)).pinnedMemos ++
          (pinnedIDs (memosOf memos entry.1)).map (pinnedName creator.username) } :
            Api.UserStats) = statsOf creator.username (memosOf memos entry.1) := rfl
    simp [hnamed, eq_comm]

theorem listAllUserStats_eq (hviewer : fetchCurrentUser db userID = .ok viewer) :
    ∃ (maps : StatsMaps) (entries : List (Nat × Api.UserStats)),
      Gathered (db.listMemos (findAll viewer).unlimited) maps ∧
      entries.Perm maps.userMemoStatMap ∧
      listAllUserStats range services db userID ⟨.normal, ""⟩ = entries.mapM
        (nameStats (listUsernamesByID db (entries.map (·.1))) maps.pinnedMemoIDsByUserID) := by
  refine ⟨_, _, gathered_all db viewer, range.perm _, ?_⟩
  rw [listAllUserStats, findAllStats_normal hviewer]
  rfl

theorem listAllUserStats_ok_iff (hviewer : fetchCurrentUser db userID = .ok viewer) :
    (∃ response, listAllUserStats range services db userID ⟨.normal, ""⟩ = .ok response) ↔
      ∀ row ∈ db.memos, Shown db viewer row → ∃ creator, db.getUser row.creatorId = some creator := by
  obtain ⟨maps, entries, hgathered, hperm, hall⟩ :=
    @listAllUserStats_eq range services db userID viewer hviewer
  have hkeys := hperm.map (·.1)
  rw [hall]
  constructor
  · rintro ⟨response, hresponse⟩ row hrow hshown
    have hkey := (hgathered.users row.creatorId).mpr (memosOf_ne_nil hrow hshown)
    obtain ⟨entry, hentry, hid⟩ := List.mem_map.mp (hkeys.mem_iff.mpr hkey)
    obtain ⟨stats, -, hstats⟩ := Program.ok_of_mapM_ok hresponse entry hentry
    obtain ⟨creator, hcreator, -⟩ := (nameStats_ok_iff hgathered hperm hentry stats).mp hstats
    rw [hid] at hcreator
    exact ⟨creator, hcreator⟩
  · intro hcreators
    apply Program.exists_mapM_ok
    intro entry hentry
    have hkey := hkeys.mem_iff.mp (List.mem_map_of_mem hentry)
    obtain ⟨row, hrow, hshown, hid⟩ := exists_shown ((hgathered.users _).mp hkey)
    obtain ⟨creator, hcreator⟩ := hcreators row hrow hshown
    rw [hid] at hcreator
    exact ⟨_, (nameStats_ok_iff hgathered hperm hentry _).mpr ⟨creator, hcreator, rfl⟩⟩

theorem listAllUserStats_filter (hids : (db.users.map (·.id)).Nodup)
    (husernames : (db.users.map (·.username)).Nodup) (hu : u ∈ db.users)
    (hviewer : fetchCurrentUser db userID = .ok viewer) {response : List Api.UserStats}
    (h : listAllUserStats range services db userID ⟨.normal, ""⟩ = .ok response) :
    ∃ (maps : StatsMaps) (entries : List (Nat × Api.UserStats)),
      Gathered (db.listMemos (findAll viewer).unlimited) maps ∧
      entries.Perm maps.userMemoStatMap ∧
      (entries.filter (·.1 = u.id)).mapM
          (nameStats (listUsernamesByID db (entries.map (·.1))) maps.pinnedMemoIDsByUserID) =
        .ok (response.filter (·.name = statsName u.username)) := by
  obtain ⟨maps, entries, hgathered, hperm, hall⟩ :=
    @listAllUserStats_eq range services db userID viewer hviewer
  rw [hall] at h
  refine ⟨maps, entries, hgathered, hperm, Program.filter_of_mapM_ok h ?_⟩
  intro entry hentry stats hstats
  obtain ⟨creator, hcreator, rfl⟩ := (nameStats_ok_iff hgathered hperm hentry stats).mp hstats
  have hmem : creator ∈ db.users := List.mem_of_find?_eq_some hcreator
  have hcreatorId : creator.id = entry.1 := by simpa using List.find?_some hcreator
  rw [decide_eq_decide]
  constructor
  · intro hsame
    have hcreator := List.inj_on_of_nodup_map husernames hmem hu (statsName_inj hsame)
    rw [← hcreatorId, hcreator]
  · intro hid
    rw [hid, Database.getUser_mem hids hu] at hcreator
    obtain rfl := Option.some.inj hcreator
    rfl

theorem listAllUserStats_entry (hids : (db.users.map (·.id)).Nodup)
    (husernames : (db.users.map (·.username)).Nodup) (hu : u ∈ db.users)
    (hviewer : fetchCurrentUser db userID = .ok viewer)
    (hne : memosOf (db.listMemos (findAll viewer).unlimited) u.id ≠ [])
    {response : List Api.UserStats}
    (h : listAllUserStats range services db userID ⟨.normal, ""⟩ = .ok response) :
    response.filter (·.name = statsName u.username) =
      [statsOf u.username (memosOf (db.listMemos (findAll viewer).unlimited) u.id)] := by
  obtain ⟨maps, entries, hgathered, hperm, hfilter⟩ :=
    listAllUserStats_filter hids husernames hu hviewer h
  have hkeys := hperm.map (·.1)
  have hkey := hkeys.mem_iff.mpr ((hgathered.users u.id).mpr hne)
  obtain ⟨entry, hentry, hid⟩ := List.mem_map.mp hkey
  have hone : entries.filter (·.1 = u.id) = [entry] := by
    rw [← hid]
    exact filter_key_eq (hkeys.nodup_iff.mpr hgathered.nodup) hentry
  rw [hone] at hfilter
  obtain ⟨stats, hstats, hresponse⟩ := Program.bind_ok hfilter
  obtain ⟨creator, hcreator, rfl⟩ := (nameStats_ok_iff hgathered hperm hentry stats).mp hstats
  rw [hid, Database.getUser_mem hids hu] at hcreator
  obtain rfl := Option.some.inj hcreator
  rw [hid] at hresponse
  exact (Except.ok.inj hresponse).symm

theorem listAllUserStats_no_entry (hids : (db.users.map (·.id)).Nodup)
    (husernames : (db.users.map (·.username)).Nodup) (hu : u ∈ db.users)
    (hviewer : fetchCurrentUser db userID = .ok viewer)
    (hnil : memosOf (db.listMemos (findAll viewer).unlimited) u.id = [])
    {response : List Api.UserStats}
    (h : listAllUserStats range services db userID ⟨.normal, ""⟩ = .ok response) :
    response.filter (·.name = statsName u.username) = [] := by
  obtain ⟨maps, entries, hgathered, hperm, hfilter⟩ :=
    listAllUserStats_filter hids husernames hu hviewer h
  have hnone : entries.filter (·.1 = u.id) = [] := by
    apply List.filter_eq_nil_iff.mpr
    intro entry hentry hid
    have hkey := (hperm.map (·.1)).mem_iff.mp (List.mem_map_of_mem hentry)
    rw [of_decide_eq_true hid] at hkey
    exact (hgathered.users u.id).mp hkey hnil
  rw [hnone] at hfilter
  exact (Except.ok.inj hfilter).symm

/-- The statistics of a user with a memo that the reader sees are the entry of that user among
those of all users, which are answered if each memo that the reader sees has its creator. -/
theorem userStats_agree (range : Go.RangeOrder (Nat × Api.UserStats)) (services : Services)
    (hids : (db.users.map (·.id)).Nodup) (husernames : (db.users.map (·.username)).Nodup)
    (hviewer : fetchCurrentUser db userID = .ok viewer)
    (hname : resolveUserByName db name = .ok (some u))
    (hshown : ∃ row ∈ db.memos, row.creatorId = u.id ∧ Shown db viewer row) :
    ∃ stats, getUserStats db userID name = .ok stats ∧ stats.name = statsName u.username ∧
      ((∃ response, listAllUserStats range services db userID ⟨.normal, ""⟩ = .ok response) ↔
        ∀ row ∈ db.memos, Shown db viewer row →
          ∃ creator, db.getUser row.creatorId = some creator) ∧
      ∀ response, listAllUserStats range services db userID ⟨.normal, ""⟩ = .ok response →
        ∃ entry, response.filter (·.name = stats.name) = [entry] ∧ stats.Agrees entry := by
  obtain ⟨row, hrow, hcreator, hshown⟩ := hshown
  have hne := memosOf_ne_nil hrow hshown
  rw [hcreator] at hne
  have hu := resolveUserByName_mem hname
  refine ⟨_, getUserStats_eq hviewer hname, rfl, listAllUserStats_ok_iff hviewer, ?_⟩
  intro response hresponse
  have hentry := listAllUserStats_entry hids husernames hu hviewer hne hresponse
  exact ⟨_, hentry, statsOf_agrees u.username (memosOf_perm db u.id viewer)⟩

/-- A reader that is not signed in sees two memos. -/
theorem userStats_agree_two : ∃ stats response entry,
    getUserStats twoMemos 0 "users/ada" = .ok stats ∧
      listAllUserStats (.id _) albumServices twoMemos 0 ⟨.normal, ""⟩ = .ok response ∧
      response.filter (·.name = stats.name) = [entry] ∧ stats.Agrees entry := by
  have hname : resolveUserByName twoMemos "users/ada" = .ok (some ⟨1, .normal, "ada", .USER⟩) := by
    decide +kernel
  have hviewer : fetchCurrentUser twoMemos 0 = .ok none := rfl
  have hshown : ∃ row ∈ twoMemos.memos, row.creatorId = 1 ∧ Shown twoMemos none row :=
    ⟨_, List.mem_cons_self, rfl, rfl, List.mem_singleton_self _, rfl⟩
  obtain ⟨stats, hstats, -, hall, hagree⟩ := userStats_agree (.id _) albumServices
    (by decide) (by decide) hviewer hname hshown
  have hcreators : ∀ row ∈ twoMemos.memos, Shown twoMemos none row →
      ∃ creator, twoMemos.getUser row.creatorId = some creator := by
    intro row hrow _
    have hcreator : row.creatorId = 1 := by
      rcases List.mem_cons.mp hrow with rfl | hrow
      · rfl
      · obtain rfl := List.mem_singleton.mp hrow
        rfl
    rw [hcreator]
    exact ⟨_, rfl⟩
  obtain ⟨response, hresponse⟩ := hall.mpr hcreators
  obtain ⟨entry, hentry, hsame⟩ := hagree response hresponse
  exact ⟨stats, response, entry, hstats, hresponse, hentry, hsame⟩

def discussion : Database where
  users := [⟨1, .normal, "ada", .USER⟩, ⟨2, .normal, "bob", .USER⟩]
  memos := [⟨1, "note", 1, 5, 5, .normal, "", .Public, false, ⟨none, none, []⟩⟩,
    ⟨2, "reply", 2, 6, 6, .normal, "", .Public, false, ⟨none, none, []⟩⟩]
  relations := [⟨2, 1, .COMMENT⟩]
  attachments := []
  reactions := []

/-- Whoever has written a comment alone has statistics, but no entry among those of all users. -/
theorem commenter_without_entry : ∃ row stats response, row ∈ discussion.memos ∧
    row.creatorId = 2 ∧ row.rowStatus = .normal ∧ VisibleTo none row ∧
      getUserStats discussion 0 "users/bob" = .ok stats ∧
      listAllUserStats (.id _) albumServices discussion 0 ⟨.normal, ""⟩ = .ok response ∧
      response.filter (·.name = stats.name) = [] := by
  have hviewer : fetchCurrentUser discussion 0 = .ok none := rfl
  have hname : resolveUserByName discussion "users/bob" = .ok (some ⟨2, .normal, "bob", .USER⟩) := by
    decide +kernel
  have hcreators : ∀ row ∈ discussion.memos, Shown discussion none row →
      ∃ creator, discussion.getUser row.creatorId = some creator := by
    intro row hrow _
    rcases List.mem_cons.mp hrow with rfl | hrow
    · exact ⟨_, rfl⟩
    · obtain rfl := List.mem_singleton.mp hrow
      exact ⟨_, rfl⟩
  have hnil : memosOf (discussion.listMemos (findAll none).unlimited) 2 = [] := by
    by_contra hne
    obtain ⟨row, hrow, hshown, hid⟩ := exists_shown hne
    rcases List.mem_cons.mp hrow with rfl | hrow
    · cases hid
    · obtain rfl := List.mem_singleton.mp hrow
      have hparent := hshown.topLevel
      revert hparent
      decide
  obtain ⟨response, hresponse⟩ := (@listAllUserStats_ok_iff (.id _) albumServices discussion 0
    none hviewer).mpr hcreators
  have hentry := @listAllUserStats_no_entry (.id _) albumServices discussion 0 none
    ⟨2, .normal, "bob", .USER⟩ (by decide) (by decide) (by decide) hviewer hnil response hresponse
  exact ⟨_, _, response, List.mem_cons_of_mem _ List.mem_cons_self, rfl, rfl, rfl,
    getUserStats_eq hviewer hname, hresponse, hentry⟩

end agreement

end Memoark.Server
