import Mathlib.Data.List.Sort
import Memoark.Store.Tables

/-! The tables that memos are read from, and the reads of `store` and of its SQLite driver. -/
namespace Memoark.Store

inductive UserRole where
  | ADMIN | USER
  deriving DecidableEq

structure UserRecord where
  id : Nat
  rowStatus : RowStatus
  username : String
  role : UserRole
  deriving DecidableEq

structure MemoRecord where
  id : Nat
  uid : String
  creatorId : Nat
  createdTs : Int
  updatedTs : Int
  rowStatus : RowStatus
  content : String
  visibility : Visibility
  pinned : Bool
  payload : MemoPayload

def MemoRecord.withParent (row : MemoRecord) (parentUid : Option String) : Memo where
  id := row.id
  uid := row.uid
  rowStatus := row.rowStatus
  creatorId := row.creatorId
  createdTs := row.createdTs
  updatedTs := row.updatedTs
  content := row.content
  visibility := row.visibility
  pinned := row.pinned
  payload := row.payload
  parentUid := parentUid

structure MotionMedia where
  family : Nat
  role : Nat
  groupId : String
  presentationTimestampUs : Int
  hasEmbeddedVideo : Bool
  deriving DecidableEq

structure AttachmentRecord where
  id : Nat
  uid : String
  creatorId : Nat
  filename : String
  type : String
  size : Int
  createdTs : Int
  updatedTs : Int
  memoId : Option Nat
  storageType : AttachmentStorageType
  reference : String
  motionMedia : Option MotionMedia
  deriving DecidableEq

structure ReactionRecord where
  id : Nat
  createdTs : Int
  creatorId : Nat
  contentId : String
  reactionType : String
  deriving DecidableEq

structure Database where
  users : List UserRecord
  memos : List MemoRecord
  relations : List MemoRelation
  attachments : List AttachmentRecord
  reactions : List ReactionRecord

structure Database.Keys (db : Database) : Prop where
  userIds : (db.users.map (·.id)).Nodup
  memoIds : (db.memos.map (·.id)).Nodup
  memoUids : (db.memos.map (·.uid)).Nodup
  relations : db.relations.Nodup

structure FindMemo where
  id : Option Nat := none
  idList : List Nat := []
  uid : Option String := none
  rowStatus : Option RowStatus := none
  creatorId : Option Nat := none
  visibilityList : List Visibility := []
  /-- The conditions of the compiled filters. -/
  filters : List (MemoRecord → Bool) := []
  excludeComments : Bool := false
  excludeContent : Bool := false
  orderByPinned : Bool := false
  orderByUpdatedTs : Bool := false
  orderByTimeAsc : Bool := false
  limit : Option Nat := none
  offset : Option Nat := none

structure FindMemoRelation where
  memoId : Option Nat := none
  relatedMemoId : Option Nat := none
  type : Option MemoRelationType := none
  sourceMemoIdList : List Nat := []
  relatedMemoIdList : List Nat := []
  memoFilter : Option (MemoRecord → Bool) := none

structure FindAttachment where
  id : Option Nat := none
  uid : Option String := none
  memoId : Option Nat := none
  memoIdList : List Nat := []
  getBlob : Bool := false
  limit : Option Nat := none

structure FindReaction where
  contentId : Option String := none
  contentIdList : List String := []

def asked {α : Type} [DecidableEq α] (value : Option α) (column : α) : Bool :=
  value.all (· = column)

def askedIn {α : Type} [DecidableEq α] (values : List α) (column : α) : Bool :=
  values = [] ∨ column ∈ values

def page {α : Type} (limit offset : Option Nat) (rows : List α) : List α :=
  match limit with
  | some limit => (rows.drop (offset.getD 0)).take limit
  | none => rows

theorem filter_key_eq {α κ : Type} [DecidableEq κ] {key : α → κ} {l : List α}
    (hkeys : (l.map key).Nodup) {a : α} (ha : a ∈ l) :
    l.filter (key · = key a) = [a] := by
  induction l with
  | nil => cases ha
  | cons b l ih =>
    rw [List.map_cons, List.nodup_cons] at hkeys
    obtain ⟨hb, hkeys⟩ := hkeys
    rcases List.mem_cons.mp ha with rfl | ha
    · have hnone : l.filter (key · = key a) = [] := by
        refine List.filter_eq_nil_iff.mpr fun c hc hkey => hb ?_
        rw [← of_decide_eq_true hkey]
        exact List.mem_map_of_mem hc
      rw [List.filter_cons, if_pos (decide_eq_true rfl), hnone]
    · have hne : key b ≠ key a := fun hkey => hb (hkey ▸ List.mem_map_of_mem ha)
      rw [List.filter_cons, if_neg (by simpa using hne), ih hkeys ha]

namespace FindMemo

variable (find : FindMemo)

def matchesRow (row : MemoRecord) : Bool :=
  find.filters.all (· row) && asked find.id row.id && askedIn find.idList row.id &&
    asked find.uid row.uid && asked find.creatorId row.creatorId &&
    asked find.rowStatus row.rowStatus && askedIn find.visibilityList row.visibility

def matchesParent (parentUid : Option String) : Bool := !find.excludeComments || parentUid.isNone

/-- Whether one memo may stand before another in the order that is asked for. -/
def le (a b : Memo) : Bool :=
  let ts := fun memo : Memo => if find.orderByUpdatedTs then memo.updatedTs else memo.createdTs
  if find.orderByPinned ∧ a.pinned ≠ b.pinned then a.pinned
  else if ts a ≠ ts b then if find.orderByTimeAsc then ts a < ts b else ts b < ts a
  else b.id ≤ a.id

def selected (memo : Memo) : Memo := if find.excludeContent then { memo with content := "" } else memo

end FindMemo

namespace Database

variable (db : Database)

def parents (row : MemoRecord) : List (Option String) :=
  match db.relations.filter fun r => r.memoId = row.id ∧ r.type = .COMMENT with
  | [] => [none]
  | comments =>
    comments.map fun r => (db.memos.find? (·.id = r.relatedMemoId)).map (·.uid)

def listMemos (find : FindMemo) : List Memo :=
  let rows := (db.memos.filter find.matchesRow).flatMap fun row =>
    ((db.parents row).filter find.matchesParent).map row.withParent
  (page find.limit find.offset (rows.mergeSort find.le)).map find.selected

def getMemo (find : FindMemo) : Option Memo := (db.listMemos find).head?

def idsWhere (condition : MemoRecord → Bool) : List Nat := (db.memos.filter condition).map (·.id)

def listMemoRelations (find : FindMemoRelation) : List MemoRelation :=
  (db.relations.filter fun r =>
    asked find.memoId r.memoId && asked find.relatedMemoId r.relatedMemoId &&
      asked find.type r.type && askedIn find.sourceMemoIdList r.memoId &&
      askedIn find.relatedMemoIdList r.relatedMemoId &&
      find.memoFilter.all fun condition =>
        r.memoId ∈ db.idsWhere condition ∧ r.relatedMemoId ∈ db.idsWhere condition).mergeSort
    fun r r' => r'.memoId ≤ r.memoId

def listAttachmentRows (find : FindAttachment) : List AttachmentRecord :=
  page find.limit none ((db.attachments.filter fun a =>
    asked find.id a.id && asked find.uid a.uid && find.memoId.all (fun id => a.memoId = some id) &&
      (find.memoIdList = [] ∨ ∃ id ∈ find.memoIdList, a.memoId = some id)).mergeSort
    fun a b => b.updatedTs ≤ a.updatedTs)

/-- `Store.ListAttachments`, which limits the list unless it is asked for by a list of memos. -/
def listAttachments (find : FindAttachment) : List AttachmentRecord :=
  if find.limit = none ∧ find.memoIdList = [] then
    db.listAttachmentRows { find with limit := some (if find.getBlob then 10 else 100) }
  else db.listAttachmentRows find

def memoUid (attachment : AttachmentRecord) : Option String :=
  attachment.memoId.bind fun id => (db.memos.find? (·.id = id)).map (·.uid)

def listReactions (find : FindReaction) : List ReactionRecord :=
  (db.reactions.filter fun r =>
    asked find.contentId r.contentId && askedIn find.contentIdList r.contentId).mergeSort
    fun r r' => r.id ≤ r'.id

def listUsers (idList : List Nat) : List UserRecord := db.users.filter fun u => askedIn idList u.id

def getUser (id : Nat) : Option UserRecord := db.users.find? (·.id = id)

section reads

variable {db : Database} {find : FindMemo} {memo : Memo}

theorem page_sublist {α : Type} (limit offset : Option Nat) (rows : List α) :
    (page limit offset rows).Sublist rows := by
  unfold page
  split
  · exact (List.take_sublist _ _).trans (List.drop_sublist _ _)
  · exact .refl rows

theorem mem_page {α : Type} {limit offset : Option Nat} {rows : List α} {row : α}
    (h : row ∈ page limit offset rows) : row ∈ rows := (page_sublist limit offset rows).subset h

theorem parents_ne_nil (db : Database) (row : MemoRecord) : db.parents row ≠ [] := by
  unfold parents
  split
  · exact List.cons_ne_nil _ _
  · rename_i hne
    intro hnil
    exact hne (List.map_eq_nil_iff.mp hnil)

theorem mem_rows : memo ∈ ((db.memos.filter find.matchesRow).flatMap fun row =>
      ((db.parents row).filter find.matchesParent).map row.withParent) ↔
    ∃ row ∈ db.memos, find.matchesRow row = true ∧ ∃ parent ∈ db.parents row,
      find.matchesParent parent = true ∧ row.withParent parent = memo := by
  simp only [List.mem_flatMap, List.mem_filter, List.mem_map, and_assoc]

theorem exists_of_mem_listMemos (h : memo ∈ db.listMemos find) :
    ∃ row ∈ db.memos, find.matchesRow row = true ∧ ∃ parent ∈ db.parents row,
      find.matchesParent parent = true ∧ find.selected (row.withParent parent) = memo := by
  obtain ⟨memo', hmem, rfl⟩ := List.mem_map.mp h
  obtain ⟨row, hrow, hmatches, parent, hparent, hmatchesParent, rfl⟩ :=
    mem_rows.mp (List.mem_mergeSort.mp (mem_page hmem))
  exact ⟨row, hrow, hmatches, parent, hparent, hmatchesParent, rfl⟩

theorem mem_listMemos_of_row (hlimit : find.limit = none) {row : MemoRecord} (hrow : row ∈ db.memos)
    (hmatches : find.matchesRow row = true) {parent : Option String}
    (hparent : parent ∈ db.parents row) (hmatchesParent : find.matchesParent parent = true) :
    find.selected (row.withParent parent) ∈ db.listMemos find := by
  refine List.mem_map.mpr ⟨row.withParent parent, ?_, rfl⟩
  rw [hlimit]
  exact List.mem_mergeSort.mpr
    (mem_rows.mpr ⟨row, hrow, hmatches, parent, hparent, hmatchesParent, rfl⟩)

theorem exists_parent_row {row : MemoRecord} {parentUid : String}
    (h : some parentUid ∈ db.parents row) :
    ∃ r ∈ db.relations, r.memoId = row.id ∧ r.type = .COMMENT ∧
      ∃ parent ∈ db.memos, parent.id = r.relatedMemoId ∧ parent.uid = parentUid := by
  unfold parents at h
  split at h
  · cases List.mem_singleton.mp h
  · obtain ⟨r, hr, hparent⟩ := List.mem_map.mp h
    obtain ⟨parent, hfind, huid⟩ := Option.map_eq_some_iff.mp hparent
    obtain ⟨hr, hcomment⟩ := List.mem_filter.mp hr
    obtain ⟨hid, htype⟩ : r.memoId = row.id ∧ r.type = .COMMENT := by simpa using hcomment
    exact ⟨r, hr, hid, htype, parent, List.mem_of_find?_eq_some hfind,
      by simpa using List.find?_some hfind, huid⟩

theorem exists_getMemo {row : MemoRecord} (hrow : row ∈ db.memos) :
    ∃ memo, db.getMemo { uid := some row.uid } = some memo := by
  obtain ⟨parent, hparent⟩ := List.exists_mem_of_ne_nil _ (parents_ne_nil db row)
  have hmem : FindMemo.selected { uid := some row.uid } (row.withParent parent) ∈
      db.listMemos { uid := some row.uid } :=
    mem_listMemos_of_row rfl hrow (by simp [FindMemo.matchesRow, asked, askedIn]) hparent rfl
  cases hlist : db.listMemos { uid := some row.uid } with
  | nil =>
    rw [hlist] at hmem
    cases hmem
  | cons memo memos => exact ⟨memo, by rw [getMemo, hlist]; rfl⟩

theorem getMemo_uid {uid : String} (h : db.getMemo { uid := some uid } = some memo) :
    ∃ row ∈ db.memos, row.uid = uid ∧ ∃ parent ∈ db.parents row, row.withParent parent = memo := by
  obtain ⟨row, hrow, hmatches, parent, hparent, -, rfl⟩ :=
    exists_of_mem_listMemos (List.mem_of_head? h)
  have huid : uid = row.uid := by simpa [FindMemo.matchesRow, asked, askedIn] using hmatches
  exact ⟨row, hrow, huid.symm, parent, hparent, rfl⟩

theorem getMemo_of_parents (row : MemoRecord) {parent : Option String}
    (huids : (db.memos.map (·.uid)).Nodup) (hrow : row ∈ db.memos)
    (hparents : db.parents row = [parent]) :
    db.getMemo { uid := some row.uid } = some (row.withParent parent) := by
  obtain ⟨memo, hmemo⟩ := exists_getMemo hrow
  obtain ⟨row', hrow', huid, parent', hparent', hread⟩ := getMemo_uid hmemo
  obtain rfl : row' = row := List.inj_on_of_nodup_map huids hrow' hrow huid
  rw [hparents] at hparent'
  rw [hmemo, ← hread, List.mem_singleton.mp hparent']

theorem Keys.row_eq (h : db.Keys) {row row' : MemoRecord} (hrow : row ∈ db.memos)
    (hrow' : row' ∈ db.memos) (hid : row.id = row'.id) : row = row' :=
  List.inj_on_of_nodup_map h.memoIds hrow hrow' hid

theorem Keys.row_eq_of_uid (h : db.Keys) {row row' : MemoRecord} (hrow : row ∈ db.memos)
    (hrow' : row' ∈ db.memos) (huid : row.uid = row'.uid) : row = row' :=
  List.inj_on_of_nodup_map h.memoUids hrow hrow' huid

def uidOf (db : Database) (id : Nat) : Option String := (db.memos.find? (·.id = id)).map (·.uid)

theorem Keys.uidOf_eq (h : db.Keys) {row : MemoRecord} (hrow : row ∈ db.memos) :
    db.uidOf row.id = some row.uid := by
  unfold uidOf
  cases hfind : db.memos.find? (·.id = row.id) with
  | none =>
    have hne := List.find?_eq_none.mp hfind row hrow
    simp at hne
  | some row' =>
    have hid : row'.id = row.id := by simpa using List.find?_some hfind
    rw [h.row_eq (List.mem_of_find?_eq_some hfind) hrow hid]
    rfl

theorem getUser_mem (hids : (db.users.map (·.id)).Nodup) {user : UserRecord} (h : user ∈ db.users) :
    db.getUser user.id = some user := by
  unfold getUser
  rw [← List.head?_filter, filter_key_eq hids h]
  rfl

theorem mem_idsWhere {condition : MemoRecord → Bool} {id : Nat} :
    id ∈ db.idsWhere condition ↔ ∃ row ∈ db.memos, condition row = true ∧ row.id = id := by
  simp only [idsWhere, List.mem_map, List.mem_filter, and_assoc]

end reads

end Database

end Memoark.Store
