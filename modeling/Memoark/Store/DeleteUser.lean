import Memoark.Graph.Closure
import Memoark.Program.Returns
import Memoark.Store.Tables

/-! `DeleteUser` of `store/db/sqlite/user_delete.go`: one transaction that collects what belongs
to a user and deletes it in batches. -/
namespace Memoark.Store
open Memoark.Graph

/-- The statements of a transaction are numbered; any of them can fail. -/
abbrev Faults := Nat → Option String

abbrev Tx := StateT (Nat × Tables) (Except String)

def queryContext {α : Type} (faults : Faults) (select : Tables → α) : Tx α := do
  let (n, t) ← get
  match faults n with
  | some err => throw err
  | none =>
    set (n + 1, t)
    return select t

def execContext (faults : Faults) (stmt : Tables → Tables) : Tx Unit := do
  let (n, t) ← get
  match faults n with
  | some err => throw err
  | none => set (n + 1, stmt t)

structure DeleteUserMemoRef where
  id : Nat
  uid : String
  deriving DecidableEq

def MemoRow.ref (memo : MemoRow) : DeleteUserMemoRef := ⟨memo.id, memo.uid⟩

structure DeleteUserTargets where
  memos : List DeleteUserMemoRef
  attachments : List Attachment
  userSettingKeys : List String
  inboxIds : List Nat

def memoIdsFromRefs (memos : List DeleteUserMemoRef) : List Nat := memos.map (·.id)

def memoContentIdsFromRefs (memos : List DeleteUserMemoRef) : List String :=
  memos.map fun memo => "memos/" ++ memo.uid

def deleteUserBatchSize : Nat := 500

def deleteUserBatches {α : Type} (values : List α) : List (List α) :=
  if _h : values = [] then []
  else values.take deleteUserBatchSize :: deleteUserBatches (values.drop deleteUserBatchSize)
termination_by values.length
decreasing_by
  have := List.length_pos_iff.mpr _h
  rw [List.length_drop, deleteUserBatchSize]
  omega

/-- The recursive part of `memo_tree`: the comments on a memo. -/
def childRefs (t : Tables) (parent : DeleteUserMemoRef) : List DeleteUserMemoRef :=
  (t.memos.filter fun child => t.relations.any fun rel =>
    rel.memoId == child.id && rel.type == .COMMENT && rel.relatedMemoId == parent.id).map (·.ref)

def rootRefs (t : Tables) (userId : Nat) : List DeleteUserMemoRef :=
  (t.memos.filter (·.creatorId == userId)).map (·.ref)

/-- `WITH RECURSIVE memo_tree … UNION …`: each row enters the table once. -/
def memoTree (t : Tables) (userId : Nat) : List DeleteUserMemoRef :=
  closure (childRefs t) t.memos.length (rootRefs t userId)

section collect

variable (faults : Faults) (userId : Nat)

def appendRows : List Attachment → List Attachment → Except String (List Attachment)
  | attachments, [] => return attachments
  | attachments, row :: rows =>
    if attachments.any (·.id == row.id) then appendRows attachments rows
    else if row.payloadValid then appendRows (attachments ++ [row]) rows
    else throw "invalid attachment payload"

def appendDeleteUserAttachments (select : Attachment → Bool) (attachments : List Attachment) :
    Tx (List Attachment) := do
  let rows ← queryContext faults fun t => t.attachments.filter select
  appendRows attachments rows

def listDeleteUserAttachments (memoIds : List Nat) : Tx (List Attachment) := do
  let attachments ← appendDeleteUserAttachments faults (·.creatorId == userId) []
  (deleteUserBatches memoIds).foldlM
    (fun attachments batch => appendDeleteUserAttachments faults
      (fun a => a.memoId.any (batch.contains ·)) attachments)
    attachments

def memoIdInSet (memoIds : List Nat) (id : Nat) : Bool := id ≠ 0 && memoIds.contains id

def inboxMessageTouchesMemoSet (memoIds : List Nat) : InboxMessage → Bool
  | .MEMO_COMMENT (some payload) =>
    memoIdInSet memoIds payload.memoId || memoIdInSet memoIds payload.relatedMemoId
  | .MEMO_MENTION (some payload) =>
    memoIdInSet memoIds payload.memoId || memoIdInSet memoIds payload.relatedMemoId
  | _ => false

/-- The loop of `listDeleteUserMemoReferencedInboxIDs`. -/
def referencedInboxIds (memoIds : List Nat) : List Inbox → Except String (List Nat)
  | [] => return []
  | row :: rows =>
    match row.message with
    | .empty => referencedInboxIds memoIds rows
    | .invalid => throw "invalid inbox message"
    | .message message => do
      let inboxIds ← referencedInboxIds memoIds rows
      return if inboxMessageTouchesMemoSet memoIds message then row.id :: inboxIds else inboxIds

def listDeleteUserInboxIds (memoIds : List Nat) : Tx (List Nat) := do
  let directIds ← queryContext faults fun t =>
    (t.inboxes.filter fun i => i.senderId == userId || i.receiverId == userId).map (·.id)
  if memoIds.isEmpty then
    return directIds
  let rows ← queryContext faults fun t =>
    t.inboxes.filter fun i => i.senderId ≠ userId && i.receiverId ≠ userId
  let referencedIds ← referencedInboxIds memoIds rows
  return directIds ++ referencedIds

def collectDeleteUserTargets : Tx DeleteUserTargets := do
  let memos ← queryContext faults fun t => memoTree t userId
  let attachments ← listDeleteUserAttachments faults userId (memoIdsFromRefs memos)
  let userSettingKeys ← queryContext faults fun t =>
    (t.settings.filter (·.userId == userId)).map (·.key)
  let inboxIds ← listDeleteUserInboxIds faults userId (memoIdsFromRefs memos)
  return ⟨memos, attachments, userSettingKeys, inboxIds⟩

end collect

section delete

variable (faults : Faults) (userId : Nat)

def execBatches {α : Type} (stmt : List α → Tables → Tables) (values : List α) : Tx Unit :=
  (deleteUserBatches values).forM fun batch => execContext faults (stmt batch)

def reactionsByContent (contentIds : List String) (t : Tables) : Tables :=
  { t with reactions := t.reactions.filter (·.contentId ∉ contentIds) }

def attachmentsById (ids : List Nat) (t : Tables) : Tables :=
  { t with attachments := t.attachments.filter (·.id ∉ ids) }

def sharesByMemo (memoIds : List Nat) (t : Tables) : Tables :=
  { t with shares := t.shares.filter (·.memoId ∉ memoIds) }

def inboxesById (ids : List Nat) (t : Tables) : Tables :=
  { t with inboxes := t.inboxes.filter (·.id ∉ ids) }

def relationsByMemo (memoIds : List Nat) (t : Tables) : Tables :=
  { t with
    relations := t.relations.filter fun r => r.memoId ∉ memoIds ∧ r.relatedMemoId ∉ memoIds }

def memosById (memoIds : List Nat) (t : Tables) : Tables :=
  { t with memos := t.memos.filter (·.id ∉ memoIds) }

def deleteUserTargetsTx (targets : DeleteUserTargets) : Tx Unit := do
  let memoIds := memoIdsFromRefs targets.memos
  execBatches faults reactionsByContent (memoContentIdsFromRefs targets.memos)
  execBatches faults attachmentsById (targets.attachments.map (·.id))
  execContext faults fun t => { t with reactions := t.reactions.filter (·.creatorId ≠ userId) }
  execContext faults fun t => { t with shares := t.shares.filter (·.creatorId ≠ userId) }
  execBatches faults sharesByMemo memoIds
  execBatches faults inboxesById targets.inboxIds
  execContext faults fun t => { t with identities := t.identities.filter (·.userId ≠ userId) }
  execContext faults fun t => { t with settings := t.settings.filter (·.userId ≠ userId) }
  execBatches faults relationsByMemo memoIds
  execBatches faults memosById memoIds
  execContext faults fun t => { t with users := t.users.filter (· ≠ userId) }

structure DeleteUserResult where
  attachments : List Attachment
  userSettingKeys : List String

def deleteUserTx : Tx DeleteUserResult := do
  let targets ← collectDeleteUserTargets faults userId
  deleteUserTargetsTx faults userId targets
  return ⟨targets.attachments, targets.userSettingKeys⟩

/-- The result, and the tables that other transactions see afterwards: a transaction that is not
committed is rolled back. -/
def DeleteUser (t : Tables) : Except String DeleteUserResult × Tables :=
  match (deleteUserTx faults userId).run (0, t) with
  | .error err => (.error err, t)
  | .ok (result, (n, t')) =>
    match faults n with
    | some err => (.error err, t)
    | none => (.ok result, t')

end delete

end Memoark.Store
