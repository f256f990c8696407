import Memoark.Program.Contract
import Memoark.Store.Database

/-! The tables that memos are written to, and the writes of the SQLite driver. -/
namespace Memoark.Store
open Program (Durable)

/-- The tables, with the next value of each `AUTOINCREMENT`. -/
structure Storage extends Database where
  inboxes : List Inbox
  nextMemoId : Nat
  nextReactionId : Nat
  nextInboxId : Nat

inductive Table where
  | memo | memo_relation | attachment | reaction | inbox
  deriving DecidableEq

abbrev Statement (α : Type) := Durable Storage Table String α

def Memo.record (memo : Memo) : MemoRecord where
  id := memo.id
  uid := memo.uid
  creatorId := memo.creatorId
  createdTs := memo.createdTs
  updatedTs := memo.updatedTs
  rowStatus := memo.rowStatus
  content := memo.content
  visibility := memo.visibility
  pinned := memo.pinned
  payload := memo.payload

def MemoRecord.updated (row : MemoRecord) (u : UpdateMemo) : MemoRecord :=
  ((row.withParent none).updated u).record

def UpdateMemo.isEmpty (u : UpdateMemo) : Bool :=
  u.createdTs.isNone && u.updatedTs.isNone && u.rowStatus.isNone && u.content.isNone &&
    u.visibility.isNone && u.pinned.isNone && u.payload.isNone

structure DeleteMemoRelation where
  memoId : Option Nat := none
  relatedMemoId : Option Nat := none
  type : Option MemoRelationType := none

def DeleteMemoRelation.selects (delete : DeleteMemoRelation) (r : MemoRelation) : Bool :=
  asked delete.memoId r.memoId && asked delete.relatedMemoId r.relatedMemoId &&
    asked delete.type r.type

namespace Storage

def insertMemo (s : Storage) (row : MemoRecord) : Storage :=
  { s with memos := s.memos ++ [row], nextMemoId := s.nextMemoId + 1 }

/-- `CreateMemo` of the driver. Zero timestamps are set to the time of the database. -/
def createMemo (create : Memo) (now : Int) : Statement Memo := do
  let s ← Durable.get
  if s.memos.any (·.uid = create.uid) then Durable.fail "UNIQUE constraint failed: memo.uid"
  else
    let memo := { create with
      id := s.nextMemoId
      createdTs := if create.createdTs ≠ 0 then create.createdTs else now
      updatedTs := if create.updatedTs ≠ 0 then create.updatedTs else now
      rowStatus := .normal
      pinned := false }
    Durable.commit .memo fun s => s.insertMemo memo.record
    return memo

def updateMemo (id : Nat) (update : UpdateMemo) : Statement Unit :=
  if update.isEmpty then return
  else Durable.commit .memo fun s =>
    { s with memos := s.memos.map fun row => if row.id = id then row.updated update else row }

def deleteMemo (id : Nat) : Statement Unit :=
  Durable.commit .memo fun s => { s with memos := s.memos.filter (·.id ≠ id) }

def insertRelation (s : Storage) (r : MemoRelation) : Storage :=
  { s with relations := if r ∈ s.relations then s.relations else s.relations ++ [r] }

def upsertMemoRelation (r : MemoRelation) : Statement Unit :=
  Durable.commit .memo_relation fun s => s.insertRelation r

def deleteMemoRelation (delete : DeleteMemoRelation) : Statement Unit :=
  Durable.commit .memo_relation fun s =>
    { s with relations := s.relations.filter fun r => !delete.selects r }

def updateAttachment (id memoId : Nat) (updatedTs : Int) : Statement Unit :=
  Durable.commit .attachment fun s =>
    { s with attachments := s.attachments.map fun a =>
      if a.id = id then { a with memoId := some memoId, updatedTs } else a }

def deleteAttachment (id : Nat) : Statement Unit :=
  Durable.commit .attachment fun s =>
    { s with attachments := s.attachments.filter (·.id ≠ id) }

def upsertReaction (upsert : ReactionRecord) (now : Int) : Statement ReactionRecord := do
  let s ← Durable.get
  if s.reactions.any fun r => r.creatorId = upsert.creatorId ∧ r.contentId = upsert.contentId ∧
      r.reactionType = upsert.reactionType then
    Durable.fail
      "UNIQUE constraint failed: reaction.creator_id, reaction.content_id, reaction.reaction_type"
  else
    let reaction := { upsert with id := s.nextReactionId, createdTs := now }
    Durable.commit .reaction fun s =>
      { s with reactions := s.reactions ++ [reaction], nextReactionId := s.nextReactionId + 1 }
    return reaction

def createInbox (senderId receiverId : Nat) (message : InboxMessage) : Statement Unit :=
  Durable.commit .inbox fun s =>
    { s with
      inboxes := s.inboxes ++ [⟨s.nextInboxId, senderId, receiverId, .message message⟩]
      nextInboxId := s.nextInboxId + 1 }

end Storage

end Memoark.Store
