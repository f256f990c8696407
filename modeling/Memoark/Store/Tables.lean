/-! The memo record and its partial update (`store/memo.go`, `store/db/*/memo.go`), and the tables
that refer to users and memos. -/
namespace Memoark.Store

inductive RowStatus where
  | normal
  | archived
  deriving DecidableEq, Repr

inductive Visibility where
  | Public
  | Protected
  | Private
  deriving DecidableEq, Repr

namespace MemoPayload

structure Property where
  hasLink : Bool
  hasTaskList : Bool
  hasCode : Bool
  hasIncompleteTasks : Bool
  title : String
  deriving DecidableEq

structure Location where
  placeholder : String
  latitude : Float
  longitude : Float

end MemoPayload

structure MemoPayload where
  property : Option MemoPayload.Property
  location : Option MemoPayload.Location
  tags : List String

structure Memo where
  id : Nat
  uid : String
  rowStatus : RowStatus
  creatorId : Nat
  createdTs : Int
  updatedTs : Int
  content : String
  visibility : Visibility
  pinned : Bool
  payload : MemoPayload
  /-- Joined in from the memo's COMMENT relation. -/
  parentUid : Option String

structure UpdateMemo where
  createdTs : Option Int
  updatedTs : Option Int
  rowStatus : Option RowStatus
  content : Option String
  visibility : Option Visibility
  pinned : Option Bool
  payload : Option MemoPayload

/-- The driver's `UPDATE memo SET …` writes the fields that are there. -/
def Memo.updated (m : Memo) (u : UpdateMemo) : Memo :=
  { m with
    createdTs := u.createdTs.getD m.createdTs
    updatedTs := u.updatedTs.getD m.updatedTs
    rowStatus := u.rowStatus.getD m.rowStatus
    content := u.content.getD m.content
    visibility := u.visibility.getD m.visibility
    pinned := u.pinned.getD m.pinned
    payload := u.payload.getD m.payload }

@[simp] theorem Memo.updated_content (m : Memo) (u : UpdateMemo) :
    (m.updated u).content = u.content.getD m.content := rfl

@[simp] theorem Memo.updated_payload (m : Memo) (u : UpdateMemo) :
    (m.updated u).payload = u.payload.getD m.payload := rfl

structure MemoRow where
  id : Nat
  uid : String
  creatorId : Nat
  deriving DecidableEq

def MemoRow.name (memo : MemoRow) : String := "memos/" ++ memo.uid

inductive MemoRelationType where
  | REFERENCE | COMMENT
  deriving DecidableEq

structure MemoRelation where
  memoId : Nat
  relatedMemoId : Nat
  type : MemoRelationType
  deriving DecidableEq

inductive AttachmentStorageType where
  | UNSPECIFIED | LOCAL | S3 | EXTERNAL
  deriving DecidableEq

structure Attachment where
  id : Nat
  creatorId : Nat
  memoId : Option Nat
  updatedTs : Int
  storageType : AttachmentStorageType
  /-- The payload column parses. -/
  payloadValid : Bool
  deriving DecidableEq

structure Reaction where
  id : Nat
  creatorId : Nat
  contentId : String
  deriving DecidableEq

structure MemoShare where
  id : Nat
  memoId : Nat
  creatorId : Nat
  deriving DecidableEq

structure MemoPair where
  memoId : Nat
  relatedMemoId : Nat
  deriving DecidableEq

inductive InboxMessage where
  | TYPE_UNSPECIFIED
  | MEMO_COMMENT (payload : Option MemoPair)
  | MEMO_MENTION (payload : Option MemoPair)
  deriving DecidableEq

inductive RawMessage where
  | empty
  | invalid
  | message (message : InboxMessage)
  deriving DecidableEq

structure Inbox where
  id : Nat
  senderId : Nat
  receiverId : Nat
  message : RawMessage
  deriving DecidableEq

structure UserSettingRow where
  userId : Nat
  key : String
  deriving DecidableEq

structure UserIdentityRow where
  id : Nat
  userId : Nat
  deriving DecidableEq

structure Tables where
  users : List Nat
  memos : List MemoRow
  relations : List MemoRelation
  attachments : List Attachment
  reactions : List Reaction
  shares : List MemoShare
  inboxes : List Inbox
  settings : List UserSettingRow
  identities : List UserIdentityRow

/-- The constraints of the tables: `PRIMARY KEY`, `UNIQUE`, and ids that start at 1. -/
structure Tables.Keys (t : Tables) : Prop where
  memoIds : (t.memos.map (·.id)).Nodup
  memoUids : (t.memos.map (·.uid)).Nodup
  memoIdPos : ∀ memo ∈ t.memos, 0 < memo.id
  attachmentIds : (t.attachments.map (·.id)).Nodup
  inboxIds : (t.inboxes.map (·.id)).Nodup

section refers

variable (memo : MemoRow)

def MemoRelation.RefersTo (r : MemoRelation) : Prop :=
  r.memoId = memo.id ∨ r.relatedMemoId = memo.id

def Attachment.RefersTo (a : Attachment) : Prop := a.memoId = some memo.id

def Reaction.RefersTo (r : Reaction) : Prop := r.contentId = memo.name

def MemoShare.RefersTo (s : MemoShare) : Prop := s.memoId = memo.id

def MemoPair.RefersTo (p : MemoPair) : Prop := p.memoId = memo.id ∨ p.relatedMemoId = memo.id

def InboxMessage.RefersTo : InboxMessage → Prop
  | TYPE_UNSPECIFIED => False
  | MEMO_COMMENT payload => ∃ p, payload = some p ∧ p.RefersTo memo
  | MEMO_MENTION payload => ∃ p, payload = some p ∧ p.RefersTo memo

def Inbox.RefersTo (i : Inbox) : Prop := ∃ m, i.message = .message m ∧ m.RefersTo memo

structure Tables.Unreferenced (t : Tables) : Prop where
  relations : ∀ r ∈ t.relations, ¬r.RefersTo memo
  attachments : ∀ a ∈ t.attachments, ¬a.RefersTo memo
  reactions : ∀ r ∈ t.reactions, ¬r.RefersTo memo
  shares : ∀ s ∈ t.shares, ¬s.RefersTo memo
  inboxes : ∀ i ∈ t.inboxes, ¬i.RefersTo memo

end refers

def Tables.Comment (t : Tables) (child parent : Nat) : Prop :=
  ∃ r ∈ t.relations, r.type = .COMMENT ∧ r.memoId = child ∧ r.relatedMemoId = parent

inductive Tables.InTree (t : Tables) (root : Nat) : Nat → Prop
  | comment {child : Nat} : t.Comment child root → t.InTree root child
  | reply {child parent : Nat} : t.InTree root parent → t.Comment child parent → t.InTree root child

end Memoark.Store
