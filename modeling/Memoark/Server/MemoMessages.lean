import Mathlib.Data.List.Dedup
import Memoark.Server.UpdateMemo
import Memoark.Store.Database

/-! The errors of the API, the messages of memos with their reactions, relations and attachments
(`memo_service_converter.go`), and `checkMemoReadAccess` of `memo_service.go`. -/
namespace Memoark.Server
open Store

/-- The codes of `google.golang.org/grpc/codes` that the modelled calls return or meet. -/
inductive Code where
  | Canceled | Unknown | InvalidArgument | DeadlineExceeded | NotFound | AlreadyExists
  | PermissionDenied | Internal | Unavailable | Unauthenticated
  deriving DecidableEq

structure Status where
  code : Code
  message : String
  deriving DecidableEq

namespace Api

structure MemoRelation.Memo where
  name : String
  snippet : String
  deriving DecidableEq

inductive MemoRelation.Type where
  | REFERENCE | COMMENT
  deriving DecidableEq

structure MemoRelation where
  memo : MemoRelation.Memo
  relatedMemo : MemoRelation.Memo
  type : MemoRelation.Type
  deriving DecidableEq

structure Reaction where
  name : String
  creator : String
  contentId : String
  reactionType : String
  createTime : Timestamp

structure Attachment where
  name : String
  createTime : Timestamp
  filename : String
  type : String
  size : Int
  motionMedia : Option MotionMedia
  memo : Option String
  externalLink : String

structure Memo where
  name : String
  state : State
  creator : String
  createTime : Timestamp
  updateTime : Timestamp
  content : String
  visibility : Visibility
  pinned : Bool
  tags : List String
  property : Option MemoPayload.Property
  location : Option MemoPayload.Location
  parent : Option String
  reactions : List Reaction
  relations : List MemoRelation
  attachments : List Attachment
  snippet : String

end Api

def memoName (uid : String) : String := "memos/" ++ uid

def buildUserName (username : String) : String := "users/" ++ username

def isSuperUser (user : UserRecord) : Bool := user.role = .ADMIN

/-- `timestamppb.New(time.Unix(ts, 0))`. -/
def timestamp (ts : Int) : Api.Timestamp := ⟨ts, 0⟩

def convertStateFromStore : RowStatus → Api.State
  | .normal => .normal
  | .archived => .archived

def convertVisibilityFromStore : Visibility → Api.Visibility
  | .Private => .Private
  | .Protected => .Protected
  | .Public => .Public

def convertMemoRelationTypeFromStore : MemoRelationType → Api.MemoRelation.Type
  | .COMMENT => .COMMENT
  | .REFERENCE => .REFERENCE

section converter

variable (db : Database)

def fetchCurrentUser (userID : Nat) : Except String (Option UserRecord) :=
  if userID = 0 then .ok none
  else
    match db.getUser userID with
    | none => .error ("user " ++ toString userID ++ " not found")
    | some user => if user.rowStatus = .archived then .ok none else .ok (some user)

def currentUser (userID : Nat) (failure : String) : Except Status (Option UserRecord) :=
  (fetchCurrentUser db userID).mapError fun _ => ⟨.Internal, failure⟩

def checkMemoReadAccess (userID : Nat) (memo : Option Memo) : Except Status Unit :=
  match memo with
  | none => .error ⟨.NotFound, "memo not found"⟩
  | some memo => do
    -- Archived memos are only visible to their creator.
    if memo.rowStatus = .archived then
      let user ← currentUser db userID "failed to get user"
      if user.all (memo.creatorId ≠ ·.id) then throw ⟨.NotFound, "memo not found"⟩
    if memo.visibility ≠ .Public then
      let some user ← currentUser db userID "failed to get user"
        | throw ⟨.Unauthenticated, "user not authenticated"⟩
      if memo.visibility = .Private ∧ memo.creatorId ≠ user.id then
        throw ⟨.PermissionDenied, "permission denied"⟩

abbrev UsersByID := Nat → Option UserRecord

def listUsersByID (userIDs : List Nat) : UsersByID :=
  if userIDs = [] then fun _ => none
  else fun id => (db.listUsers userIDs.dedup).find? (·.id = id)

def listUsersByIDWithExisting (userIDs : List Nat) (existing : UsersByID) : UsersByID :=
  let missingUserIDs := (userIDs.filter fun id => (existing id).isNone).dedup
  if missingUserIDs = [] then existing
  else fun id => (existing id).or (listUsersByID db missingUserIDs id)

def convertReaction (reaction : ReactionRecord) (creator : UserRecord) : Api.Reaction where
  name := reaction.contentId ++ "/reactions/" ++ toString reaction.id
  creator := buildUserName creator.username
  contentId := reaction.contentId
  reactionType := reaction.reactionType
  createTime := timestamp reaction.createdTs

def convertReactionsFromStoreWithCreators (reactions : List ReactionRecord)
    (creatorMap : UsersByID) : List Api.Reaction :=
  if reactions = [] then []
  else
    let creatorsByID := listUsersByIDWithExisting db (reactions.map (·.creatorId)) creatorMap
    reactions.filterMap fun reaction =>
      (creatorsByID reaction.creatorId).map (convertReaction reaction)

def convertAttachmentFromStore (attachment : AttachmentRecord) : Api.Attachment where
  name := "attachments/" ++ attachment.uid
  createTime := timestamp attachment.createdTs
  filename := attachment.filename
  type := attachment.type
  size := attachment.size
  motionMedia := attachment.motionMedia
  memo := ((db.memoUid attachment).filter (· ≠ "")).map memoName
  externalLink :=
    if attachment.storageType = .EXTERNAL ∨ attachment.storageType = .S3 then attachment.reference
    else ""

/-- `GenerateSnippet` of the markdown service, with its limit of 64 characters. -/
abbrev GenerateSnippet := String → Except String String

inductive ConvertError where
  | creatorNotFound
  | other (message : String)

def getMemoContentSnippet (generateSnippet : GenerateSnippet) (content : String) :
    Except String String :=
  (generateSnippet content).mapError ("failed to generate snippet: " ++ ·)

def convertMemoFromStoreWithCreators (generateSnippet : GenerateSnippet) (memo : Memo)
    (reactions : List ReactionRecord) (attachments : List AttachmentRecord)
    (relations : List Api.MemoRelation) (creatorMap : UsersByID) :
    Except ConvertError Api.Memo :=
  match creatorMap memo.creatorId with
  | none => .error .creatorNotFound
  | some creator =>
    match getMemoContentSnippet generateSnippet memo.content with
    | .error err => .error (.other ("failed to get memo content snippet: " ++ err))
    | .ok snippet =>
      .ok {
        name := memoName memo.uid
        state := convertStateFromStore memo.rowStatus
        creator := buildUserName creator.username
        createTime := timestamp memo.createdTs
        updateTime := timestamp memo.updatedTs
        content := memo.content
        visibility := convertVisibilityFromStore memo.visibility
        pinned := memo.pinned
        tags := memo.payload.tags
        property := memo.payload.property
        location := memo.payload.location
        parent := memo.parentUid.map memoName
        reactions := convertReactionsFromStoreWithCreators db reactions creatorMap
        relations := relations
        attachments := attachments.map (convertAttachmentFromStore db)
        snippet := snippet }

def convertMemoFromStore (generateSnippet : GenerateSnippet) (memo : Memo)
    (reactions : List ReactionRecord) (attachments : List AttachmentRecord)
    (relations : List Api.MemoRelation) : Except ConvertError Api.Memo :=
  convertMemoFromStoreWithCreators db generateSnippet memo reactions attachments relations
    (listUsersByID db [memo.creatorId])

def mergeMemoRelations (groups : List (List MemoRelation)) : List MemoRelation :=
  groups.flatten.foldl (fun merged r => if r ∈ merged then merged else merged ++ [r]) []

def relationFilter (user : Option UserRecord) (row : MemoRecord) : Bool :=
  match user with
  | none => row.visibility = .Public
  | some user => row.creatorId = user.id ∨ row.visibility = .Public ∨ row.visibility = .Protected

/-- The relations that one memo has in a list of them. A relation of a memo with itself counts
for both of its ends. -/
def relationsOf (uidOf : Nat → Option String) (snippetOf : Nat → String)
    (relations : List MemoRelation) (id : Nat) : List Api.MemoRelation :=
  relations.flatMap fun r =>
    match uidOf r.memoId, uidOf r.relatedMemoId with
    | some memoUid, some relatedUid =>
      let relation : Api.MemoRelation :=
        ⟨⟨memoName memoUid, snippetOf r.memoId⟩, ⟨memoName relatedUid, snippetOf r.relatedMemoId⟩,
          convertMemoRelationTypeFromStore r.type⟩
      (if r.memoId = id then [relation] else []) ++ if r.relatedMemoId = id then [relation] else []
    | _, _ => []

def extraMemos (memos : List Memo) (relations : List MemoRelation) (includeSnippets : Bool) :
    List Memo :=
  let neededIDs := ((relations.flatMap fun r => [r.memoId, r.relatedMemoId]).filter
    fun id => memos.all (·.id ≠ id)).dedup
  if neededIDs = [] then []
  else db.listMemos { idList := neededIDs, excludeContent := !includeSnippets }

def uidIn (memos : List Memo) (id : Nat) : Option String := (memos.find? (·.id = id)).map (·.uid)

def snippetsOf (generateSnippet : GenerateSnippet) (includeSnippets : Bool) (failure : String)
    (memos : List Memo) : Except String (List (Nat × String)) :=
  if includeSnippets then
    memos.mapM fun memo =>
      ((getMemoContentSnippet generateSnippet memo.content).mapError (failure ++ ·)).map
        (memo.id, ·)
  else .ok []

def batchConvertMemoRelations (generateSnippet : GenerateSnippet) (userID : Nat)
    (memos : List Memo) (includeSnippets : Bool) :
    Except String (Nat → List Api.MemoRelation) :=
  if memos = [] then .ok fun _ => []
  else do
    let user ← (fetchCurrentUser db userID).mapError ("failed to get user: " ++ ·)
    let ids := memos.map (·.id)
    let relations := mergeMemoRelations
      [db.listMemoRelations { sourceMemoIdList := ids, memoFilter := some (relationFilter user) },
        db.listMemoRelations { relatedMemoIdList := ids, memoFilter := some (relationFilter user) }]
    let snippets ← snippetsOf generateSnippet includeSnippets
      "failed to get memo content snippet: " memos
    let extra := extraMemos db memos relations includeSnippets
    let extraSnippets ← snippetsOf generateSnippet includeSnippets
      "failed to get related memo content snippet: " extra
    let snippetOf := fun id =>
      (((snippets ++ extraSnippets).find? (·.1 = id)).map (·.2)).getD ""
    return fun id =>
      if id ∈ ids then relationsOf (uidIn (memos ++ extra)) snippetOf relations id else []

def loadMemoRelations (generateSnippet : GenerateSnippet) (userID : Nat) (memo : Memo) :
    Except String (List Api.MemoRelation) := do
  return (← batchConvertMemoRelations db generateSnippet userID [memo] true) memo.id

end converter

end Memoark.Server
