import Memoark.Server.CreateMemoComment
import Memoark.Server.ReadMemos
import Memoark.Store.Storage

/-! The calls that write memos, their comments and their reactions: `memo_service.go`,
`memo_attachment_service.go`, `memo_relation_service.go` and `reaction_service.go`. Webhooks,
events and mention notifications, whose failures are only logged, are left out. -/
namespace Memoark.Server.WriteMemos
open Store
open Program (Durable)

abbrev Handler (α : Type) := Durable Storage Table Status α

structure Env extends Services where
  extractAll : ExtractAll
  /-- `none` is a setting that cannot be read. -/
  contentLengthLimit : Option Nat
  now : Int
  /-- What `shortuuid.New` returns. -/
  newUID : String
  /-- The stored file of an attachment cannot be removed. -/
  storageFails : AttachmentRecord → Bool

/-- A relation of a request; `none` is a related memo that is left out, or an unspecified type. -/
structure RelationInput where
  relatedMemo : Option String
  type : Option Api.MemoRelation.Type

structure MemoInput where
  content : String
  visibility : Api.Visibility
  createTime : Option Api.Timestamp
  updateTime : Option Api.Timestamp
  location : Option MemoPayload.Location
  attachments : List String
  relations : List RelationInput

def convertMemoRelationTypeToStore : Option Api.MemoRelation.Type → MemoRelationType
  | some .COMMENT => .COMMENT
  | _ => .REFERENCE

def panicked : Status := ⟨.Internal, "internal server error"⟩

def answered (answer failure : Status) : Status :=
  if failure = panicked then panicked else answer

def wrap (text : String) (failure : Status) : Status :=
  answered ⟨failure.code, text ++ ": " ++ failure.message⟩ failure

def requireUser (db : Database) (userID : Nat) (failure : String) : Except Status UserRecord := do
  match ← currentUser db userID failure with
  | none => .error ⟨.Unauthenticated, "user not authenticated"⟩
  | some user => .ok user

def checkMemoWriteAccess (user : UserRecord) (memo : Memo) : Except Status Unit :=
  if memo.visibility = .Private ∧ memo.creatorId ≠ user.id ∧ ¬isSuperUser user then
    .error ⟨.PermissionDenied, "permission denied"⟩
  else .ok ()

def foundMemo (memo : Option Memo) : Except Status Memo :=
  match memo with
  | none => .error ⟨.NotFound, "memo not found"⟩
  | some memo => .ok memo

section attachments

def extractAttachmentUIDFromName (name : String) : Except String String :=
  getNameParentToken name "attachments/"

def requestedAttachment (db : Database) (user : UserRecord) (name : String) :
    Except Status AttachmentRecord := do
  let uid ← (extractAttachmentUIDFromName name).mapError
    fun err => ⟨.InvalidArgument, "invalid attachment name: " ++ err⟩
  match (db.listAttachments { uid := some uid }).head? with
  | none => .error ⟨.NotFound, "attachment not found: " ++ uid⟩
  | some attachment =>
    if attachment.creatorId ≠ user.id ∧ ¬isSuperUser user then
      .error ⟨.PermissionDenied, "cannot attach another user's attachment"⟩
    else .ok attachment

def motionGroup (attachment : AttachmentRecord) : Option String :=
  (attachment.motionMedia.map (·.groupId)).filter (· ≠ "")

def appendAttachments (normalized group : List AttachmentRecord) : List AttachmentRecord :=
  group.foldl (fun normalized a =>
    if a.uid ∈ normalized.map (·.uid) then normalized else normalized ++ [a]) normalized

def normalizeRound (current requested : List AttachmentRecord)
    (acc : List AttachmentRecord × List String) (attachment : AttachmentRecord) :
    List AttachmentRecord × List String :=
  match motionGroup attachment with
  | none => (appendAttachments acc.1 [attachment], acc.2)
  | some groupId =>
    if groupId ∈ acc.2 then acc
    else
      let currentGroup := current.filter (motionGroup · = some groupId)
      let requestGroup := requested.filter (motionGroup · = some groupId)
      -- A group that is requested in part is removed as a whole.
      if 2 ≤ currentGroup.length ∧ ¬∀ a ∈ currentGroup, a.uid ∈ requestGroup.map (·.uid) then
        (acc.1, groupId :: acc.2)
      else (appendAttachments acc.1 requestGroup, groupId :: acc.2)

def normalizeMemoAttachmentRequest (db : Database) (user : UserRecord)
    (current : List AttachmentRecord) (names : List String) :
    Except Status (List AttachmentRecord) := do
  let requested ← names.mapM (requestedAttachment db user)
  return (requested.foldl (normalizeRound current requested) ([], [])).1

/-- `Store.DeleteAttachment`. Other storage that fails is only logged. -/
def deleteAttachment (env : Env) (id : Nat) : Statement Unit := do
  let s ← Durable.get
  match (s.listAttachments { id := some id }).head? with
  | none => Durable.fail "attachment not found"
  | some attachment =>
    if env.storageFails attachment ∧ attachment.storageType = .LOCAL then
      Durable.fail "failed to delete local file"
    else Storage.deleteAttachment id

def removeAttachment (env : Env) (user : UserRecord) (attachment : AttachmentRecord) :
    Handler Unit :=
  if attachment.creatorId ≠ user.id ∧ ¬isSuperUser user then
    Durable.fail ⟨.PermissionDenied, "cannot remove another user's attachment"⟩
  else (deleteAttachment env attachment.id).mapFailure
    fun _ => ⟨.Internal, "failed to delete attachment"⟩

def setMemoAttachmentsInternal (env : Env) (user : UserRecord) (memo : Memo)
    (names : List String) : Handler Unit := do
  let s ← Durable.get
  let current := s.listAttachments { memoId := some memo.id }
  let normalized ← Durable.ofExcept
    (normalizeMemoAttachmentRequest s.toDatabase user current names)
  Durable.forEach (removeAttachment env user)
    (current.filter fun a => a.id ∉ normalized.map (·.id))
  Durable.forEach (fun (a, index) =>
    (Storage.updateAttachment a.id memo.id (env.now + index)).mapFailure
      fun err => ⟨.Internal, "failed to update attachment: " ++ err⟩) normalized.reverse.zipIdx

end attachments

section relations

def setMemoRelation (memo : Memo) (relation : RelationInput) : Handler Unit :=
  match relation.relatedMemo with
  -- The missing message is dereferenced.
  | none => Durable.fail panicked
  | some relatedMemo =>
    -- Reflexive relations and comment relations are ignored.
    if memoName memo.uid = relatedMemo then return
    else if relation.type = some .COMMENT then return
    else do
      let uid ← Durable.ofExcept ((extractMemoUIDFromName relatedMemo).mapError
        fun err => ⟨.InvalidArgument, "invalid related memo name: " ++ err⟩)
      let s ← Durable.get
      match s.getMemo { uid := some uid } with
      -- The missing memo is dereferenced.
      | none => Durable.fail panicked
      | some related =>
        (Storage.upsertMemoRelation
          ⟨memo.id, related.id, convertMemoRelationTypeToStore relation.type⟩).mapFailure
            fun _ => ⟨.Internal, "failed to upsert memo relation"⟩

def setMemoRelationsInternal (memo : Memo) (relations : List RelationInput) : Handler Unit := do
  (Storage.deleteMemoRelation { memoId := some memo.id, type := some .REFERENCE }).mapFailure
    fun _ => ⟨.Internal, "failed to delete memo relation"⟩
  Durable.forEach (setMemoRelation memo) relations

end relations

section create

def validateAndGenerateUID (provided newUID : String) : Except Status String :=
  let uid := Go.trimSpace provided
  if uid = "" then .ok newUID
  else if UIDMatcher uid then .ok uid
  else .error ⟨.InvalidArgument, "invalid ID format: must be 1-36 characters, alphanumeric and " ++
    "hyphens only, cannot start or end with hyphen"⟩

def timestampValid (t : Api.Timestamp) : Bool :=
  -62135596800 ≤ t.seconds ∧ t.seconds ≤ 253402300799 ∧ 0 ≤ t.nanos ∧ t.nanos < 1000000000

def customTs (t : Option Api.Timestamp) : Int :=
  if t.any timestampValid then Api.Timestamp.unix t else 0

def getContentLengthLimit (env : Env) : Except Status Nat :=
  match env.contentLengthLimit with
  | none => .error ⟨.Internal, "failed to get content length limit"⟩
  | some limit => .ok limit

def checkContentLength (content : String) (limit : Nat) : Except Status Unit :=
  if limit < content.utf8ByteSize then
    .error ⟨.InvalidArgument, "content too long (max " ++ toString limit ++ " characters)"⟩
  else .ok ()

def rebuildPayload (env : Env) (memo : Memo) : Except Status Memo :=
  match rebuildMemoPayload env.extractAll memo with
  | none => .error ⟨.Internal, "failed to rebuild memo payload"⟩
  | some memo => .ok memo

def newMemo (env : Env) (user : UserRecord) (memoId : String) (memo : MemoInput) :
    Except Status Memo := do
  let uid ← validateAndGenerateUID memoId env.newUID
  let limit ← getContentLengthLimit env
  checkContentLength memo.content limit
  let create ← rebuildPayload env
    { id := 0, uid, rowStatus := .normal, creatorId := user.id, createdTs := customTs memo.createTime,
      updatedTs := customTs memo.updateTime, content := memo.content,
      visibility := convertVisibilityToStore memo.visibility, pinned := false,
      payload := ⟨none, none, []⟩, parentUid := none }
  return { create with
    payload := { create.payload with location := memo.location.or create.payload.location } }

def storeCreateMemo (env : Env) (create : Memo) : Handler Memo :=
  if UIDMatcher create.uid then
    (Storage.createMemo create env.now).mapFailure fun _ =>
      ⟨.AlreadyExists, "memo with ID " ++ Go.quoted create.uid ++ " already exists"⟩
  else Durable.fail ⟨.Unknown, "invalid uid"⟩

def setNewAttachments (env : Env) (user : UserRecord) (memo : Memo) (names : List String) :
    Handler (List AttachmentRecord) :=
  if names = [] then return []
  else do
    (setMemoAttachmentsInternal env user memo names).mapFailure
      (wrap "failed to set memo attachments")
    let s ← Durable.get
    return s.listAttachments { memoId := some memo.id }

def setNewRelations (memo : Memo) (relations : List RelationInput) : Handler Unit :=
  if relations = [] then return
  else (setMemoRelationsInternal memo relations).mapFailure (wrap "failed to set memo relations")

def wrapConverted : Except ConvertError Api.Memo → Except Status Api.Memo
  | .ok message => .ok message
  | .error .creatorNotFound => .error ⟨.Unknown, "failed to convert memo: memo creator not found"⟩
  | .error (.other err) => .error ⟨.Unknown, "failed to convert memo: " ++ err⟩

def memoMessage (env : Env) (db : Database) (userID : Nat) (memo : Memo)
    (reactions : List ReactionRecord) (attachments : List AttachmentRecord) :
    Except Status Api.Memo := do
  let relations ← (loadMemoRelations db env.generateSnippet userID memo).mapError
    fun err => ⟨.Unknown, "failed to load memo relations: " ++ err⟩
  wrapConverted
    (convertMemoFromStore db env.generateSnippet memo reactions attachments relations)

def createMemo (env : Env) (userID : Nat) (memoId : String) (memo : MemoInput) :
    Handler Api.Memo := do
  let s ← Durable.get
  let user ← Durable.ofExcept (requireUser s.toDatabase userID "failed to get user")
  let create ← Durable.ofExcept (newMemo env user memoId memo)
  let created ← storeCreateMemo env create
  let attachments ← setNewAttachments env user created memo.attachments
  setNewRelations created memo.relations
  let s ← Durable.get
  Durable.ofExcept (memoMessage env s.toDatabase userID created [] attachments)

end create

section comment

def checkMemoComment (db : Database) (userID : Nat) (name : String) (comment : Option MemoInput) :
    Except Status (Memo × MemoInput) := do
  let memoUID ← (extractMemoUIDFromName name).mapError
    fun err => ⟨.InvalidArgument, "invalid memo name: " ++ err⟩
  let relatedMemo ← foundMemo (db.getMemo { uid := some memoUID })
  let user ← requireUser db userID "failed to get user"
  checkMemoWriteAccess user relatedMemo
  match comment with
  | none => .error ⟨.InvalidArgument, "comment is required"⟩
  | some comment =>
    .ok (relatedMemo, { comment with
      visibility := convertVisibilityFromStore relatedMemo.visibility })

def memoOfMessage (db : Database) (message : Api.Memo) : Except Status Memo := do
  let memoUID ← (extractMemoUIDFromName message.name).mapError
    fun err => ⟨.InvalidArgument, "invalid memo name: " ++ err⟩
  match db.getMemo { uid := some memoUID } with
  | none => .error panicked
  | some memo => .ok memo

def resolveCreator (db : Database) (name : String) : Except Status UserRecord := do
  let username ← (getNameParentToken name "users/").mapError
    fun _ => ⟨.InvalidArgument, "invalid memo creator"⟩
  match db.users.find? (·.username = username) with
  | none => .error ⟨.NotFound, "memo creator not found"⟩
  | some creator => .ok creator

def notifyCreator (creatorID : Nat) (visibility : Api.Visibility) (memo relatedMemo : Memo) :
    Handler Unit :=
  match visibility with
  | .Private => return
  | _ =>
    if creatorID = relatedMemo.creatorId then return
    else (Storage.createInbox creatorID relatedMemo.creatorId
      (.MEMO_COMMENT (some ⟨memo.id, relatedMemo.id⟩))).mapFailure
        fun _ => ⟨.Internal, "failed to create inbox"⟩

def createMemoComment (env : Env) (userID : Nat) (name : String) (comment : Option MemoInput)
    (commentId : String) : Handler Api.Memo := do
  let s ← Durable.get
  let (relatedMemo, comment) ← Durable.ofExcept
    (checkMemoComment s.toDatabase userID name comment)
  let memoComment ← (createMemo env userID commentId comment).mapFailure
    (answered ⟨.Internal, "failed to create memo"⟩)
  let s ← Durable.get
  let memo ← Durable.ofExcept (memoOfMessage s.toDatabase memoComment)
  (Storage.upsertMemoRelation ⟨memo.id, relatedMemo.id, .COMMENT⟩).mapFailure
    fun _ => ⟨.Internal, "failed to create memo relation"⟩
  let s ← Durable.get
  let relations ← Durable.ofExcept
    ((loadMemoRelations s.toDatabase env.generateSnippet userID memo).mapError
      fun _ => ⟨.Internal, "failed to load memo relations"⟩)
  let creator ← Durable.ofExcept (resolveCreator s.toDatabase memoComment.creator)
  notifyCreator creator.id memoComment.visibility memo relatedMemo
  return { memoComment with relations }

end comment

section reaction

def convertReactionFromStore (db : Database) (reaction : ReactionRecord) :
    Except Status Api.Reaction :=
  match listUsersByID db [reaction.creatorId] reaction.creatorId with
  | none => .error ⟨.NotFound, "reaction creator not found"⟩
  | some creator => .ok (convertReaction reaction creator)

def checkMemoReaction (db : Database) (userID : Nat) (contentId : String) :
    Except Status UserRecord := do
  let user ← requireUser db userID "failed to get current user"
  let memoUID ← (extractMemoUIDFromName contentId).mapError
    fun err => ⟨.InvalidArgument, "invalid memo name: " ++ err⟩
  let memo ← foundMemo (db.getMemo { uid := some memoUID })
  checkMemoWriteAccess user memo
  return user

def upsertMemoReaction (env : Env) (userID : Nat) (contentId reactionType : String) :
    Handler Api.Reaction := do
  let s ← Durable.get
  let user ← Durable.ofExcept (checkMemoReaction s.toDatabase userID contentId)
  let reaction ← (Storage.upsertReaction ⟨0, 0, user.id, contentId, reactionType⟩
    env.now).mapFailure fun _ => ⟨.Internal, "failed to upsert reaction"⟩
  let s ← Durable.get
  Durable.ofExcept (convertReactionFromStore s.toDatabase reaction)

end reaction

section update

structure UpdateCall where
  name : String
  memo : UpdateMemoRequest
  attachments : List String
  relations : List RelationInput

def answers (env : Env) (db : Database) (memo : Memo) : Answers where
  contentLengthLimit := env.contentLengthLimit
  parentMemo := some (memo.parentUid.bind fun uid =>
    (db.getMemo { uid := some uid }).map (·.visibility))
  now := env.now
  setMemoAttachments := some ()
  setMemoRelations := some ()

def setChildren (env : Env) (call : UpdateCall) (user : UserRecord) (memo : Memo) (path : Path) :
    Durable Storage Table String Unit :=
  match path with
  | .attachments => (setMemoAttachmentsInternal env user memo call.attachments).mapFailure
      fun _ => "failed to set memo attachments"
  | .relations => (setMemoRelationsInternal memo call.relations).mapFailure
      fun failure => (answered ⟨failure.code, "failed to set memo relations"⟩ failure).message
  | _ => return

def updateRound (env : Env) (call : UpdateCall) (user : UserRecord) (d : Draft) (path : Path) :
    Durable Storage Table String Draft := do
  setChildren env call user d.memo path
  let s ← Durable.get
  Durable.ofExcept
    (applyPath env.extractAll call.memo (answers env s.toDatabase d.memo) d path)

def checkUpdate (db : Database) (userID : Nat) (call : UpdateCall) :
    Except String (UserRecord × Memo) := do
  let memoUID ← (extractMemoUIDFromName call.name).mapError ("invalid memo name: " ++ ·)
  if call.memo.paths = [] then .error "update mask is required"
  else
    match db.getMemo { uid := some memoUID } with
    | none => .error "memo not found"
    | some memo =>
      match fetchCurrentUser db userID with
      | .error _ => .error "failed to get current user"
      | .ok none => .error "user not authenticated"
      | .ok (some user) =>
        if memo.creatorId ≠ user.id ∧ ¬isSuperUser user then .error "permission denied"
        else .ok (user, memo)

def updateDraft (env : Env) (userID : Nat) (call : UpdateCall) :
    Durable Storage Table String Draft := do
  let s ← Durable.get
  let (user, memo) ← Durable.ofExcept (checkUpdate s.toDatabase userID call)
  Durable.fold (updateRound env call user) (Draft.start memo) call.memo.paths

def buildUpdatedMemoState (env : Env) (db : Database) (userID memoID : Nat) :
    Except String Api.Memo :=
  match db.getMemo { id := some memoID } with
  | none => .error "memo not found"
  | some memo =>
    (memoMessage env db userID memo (db.listReactions { contentId := some (memoName memo.uid) })
      (db.listAttachments { memoId := some memo.id })).mapError (·.message)

def updateMemo (env : Env) (userID : Nat) (call : UpdateCall) :
    Durable Storage Table String Api.Memo := do
  let d ← updateDraft env userID call
  Storage.updateMemo d.memo.id d.update
  let s ← Durable.get
  Durable.ofExcept (buildUpdatedMemoState env s.toDatabase userID d.memo.id)

end update

section delete

def storeDeleteMemo (env : Env) (id : Nat) : Statement Unit := do
  Storage.deleteMemoRelation { memoId := some id }
  Storage.deleteMemoRelation { relatedMemoId := some id }
  let s ← Durable.get
  Durable.forEach (fun a => deleteAttachment env a.id) (s.listAttachments { memoId := some id })
  Storage.deleteMemo id

def checkDelete (db : Database) (userID : Nat) (name : String) : Except String Memo := do
  let memoUID ← (extractMemoUIDFromName name).mapError ("invalid memo name: " ++ ·)
  match db.getMemo { uid := some memoUID } with
  | none => .error "memo not found"
  | some memo =>
    match fetchCurrentUser db userID with
    | .error _ => .error "failed to get current user"
    | .ok none => .error "user not authenticated"
    | .ok (some user) =>
      if memo.creatorId ≠ user.id ∧ ¬isSuperUser user then .error "permission denied"
      else .ok memo

def deleteMemo (env : Env) (userID : Nat) (name : String) : Statement Unit := do
  let s ← Durable.get
  let memo ← Durable.ofExcept (checkDelete s.toDatabase userID name)
  -- Only the direct comments; each call handles their relations and attachments.
  Durable.forEach (fun r : MemoRelation =>
      (storeDeleteMemo env r.memoId).mapFailure fun _ => "failed to delete memo comment")
    (s.listMemoRelations { relatedMemoId := some memo.id, type := some .COMMENT })
  (storeDeleteMemo env memo.id).mapFailure fun _ => "failed to delete memo"

end delete

end Memoark.Server.WriteMemos
