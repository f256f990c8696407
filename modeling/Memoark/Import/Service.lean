import Mathlib.Algebra.Group.Nat.Defs
import Memoark.Import.Parser
import Memoark.Server.UpdateMemo

/-! `PreviewMemoImport` and `ImportMemoExport` of `server/router/api/v1/memo_import_service.go`
down to `ImportMemosAtomically` of the store and its driver. -/
namespace Memoark.Import
open Store Server

structure Database where
  userIds : List Nat
  userIds_pos : ∀ id ∈ userIds, 0 < id
  memos : List Memo
  nextMemoId : Nat
  contentLengthLimit : Nat

inductive ImportError where
  | targetNotEmpty
  | failpoint
  | other (message : String)

def accountNonempty (db : Database) (creatorId : Nat) : Bool :=
  db.memos.any fun memo => memo.creatorId = creatorId

def Database.add (db : Database) (memo : Memo) : Database :=
  { db with
    memos := db.memos ++ [{ memo with id := db.nextMemoId }]
    nextMemoId := db.nextMemoId + 1 }

def insertMemo (db : Database) (memo : Memo) : Option Database :=
  if db.memos.any fun m => m.uid = memo.uid then none else some (db.add memo)

def insertMemos (failAfter : Nat) : Nat → Database → List Memo → Except ImportError Database
  | _, db, [] => .ok db
  | i, db, memo :: memos =>
    match insertMemo db memo with
    | none => .error (.other s!"failed to insert imported memo {i + 1}")
    | some db' =>
      if 0 < failAfter ∧ failAfter ≤ i + 1 then .error .failpoint
      else insertMemos failAfter (i + 1) db' memos

namespace Driver

def importMemosAtomically (failAfter : Nat) (db : Database) (creatorId : Nat)
    (memos : List Memo) : Except ImportError Database :=
  if creatorId ∉ db.userIds then
    .error (.other s!"failed to lock memo import target: user {creatorId} does not exist")
  else if accountNonempty db creatorId then .error .targetNotEmpty
  else insertMemos failAfter 0 db memos

end Driver

def checkImported (creatorId index : Nat) (memo : Memo) : Except ImportError Unit :=
  if memo.creatorId ≠ creatorId then
    .error (.other s!"memo {index} creator does not match import target")
  else if !uidMatches memo.uid.toList then .error (.other s!"memo {index} has invalid uid")
  else if memo.createdTs = 0 || memo.updatedTs = 0 then
    .error (.other s!"memo {index} has invalid timestamps")
  else .ok ()

def checkAllImported (creatorId : Nat) : Nat → List Memo → Except ImportError Unit
  | _, [] => .ok ()
  | index, memo :: memos =>
    match checkImported creatorId index memo with
    | .error e => .error e
    | .ok _ => checkAllImported creatorId (index + 1) memos

def importMemosAtomically (failAfter : Nat) (db : Database) (creatorId : Nat)
    (memos : List Memo) : Except ImportError Database :=
  if creatorId = 0 then .error (.other "invalid memo import creator")
  else
    match checkAllImported creatorId 1 memos with
    | .error e => .error e
    | .ok _ => Driver.importMemosAtomically failAfter db creatorId memos

def toInt32 (n : Nat) : Int := Int.bmod n 4294967296

structure MemoImportSkippedCounts where
  attachments : Int
  comments : Int
  relations : Int
  reactions : Int
  locations : Int
  settings : Int

def memoImportSkippedToProto (c : SkippedCounts) : MemoImportSkippedCounts :=
  ⟨toInt32 c.attachments, toInt32 c.comments, toInt32 c.relations, toInt32 c.reactions,
    toInt32 c.locations, toInt32 c.settings⟩

structure MemoImportPreview where
  envelopeValid : Bool
  canImport : Bool
  blockingReason : String
  total : Int
  normal : Int
  archived : Int
  invalid : Int
  unsupported : Int
  skipped : MemoImportSkippedCounts
  issues : List Issue
  sourceUser : String
  exportedAt : Option Time.Instant

def memoImportPreviewToProto (parsed : Document) : MemoImportPreview where
  envelopeValid := parsed.envelopeValid
  canImport := parsed.canImport
  blockingReason := parsed.blockingReason
  total := toInt32 parsed.total
  normal := toInt32 parsed.normal
  archived := toInt32 parsed.archived
  invalid := toInt32 parsed.invalid
  unsupported := toInt32 parsed.unsupported
  skipped := memoImportSkippedToProto parsed.skipped
  issues := parsed.issues
  sourceUser := parsed.sourceUser
  exportedAt := parsed.exportedAt

def memoImportWarnings (parsed : Document) : List String :=
  ((parsed.issues.filter fun issue => issue.kind = .unsupported).map fun issue =>
    if issue.sourceName = "" then issue.message
    else s!"{issue.sourceName}: {issue.message}").eraseDups

structure MemoImportResult where
  restored : Int
  skippedTotal : Int
  failed : Int
  normal : Int
  archived : Int
  skipped : MemoImportSkippedCounts
  warnings : List String

def maxMemoImportDataBytes : Nat := 64 * 2 ^ 20

def fetchCurrentUser (db : Database) (session : Option Nat) : Option Nat :=
  session.filter fun id => id ∈ db.userIds

def readMemoImport (db : Database) (session : Option Nat) (data : ByteArray) :
    Except String (Nat × Document) :=
  match fetchCurrentUser db session with
  | none => .error "user not authenticated"
  | some userId =>
    if maxMemoImportDataBytes < data.size then
      .error "memo export exceeds the 64 MiB import limit"
    else .ok (userId, parse data db.contentLengthLimit)

def previewMemoImport (db : Database) (session : Option Nat) (data : ByteArray) :
    Except String MemoImportPreview :=
  match readMemoImport db session data with
  | .error e => .error e
  | .ok (userId, parsed) =>
    let preview := memoImportPreviewToProto parsed
    if !preview.canImport then .ok preview
    else if accountNonempty db userId then
      .ok { preview with canImport := false, blockingReason := "target account is not empty" }
    else .ok preview

def memoImportRowStatus (state : String) : RowStatus :=
  if state = "ARCHIVED" then .archived else .normal

def memoImportVisibility (visibility : String) : Visibility :=
  if visibility = "PUBLIC" then .Public
  else if visibility = "PROTECTED" then .Protected
  else .Private

def recordMemo (userId : Nat) (uid : String) (record : Record) : Memo where
  id := 0
  uid := uid
  rowStatus := memoImportRowStatus record.state
  creatorId := userId
  createdTs := record.createTime.unix
  updatedTs := record.updateTime.unix
  content := record.content
  visibility := memoImportVisibility record.visibility
  pinned := record.pinned
  payload := ⟨none, none, []⟩
  parentUid := none

/-- The loop over the records; `uids` are the ids that `shortuuid.New` generates. -/
def createMemos (extractAll : ExtractAll) (userId : Nat) (uids : Nat → String) :
    Nat → List Record → Except String (List Memo)
  | _, [] => .ok []
  | i, record :: records =>
    match rebuildMemoPayload extractAll (recordMemo userId (uids i) record) with
    | none => .error "failed to parse imported memo content"
    | some memo => (createMemos extractAll userId uids (i + 1) records).map (memo :: ·)

def importErrorText : ImportError → String
  | .targetNotEmpty => "target account is not empty"
  | .failpoint => "memo import failed and was rolled back"
  | .other message => s!"memo import failed and was rolled back: {message}"

def importMemoExport (extractAll : ExtractAll) (uids : Nat → String) (db : Database)
    (session : Option Nat) (data : ByteArray) : Except String MemoImportResult × Database :=
  match readMemoImport db session data with
  | .error e => (.error e, db)
  | .ok (userId, parsed) =>
    if !parsed.canImport then (.error s!"invalid memo export: {parsed.blockingReason}", db)
    else
      match createMemos extractAll userId uids 0 parsed.records with
      | .error e => (.error e, db)
      | .ok creates =>
        match importMemosAtomically 0 db userId creates with
        | .error e => (.error (importErrorText e), db)
        | .ok db' =>
          (.ok {
            restored := toInt32 creates.length
            skippedTotal := toInt32 parsed.skipped.total
            failed := 0
            normal := toInt32 parsed.normal
            archived := toInt32 parsed.archived
            skipped := memoImportSkippedToProto parsed.skipped
            warnings := memoImportWarnings parsed }, db')

end Memoark.Import
