import Memoark.Go.Strings
import Memoark.Server.MemoMessages

/-! `GetMemo` and `ListMemos` of `memo_service.go`. -/
namespace Memoark.Server
open Store

def getNameParentToken (name tokenPrefix : String) : Except String String :=
  match name.toList.splitOn '/' with
  | [head, token] =>
    if String.ofList head ++ "/" ≠ tokenPrefix then
      .error ("invalid prefix " ++ Go.quoted tokenPrefix ++ " in request " ++ Go.quoted name)
    else if token = [] then
      .error ("invalid request " ++ Go.quoted name ++ " with empty prefix " ++
        Go.quoted tokenPrefix)
    else .ok (String.ofList token)
  | _ => .error ("invalid request " ++ Go.quoted name)

def extractMemoUIDFromName (name : String) : Except String String :=
  getNameParentToken name "memos/"

section orderBy

def goFields (cs : List Char) : List (List Char) := (cs.splitOnP Go.isSpace).filter (· ≠ [])

structure OrderFlags where
  hasPinned : Bool
  hasExplicitTimeField : Bool

def orderDirection : List (List Char) → Except String String
  | [] => .ok "desc"
  | direction :: _ =>
    let lower := String.ofList (direction.map Char.toLower)
    if lower ≠ "asc" ∧ lower ≠ "desc" then
      .error ("invalid order direction: " ++ String.ofList direction ++
        ", must be 'asc' or 'desc'")
    else .ok lower

def orderField (field : List Char) (find : FindMemo) (flags : OrderFlags) :
    Except String (FindMemo × OrderFlags) :=
  match goFields field with
  | [] => .ok (find, flags)
  | fieldName :: rest => do
    let fieldDirection ← orderDirection rest
    if fieldName = "pinned".toList then
      .ok ({ find with orderByPinned := true }, { flags with hasPinned := true })
    else if fieldName = "create_time".toList ∨ fieldName = "name".toList then
      -- Only the first time field counts.
      .ok (if flags.hasExplicitTimeField then find
        else { find with orderByTimeAsc := fieldDirection = "asc" },
        { flags with hasExplicitTimeField := true })
    else if fieldName = "update_time".toList then
      .ok (if flags.hasExplicitTimeField then find
        else { find with orderByUpdatedTs := true, orderByTimeAsc := fieldDirection = "asc" },
        { flags with hasExplicitTimeField := true })
    else
      .error ("unsupported order field: " ++ String.ofList fieldName ++
        ", supported fields are: pinned, create_time, update_time, name")

def orderFields : List (List Char) → FindMemo → OrderFlags → Except String (FindMemo × OrderFlags)
  | [], find, flags => .ok (find, flags)
  | field :: fields, find, flags => do
    let (find, flags) ← orderField field find flags
    orderFields fields find flags

def parseMemoOrderBy (orderBy : String) (find : FindMemo) : Except String FindMemo :=
  if Go.trimSpace orderBy = "" then .error "empty order_by"
  else do
    let fields := orderBy.toList.splitOn ','
    let (find, flags) ← orderFields fields find ⟨false, false⟩
    if flags.hasPinned ∧ ¬find.orderByUpdatedTs ∧ fields.length = 1 then
      return { find with orderByTimeAsc := false }
    else return find

end orderBy

section requests

structure PageToken where
  limit : Int
  offset : Int
  deriving DecidableEq

/-- A `ListMemosRequest`; the token is decoded, and absent if it is empty. -/
structure ListMemosRequest where
  pageSize : Int
  pageToken : Option (Except String PageToken)
  state : Api.State
  orderBy : String
  filter : String

structure ListMemosResponse where
  memos : List Api.Memo
  nextPageToken : Option PageToken

def defaultPageSize : Nat := 10

def maxPageSize : Nat := 1000

def normalizePageSize (pageSize : Int) : Nat :=
  if pageSize ≤ 0 then defaultPageSize
  else if maxPageSize < pageSize then maxPageSize
  else pageSize.toNat

def getPageToken (limit offset : Nat) : PageToken :=
  ⟨Int.bmod limit 4294967296, Int.bmod offset 4294967296⟩

/-- The parts of the service that read no table: the filter engine and the markdown service. -/
structure Services where
  compileFilter : String → Except String (MemoRecord → Bool)
  generateSnippet : GenerateSnippet

def orderStep (request : ListMemosRequest) (find : FindMemo) : Except Status FindMemo :=
  if request.orderBy ≠ "" then
    (parseMemoOrderBy request.orderBy find).mapError
      fun err => ⟨.InvalidArgument, "invalid order_by: " ++ err⟩
  else .ok { find with orderByTimeAsc := false }

def filterStep (services : Services) (request : ListMemosRequest) :
    Except Status (List (MemoRecord → Bool)) :=
  if request.filter ≠ "" then
    ((services.compileFilter request.filter).mapError
      fun err => ⟨.InvalidArgument, "invalid filter: " ++ err⟩).map ([·])
  else .ok []

def visibilityStep (currentUser : Option UserRecord) (find : FindMemo) : FindMemo :=
  match currentUser with
  | none => { find with visibilityList := [.Public] }
  | some user =>
    if find.creatorId = none then
      { find with filters := find.filters ++ [relationFilter (some user)] }
    else if find.creatorId ≠ some user.id then
      { find with visibilityList := [.Public, .Protected] }
    else find

def listedState (request : ListMemosRequest) : RowStatus :=
  match request.state with
  | .archived => .archived
  | _ => .normal

/-- The memos that a list request asks for; `none` is an empty answer. -/
def findMemos (services : Services) (db : Database) (userID : Nat) (request : ListMemosRequest) :
    Except Status (Option FindMemo) := do
  let currentUser ← currentUser db userID "failed to get user"
  let rowStatus := listedState request
  -- Archived memos are only visible to their creator.
  if rowStatus = .archived ∧ currentUser.isNone then .ok none
  else
    let creatorId := if rowStatus = .archived then currentUser.map (·.id) else none
    let find ← orderStep request { excludeComments := true, rowStatus := some rowStatus, creatorId }
    let filters ← filterStep services request
    .ok (some (visibilityStep currentUser { find with filters }))

def pageBounds (request : ListMemosRequest) : Except Status (Nat × Nat) :=
  match request.pageToken with
  | none => .ok (min (normalizePageSize request.pageSize) maxPageSize, 0)
  | some (.ok token) =>
    .ok (min (normalizePageSize token.limit) maxPageSize, token.offset.toNat)
  | some (.error err) => .error ⟨.InvalidArgument, "invalid page token: " ++ err⟩

def convertListed : Except ConvertError Api.Memo → Except Status (Option Api.Memo)
  | .ok message => .ok (some message)
  | .error .creatorNotFound => .ok none
  | .error (.other err) => .error ⟨.Unknown, "failed to convert memo: " ++ err⟩

def convertMemos (services : Services) (db : Database) (userID : Nat) (memos : List Memo) :
    Except Status (List Api.Memo) := do
  let reactions := db.listReactions { contentIdList := memos.map fun m => memoName m.uid }
  let attachments := db.listAttachments { memoIdList := memos.map (·.id) }
  let relationMap ← (batchConvertMemoRelations db services.generateSnippet userID memos
    false).mapError fun _ => ⟨.Internal, "failed to batch load memo relations"⟩
  let creatorMap := listUsersByID db (memos.map (·.creatorId) ++ reactions.map (·.creatorId))
  let messages ← memos.mapM fun memo => convertListed
    (convertMemoFromStoreWithCreators db services.generateSnippet memo
      (reactions.filter (·.contentId = memoName memo.uid))
      (attachments.filter (·.memoId = some memo.id)) (relationMap memo.id) creatorMap)
  return messages.reduceOption

def listPage (services : Services) (db : Database) (userID : Nat) (find : FindMemo)
    (limit offset : Nat) : Except Status ListMemosResponse :=
  let memos := db.listMemos { find with limit := some (limit + 1), offset := some offset }
  let nextPageToken :=
    if memos.length = limit + 1 then some (getPageToken limit (offset + limit)) else none
  if memos.take limit = [] then .ok ⟨[], nextPageToken⟩
  else (convertMemos services db userID (memos.take limit)).map (⟨·, nextPageToken⟩)

def listMemos (services : Services) (db : Database) (userID : Nat) (request : ListMemosRequest) :
    Except Status ListMemosResponse := do
  match ← findMemos services db userID request with
  | none => .ok ⟨[], none⟩
  | some find =>
    let (limit, offset) ← pageBounds request
    listPage services db userID find limit offset

def checkParentReadAccess (db : Database) (userID : Nat) (memo : Memo) : Except Status Unit :=
  match memo.parentUid with
  | none => .ok ()
  | some parentUid => checkMemoReadAccess db userID (db.getMemo { uid := some parentUid })

def answerConverted : Except ConvertError Api.Memo → Except Status Api.Memo
  | .ok message => .ok message
  | .error .creatorNotFound => .error ⟨.NotFound, "memo creator not found"⟩
  | .error (.other err) => .error ⟨.Unknown, "failed to convert memo: " ++ err⟩

def getMemo (services : Services) (db : Database) (userID : Nat) (name : String) :
    Except Status Api.Memo := do
  let memoUID ← (extractMemoUIDFromName name).mapError
    fun err => ⟨.InvalidArgument, "invalid memo name: " ++ err⟩
  match db.getMemo { uid := some memoUID } with
  | none => .error ⟨.NotFound, "memo not found"⟩
  | some memo =>
    checkMemoReadAccess db userID (some memo)
    checkParentReadAccess db userID memo
    let reactions := db.listReactions { contentId := some name }
    let attachments := db.listAttachments { memoId := some memo.id }
    let relations ← (loadMemoRelations db services.generateSnippet userID memo).mapError
      fun err => ⟨.Unknown, "failed to load memo relations: " ++ err⟩
    answerConverted
      (convertMemoFromStore db services.generateSnippet memo reactions attachments relations)

end requests

end Memoark.Server
