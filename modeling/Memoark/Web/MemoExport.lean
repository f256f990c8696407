import Memoark.Server.ListPages
import Memoark.Store.Storage
import Memoark.System.Runs
import Memoark.Web.MemoFilters

/-! The export of a user's memos (`memoExportService.ts`): two listings, page by page, while the
memos are edited. -/
namespace Memoark.Web
open Store Server
open Program (Durable)
open Memoark.System (LabelledSystem update)

def memoExportFormat : String := "memoark.memo-export"

def memoExportVersion : Nat := 1

def memoExportPageSize : Int := 1000

def memoExportOrder : String := "create_time asc, name asc"

structure MemoExportUser where
  name : String
  username : String
  displayName : String

structure MemoExportCounts where
  total : Nat
  normal : Nat
  archived : Nat

structure MemoExportContent where
  memoData : Bool
  attachmentMetadata : Bool
  attachmentFiles : Bool
  comments : Bool
  instanceSettings : Bool

structure MemoExportDocumentV1 where
  format : String
  formatVersion : Nat
  exportedAt : String
  user : MemoExportUser
  counts : MemoExportCounts
  includedContent : MemoExportContent
  memos : List Api.Memo

structure MemoExportFile where
  document : MemoExportDocumentV1
  filename : String

/-- The loop of `listAllMemosForState`, between two pages. -/
inductive Listing where
  | reading (memos : List Api.Memo) (seenPageTokens : List PageToken)
      (pageToken : Option PageToken)
  | done (memos : List Api.Memo)
  | failed (error : String)

def pageRequest (creatorFilter : String) (state : Api.State) (pageToken : Option PageToken) :
    ListMemosRequest where
  pageSize := memoExportPageSize
  pageToken := pageToken.map .ok
  state := state
  orderBy := memoExportOrder
  filter := creatorFilter

def receivePage (memos : List Api.Memo) (seenPageTokens : List PageToken) :
    Except Status ListMemosResponse → Listing
  | .error status => .failed status.message
  | .ok response =>
    match response.nextPageToken with
    | none => .done (memos ++ response.memos)
    | some nextPageToken =>
      if nextPageToken ∈ seenPageTokens then
        .failed "Memo export stopped because the server returned a repeated page token."
      else .reading (memos ++ response.memos) (nextPageToken :: seenPageTokens) nextPageToken

/-- The file, once both listings are done. `now` is the time of the export in ISO form. -/
def createMemoExportFile (user : MemoExportUser) (now : String) (normal archived : Listing) :
    Option MemoExportFile :=
  match normal, archived with
  | .done normalMemos, .done archivedMemos =>
    let memos := normalMemos ++ archivedMemos
    some {
      document := {
        format := memoExportFormat
        formatVersion := memoExportVersion
        exportedAt := now
        user := user
        counts := ⟨memos.length, normalMemos.length, archivedMemos.length⟩
        includedContent := ⟨true, true, false, false, false⟩
        memos := memos }
      filename := "memoark-export-v" ++ toString memoExportVersion ++ "-" ++
        String.ofList (now.toList.take 10) ++ ".json" }
  | _, _ => none

inductive Edit where
  | create (memo : Memo) (now : Int)
  | update (id : Nat) (update : UpdateMemo)
  | deleteRelation (delete : DeleteMemoRelation)
  | delete (id : Nat)

def Edit.statement : Edit → Statement Unit
  | .create memo now => do
    let _ ← Storage.createMemo memo now
    return
  | .update id u => Storage.updateMemo id u
  | .deleteRelation d => Storage.deleteMemoRelation d
  | .delete id => Storage.deleteMemo id

def Edit.enabled (s : Storage) : Edit → Bool
  | .create _ _ => s.nextMemoId < 2147483648
  | _ => true

def Edit.apply (s : Storage) (e : Edit) : Storage := (e.statement.run s).2

/-- The export of one user, and the parts of the service that its requests use. -/
structure Exporter where
  services : Services
  userID : Nat
  user : MemoExportUser

structure Exporting where
  storage : Storage
  /-- The two listings, by the state of their memos. -/
  listing : RowStatus → Listing

inductive Label where
  | page (state : RowStatus)
  | edit (e : Edit)

namespace Exporter

variable (x : Exporter)

def nextPage (storage : Storage) (state : RowStatus) (listing : Listing) : Option Listing :=
  match buildMemoCreatorFilter x.user.name, listing with
  | some creatorFilter, .reading memos seenPageTokens pageToken =>
    some (receivePage memos seenPageTokens (listMemos x.services storage.toDatabase x.userID
      (pageRequest creatorFilter (convertStateFromStore state) pageToken)))
  | _, _ => none

def step (s : Exporting) : Label → Option Exporting
  | .page state =>
    (x.nextPage s.storage state (s.listing state)).map fun listing =>
      { s with listing := update s.listing state listing }
  | .edit e => if e.enabled s.storage then some { s with storage := e.apply s.storage } else none

structure Tables (s : Storage) : Prop where
  ids : (s.memos.map (·.id)).Nodup
  uids : (s.memos.map (·.uid)).Nodup
  idsBelow : ∀ row ∈ s.memos, row.id < s.nextMemoId
  nextMemoId : s.nextMemoId ≤ 2147483648
  /-- A memo is a comment of at most one other. -/
  parents : ((s.relations.filter (·.type = .COMMENT)).map (·.memoId)).Nodup
  user : x.userID ≠ 0 ∧ ∃ user, s.getUser x.userID = some user ∧ user.rowStatus = .normal

structure Init (s : Exporting) : Prop where
  tables : x.Tables s.storage
  listing : ∀ state, s.listing state = .reading [] [] none

def system : LabelledSystem Exporting Label where
  init := x.Init
  step := x.step

def FiltersByCreator : Prop :=
  ∀ creatorFilter, buildMemoCreatorFilter x.user.name = some creatorFilter →
    x.services.compileFilter creatorFilter = .ok fun row => row.creatorId = x.userID

def file (now : String) (s : Exporting) : Option MemoExportFile :=
  createMemoExportFile x.user now (s.listing .normal) (s.listing .archived)

def Stored (name : String) (s : Exporting) : Prop :=
  ∃ row ∈ s.storage.memos, memoName row.uid = name ∧ row.creatorId = x.userID ∧
    TopLevel s.storage.toDatabase row

end Exporter

section pages

variable {x : Exporter} {storage : Storage} {state : RowStatus}

def Listing.memos : Listing → List Api.Memo
  | reading memos _ _ => memos
  | done memos => memos
  | failed _ => []

def offsetOf (pageToken : Option PageToken) : Nat := (pageToken.map (·.offset.toNat)).getD 0

def Listing.ahead (listing : Listing) (own : List String) : List String :=
  match listing with
  | reading _ _ pageToken => own.drop (offsetOf pageToken)
  | _ => []

def FullPages (pageToken : Option PageToken) : Prop :=
  ∀ token ∈ pageToken, token.limit = 1000 ∧ 0 ≤ token.offset

def ownNames (x : Exporter) (storage : Storage) (state : RowStatus) : List String :=
  (ownMemos storage.toDatabase x.userID state).map fun memo => memoName memo.uid

theorem pageBounds_pageRequest {pageToken : Option PageToken} (h : FullPages pageToken)
    (creatorFilter : String) (state : Api.State) :
    pageBounds (pageRequest creatorFilter state pageToken) = .ok (1000, offsetOf pageToken) := by
  cases pageToken with
  | none => rfl
  | some token =>
    obtain ⟨hlimit, -⟩ := h token rfl
    obtain ⟨limit, offset⟩ := token
    obtain rfl : limit = 1000 := hlimit
    rfl

theorem orderStep_pageRequest (creatorFilter : String) (state : Api.State)
    (pageToken : Option PageToken) (find : FindMemo) :
    orderStep (pageRequest creatorFilter state pageToken) find =
      .ok { find with orderByTimeAsc := true } := by
  have hparse : parseMemoOrderBy memoExportOrder find =
      .ok { find with orderByTimeAsc := true } := rfl
  have hne : memoExportOrder ≠ "" := by decide
  show (if memoExportOrder ≠ "" then _ else _) = _
  rw [if_pos hne]
  show (parseMemoOrderBy memoExportOrder find).mapError _ = _
  rw [hparse]
  rfl

theorem filterStep_pageRequest (hfilter : x.FiltersByCreator) {creatorFilter : String}
    (h : buildMemoCreatorFilter x.user.name = some creatorFilter) (state : Api.State)
    (pageToken : Option PageToken) :
    filterStep x.services (pageRequest creatorFilter state pageToken) =
      .ok [fun row => row.creatorId = x.userID] := by
  have hne : creatorFilter ≠ "" := by
    unfold buildMemoCreatorFilter at h
    split at h
    · cases h
    · obtain rfl := Option.some.inj h
      intro hempty
      have hlength := congrArg String.length hempty
      rw [String.length_append] at hlength
      exact absurd hlength (by simp)
  show (if creatorFilter ≠ "" then ((x.services.compileFilter creatorFilter).mapError _).map _
    else _) = _
  rw [if_pos hne]
  rw [hfilter creatorFilter h]
  rfl

theorem length_ownNames (h : x.Tables storage) (state : RowStatus) :
    (ownNames x storage state).length ≤ 2147483648 := by
  have hown := (@ownMemos_subperm storage.toDatabase x.userID state h.parents).length_le
  have hids : storage.memos.map (·.id) ⊆ List.range storage.nextMemoId := by
    intro id hid
    obtain ⟨row, hrow, rfl⟩ := List.mem_map.mp hid
    exact List.mem_range.mpr (h.idsBelow row hrow)
  have hrange := (List.subperm_of_subset h.ids hids).length_le
  have hnext := h.nextMemoId
  rw [List.length_map, List.length_range] at hrange
  rw [List.length_map, List.length_map] at hown
  rw [ownNames, List.length_map]
  omega

theorem nodup_ownNames (h : x.Tables storage) :
    (ownNames x storage .normal ++ ownNames x storage .archived).Nodup := by
  have hnodup := @nodup_ownMemos storage.toDatabase x.userID h.uids h.parents
  have hnames := hnodup.map (f := memoName) fun _ _ => memoName_inj
  rw [List.map_map, List.map_append] at hnames
  exact hnames

def Listing.names (listing : Listing) : List String := listing.memos.map (·.name)

def Listing.FullPages : Listing → Prop
  | reading _ _ pageToken => Web.FullPages pageToken
  | _ => True

def Listing.Failed (listing : Listing) : Prop := ∃ error, listing = .failed error

def Listing.account (listing : Listing) (own : List String) : List String :=
  listing.names ++ listing.ahead own

theorem fetchCurrentUser_of_tables (h : x.Tables storage) :
    ∃ user, fetchCurrentUser storage.toDatabase x.userID = .ok (some user) ∧
      storage.getUser x.userID = some user := by
  obtain ⟨hid, user, huser, hnormal⟩ := h.user
  refine ⟨user, ?_, huser⟩
  rw [fetchCurrentUser, if_neg hid, huser]
  simp [hnormal]

theorem ownRequest_pageRequest (hfilter : x.FiltersByCreator) (h : x.Tables storage)
    {creatorFilter : String} (hcreator : buildMemoCreatorFilter x.user.name = some creatorFilter)
    {pageToken : Option PageToken} (hpages : FullPages pageToken) (state : RowStatus) :
    OwnRequest x.services storage.toDatabase x.userID state
      (pageRequest creatorFilter (convertStateFromStore state) pageToken) 1000
      (offsetOf pageToken) where
  order := orderStep_pageRequest creatorFilter _ pageToken
  filter := filterStep_pageRequest hfilter hcreator _ pageToken
  state := by cases state <;> rfl
  user := fetchCurrentUser_of_tables h
  bounds := pageBounds_pageRequest hpages creatorFilter _

theorem listMemos_pageRequest (hfilter : x.FiltersByCreator) (h : x.Tables storage)
    {creatorFilter : String} (hcreator : buildMemoCreatorFilter x.user.name = some creatorFilter)
    {pageToken : Option PageToken} (hpages : FullPages pageToken) {response : ListMemosResponse}
    (hlist : listMemos x.services storage.toDatabase x.userID
      (pageRequest creatorFilter (convertStateFromStore state) pageToken) = .ok response) :
    response.memos.map (·.name) =
        ((ownNames x storage state).drop (offsetOf pageToken)).take 1000 ∧
      response.nextPageToken =
        if offsetOf pageToken + 1000 < (ownNames x storage state).length then
          some ⟨1000, ↑(offsetOf pageToken + 1000)⟩
        else none := by
  obtain ⟨hnames, htoken⟩ := (ownRequest_pageRequest hfilter h hcreator hpages state).page hlist
  have hlength : (ownNames x storage state).length =
      (ownMemos storage.toDatabase x.userID state).length := List.length_map _
  constructor
  · rw [hnames, List.map_take, List.map_drop]
    rfl
  · have hbound := length_ownNames h state
    rw [htoken, ← hlength]
    split
    · rw [getPageToken_eq (by omega) (by omega)]
      rfl
    · rfl

theorem nextPage_account (hfilter : x.FiltersByCreator) (h : x.Tables storage)
    {listing listing' : Listing} (hpages : listing.FullPages)
    (hnext : x.nextPage storage state listing = some listing') :
    listing'.Failed ∨ listing'.FullPages ∧
      listing'.account (ownNames x storage state) = listing.account (ownNames x storage state) := by
  unfold Exporter.nextPage at hnext
  split at hnext
  · rename_i creatorFilter memos seenPageTokens pageToken hcreator
    obtain rfl := Option.some.inj hnext
    cases hlist : listMemos x.services storage.toDatabase x.userID
        (pageRequest creatorFilter (convertStateFromStore state) pageToken) with
    | error status => exact .inl ⟨_, rfl⟩
    | ok response =>
      obtain ⟨hread, htoken⟩ := listMemos_pageRequest hfilter h hcreator hpages hlist
      rw [receivePage, htoken]
      by_cases hmore : offsetOf pageToken + 1000 < (ownNames x storage state).length
      · rw [if_pos hmore]
        dsimp only
        split
        · exact .inl ⟨_, rfl⟩
        · refine .inr ⟨?_, ?_⟩
          · intro token htoken
            obtain rfl := Option.some.inj htoken
            exact ⟨rfl, Int.natCast_nonneg _⟩
          · show (memos ++ response.memos).map (·.name) ++
                (ownNames x storage state).drop (offsetOf pageToken + 1000) =
              memos.map (·.name) ++ (ownNames x storage state).drop (offsetOf pageToken)
            rw [List.map_append, hread, List.append_assoc, ← List.drop_drop, List.take_append_drop]
      · rw [if_neg hmore]
        refine .inr ⟨trivial, ?_⟩
        show (memos ++ response.memos).map (·.name) ++ [] =
          memos.map (·.name) ++ (ownNames x storage state).drop (offsetOf pageToken)
        have hlast : ((ownNames x storage state).drop (offsetOf pageToken)).length ≤ 1000 := by
          rw [List.length_drop]
          omega
        rw [List.map_append, hread, List.append_nil, List.take_of_length_le hlast]
  · cases hnext

theorem nextPage_single (hfilter : x.FiltersByCreator) (h : x.Tables storage)
    (hsnippet : ∀ content, ∃ snippet, x.services.generateSnippet content = .ok snippet)
    {creatorFilter : String} (hcreator : buildMemoCreatorFilter x.user.name = some creatorFilter)
    (hfits : (ownNames x storage state).length ≤ 1000) :
    ∃ listing, x.nextPage storage state (.reading [] [] none) = some (.done listing) ∧
      listing.map (·.name) = ownNames x storage state := by
  have hpages : FullPages none := fun _ h => by cases h
  obtain ⟨response, hlist⟩ :=
    (ownRequest_pageRequest hfilter h hcreator hpages state).exists_response hsnippet
  obtain ⟨hread, htoken⟩ :=
    listMemos_pageRequest hfilter h hcreator (fun _ h => by cases h) hlist
  rw [if_neg (by simpa [offsetOf] using hfits)] at htoken
  refine ⟨response.memos, ?_, ?_⟩
  · unfold Exporter.nextPage
    rw [hcreator]
    dsimp only
    rw [hlist, receivePage, htoken]
    rfl
  · rw [hread, List.take_of_length_le (by simpa [offsetOf] using hfits)]
    rfl

end pages

end Memoark.Web
