import Memoark.Server.ReadAgreement
import Memoark.Store.MemoOrder

/-! One page of `ListMemos`: the part of the listing without a limit that it shows, and its token. -/
namespace Memoark.Server
open Store

def hasCreator (db : Database) (memo : Memo) : Bool := (db.getUser memo.creatorId).isSome

section pages

variable {services : Services} {db : Database} {userID : Nat}

def Shows {α : Type} (services : Services) (db : Database) (f : Api.Memo → α) (g : Memo → α) : Prop :=
  ∀ memo reactions attachments relations users message, convertMemoFromStoreWithCreators db
    services.generateSnippet memo reactions attachments relations users = .ok message →
      f message = g memo

theorem convertMemo_cases (services : Services) (db : Database) (memo : Memo)
    (reactions : List ReactionRecord) (attachments : List AttachmentRecord)
    (relations : List Api.MemoRelation) (users : UsersByID) :
    (users memo.creatorId = none ∧ convertMemoFromStoreWithCreators db services.generateSnippet memo
      reactions attachments relations users = .error .creatorNotFound) ∨
    (∃ creator, users memo.creatorId = some creator) ∧
      ((∃ err, convertMemoFromStoreWithCreators db services.generateSnippet memo reactions
          attachments relations users = .error (.other err)) ∨
        ∃ message, convertMemoFromStoreWithCreators db services.generateSnippet memo reactions
          attachments relations users = .ok message ∧ message.name = memoName memo.uid ∧
            message.pinned = memo.pinned ∧ message.createTime = timestamp memo.createdTs ∧
              message.updateTime = timestamp memo.updatedTs) := by
  unfold convertMemoFromStoreWithCreators
  cases users memo.creatorId with
  | none => exact .inl ⟨rfl, rfl⟩
  | some creator =>
    refine .inr ⟨⟨creator, rfl⟩, ?_⟩
    cases getMemoContentSnippet services.generateSnippet memo.content with
    | error err => exact .inl ⟨_, rfl⟩
    | ok snippet => exact .inr ⟨_, rfl, rfl, rfl, rfl, rfl⟩

theorem shows_name (services : Services) (db : Database) :
    Shows services db (·.name) fun memo => memoName memo.uid := by
  intro memo reactions attachments relations users message h
  rcases convertMemo_cases services db memo reactions attachments relations users with
    ⟨-, herror⟩ | ⟨-, ⟨err, herror⟩ | ⟨message', hok, hname, -⟩⟩
  · rw [h] at herror
    cases herror
  · rw [h] at herror
    cases herror
  · rw [h] at hok
    obtain rfl := Except.ok.inj hok
    exact hname

theorem convertListed_map {α : Type} {f : Api.Memo → α} {g : Memo → α} (hfg : Shows services db f g)
    {memo : Memo} {reactions : List ReactionRecord} {attachments : List AttachmentRecord}
    {relations : List Api.MemoRelation} {users : UsersByID}
    (huser : users memo.creatorId = db.getUser memo.creatorId) {entry : Option Api.Memo}
    (h : convertListed (convertMemoFromStoreWithCreators db services.generateSnippet memo reactions
      attachments relations users) = .ok entry) :
    entry.map f = if hasCreator db memo then some (g memo) else none := by
  unfold hasCreator
  rw [← huser]
  rcases convertMemo_cases services db memo reactions attachments relations users with
    ⟨hnone, herror⟩ | ⟨⟨creator, hsome⟩, ⟨err, herror⟩ | ⟨message, hok, -⟩⟩
  · rw [herror] at h
    obtain rfl := Except.ok.inj h
    rw [hnone]
    rfl
  · rw [herror] at h
    cases h
  · have hf := hfg memo reactions attachments relations users message hok
    rw [hok] at h
    obtain rfl := Except.ok.inj h
    rw [hsome]
    exact congrArg some hf

theorem convertMemos_map {α : Type} {f : Api.Memo → α} {g : Memo → α} (hfg : Shows services db f g)
    {memos : List Memo} {messages : List Api.Memo}
    (h : convertMemos services db userID memos = .ok messages) :
    messages.map f = (memos.filter (hasCreator db)).map g := by
  rw [convertMemos] at h
  obtain ⟨relationMap, -, h⟩ := Program.bind_ok h
  obtain ⟨converted, hconverted, h⟩ := Program.bind_ok h
  cases h
  have hshown : converted.map (Option.map f) =
      memos.map fun memo => if hasCreator db memo then some (g memo) else none := by
    refine Program.map_of_mapM_ok hconverted fun memo hmemo entry hentry => ?_
    have hcreators : memo.creatorId ∈ memos.map (·.creatorId) ++
        (db.listReactions { contentIdList := memos.map fun m => memoName m.uid }).map
          (·.creatorId) := List.mem_append_left _ (List.mem_map_of_mem hmemo)
    exact convertListed_map hfg (listUsersByID_of_mem hcreators) hentry
  rw [← List.reduceOption_map, hshown]
  calc (memos.map fun memo => if hasCreator db memo then some (g memo) else none).reduceOption
      = memos.filterMap fun memo => if hasCreator db memo then some (g memo) else none :=
        List.filterMap_map
    _ = (memos.filter (hasCreator db)).filterMap fun memo => some (g memo) :=
        List.filterMap_filter.symm
    _ = (memos.filter (hasCreator db)).map g := congrFun List.filterMap_eq_map _

theorem exists_convertListed {memo : Memo}
    (hsnippet : ∃ snippet, services.generateSnippet memo.content = .ok snippet)
    (reactions : List ReactionRecord) (attachments : List AttachmentRecord)
    (relations : List Api.MemoRelation) (users : UsersByID) :
    ∃ converted, convertListed (convertMemoFromStoreWithCreators db services.generateSnippet memo
      reactions attachments relations users) = .ok converted := by
  obtain ⟨snippet, hsnippet⟩ := hsnippet
  rw [convertMemoFromStoreWithCreators]
  cases users memo.creatorId with
  | none => exact ⟨none, rfl⟩
  | some creator =>
    rw [getMemoContentSnippet, hsnippet]
    exact ⟨some _, rfl⟩

theorem exists_convertMemos {user : Option UserRecord} {memos : List Memo}
    (hsnippet : ∀ content, ∃ snippet, services.generateSnippet content = .ok snippet)
    (huser : fetchCurrentUser db userID = .ok user) (hne : memos ≠ []) :
    ∃ messages, convertMemos services db userID memos = .ok messages := by
  have hrelations : ∃ relationMap,
      (batchConvertMemoRelations db services.generateSnippet userID memos false).mapError
        (fun _ => (⟨.Internal, "failed to batch load memo relations"⟩ : Status)) =
          .ok relationMap := by
    rw [batchConvertMemoRelations, if_neg hne, huser]
    exact ⟨_, rfl⟩
  rw [convertMemos]
  refine Program.exists_bind_ok hrelations fun relationMap => ?_
  refine Program.exists_bind_ok (Program.exists_mapM_ok fun memo _ => ?_) fun converted => ⟨_, rfl⟩
  exact exists_convertListed (hsnippet memo.content) _ _ _ _

theorem listPage_map {α : Type} {f : Api.Memo → α} {g : Memo → α} (hfg : Shows services db f g)
    {find : FindMemo} {limit offset : Nat} {response : ListMemosResponse}
    (h : listPage services db userID find limit offset = .ok response) :
    response.memos.map f =
        ((((db.listMemos find.unlimited).drop offset).take limit).filter (hasCreator db)).map g ∧
      response.nextPageToken =
        if offset + limit < (db.listMemos find.unlimited).length then
          some (getPageToken limit (offset + limit))
        else none := by
  have hlength : (((db.listMemos find.unlimited).drop offset).take (limit + 1)).length =
      limit + 1 ↔ offset + limit < (db.listMemos find.unlimited).length := by
    rw [List.length_take, List.length_drop]
    omega
  have htoken : (if (((db.listMemos find.unlimited).drop offset).take (limit + 1)).length =
        limit + 1 then some (getPageToken limit (offset + limit)) else none) =
      if offset + limit < (db.listMemos find.unlimited).length then
        some (getPageToken limit (offset + limit))
      else none := if_congr hlength rfl rfl
  rw [listPage, Database.listMemos_slice, htoken, List.take_take,
    Nat.min_eq_left (Nat.le_succ limit)] at h
  split at h
  · rename_i hempty
    cases h
    rw [hempty]
    exact ⟨rfl, rfl⟩
  · obtain ⟨messages, hmessages, rfl⟩ := Program.map_ok h
    exact ⟨convertMemos_map hfg hmessages, rfl⟩

theorem listPage_ok {find : FindMemo} {limit offset : Nat} {response : ListMemosResponse}
    (h : listPage services db userID find limit offset = .ok response) :
    response.memos.map (·.name) =
        ((((db.listMemos find.unlimited).drop offset).take limit).filter (hasCreator db)).map
          (fun memo => memoName memo.uid) ∧
      response.nextPageToken =
        if offset + limit < (db.listMemos find.unlimited).length then
          some (getPageToken limit (offset + limit))
        else none := listPage_map (shows_name services db) h

theorem exists_listPage {user : Option UserRecord}
    (hsnippet : ∀ content, ∃ snippet, services.generateSnippet content = .ok snippet)
    (huser : fetchCurrentUser db userID = .ok user) (find : FindMemo) (limit offset : Nat) :
    ∃ response, listPage services db userID find limit offset = .ok response := by
  unfold listPage
  dsimp only
  split
  · exact ⟨_, rfl⟩
  · rename_i hne
    obtain ⟨messages, hmessages⟩ := exists_convertMemos hsnippet huser hne
    rw [hmessages]
    exact ⟨_, rfl⟩

theorem getPageToken_eq {limit offset : Nat} (hlimit : limit < 2147483648)
    (hoffset : offset < 2147483648) : getPageToken limit offset = ⟨limit, offset⟩ := by
  have hbmod : ∀ n : Nat, n < 2147483648 → Int.bmod n 4294967296 = n := by
    intro n hn
    exact Int.bmod_eq_of_le (by omega) (by omega)
  exact congrArg₂ PageToken.mk (hbmod limit hlimit) (hbmod offset hoffset)

end pages

def ownFind (userID : Nat) (state : RowStatus) : FindMemo where
  excludeComments := true
  rowStatus := some state
  creatorId := some userID
  orderByTimeAsc := true

def ownMemos (db : Database) (userID : Nat) (state : RowStatus) : List Memo :=
  db.listMemos (ownFind userID state)

structure SelectsOwn (find : FindMemo) (userID : Nat) (state : RowStatus) : Prop where
  comments : find.excludeComments = true
  content : find.excludeContent = false
  pinned : find.orderByPinned = false
  updated : find.orderByUpdatedTs = false
  asc : find.orderByTimeAsc = true
  rows : ∀ row, find.matchesRow row = (row.creatorId = userID && row.rowStatus = state)

section pages

variable {services : Services} {db : Database} {userID : Nat} {state : RowStatus}

theorem listMemos_unlimited {find : FindMemo} (h : SelectsOwn find userID state) :
    db.listMemos find.unlimited = ownMemos db userID state := by
  have hrows : find.matchesRow = (ownFind userID state).matchesRow := by
    funext row
    refine (h.rows row).trans ?_
    simp [ownFind, FindMemo.matchesRow, asked, askedIn, eq_comm]
  have hparent : find.matchesParent = (ownFind userID state).matchesParent := by
    funext parent
    simp [ownFind, FindMemo.matchesParent, h.comments]
  have hle : find.le = (ownFind userID state).le := by
    funext a b
    simp [ownFind, FindMemo.le, h.pinned, h.updated, h.asc]
  have hselected : find.selected = (ownFind userID state).selected := by
    funext memo
    simp [ownFind, FindMemo.selected, h.content]
  have hown : ownMemos db userID state = db.listMemos (ownFind userID state).unlimited := rfl
  rw [hown, Database.listMemos_unlimited, Database.listMemos_unlimited, Database.rows,
    Database.rows, hrows, hparent, hle, hselected]

/-- A request for a page of the own memos of a state, oldest first, by a user who is known. -/
structure OwnRequest (services : Services) (db : Database) (userID : Nat) (state : RowStatus)
    (request : ListMemosRequest) (limit offset : Nat) : Prop where
  order : ∀ find, orderStep request find = .ok { find with orderByTimeAsc := true }
  filter : filterStep services request = .ok [fun row => row.creatorId = userID]
  state : listedState request = state
  user : ∃ user, fetchCurrentUser db userID = .ok (some user) ∧ db.getUser userID = some user
  bounds : pageBounds request = .ok (limit, offset)

variable {request : ListMemosRequest} {limit offset : Nat}

theorem OwnRequest.listMemos_eq (h : OwnRequest services db userID state request limit offset) :
    ∃ find, SelectsOwn find userID state ∧
      listMemos services db userID request = listPage services db userID find limit offset := by
  obtain ⟨horder, hfilter, hstate, ⟨user, huser, huserID⟩, hbounds⟩ := h
  have hid : user.id = userID := by simpa using List.find?_some huserID
  have hfind : ∃ find, findMemos services db userID request = .ok (some find) ∧
      SelectsOwn find userID state := by
    rw [findMemos, currentUser, huser, hstate]
    simp only [Except.mapError, bind, Except.bind, Option.isNone_some, horder, hfilter]
    cases state with
    | normal =>
      refine ⟨_, rfl, rfl, rfl, rfl, rfl, rfl, fun row => ?_⟩
      by_cases hown : row.creatorId = userID
      · simp [visibilityStep, FindMemo.matchesRow, asked, askedIn, relationFilter, hid, hown,
          eq_comm]
      · simp [visibilityStep, FindMemo.matchesRow, asked, askedIn, hown]
    | archived =>
      refine ⟨_, rfl, ?_⟩
      constructor <;> simp [visibilityStep, FindMemo.matchesRow, asked, askedIn, hid, eq_comm]
  obtain ⟨find, hfind, hown⟩ := hfind
  refine ⟨find, hown, ?_⟩
  rw [listMemos, hfind, hbounds]
  rfl

theorem ownFind_matchesRow {row : MemoRecord} : (ownFind userID state).matchesRow row = true ↔
    row.creatorId = userID ∧ row.rowStatus = state := by
  simp [ownFind, FindMemo.matchesRow, asked, askedIn, eq_comm (a := userID), eq_comm (a := state)]

theorem creator_of_mem_ownMemos {memo : Memo} (h : memo ∈ ownMemos db userID state) :
    memo.creatorId = userID := by
  obtain ⟨row, -, hmatches, parent, -, -, rfl⟩ := Database.exists_of_mem_listMemos h
  exact (ownFind_matchesRow.mp hmatches).1

theorem listPage_own {find : FindMemo} (hfind : SelectsOwn find userID state)
    (huser : ∃ user, db.getUser userID = some user) {limit offset : Nat}
    {response : ListMemosResponse}
    (h : listPage services db userID find limit offset = .ok response) :
    response.memos.map (·.name) =
        (((ownMemos db userID state).drop offset).take limit).map (fun memo => memoName memo.uid) ∧
      response.nextPageToken =
        if offset + limit < (ownMemos db userID state).length then
          some (getPageToken limit (offset + limit))
        else none := by
  obtain ⟨hnames, htoken⟩ := listPage_ok h
  rw [listMemos_unlimited hfind] at hnames htoken
  have hknown : (((ownMemos db userID state).drop offset).take limit).filter (hasCreator db) =
      ((ownMemos db userID state).drop offset).take limit := by
    refine List.filter_eq_self.mpr fun memo hmemo => ?_
    have hmem := List.mem_of_mem_drop (List.mem_of_mem_take hmemo)
    rw [hasCreator, creator_of_mem_ownMemos hmem]
    exact Option.isSome_iff_exists.mpr huser
  rw [hknown] at hnames
  exact ⟨hnames, htoken⟩

theorem OwnRequest.page (h : OwnRequest services db userID state request limit offset)
    {response : ListMemosResponse} (hlist : listMemos services db userID request = .ok response) :
    response.memos.map (·.name) =
        (((ownMemos db userID state).drop offset).take limit).map (fun memo => memoName memo.uid) ∧
      response.nextPageToken =
        if offset + limit < (ownMemos db userID state).length then
          some (getPageToken limit (offset + limit))
        else none := by
  obtain ⟨find, hown, heq⟩ := h.listMemos_eq
  obtain ⟨user, -, huser⟩ := h.user
  exact listPage_own hown ⟨user, huser⟩ (heq ▸ hlist)

theorem OwnRequest.exists_response (h : OwnRequest services db userID state request limit offset)
    (hsnippet : ∀ content, ∃ snippet, services.generateSnippet content = .ok snippet) :
    ∃ response, listMemos services db userID request = .ok response := by
  obtain ⟨find, -, heq⟩ := h.listMemos_eq
  obtain ⟨user, huser, -⟩ := h.user
  rw [heq]
  exact exists_listPage hsnippet huser find limit offset

end pages

section rows

variable {db : Database} {userID : Nat} {state : RowStatus}

theorem ownMemos_perm (db : Database) (userID : Nat) (state : RowStatus) :
    (ownMemos db userID state).Perm (db.rows (ownFind userID state)) := by
  have hselected : (ownFind userID state).selected = id := by
    funext memo
    rfl
  rw [ownMemos, Database.listMemos, hselected, List.map_id]
  exact List.mergeSort_perm _ _

theorem mem_ownMemos_of_row {row : MemoRecord} (hrow : row ∈ db.memos)
    (hcreator : row.creatorId = userID) (htop : TopLevel db row) :
    row.withParent none ∈ ownMemos db userID row.rowStatus := by
  obtain ⟨parent, hparent⟩ := List.exists_mem_of_ne_nil _ (Database.parents_ne_nil db row)
  obtain rfl := htop parent hparent
  exact Database.mem_listMemos_of_row rfl hrow (ownFind_matchesRow.mpr ⟨hcreator, rfl⟩) hparent rfl

theorem row_of_mem_ownMemos {memo : Memo} (h : memo ∈ ownMemos db userID state) :
    ∃ row ∈ db.memos, row.uid = memo.uid ∧ row.rowStatus = state := by
  obtain ⟨row, hrow, hmatches, parent, -, -, rfl⟩ := Database.exists_of_mem_listMemos h
  exact ⟨row, hrow, rfl, (ownFind_matchesRow.mp hmatches).2⟩

theorem ownMemos_subperm
    (hparents : ((db.relations.filter (·.type = .COMMENT)).map (·.memoId)).Nodup) :
    ((ownMemos db userID state).map (·.uid)).Subperm (db.memos.map (·.uid)) := by
  have hrows : ((db.rows (ownFind userID state)).map (·.uid)).Sublist (db.memos.map (·.uid)) :=
    Database.rows_keys_sublist hparents (fun _ _ => rfl) _
  exact ((ownMemos_perm db userID state).map (·.uid)).subperm.trans hrows.subperm

theorem nodup_ownMemos (huids : (db.memos.map (·.uid)).Nodup)
    (hparents : ((db.relations.filter (·.type = .COMMENT)).map (·.memoId)).Nodup) :
    ((ownMemos db userID .normal ++ ownMemos db userID .archived).map (·.uid)).Nodup := by
  have hstate : ∀ state, ((ownMemos db userID state).map (·.uid)).Nodup := by
    intro state
    obtain ⟨uids, hperm, hsublist⟩ := @ownMemos_subperm db userID state hparents
    exact hperm.nodup_iff.mp (hsublist.nodup huids)
  rw [List.map_append, List.nodup_append]
  refine ⟨hstate .normal, hstate .archived, ?_⟩
  intro uid hnormal uid' harchived heq
  obtain ⟨memo, hmemo, rfl⟩ := List.mem_map.mp hnormal
  obtain ⟨memo', hmemo', rfl⟩ := List.mem_map.mp harchived
  obtain ⟨row, hrow, huid, hrowState⟩ := row_of_mem_ownMemos hmemo
  obtain ⟨row', hrow', huid', hrowState'⟩ := row_of_mem_ownMemos hmemo'
  obtain rfl : row = row' :=
    List.inj_on_of_nodup_map huids hrow hrow' (huid.trans (heq.trans huid'.symm))
  rw [hrowState] at hrowState'
  cases hrowState'

end rows

end Memoark.Server
