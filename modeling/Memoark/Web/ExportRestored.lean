import Memoark.Web.ExportImport
import Memoark.Web.ExportRuns

/-! An export that no edit comes into, and its import: every top-level memo of the user is a
record. -/
namespace Memoark.Web
open Store Server
open Import (Record)
open Memoark.System (LabelledSystem update_self update_of_ne)

section messages

variable {services : Services} {db : Database} {userID : Nat}

def IsMessage (services : Services) (db : Database) (userID : Nat) (memo : Memo)
    (message : Api.Memo) : Prop :=
  ∃ page relationMap userIDs, memo ∈ page ∧ FromRows db page ∧
    batchConvertMemoRelations db services.generateSnippet userID page false = .ok relationMap ∧
    convertMemoFromStoreWithCreators db services.generateSnippet memo
      ((db.listReactions { contentIdList := page.map fun m => memoName m.uid }).filter
        (·.contentId = memoName memo.uid))
      ((db.listAttachments { memoIdList := page.map (·.id) }).filter (·.memoId = some memo.id))
      (relationMap memo.id) (listUsersByID db userIDs) = .ok message

theorem forall₂_of_mapM_ok {ε α β : Type} {f : α → Except ε β} {R : α → β → Prop} {l : List α}
    {bs : List β} (h : l.mapM f = .ok bs) (hR : ∀ a ∈ l, ∀ b, f a = .ok b → R a b) :
    List.Forall₂ R l bs := by
  induction l generalizing bs with
  | nil =>
    cases h
    exact .nil
  | cons a as ih =>
    rw [List.mapM_cons] at h
    obtain ⟨b, hb, h⟩ := Program.bind_ok h
    obtain ⟨rest, hrest, h⟩ := Program.bind_ok h
    cases h
    exact .cons (hR a List.mem_cons_self b hb)
      (ih hrest fun a' ha' => hR a' (List.mem_cons_of_mem _ ha'))

theorem forall₂_reduceOption {α β : Type} {R : α → β → Prop} {l : List α} {bs : List (Option β)}
    (h : List.Forall₂ (fun a b => ∃ c, b = some c ∧ R a c) l bs) :
    List.Forall₂ R l bs.reduceOption := by
  induction h with
  | nil => exact .nil
  | cons hab _ ih =>
    obtain ⟨c, rfl, hc⟩ := hab
    rw [List.reduceOption_cons_of_some]
    exact .cons hc ih

theorem reactions_of_listed {find : FindReaction} {r : ReactionRecord}
    (h : r ∈ db.listReactions find) : r ∈ db.reactions :=
  List.mem_of_mem_filter (List.mem_mergeSort.mp h)

theorem attachments_of_listed {find : FindAttachment} {a : AttachmentRecord}
    (h : a ∈ db.listAttachments find) : a ∈ db.attachments := by
  unfold Database.listAttachments at h
  split at h
  · exact List.mem_of_mem_filter (List.mem_mergeSort.mp (Database.mem_page h))
  · exact List.mem_of_mem_filter (List.mem_mergeSort.mp (Database.mem_page h))

theorem convertListed_message {memo : Memo} {reactions : List ReactionRecord}
    {attachments : List AttachmentRecord} {relations : List Api.MemoRelation} {users : UsersByID}
    (hcreator : (users memo.creatorId).isSome) {entry : Option Api.Memo}
    (h : convertListed (convertMemoFromStoreWithCreators db services.generateSnippet memo reactions
      attachments relations users) = .ok entry) :
    ∃ message, entry = some message ∧ convertMemoFromStoreWithCreators db services.generateSnippet
      memo reactions attachments relations users = .ok message := by
  rcases convertMemo_cases services db memo reactions attachments relations users with
    ⟨hnone, -⟩ | ⟨-, ⟨err, herror⟩ | ⟨message, hok, -⟩⟩
  · rw [hnone] at hcreator
    cases hcreator
  · rw [herror] at h
    cases h
  · rw [hok] at h
    exact ⟨message, (Except.ok.inj h).symm, hok⟩

theorem convertMemos_messages {memos : List Memo} {messages : List Api.Memo}
    (hrows : FromRows db memos) (hcreators : ∀ memo ∈ memos, hasCreator db memo = true)
    (h : convertMemos services db userID memos = .ok messages) :
    List.Forall₂ (IsMessage services db userID) memos messages := by
  rw [convertMemos] at h
  obtain ⟨relationMap, hrelations, h⟩ := Program.bind_ok h
  obtain ⟨converted, hconverted, h⟩ := Program.bind_ok h
  cases h
  apply forall₂_reduceOption
  apply forall₂_of_mapM_ok hconverted
  intro memo hmemo entry hentry
  have hmem : memo.creatorId ∈ memos.map (·.creatorId) ++
      (db.listReactions { contentIdList := memos.map fun m => memoName m.uid }).map
        (·.creatorId) := List.mem_append_left _ (List.mem_map_of_mem hmemo)
  have hcreator := hcreators memo hmemo
  rw [hasCreator, ← listUsersByID_of_mem hmem] at hcreator
  obtain ⟨message, rfl, hok⟩ := convertListed_message hcreator hentry
  exact ⟨message, rfl, memos, relationMap, _, hmemo, hrows, Program.mapError_ok hrelations, hok⟩

theorem listMemos_messages {request : ListMemosRequest} {state : RowStatus} {limit offset : Nat}
    (hown : OwnRequest services db userID state request limit offset)
    {response : ListMemosResponse} (h : listMemos services db userID request = .ok response) :
    List.Forall₂ (IsMessage services db userID)
      (((ownMemos db userID state).drop offset).take limit) response.memos := by
  obtain ⟨user, -, hid⟩ := hown.user
  obtain ⟨find, hown, heq⟩ := hown.listMemos_eq
  rw [heq, listPage, Database.listMemos_slice, List.take_take, Nat.min_eq_left (Nat.le_succ limit),
    listMemos_unlimited hown] at h
  split at h
  · rename_i hempty
    cases h
    rw [hempty]
    exact .nil
  · obtain ⟨messages, hmessages, rfl⟩ := Program.map_ok h
    refine convertMemos_messages ?_ (fun memo hmemo => ?_) hmessages
    · exact fun memo hmemo => fromRows_listMemos _ memo
        (List.mem_of_mem_drop (List.mem_of_mem_take hmemo))
    have hmem := List.mem_of_mem_drop (List.mem_of_mem_take hmemo)
    rw [hasCreator, creator_of_mem_ownMemos hmem, hid]
    rfl

def recordOf (memo : Memo) : Record where
  sourceName := memoName memo.uid
  state := stateName (convertStateFromStore memo.rowStatus)
  createTime := ⟨memo.createdTs, 0⟩
  updateTime := ⟨memo.updatedTs, 0⟩
  content := memo.content
  visibility := visibilityName (convertVisibilityFromStore memo.visibility)
  pinned := memo.pinned

/-- The memos of a user that an import with a content limit takes: their UIDs are valid, and all
times can be written. -/
structure Exportable (limit userID : Nat) (db : Database) : Prop where
  rows : ∀ row ∈ db.memos, row.creatorId = userID → Import.uidMatches row.uid.toList = true ∧
    (limit = 0 ∨ row.content.utf8ByteSize ≤ limit) ∧
    Time.InYears row.createdTs ∧ Time.InYears row.updatedTs
  attachments : ∀ a ∈ db.attachments, Time.InYears a.createdTs
  reactions : ∀ r ∈ db.reactions, Time.InYears r.createdTs

theorem writable_timestamp {ts : Int} (h : Time.InYears ts) : Writable (timestamp ts) := by
  refine ⟨h, ?_, ?_⟩
  · exact Int.le_refl 0
  · show (0 : Int) < 1000000000
    omega

theorem memoUid_memoName {uid : String} (h : Import.uidMatches uid.toList = true) :
    (Import.memoUid (memoName uid)).isSome := by
  have hname : (memoName uid).toList = 'm' :: 'e' :: 'm' :: 'o' :: 's' :: '/' :: uid.toList := by
    simp [memoName, String.toList_append]
  rw [Import.memoUid, hname]
  simp [h]

theorem reaction_of_converted {reactions : List ReactionRecord} {users : UsersByID}
    {r : Api.Reaction} (h : r ∈ convertReactionsFromStoreWithCreators db reactions users) :
    ∃ record ∈ reactions, r.createTime = timestamp record.createdTs := by
  unfold convertReactionsFromStoreWithCreators at h
  split at h
  · cases h
  · obtain ⟨record, hrecord, hconverted⟩ := List.mem_filterMap.mp h
    obtain ⟨creator, -, rfl⟩ := Option.map_eq_some_iff.mp hconverted
    exact ⟨record, hrecord, rfl⟩

theorem message_eq {memo : Memo} {message : Api.Memo} (h : IsMessage services db userID memo message) :
    restoredRecord message = recordOf memo ∧ message.name = memoName memo.uid ∧
      message.state = convertStateFromStore memo.rowStatus ∧
      message.createTime = timestamp memo.createdTs ∧
      message.updateTime = timestamp memo.updatedTs ∧ message.content = memo.content ∧
      message.visibility = convertVisibilityFromStore memo.visibility ∧
      message.parent = memo.parentUid.map memoName ∧
      (∀ a ∈ message.attachments, ∃ r ∈ db.attachments, a.createTime = timestamp r.createdTs) ∧
      ∀ r ∈ message.reactions, ∃ r' ∈ db.reactions, r.createTime = timestamp r'.createdTs := by
  obtain ⟨page, relationMap, userIDs, -, -, -, h⟩ := h
  unfold convertMemoFromStoreWithCreators at h
  split at h
  · cases h
  · split at h
    · cases h
    · obtain rfl := Except.ok.inj h
      refine ⟨rfl, rfl, rfl, rfl, rfl, rfl, rfl, rfl, fun a ha => ?_, fun r hr => ?_⟩
      · obtain ⟨record, hrecord, rfl⟩ := List.mem_map.mp ha
        exact ⟨record, attachments_of_listed (List.mem_of_mem_filter hrecord), rfl⟩
      · obtain ⟨record, hrecord, htime⟩ := reaction_of_converted hr
        exact ⟨record, reactions_of_listed (List.mem_of_mem_filter hrecord), htime⟩

def carriedBy (db : Database) (userID : Nat) (memo : Memo) : Import.SkippedCounts where
  attachments := db.attachments.countP (·.memoId = some memo.id)
  comments := 0
  relations := (visibleRelations db (db.getUser userID) memo.id).length
  reactions := db.reactions.countP fun r =>
    r.contentId = memoName memo.uid ∧ (db.getUser r.creatorId).isSome
  locations := if memo.payload.location.isSome then 1 else 0
  settings := 0

theorem length_convertReactions {page : List Memo} {memo : Memo} (hmemo : memo ∈ page)
    {users : UsersByID} (hsound : users.Sound db) :
    (convertReactionsFromStoreWithCreators db
      ((db.listReactions { contentIdList := page.map fun m => memoName m.uid }).filter
        (·.contentId = memoName memo.uid)) users).length =
      db.reactions.countP fun r =>
        r.contentId = memoName memo.uid ∧ (db.getUser r.creatorId).isSome := by
  have hname : memoName memo.uid ∈ page.map fun m => memoName m.uid := List.mem_map_of_mem hmemo
  rw [convertReactions_eq hsound, List.length_filterMap_eq_countP, List.countP_filter,
    Database.listReactions, (List.mergeSort_perm _ _).countP_eq, List.countP_filter]
  refine List.countP_congr fun r _ => ?_
  simp only [Option.isSome_map, Bool.and_eq_true, decide_eq_true_eq]
  constructor
  · rintro ⟨⟨hknown, hcontent⟩, -⟩
    exact ⟨hcontent, hknown⟩
  · rintro ⟨hcontent, hknown⟩
    exact ⟨⟨hknown, hcontent⟩, by simp [asked, askedIn, hcontent, hname]⟩

theorem length_listedAttachments {page : List Memo} {memo : Memo} (hmemo : memo ∈ page) :
    ((db.listAttachments { memoIdList := page.map (·.id) }).filter
      (·.memoId = some memo.id)).length = db.attachments.countP (·.memoId = some memo.id) := by
  have hid : memo.id ∈ page.map (·.id) := List.mem_map_of_mem hmemo
  have hrows : db.listAttachments { memoIdList := page.map (·.id) } =
      db.listAttachmentRows { memoIdList := page.map (·.id) } :=
    if_neg fun h => List.ne_nil_of_mem hid h.2
  rw [← List.countP_eq_length_filter, hrows]
  show ((db.attachments.filter _).mergeSort _).countP _ = _
  rw [(List.mergeSort_perm _ _).countP_eq, List.countP_filter]
  refine List.countP_congr fun a _ => ?_
  simp only [Bool.and_eq_true, decide_eq_true_eq]
  constructor
  · exact fun h => h.1
  · intro h
    exact ⟨h, ⟨⟨rfl, rfl⟩, rfl⟩, .inr ⟨memo.id, hid, h⟩⟩

theorem carried_of_message (hkeys : db.Keys) {user : UserRecord}
    (hcurrent : fetchCurrentUser db userID = .ok (some user)) (huser : db.getUser userID = some user)
    {memo : Memo} {message : Api.Memo} (h : IsMessage services db userID memo message) :
    carried message = carriedBy db userID memo := by
  obtain ⟨page, relationMap, userIDs, hmemo, hrows, hrelations, h⟩ := h
  have hlength := (batchConvertMemoRelations_spec hkeys hrows hrelations hcurrent hmemo).length_eq
  rw [List.length_map, ← huser] at hlength
  have hreactions := @length_convertReactions db page memo hmemo _ (listUsersByID_sound userIDs)
  have hattachments := @length_listedAttachments db page memo hmemo
  unfold convertMemoFromStoreWithCreators at h
  split at h
  · cases h
  · split at h
    · cases h
    · obtain rfl := Except.ok.inj h
      simp only [carried, carriedBy, List.length_map, hlength, hreactions, hattachments]

theorem restorable_of_message {limit : Nat} {state : RowStatus} {memo : Memo}
    {message : Api.Memo} (hexportable : Exportable limit userID db)
    (hmemo : memo ∈ ownMemos db userID state) (h : IsMessage services db userID memo message) :
    Restorable limit message := by
  obtain ⟨-, hname, hstate, hcreate, hupdate, hbody, hvisibility, hparent, hattachments,
    hreactions⟩ := message_eq h
  obtain ⟨row, hrow, hmatches, parent, -, hparents, rfl⟩ := Database.exists_of_mem_listMemos hmemo
  obtain ⟨huid, hcontent, hcreated, hupdated⟩ :=
    hexportable.rows row hrow (ownFind_matchesRow.mp hmatches).1
  constructor
  · rw [hname]
    exact memoUid_memoName huid
  · rw [hstate]
    cases (((ownFind userID state).selected (row.withParent parent)).rowStatus) <;>
      simp [convertStateFromStore]
  · rw [hvisibility]
    show convertVisibilityFromStore row.visibility ≠ _
    cases row.visibility <;> simp [convertVisibilityFromStore]
  · rw [hbody]
    exact hcontent
  · have hnone : parent = none := by simpa [FindMemo.matchesParent, ownFind] using hparents
    rw [hparent, hnone]
    rfl
  · rw [hcreate]
    exact writable_timestamp hcreated
  · rw [hupdate]
    exact writable_timestamp hupdated
  · intro a ha
    obtain ⟨record, hmem, htime⟩ := hattachments a ha
    rw [htime]
    exact writable_timestamp (hexportable.attachments record hmem)
  · intro r hr
    obtain ⟨record, hmem, htime⟩ := hreactions r hr
    rw [htime]
    exact writable_timestamp (hexportable.reactions record hmem)

end messages

section pages

variable {x : Exporter} {storage : Storage} {state : RowStatus}

def Listing.Follows (services : Services) (db : Database) (userID : Nat) (own : List Memo) :
    Listing → Prop
  | .reading memos seenPageTokens pageToken => Web.FullPages pageToken ∧
      List.Forall₂ (IsMessage services db userID) (own.take (offsetOf pageToken)) memos ∧
      ∀ token ∈ seenPageTokens, token.offset ≤ offsetOf pageToken
  | .done memos => List.Forall₂ (IsMessage services db userID) own memos
  | .failed _ => False

def Listing.left (own : List Memo) : Listing → Nat
  | .reading _ _ pageToken => own.length - offsetOf pageToken + 1
  | _ => 0

/-- What the requests of an export rely on: the filter selects the memos of the user, and every
memo has a snippet. -/
structure Answers (x : Exporter) : Prop where
  filter : x.FiltersByCreator
  creator : ∃ creatorFilter, buildMemoCreatorFilter x.user.name = some creatorFilter
  snippet : ∀ content, ∃ snippet, x.services.generateSnippet content = .ok snippet

theorem listMemos_response (hx : Answers x) (h : x.Tables storage) {creatorFilter : String}
    (hcreator : buildMemoCreatorFilter x.user.name = some creatorFilter)
    {pageToken : Option PageToken} (hpages : FullPages pageToken) (state : RowStatus) :
    ∃ response, listMemos x.services storage.toDatabase x.userID
        (pageRequest creatorFilter (convertStateFromStore state) pageToken) = .ok response ∧
      List.Forall₂ (IsMessage x.services storage.toDatabase x.userID)
        (((ownMemos storage.toDatabase x.userID state).drop (offsetOf pageToken)).take 1000)
        response.memos := by
  have hown := ownRequest_pageRequest hx.filter h hcreator hpages state
  obtain ⟨response, hlist⟩ := hown.exists_response hx.snippet
  exact ⟨response, hlist, listMemos_messages hown hlist⟩

theorem nextPage_follows (hx : Answers x) (h : x.Tables storage) {memos : List Api.Memo}
    {seenPageTokens : List PageToken} {pageToken : Option PageToken} {own : List Memo}
    (hown : ownMemos storage.toDatabase x.userID state = own)
    (hlisting : (Listing.reading memos seenPageTokens pageToken).Follows x.services
      storage.toDatabase x.userID own) :
    ∃ listing, x.nextPage storage state (.reading memos seenPageTokens pageToken) = some listing ∧
      listing.Follows x.services storage.toDatabase x.userID own ∧
      listing.left own < (Listing.reading memos seenPageTokens pageToken).left own := by
  obtain ⟨creatorFilter, hcreator⟩ := hx.creator
  obtain ⟨hpages, hread, hseen⟩ := hlisting
  obtain ⟨response, hlist, hmessages⟩ := listMemos_response hx h hcreator hpages state
  obtain ⟨-, htoken⟩ := listMemos_pageRequest hx.filter h hcreator hpages hlist
  have hlength : (ownNames x storage state).length = own.length := by
    rw [ownNames, List.length_map, hown]
  rw [hlength] at htoken
  rw [hown] at hmessages
  have hnext : x.nextPage storage state (.reading memos seenPageTokens pageToken) =
      some (receivePage memos seenPageTokens (.ok response)) := by
    unfold Exporter.nextPage
    rw [hcreator]
    dsimp only
    rw [hlist]
  have happend : List.Forall₂ (IsMessage x.services storage.toDatabase x.userID)
      (own.take (offsetOf pageToken + 1000)) (memos ++ response.memos) := by
    rw [List.take_add]
    exact List.rel_append hread hmessages
  rw [hnext]
  refine ⟨_, rfl, ?_⟩
  rw [receivePage, htoken]
  by_cases hmore : offsetOf pageToken + 1000 < own.length
  · rw [if_pos hmore]
    dsimp only
    have hnew : (⟨1000, ↑(offsetOf pageToken + 1000)⟩ : PageToken) ∉ seenPageTokens := by
      intro hmem
      have hle := hseen _ hmem
      dsimp only at hle
      omega
    rw [if_neg hnew]
    refine ⟨⟨?_, happend, ?_⟩, ?_⟩
    · intro token htoken
      obtain rfl := Option.some.inj htoken
      exact ⟨rfl, Int.natCast_nonneg _⟩
    · intro token hmem
      show token.offset ≤ ↑(offsetOf pageToken + 1000)
      rcases List.mem_cons.mp hmem with rfl | hold
      · exact Int.le_refl _
      · have hle := hseen token hold
        omega
    · show own.length - (offsetOf pageToken + 1000) + 1 < own.length - offsetOf pageToken + 1
      omega
  · rw [if_neg hmore]
    rw [List.take_of_length_le (Nat.not_lt.mp hmore)] at happend
    exact ⟨happend, Nat.succ_pos _⟩

end pages

section runs

variable {x : Exporter} {start s s' : Exporting}

structure Quiet (x : Exporter) (start s : Exporting) : Prop where
  storage : s.storage = start.storage
  follows : ∀ state, (s.listing state).Follows x.services start.storage.toDatabase x.userID
    (ownMemos start.storage.toDatabase x.userID state)

theorem quiet_of_init (h : x.Init start) : Quiet x start start where
  storage := rfl
  follows := by
    intro state
    rw [h.listing state]
    refine ⟨?_, List.Forall₂.nil, ?_⟩
    · intro token htoken
      cases htoken
    · intro token htoken
      cases htoken

theorem step_page_listing {state : RowStatus} {listing : Listing}
    (h : x.nextPage s.storage state (s.listing state) = some listing) :
    x.step s (.page state) = some { s with listing := System.update s.listing state listing } := by
  show (x.nextPage s.storage state (s.listing state)).map _ = _
  rw [h]
  rfl

theorem Quiet.page (hx : Answers x) (htables : x.Tables start.storage) (hs : Quiet x start s)
    {state : RowStatus} {memos : List Api.Memo} {seenPageTokens : List PageToken}
    {pageToken : Option PageToken} (hreading : s.listing state = .reading memos seenPageTokens pageToken) :
    ∃ s', x.step s (.page state) = some s' ∧ Quiet x start s' ∧
      (∀ other, other ≠ state → s'.listing other = s.listing other) ∧
      (s'.listing state).left (ownMemos start.storage.toDatabase x.userID state) <
        (s.listing state).left (ownMemos start.storage.toDatabase x.userID state) := by
  have hfollows := hs.follows state
  rw [hreading] at hfollows
  obtain ⟨listing, hnext, hlisting, hleft⟩ :=
    nextPage_follows hx htables rfl hfollows
  rw [← hs.storage, ← hreading] at hnext
  rw [← hreading] at hleft
  refine ⟨_, step_page_listing hnext, ⟨hs.storage, fun other => ?_⟩, ?_, ?_⟩
  · by_cases hother : other = state
    · subst hother
      dsimp only
      rw [update_self]
      exact hlisting
    · dsimp only
      rw [update_of_ne hother]
      exact hs.follows other
  · intro other hother
    exact update_of_ne hother
  · dsimp only
    rw [update_self]
    exact hleft

theorem Quiet.step (hx : Answers x) (htables : x.Tables start.storage) (hs : Quiet x start s)
    {state : RowStatus} (h : x.step s (.page state) = some s') : Quiet x start s' := by
  cases hlisting : s.listing state with
  | reading memos seenPageTokens pageToken =>
    obtain ⟨t, ht, hquiet, -⟩ := hs.page hx htables hlisting
    rw [h] at ht
    obtain rfl := Option.some.inj ht
    exact hquiet
  | done memos =>
    obtain ⟨listing, hnext, -⟩ := Option.map_eq_some_iff.mp h
    rw [hlisting] at hnext
    unfold Exporter.nextPage at hnext
    split at hnext
    · rename_i heq
      cases heq
    · cases hnext
  | failed error =>
    have hfollows := hs.follows state
    rw [hlisting] at hfollows
    cases hfollows

def Requests (labels : List Label) : Prop := ∀ label ∈ labels, ∃ state, label = .page state

theorem Quiet.run (hx : Answers x) (htables : x.Tables start.storage) (hs : Quiet x start s)
    {labels : List Label} (hlabels : Requests labels) (hrun : x.system.run s labels = some s') :
    Quiet x start s' := by
  induction labels generalizing s with
  | nil =>
    obtain rfl : s = s' := by simpa [LabelledSystem.run] using hrun
    exact hs
  | cons label labels ih =>
    obtain ⟨t, ht, hrest⟩ := Option.bind_eq_some_iff.mp hrun
    obtain ⟨state, rfl⟩ := hlabels label List.mem_cons_self
    exact ih (hs.step hx htables ht) (fun l hl => hlabels l (List.mem_cons_of_mem _ hl)) hrest

theorem Quiet.exists_done (hx : Answers x) (htables : x.Tables start.storage)
    (hs : Quiet x start s) (state : RowStatus) :
    ∃ labels s' memos, Requests labels ∧ x.system.run s labels = some s' ∧ Quiet x start s' ∧
      s'.listing state = .done memos ∧
      ∀ other, other ≠ state → s'.listing other = s.listing other := by
  generalize hleft : (s.listing state).left
    (ownMemos start.storage.toDatabase x.userID state) = n
  induction n using Nat.strong_induction_on generalizing s with
  | _ n ih =>
    cases hlisting : s.listing state with
    | reading memos seenPageTokens pageToken =>
      obtain ⟨t, ht, hquiet, hothers, hless⟩ := hs.page hx htables hlisting
      rw [hleft] at hless
      obtain ⟨labels, s', memos', hlabels, hrun, hquiet', hdone, hothers'⟩ := ih _ hless hquiet rfl
      refine ⟨.page state :: labels, s', memos', ?_, ?_, hquiet', hdone, ?_⟩
      · intro label hlabel
        rcases List.mem_cons.mp hlabel with rfl | hrest
        · exact ⟨state, rfl⟩
        · exact hlabels label hrest
      · exact (LabelledSystem.run_cons ht labels).trans hrun
      · intro other hother
        rw [hothers' other hother, hothers other hother]
    | done memos =>
      refine ⟨[], s, memos, ?_, rfl, hs, hlisting, fun other _ => rfl⟩
      intro label hlabel
      cases hlabel
    | failed error =>
      have hfollows := hs.follows state
      rw [hlisting] at hfollows
      cases hfollows

end runs

section restored

variable {x : Exporter} {start s s' : Exporting} {double : Float → Json} {limit : Nat} {now : Int}

theorem map_restoredRecord {services : Services} {db : Database} {own : List Memo}
    {messages : List Api.Memo} (h : List.Forall₂ (IsMessage services db userID) own messages) :
    messages.map restoredRecord = own.map recordOf := by
  induction h with
  | nil => rfl
  | cons hmessage _ ih => rw [List.map_cons, List.map_cons, (message_eq hmessage).1, ih]

theorem restorable_of_messages {services : Services} {db : Database} {userID : Nat}
    {state : RowStatus} {messages : List Api.Memo} (hexportable : Exportable limit userID db)
    (h : List.Forall₂ (IsMessage services db userID) (ownMemos db userID state) messages) :
    ∀ message ∈ messages, Restorable limit message ∧
      message.state = convertStateFromStore state := by
  refine forall_right_of_forall₂ h ?_
  intro memo hmemo message hmessage
  obtain ⟨row, -, hmatches, parent, -, -, hrow⟩ := Database.exists_of_mem_listMemos hmemo
  have hstate : memo.rowStatus = state := by
    rw [← hrow]
    exact (ownFind_matchesRow.mp hmatches).2
  refine ⟨restorable_of_message hexportable hmemo hmessage, ?_⟩
  rw [(message_eq hmessage).2.2.1, hstate]

theorem listed_of_messages (htables : x.Tables start.storage)
    (hexportable : Exportable limit x.userID start.storage.toDatabase)
    {normal archived : List Api.Memo}
    (hnormal : List.Forall₂ (IsMessage x.services start.storage.toDatabase x.userID)
      (ownMemos start.storage.toDatabase x.userID .normal) normal)
    (harchived : List.Forall₂ (IsMessage x.services start.storage.toDatabase x.userID)
      (ownMemos start.storage.toDatabase x.userID .archived) archived) :
    Listed limit normal archived := by
  have hnames : ∀ {state messages}, List.Forall₂ (IsMessage x.services start.storage.toDatabase x.userID)
      (ownMemos start.storage.toDatabase x.userID state) messages →
        messages.map (·.name) = ownNames x start.storage state := by
    intro state messages h
    have hrecords := congrArg (List.map (·.sourceName)) (map_restoredRecord h)
    rw [List.map_map, List.map_map] at hrecords
    exact hrecords
  have hlength := length_ownNames htables .normal
  have hlength' := length_ownNames htables .archived
  rw [← hnames hnormal, List.length_map] at hlength
  rw [← hnames harchived, List.length_map] at hlength'
  constructor
  · exact ⟨fun memo hmemo => (restorable_of_messages hexportable hnormal memo hmemo).2,
      fun memo hmemo => (restorable_of_messages hexportable harchived memo hmemo).2⟩
  · intro memo hmemo
    rcases List.mem_append.mp hmemo with hmem | hmem
    · exact (restorable_of_messages hexportable hnormal memo hmem).1
    · exact (restorable_of_messages hexportable harchived memo hmem).1
  · rw [List.map_append, hnames hnormal, hnames harchived]
    exact nodup_ownNames htables
  · omega

theorem listings_of_file {iso : String} {file : MemoExportFile} (h : x.file iso s = some file) :
    ∃ normal archived, s.listing .normal = .done normal ∧
      s.listing .archived = .done archived := by
  unfold Exporter.file createMemoExportFile at h
  split at h
  · rename_i normal archived hnormal harchived
    exact ⟨normal, archived, hnormal, harchived⟩
  · cases h

def exportedMemos (x : Exporter) (db : Database) : List Memo :=
  ownMemos db x.userID .normal ++ ownMemos db x.userID .archived

/-- An export whose listings follow the tables can always be finished. -/
theorem Quiet.exists_file (hx : Answers x) (htables : x.Tables start.storage)
    (hquiet : Quiet x start s) (iso : String) :
    ∃ more s', Requests more ∧ x.system.run s more = some s' ∧ (x.file iso s').isSome := by
  obtain ⟨labels₁, s₁, normal, hlabels₁, hrun₁, hquiet₁, hnormal, -⟩ :=
    hquiet.exists_done hx htables .normal
  obtain ⟨labels₂, s₂, archived, hlabels₂, hrun₂, -, harchived, hothers⟩ :=
    hquiet₁.exists_done hx htables .archived
  refine ⟨labels₁ ++ labels₂, s₂, ?_, ?_, ?_⟩
  · intro label hlabel
    rcases List.mem_append.mp hlabel with hmem | hmem
    · exact hlabels₁ label hmem
    · exact hlabels₂ label hmem
  · exact (LabelledSystem.run_append hrun₁ labels₂).trans hrun₂
  · have hnormal₂ : s₂.listing .normal = .done normal := by
      rw [hothers .normal (by simp), hnormal]
    rw [Exporter.file, hnormal₂, harchived]
    rfl

theorem Quiet.file_restores (hx : Answers x) (htables : x.Tables start.storage)
    (hexportable : Exportable limit x.userID start.storage.toDatabase)
    (hdouble : ∀ value, (double value).Printable 0) (husername : x.user.username ≠ "")
    (hnow : Time.InYears (now / 1000)) (hquiet : Quiet x start s) {file : MemoExportFile}
    (hfile : x.file (Time.toISOString now) s = some file) :
    ∃ text normal archived, file.content double = some text ∧
      Restores x.user now normal archived (Import.parse text.toByteArray limit) ∧
      List.Forall₂ (IsMessage x.services start.storage.toDatabase x.userID)
        (exportedMemos x start.storage.toDatabase) (normal ++ archived) := by
  obtain ⟨normal, archived, hnormal, harchived⟩ := listings_of_file hfile
  have hfollows := hquiet.follows .normal
  have hfollows' := hquiet.follows .archived
  rw [hnormal] at hfollows
  rw [harchived] at hfollows'
  have hname : x.user.name ≠ "" := by
    obtain ⟨creatorFilter, hcreator⟩ := hx.creator
    intro hempty
    rw [buildMemoCreatorFilter, if_pos hempty] at hcreator
    cases hcreator
  obtain ⟨file', text, hfile', htext, hrestores⟩ := content_restores hdouble ⟨hname, husername⟩
    hnow (listed_of_messages htables hexportable hfollows hfollows')
  rw [Exporter.file, hnormal, harchived, hfile'] at hfile
  obtain rfl := Option.some.inj hfile
  exact ⟨text, normal, archived, htext, hrestores, List.rel_append hfollows hfollows'⟩

theorem mem_exportedMemos {row : MemoRecord} (hrow : row ∈ start.storage.memos)
    (hcreator : row.creatorId = x.userID) (htop : TopLevel start.storage.toDatabase row) :
    row.withParent none ∈ exportedMemos x start.storage.toDatabase := by
  have hmem := mem_ownMemos_of_row hrow hcreator htop
  unfold exportedMemos
  cases hstate : row.rowStatus with
  | normal =>
    rw [hstate] at hmem
    exact List.mem_append_left _ hmem
  | archived =>
    rw [hstate] at hmem
    exact List.mem_append_right _ hmem

theorem mem_exportedMemos_iff (htables : x.Tables start.storage) {memo : Memo} :
    memo ∈ exportedMemos x start.storage.toDatabase ↔
      ∃ row ∈ start.storage.memos, row.creatorId = x.userID ∧
        TopLevel start.storage.toDatabase row ∧ memo = row.withParent none := by
  constructor
  · intro h
    have hown : ∃ state, memo ∈ ownMemos start.storage.toDatabase x.userID state := by
      rcases List.mem_append.mp h with h | h
      · exact ⟨_, h⟩
      · exact ⟨_, h⟩
    obtain ⟨state, hown⟩ := hown
    obtain ⟨row, hrow, hmatches, parent, hparent, hnone, rfl⟩ :=
      Database.exists_of_mem_listMemos hown
    obtain rfl : parent = none := by simpa [FindMemo.matchesParent, ownFind] using hnone
    refine ⟨row, hrow, (ownFind_matchesRow.mp hmatches).1, ?_, rfl⟩
    -- A memo with at most one parent is joined with one row only.
    obtain ⟨only, honly⟩ := List.length_eq_one_iff.mp (Nat.le_antisymm
      (Database.parents_length_le htables.parents row) (List.length_pos_of_mem hparent))
    intro other hother
    rw [honly, List.mem_singleton] at hparent hother
    rw [hother, hparent]
  · rintro ⟨row, hrow, hcreator, htop, rfl⟩
    exact mem_exportedMemos hrow hcreator htop

def carriedByAll (db : Database) (userID : Nat) (memos : List Memo) : Import.SkippedCounts where
  attachments := (memos.map fun memo => (carriedBy db userID memo).attachments).sum
  comments := 0
  relations := (memos.map fun memo => (carriedBy db userID memo).relations).sum
  reactions := (memos.map fun memo => (carriedBy db userID memo).reactions).sum
  locations := (memos.map fun memo => (carriedBy db userID memo).locations).sum
  settings := 0

theorem carriedTotal_of_messages (htables : x.Tables start.storage)
    (hkeys : start.storage.toDatabase.Keys) {memos : List Memo} {messages : List Api.Memo}
    (h : List.Forall₂ (IsMessage x.services start.storage.toDatabase x.userID) memos messages) :
    carriedTotal messages = carriedByAll start.storage.toDatabase x.userID memos := by
  obtain ⟨user, hcurrent, huser⟩ := fetchCurrentUser_of_tables htables
  have hcarried : messages.map carried =
      memos.map (carriedBy start.storage.toDatabase x.userID) := by
    induction h with
    | nil => rfl
    | cons hmessage _ ih =>
      rw [List.map_cons, List.map_cons, ih, carried_of_message hkeys hcurrent huser hmessage]
  have hsum : ∀ count : Import.SkippedCounts → Nat,
      (messages.map fun message => count (carried message)).sum =
        (memos.map fun memo =>
          count (carriedBy start.storage.toDatabase x.userID memo)).sum := by
    intro count
    have hcounts := congrArg (fun counts => (counts.map count).sum) hcarried
    simpa [Function.comp_def] using hcounts
  rw [carriedTotal, carriedByAll, hsum (·.attachments), hsum (·.relations), hsum (·.reactions),
    hsum (·.locations)]

theorem diary_answers : Answers diaryExporter where
  filter := diary_filters
  creator := ⟨_, rfl⟩
  snippet := fun content => ⟨content, rfl⟩

/-- An export of tables that stay as they are can always be finished, and its file is an import of
the user's top-level memos, each once and as it is stored; what these carry besides is counted as
skipped. -/
theorem export_importable (hx : Answers x) (hinit : x.Init start)
    (hkeys : start.storage.toDatabase.Keys)
    (hexportable : Exportable limit x.userID start.storage.toDatabase)
    (hdouble : ∀ value, (double value).Printable 0)
    (husername : x.user.username ≠ "") (hnow : Time.InYears (now / 1000)) {labels : List Label}
    (hlabels : Requests labels) (hrun : x.system.run start labels = some s) :
    (∃ more s', Requests more ∧ x.system.run s more = some s' ∧
      (x.file (Time.toISOString now) s').isSome) ∧
    ∀ file, x.file (Time.toISOString now) s = some file → ∃ text, file.content double = some text ∧
      (Import.parse text.toByteArray limit).canImport = true ∧
      (Import.parse text.toByteArray limit).records =
        (exportedMemos x start.storage.toDatabase).map recordOf ∧
      (Import.parse text.toByteArray limit).skipped =
        carriedByAll start.storage.toDatabase x.userID
          (exportedMemos x start.storage.toDatabase) ∧
      ((exportedMemos x start.storage.toDatabase).map (·.uid)).Nodup ∧
      ∀ memo, memo ∈ exportedMemos x start.storage.toDatabase ↔
        ∃ row ∈ start.storage.memos, row.creatorId = x.userID ∧
          TopLevel start.storage.toDatabase row ∧ memo = row.withParent none := by
  have hquiet := (quiet_of_init hinit).run hx hinit.tables hlabels hrun
  refine ⟨hquiet.exists_file hx hinit.tables _, fun file hfile => ?_⟩
  obtain ⟨text, normal, archived, htext, hrestores, hmessages⟩ :=
    hquiet.file_restores hx hinit.tables hexportable hdouble husername hnow hfile
  refine ⟨text, htext, hrestores.canImport, ?_, ?_, ?_, fun memo => ?_⟩
  · exact hrestores.records.trans (map_restoredRecord hmessages)
  · exact hrestores.skipped.trans (carriedTotal_of_messages hinit.tables hkeys hmessages)
  · exact nodup_ownMemos hinit.tables.uids hinit.tables.parents
  · exact mem_exportedMemos_iff hinit.tables

def tripMemo : MemoRecord where
  id := 2
  uid := "trip"
  creatorId := 1
  createdTs := 60
  updatedTs := 120
  rowStatus := .archived
  content := "A long trip"
  visibility := .Public
  pinned := true
  payload := ⟨none, some ⟨"Home", 0, 0⟩, []⟩

/-- A diary with a comment and a reaction, which refers to a trip with a photo and a place. -/
def tripTables : Storage where
  users := [⟨1, .normal, "alice", .USER⟩]
  memos := [diaryMemo .normal, tripMemo, { diaryMemo .normal with id := 3, uid := "note" }]
  relations := [⟨1, 2, .REFERENCE⟩, ⟨3, 1, .COMMENT⟩]
  attachments := [⟨1, "photo", 1, "photo.png", "image/png", 5, 60, 60, some 2, .LOCAL, "", none⟩]
  reactions := [⟨1, 30, 1, "memos/diary", "👍"⟩]
  inboxes := []
  nextMemoId := 4
  nextReactionId := 2
  nextInboxId := 1

def tripExport : Exporting := ⟨tripTables, fun _ => .reading [] [] none⟩

theorem trip_init : diaryExporter.Init tripExport where
  tables := {
    ids := by decide
    uids := by decide
    idsBelow := by decide
    nextMemoId := by decide
    parents := by decide
    user := ⟨Nat.one_ne_zero, _, rfl, rfl⟩ }
  listing := fun _ => rfl

theorem trip_exportable : Exportable 8192 1 tripTables.toDatabase where
  rows := by
    intro row hrow _
    simp only [tripTables, List.mem_cons, List.not_mem_nil, or_false] at hrow
    rcases hrow with rfl | rfl | rfl
    · exact ⟨by decide, .inr (by decide), by decide, by decide⟩
    · exact ⟨by decide, .inr (by decide), by decide, by decide⟩
    · exact ⟨by decide, .inr (by decide), by decide, by decide⟩
  attachments := by decide
  reactions := by decide

theorem trip_exportedMemos : exportedMemos diaryExporter tripTables.toDatabase =
    [(diaryMemo .normal).withParent none, tripMemo.withParent none] := by
  have hnormal : ownMemos tripTables.toDatabase 1 .normal =
      [(diaryMemo .normal).withParent none] :=
    List.perm_singleton.mp ((ownMemos_perm _ 1 .normal).trans (List.Perm.of_eq rfl))
  have harchived : ownMemos tripTables.toDatabase 1 .archived = [tripMemo.withParent none] :=
    List.perm_singleton.mp ((ownMemos_perm _ 1 .archived).trans (List.Perm.of_eq rfl))
  show ownMemos _ 1 .normal ++ ownMemos _ 1 .archived = _
  rw [hnormal, harchived]
  rfl

/-- The diary and the trip come back; the reference counts for both of its memos. -/
theorem export_importable_trip : ∃ labels s file text,
    diaryExporter.system.run tripExport labels = some s ∧
      diaryExporter.file (Time.toISOString 1709211845007) s = some file ∧
      file.content (fun _ => .num "0") = some text ∧
      (Import.parse text.toByteArray 8192).canImport = true ∧
      (Import.parse text.toByteArray 8192).records =
        [⟨"memos/diary", "NORMAL", ⟨0, 0⟩, ⟨0, 0⟩, "Dear diary", "PRIVATE", false⟩,
          ⟨"memos/trip", "ARCHIVED", ⟨60, 0⟩, ⟨120, 0⟩, "A long trip", "PUBLIC", true⟩] ∧
      (Import.parse text.toByteArray 8192).skipped = ⟨1, 0, 3, 1, 1, 0⟩ := by
  have hdouble : ∀ value : Float, ((fun _ => .num "0") value : Json).Printable 0 :=
    fun _ => printable_natural 0 0
  have hkeys : tripExport.storage.toDatabase.Keys := ⟨by decide, by decide, by decide, by decide⟩
  have hnow : Time.InYears (1709211845007 / 1000) := by decide
  have hstart : diaryExporter.system.run tripExport [] = some tripExport := rfl
  have hnone : Requests [] := fun _ h => absurd h List.not_mem_nil
  obtain ⟨⟨labels, s, hlabels, hrun, hfinished⟩, -⟩ := export_importable diary_answers trip_init
    hkeys trip_exportable hdouble (by decide) hnow hnone hstart
  obtain ⟨file, hfile⟩ := Option.isSome_iff_exists.mp hfinished
  obtain ⟨-, himports⟩ := export_importable diary_answers trip_init hkeys trip_exportable hdouble
    (by decide) hnow hlabels hrun
  obtain ⟨text, htext, himport, hrecords, hskipped, -⟩ := himports file hfile
  have hmemos : exportedMemos diaryExporter tripExport.storage.toDatabase =
      [(diaryMemo .normal).withParent none, tripMemo.withParent none] := trip_exportedMemos
  rw [hmemos] at hrecords hskipped
  exact ⟨labels, s, file, text, hrun, hfile, htext, himport, hrecords, hskipped⟩

end restored

end Memoark.Web
