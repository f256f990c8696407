import Memoark.Server.ReadAgreement

/-! Who may read an attachment: `checkAttachmentAccess` of the API (`attachment_service.go`),
`checkAttachmentPermission` of the file server (`fileserver/fileserver.go`), and `GetMemoByShare`
(`memo_share_service.go`). A user id of 0 stands for no credentials. -/
namespace Memoark.Server
open Store

structure MemoShare where
  id : Nat
  uid : String
  memoId : Nat
  creatorId : Nat
  createdTs : Int
  /-- `none` never expires. -/
  expiresTs : Option Int

def getMemoShare (shares : List MemoShare) (uid : String) : Option MemoShare :=
  shares.find? (·.uid = uid)

def isMemoShareExpired (now : Int) (ms : MemoShare) : Bool := ms.expiresTs.any (· < now)

def getActiveMemoShare (shares : List MemoShare) (now : Int) (shareID : String) :
    Except Status MemoShare :=
  match getMemoShare shares shareID with
  | none => .error ⟨.NotFound, "not found"⟩
  | some ms => if isMemoShareExpired now ms then .error ⟨.NotFound, "not found"⟩ else .ok ms

def answerShared : Except ConvertError Api.Memo → Except Status Api.Memo
  | .ok message => .ok message
  | .error .creatorNotFound => .error ⟨.NotFound, "not found"⟩
  | .error (.other err) => .error ⟨.Unknown, "failed to convert memo: " ++ err⟩

def getMemoByShare (services : Services) (db : Database) (shares : List MemoShare) (now : Int)
    (userID : Nat) (shareID : String) : Except Status Api.Memo := do
  let ms ← getActiveMemoShare shares now shareID
  match db.getMemo { id := some ms.memoId } with
  | none => .error ⟨.NotFound, "not found"⟩
  | some memo =>
    -- Treat archived or missing memos the same as an invalid token.
    if memo.rowStatus = .archived then .error ⟨.NotFound, "not found"⟩
    else
      let reactions := db.listReactions { contentId := some (memoName memo.uid) }
      let attachments := db.listAttachments { memoId := some memo.id }
      let relations ← (loadMemoRelations db services.generateSnippet userID memo).mapError
        fun _ => ⟨.Internal, "failed to load memo relations"⟩
      answerShared
        (convertMemoFromStore db services.generateSnippet memo reactions attachments relations)

/-- The user id that `Authenticator.Authenticate` leaves in the context of an API call. -/
def authenticate (db : Database) (userID : Nat) : Nat :=
  match db.getUser userID with
  | none => 0
  | some user => if user.rowStatus = .archived then 0 else userID

def authenticateToUser (db : Database) (userID : Nat) : Option UserRecord :=
  if userID = 0 then none
  else
    match db.getUser userID with
    | none => none
    | some user => if user.rowStatus = .archived then none else some user

def checkAttachmentAccess (db : Database) (userID : Nat) (attachment : AttachmentRecord) :
    Except Status Unit :=
  let user := (fetchCurrentUser db userID).toOption.join
  match attachment.memoId with
  | none =>
    -- For unlinked attachments, only the creator can access.
    match user with
    | none => .error ⟨.Unauthenticated, "user not authenticated"⟩
    | some user =>
      if attachment.creatorId ≠ user.id ∧ ¬isSuperUser user then
        .error ⟨.PermissionDenied, "permission denied"⟩
      else .ok ()
  | some memoId =>
    match db.getMemo { id := some memoId } with
    | none => .error ⟨.NotFound, "memo not found"⟩
    | some memo =>
      if memo.visibility = .Public then .ok ()
      else
        match user with
        | none => .error ⟨.Unauthenticated, "user not authenticated"⟩
        | some user =>
          if memo.visibility = .Private ∧ memo.creatorId ≠ user.id ∧ ¬isSuperUser user then
            .error ⟨.PermissionDenied, "permission denied"⟩
          else .ok ()

namespace FileServer

structure HTTPError where
  code : Nat
  message : String
  deriving DecidableEq

def shareTokenGrants (shares : List MemoShare) (now : Int) (shareToken : String) (memo : Memo) :
    Bool :=
  shareToken ≠ "" &&
    (getMemoShare shares shareToken).any fun ms =>
      !isMemoShareExpired now ms && ms.memoId = memo.id

def checkAttachmentPermission (db : Database) (shares : List MemoShare) (now : Int)
    (userID : Nat) (shareToken : String) (attachment : AttachmentRecord) :
    Except HTTPError Unit :=
  match attachment.memoId with
  | none =>
    match authenticateToUser db userID with
    | none => .error ⟨401, "unauthorized access"⟩
    | some user =>
      if user.id ≠ attachment.creatorId ∧ user.role ≠ .ADMIN then
        .error ⟨403, "forbidden access"⟩
      else .ok ()
  | some memoId =>
    match db.getMemo { id := some memoId } with
    | none => .error ⟨404, "memo not found"⟩
    | some memo =>
      if memo.visibility = .Public then .ok ()
      else if shareTokenGrants shares now shareToken memo then .ok ()
      else
        match authenticateToUser db userID with
        | none => .error ⟨401, "unauthorized access"⟩
        | some user =>
          if memo.visibility = .Private ∧ user.id ≠ memo.creatorId ∧ user.role ≠ .ADMIN then
            .error ⟨403, "forbidden access"⟩
          else .ok ()

end FileServer

section access

variable {services : Services} {db : Database} {shares : List MemoShare} {now : Int} {userID : Nat}
  {shareToken : String} {attachment : AttachmentRecord} {memo : Memo}

def linkedMemo (db : Database) (attachment : AttachmentRecord) : Option Memo :=
  attachment.memoId.bind fun memoId => db.getMemo { id := some memoId }

/-- An attachment without a memo is read by its creator, one with a memo by who sees the memo, and
all are read by an admin. -/
def MayRead (db : Database) (user : Option UserRecord) (attachment : AttachmentRecord) : Prop :=
  match attachment.memoId with
  | none => ∃ u, user = some u ∧ (u.id = attachment.creatorId ∨ u.role = .ADMIN)
  | some _ => ∃ memo, linkedMemo db attachment = some memo ∧
      (memo.visibility = .Public ∨
        ∃ u, user = some u ∧ (memo.visibility = .Private → u.id = memo.creatorId ∨ u.role = .ADMIN))

theorem check_user_iff {ε : Type} {user : Option UserRecord} {anonymous forbidden : ε}
    {refuses : UserRecord → Prop} [DecidablePred refuses] :
    (match user with
      | none => Except.error anonymous
      | some u => if refuses u then .error forbidden else .ok ()) = .ok () ↔
      ∃ u, user = some u ∧ ¬refuses u := by
  cases user with
  | none =>
    constructor
    · intro h
      cases h
    · rintro ⟨u, h, -⟩
      cases h
  | some u =>
    by_cases hrefuses : refuses u
    · simp [hrefuses]
    · simp [hrefuses]

theorem checkAttachmentAccess_iff : checkAttachmentAccess db userID attachment = .ok () ↔
    MayRead db (fetchCurrentUser db userID).toOption.join attachment := by
  unfold checkAttachmentAccess MayRead linkedMemo
  dsimp only
  cases attachment.memoId with
  | none =>
    refine check_user_iff.trans (exists_congr fun u => and_congr_right fun _ => ?_)
    simp only [isSuperUser, decide_eq_true_eq]
    tauto
  | some memoId =>
    dsimp only [Option.bind_some]
    cases db.getMemo { id := some memoId } with
    | none =>
      constructor
      · intro h
        cases h
      · rintro ⟨memo, h, -⟩
        cases h
    | some memo =>
      dsimp only
      simp only [Option.some.injEq, exists_eq_left']
      by_cases hpublic : memo.visibility = .Public
      · rw [if_pos hpublic]
        exact iff_of_true rfl (.inl hpublic)
      · rw [if_neg hpublic, check_user_iff, or_iff_right hpublic]
        refine exists_congr fun u => and_congr_right fun _ => ?_
        simp only [isSuperUser, decide_eq_true_eq]
        tauto

theorem checkAttachmentPermission_iff :
    FileServer.checkAttachmentPermission db shares now userID shareToken attachment = .ok () ↔
      MayRead db (authenticateToUser db userID) attachment ∨
        ∃ memo, linkedMemo db attachment = some memo ∧
          FileServer.shareTokenGrants shares now shareToken memo = true := by
  unfold FileServer.checkAttachmentPermission MayRead linkedMemo
  cases attachment.memoId with
  | none =>
    have hnone : ¬∃ memo, (none : Option Nat).bind (fun id => db.getMemo { id := some id }) =
        some memo ∧ FileServer.shareTokenGrants shares now shareToken memo = true := by
      rintro ⟨memo, h, -⟩
      cases h
    rw [or_iff_left hnone]
    refine check_user_iff.trans (exists_congr fun u => and_congr_right fun _ => ?_)
    tauto
  | some memoId =>
    dsimp only [Option.bind_some]
    cases db.getMemo { id := some memoId } with
    | none =>
      constructor
      · intro h
        cases h
      · rintro (⟨memo, h, -⟩ | ⟨memo, h, -⟩)
        · cases h
        · cases h
    | some memo =>
      dsimp only
      simp only [Option.some.injEq, exists_eq_left']
      by_cases hpublic : memo.visibility = .Public
      · rw [if_pos hpublic]
        exact iff_of_true rfl (.inl (.inl hpublic))
      · rw [if_neg hpublic]
        by_cases hgrants : FileServer.shareTokenGrants shares now shareToken memo = true
        · rw [if_pos hgrants]
          exact iff_of_true rfl (.inr hgrants)
        · rw [if_neg hgrants, check_user_iff, or_iff_right hpublic, or_iff_left hgrants]
          refine exists_congr fun u => and_congr_right fun _ => ?_
          tauto

theorem fetchCurrentUser_authenticate (db : Database) (userID : Nat) :
    fetchCurrentUser db (authenticate db userID) = .ok (authenticateToUser db userID) := by
  unfold authenticate authenticateToUser
  cases huser : db.getUser userID with
  | none =>
    dsimp only
    rw [ite_self]
    rfl
  | some user =>
    dsimp only
    by_cases harchived : user.rowStatus = .archived
    · rw [if_pos harchived, if_pos harchived, ite_self]
      rfl
    · rw [if_neg harchived, if_neg harchived]
      unfold fetchCurrentUser
      by_cases hzero : userID = 0
      · rw [if_pos hzero, if_pos hzero]
      · rw [if_neg hzero, if_neg hzero, huser]
        exact if_neg harchived

theorem getMemo_id {memoId : Nat} (h : db.getMemo { id := some memoId } = some memo) :
    ∃ row ∈ db.memos, row.id = memoId ∧ ∃ parent ∈ db.parents row, row.withParent parent = memo := by
  obtain ⟨row, hrow, hmatches, parent, hparent, -, rfl⟩ :=
    Database.exists_of_mem_listMemos (List.mem_of_head? h)
  have hid : memoId = row.id := by simpa [FindMemo.matchesRow, asked, askedIn] using hmatches
  exact ⟨row, hrow, hid.symm, parent, hparent, rfl⟩

theorem exists_loadMemoRelations {user : Option UserRecord}
    (hsnippet : ∀ content, ∃ snippet, services.generateSnippet content = .ok snippet)
    (huser : fetchCurrentUser db userID = .ok user) (memo : Memo) :
    ∃ relations, loadMemoRelations db services.generateSnippet userID memo = .ok relations := by
  have hsnippets : ∀ includeSnippets failure memos, ∃ snippets,
      snippetsOf services.generateSnippet includeSnippets failure memos = .ok snippets := by
    intro includeSnippets failure memos
    unfold snippetsOf
    split
    · refine Program.exists_mapM_ok fun memo _ => ?_
      obtain ⟨snippet, hsnippet⟩ := hsnippet memo.content
      exact ⟨(memo.id, snippet), by rw [getMemoContentSnippet, hsnippet]; rfl⟩
    · exact ⟨[], rfl⟩
  unfold loadMemoRelations batchConvertMemoRelations
  rw [if_neg (List.cons_ne_nil memo []), huser]
  refine Program.exists_bind_ok ?_ fun relationMap => ⟨_, rfl⟩
  refine Program.exists_bind_ok ⟨user, rfl⟩ fun user => ?_
  refine Program.exists_bind_ok (hsnippets _ _ _) fun snippets => ?_
  exact Program.exists_bind_ok (hsnippets _ _ _) fun extraSnippets => ⟨_, rfl⟩

theorem shareTokenGrants_iff (hne : shareToken ≠ "") :
    FileServer.shareTokenGrants shares now shareToken memo = true ↔
      ∃ ms, getActiveMemoShare shares now shareToken = .ok ms ∧ ms.memoId = memo.id := by
  unfold FileServer.shareTokenGrants getActiveMemoShare
  rw [decide_eq_true hne, Bool.true_and]
  cases getMemoShare shares shareToken with
  | none =>
    constructor
    · intro h
      cases h
    · rintro ⟨ms, h, -⟩
      cases h
  | some ms =>
    cases hexpired : isMemoShareExpired now ms with
    | true => simp [hexpired]
    | false => simp [hexpired]

theorem exists_answerShared {user : Option UserRecord}
    (hsnippet : ∀ content, ∃ snippet, services.generateSnippet content = .ok snippet)
    (huser : fetchCurrentUser db userID = .ok user)
    (hcreator : (db.getUser memo.creatorId).isSome = true) (hnormal : memo.rowStatus = .normal)
    {ms : MemoShare} (hshare : getActiveMemoShare shares now shareToken = .ok ms)
    (hmemo : db.getMemo { id := some ms.memoId } = some memo) :
    ∃ message, getMemoByShare services db shares now userID shareToken = .ok message ∧
      message.name = memoName memo.uid := by
  obtain ⟨creator, hcreator⟩ := Option.isSome_iff_exists.mp hcreator
  obtain ⟨relations, hrelations⟩ := exists_loadMemoRelations hsnippet huser memo
  obtain ⟨snippet, hsnippet⟩ := hsnippet memo.content
  have hknown : listUsersByID db [memo.creatorId] memo.creatorId = some creator := by
    rw [listUsersByID_of_mem (List.mem_singleton_self _), hcreator]
  have harchived : ¬memo.rowStatus = .archived := by
    rw [hnormal]
    exact RowStatus.noConfusion
  unfold getMemoByShare
  rw [hshare]
  simp only [bind, Except.bind, hmemo, if_neg harchived, hrelations, Except.mapError]
  unfold convertMemoFromStore convertMemoFromStoreWithCreators
  simp only [hknown, getMemoContentSnippet, hsnippet, Except.mapError]
  exact ⟨_, rfl, rfl⟩

theorem getMemoByShare_ok {message : Api.Memo}
    (h : getMemoByShare services db shares now userID shareToken = .ok message) :
    ∃ ms memo, getActiveMemoShare shares now shareToken = .ok ms ∧
      db.getMemo { id := some ms.memoId } = some memo ∧ message.name = memoName memo.uid := by
  obtain ⟨ms, hms, h⟩ := Program.bind_ok h
  cases hmemo : db.getMemo { id := some ms.memoId } with
  | none =>
    rw [hmemo] at h
    cases h
  | some memo =>
    rw [hmemo] at h
    dsimp only at h
    split at h
    · cases h
    · obtain ⟨relations, -, h⟩ := Program.bind_ok h
      refine ⟨ms, memo, hms, hmemo, ?_⟩
      unfold answerShared at h
      split at h
      · rename_i message' hmessage
        obtain rfl := Except.ok.inj h
        obtain ⟨_, _, -, -, rfl⟩ := convertMemo_ok hmessage
        rfl
      · cases h
      · cases h

theorem getMemoByShare_iff {user : Option UserRecord} (hkeys : db.Keys)
    (hsnippet : ∀ content, ∃ snippet, services.generateSnippet content = .ok snippet)
    (huser : fetchCurrentUser db userID = .ok user) {memoId : Nat}
    (hmemo : db.getMemo { id := some memoId } = some memo) (hnormal : memo.rowStatus = .normal)
    (hcreator : (db.getUser memo.creatorId).isSome = true) :
    (∃ message, getMemoByShare services db shares now userID shareToken = .ok message ∧
        message.name = memoName memo.uid) ↔
      ∃ ms, getActiveMemoShare shares now shareToken = .ok ms ∧ ms.memoId = memo.id := by
  obtain ⟨row, hrow, rfl, parent, -, rfl⟩ := getMemo_id hmemo
  constructor
  · rintro ⟨message, hmessage, hname⟩
    obtain ⟨ms, memo', hms, hmemo', hname'⟩ := getMemoByShare_ok hmessage
    obtain ⟨row', hrow', hid, parent', -, rfl⟩ := getMemo_id hmemo'
    have huid : row'.uid = row.uid := memoName_inj (hname'.symm.trans hname)
    refine ⟨ms, hms, ?_⟩
    rw [← hid, hkeys.row_eq_of_uid hrow' hrow huid]
    rfl
  · rintro ⟨ms, hms, hid⟩
    refine exists_answerShared hsnippet huser hcreator hnormal hms ?_
    rw [hid]
    exact hmemo

/-- Without a share token the file server and the API let the same users read an attachment. With
one the file server also lets read it whom the token gives the memo; a memo that is archived or has
lost its creator is left aside. -/
theorem attachment_access_iff
    (hsnippet : ∀ content, ∃ snippet, services.generateSnippet content = .ok snippet)
    (hkeys : db.Keys) (shares : List MemoShare) (now : Int) (userID : Nat)
    (attachment : AttachmentRecord) :
    (FileServer.checkAttachmentPermission db shares now userID "" attachment = .ok () ↔
        checkAttachmentAccess db (authenticate db userID) attachment = .ok ()) ∧
      ∀ shareToken ≠ "",
        (∀ memo, linkedMemo db attachment = some memo →
          memo.rowStatus = .normal ∧ (db.getUser memo.creatorId).isSome = true) →
        (FileServer.checkAttachmentPermission db shares now userID shareToken attachment = .ok () ↔
          checkAttachmentAccess db (authenticate db userID) attachment = .ok () ∨
            ∃ memo message, linkedMemo db attachment = some memo ∧
              getMemoByShare services db shares now (authenticate db userID) shareToken =
                .ok message ∧ message.name = memoName memo.uid) := by
  have huser := fetchCurrentUser_authenticate db userID
  have haccess : checkAttachmentAccess db (authenticate db userID) attachment = .ok () ↔
      MayRead db (authenticateToUser db userID) attachment := by
    rw [checkAttachmentAccess_iff, huser]
    rfl
  constructor
  · rw [checkAttachmentPermission_iff, haccess, or_iff_left]
    rintro ⟨memo, -, hgrants⟩
    cases hgrants
  · intro shareToken hne hmemo
    rw [checkAttachmentPermission_iff, haccess]
    refine or_congr_right (exists_congr fun memo => ?_)
    rw [exists_and_left]
    refine and_congr_right fun hlinked => ?_
    obtain ⟨memoId, -, hget⟩ := Option.bind_eq_some_iff.mp hlinked
    obtain ⟨hnormal, hcreator⟩ := hmemo memo hlinked
    rw [shareTokenGrants_iff hne, getMemoByShare_iff hkeys hsnippet huser hget hnormal hcreator]

end access

def photo : AttachmentRecord :=
  ⟨1, "a0", 1, "photo.jpg", "image/jpeg", 0, 0, 0, some 1, .LOCAL, "", none⟩

theorem photo_linkedMemo : linkedMemo (album 1) photo = some (albumMemo.withParent none) := by
  change (album 1).getMemo { id := some 1 } = _
  rw [Database.getMemo, album_memos 1 _ (by decide)]
  rfl

def privateAlbum : Database :=
  { album 1 with memos := [{ albumMemo with visibility := .Private }] }

theorem photo_linkedPrivate : linkedMemo privateAlbum photo =
    some ({ albumMemo with visibility := .Private }.withParent none) := by
  change privateAlbum.getMemo { id := some 1 } = _
  have hparent : ({ id := some 1 } : FindMemo).matchesParent none = true := by decide
  have hrow : ({ id := some 1 } : FindMemo).matchesRow
      { albumMemo with visibility := .Private } = true := by decide
  rw [Database.getMemo]
  simp [Database.listMemos, privateAlbum, album, Database.parents, hrow, hparent]
  exact ⟨_, rfl, rfl⟩

/-- A share of a private memo, for an anonymous caller. -/
theorem attachment_access_iff_shared :
    FileServer.checkAttachmentPermission privateAlbum [⟨1, "share", 1, 1, 0, none⟩] 0 0 "share"
        photo = .ok () ↔
      checkAttachmentAccess privateAlbum 0 photo = .ok () ∨
        ∃ memo message, linkedMemo privateAlbum photo = some memo ∧
          getMemoByShare albumServices privateAlbum [⟨1, "share", 1, 1, 0, none⟩] 0 0 "share" =
            .ok message ∧ message.name = memoName memo.uid := by
  have hkeys : privateAlbum.Keys := ⟨List.nodup_singleton _, List.nodup_singleton _,
    List.nodup_singleton _, List.nodup_nil⟩
  refine (attachment_access_iff (fun content => ⟨content, rfl⟩) hkeys _ 0 0 photo).2 "share"
    (by decide) fun memo hmemo => ?_
  rw [photo_linkedPrivate] at hmemo
  obtain rfl := Option.some.inj hmemo
  exact ⟨rfl, rfl⟩

/-- A token that is no share does not keep the file server from serving a public memo. -/
theorem photo_without_share :
    FileServer.checkAttachmentPermission (album 1) [] 0 0 "share" photo = .ok () ∧
      ∀ message, getMemoByShare albumServices (album 1) [] 0 0 "share" ≠ .ok message := by
  constructor
  · refine checkAttachmentPermission_iff.mpr (.inl ?_)
    exact ⟨_, photo_linkedMemo, .inl rfl⟩
  · intro message h
    cases h

end Memoark.Server
