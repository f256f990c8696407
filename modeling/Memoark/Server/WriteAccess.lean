import Mathlib.Data.Fintype.EquivFin
import Memoark.Server.ReadAgreement
import Memoark.Server.WriteMemos

/-! Who may comment on a memo and react to it, beside who may read it. -/
namespace Memoark.Server.WriteMemos
open Store
open Program (Durable)

def Readable (db : Database) (userID : Nat) (memo : Memo) : Prop :=
  checkMemoReadAccess db userID (some memo) = .ok () ∧
    checkParentReadAccess db userID memo = .ok ()

/-- Every comment and every reaction of the user on a memo that succeeds is on one that the user
may read. -/
structure WritesFollowReads (s : Storage) (userID : Nat) (name : String) (memo : Memo) :
    Prop where
  comment : ∀ env comment commentId message s',
    (createMemoComment env userID name comment commentId).run s = (.ok message, s') →
      Readable s.toDatabase userID memo
  reaction : ∀ env reactionType reaction s',
    (upsertMemoReaction env userID name reactionType).run s = (.ok reaction, s') →
      Readable s.toDatabase userID memo

/-- The memo is the user's own, or neither archived nor private. -/
def OpenTo (userID : Nat) (memo : Memo) : Prop :=
  memo.creatorId = userID ∨ memo.rowStatus ≠ .archived ∧ memo.visibility ≠ .Private

section access

variable {db : Database} {v : UserRecord}

theorem fetchCurrentUser_active (hv : db.getUser v.id = some v) (hid : 0 < v.id)
    (hactive : v.rowStatus ≠ .archived) : fetchCurrentUser db v.id = .ok (some v) := by
  rw [fetchCurrentUser, if_neg (by omega), hv]
  exact if_neg hactive

theorem fetchCurrentUser_archived (hv : db.getUser v.id = some v) (hid : 0 < v.id)
    (harchived : v.rowStatus = .archived) : fetchCurrentUser db v.id = .ok none := by
  rw [fetchCurrentUser, if_neg (by omega), hv]
  exact if_pos harchived

theorem fetchCurrentUser_of_users {db' : Database} (h : db'.users = db.users) (userID : Nat) :
    fetchCurrentUser db' userID = fetchCurrentUser db userID := by
  unfold fetchCurrentUser Database.getUser
  rw [h]

theorem requireUser_of_current (huser : fetchCurrentUser db v.id = .ok (some v))
    (failure : String) : requireUser db v.id failure = .ok v := by
  rw [requireUser, currentUser, huser]
  rfl

theorem checkMemoReadAccess_iff (huser : fetchCurrentUser db v.id = .ok (some v)) (memo : Memo) :
    checkMemoReadAccess db v.id (some memo) = .ok () ↔ OpenTo v.id memo := by
  have hcurrent : ∀ failure, currentUser db v.id failure = .ok (some v) := by
    intro failure
    rw [currentUser, huser]
    rfl
  rw [checkMemoReadAccess, OpenTo]
  simp only [hcurrent]
  by_cases hown : memo.creatorId = v.id
  · cases memo.rowStatus <;> cases memo.visibility <;>
      simp [hown, bind, Except.bind, pure, Except.pure]
  · cases memo.rowStatus <;> cases memo.visibility <;>
      simp [hown, bind, Except.bind, pure, Except.pure, throw, throwThe, MonadExceptOf.throw]

theorem getMemo_of_parent {uid : String} {memo : Memo}
    (hmemo : db.getMemo { uid := some uid } = some memo) {parentUid : String}
    (hparent : memo.parentUid = some parentUid) :
    ∃ parent, db.getMemo { uid := some parentUid } = some parent := by
  obtain ⟨row, -, -, parent, hmem, rfl⟩ := Database.getMemo_uid hmemo
  obtain rfl : parent = some parentUid := hparent
  obtain ⟨_, -, -, -, parentRow, hrow, -, rfl⟩ := Database.exists_parent_row hmem
  exact Database.exists_getMemo hrow

theorem readable_iff (huser : fetchCurrentUser db v.id = .ok (some v)) {uid : String}
    {memo : Memo} (hmemo : db.getMemo { uid := some uid } = some memo) :
    Readable db v.id memo ↔ OpenTo v.id memo ∧ ∀ parentUid parent,
      memo.parentUid = some parentUid → db.getMemo { uid := some parentUid } = some parent →
        OpenTo v.id parent := by
  rw [Readable, checkMemoReadAccess_iff huser]
  refine and_congr_right fun _ => ?_
  rw [checkParentReadAccess]
  cases hparent : memo.parentUid with
  | none => simp
  | some parentUid =>
    obtain ⟨parent, hfound⟩ := getMemo_of_parent hmemo hparent
    dsimp only
    rw [hfound, checkMemoReadAccess_iff huser]
    constructor
    · rintro hopen _ _ ⟨⟩ hread
      rw [hfound] at hread
      cases hread
      exact hopen
    · intro hall
      exact hall parentUid parent rfl hfound

end access

section write

variable {s : Storage} {v : UserRecord} {env : Env} {name : String} {memo : Memo}

theorem requireUser_ok {db : Database} {userID : Nat} {failure : String} {user : UserRecord}
    (h : requireUser db userID failure = .ok user) :
    fetchCurrentUser db userID = .ok (some user) := by
  rw [requireUser] at h
  obtain ⟨found, hfound, h⟩ := Program.bind_ok h
  cases found with
  | none => cases h
  | some found =>
    cases h
    exact Program.mapError_ok hfound

theorem checkMemoWriteAccess_ok {user : UserRecord} {result : Unit}
    (h : checkMemoWriteAccess user memo = .ok result) (hadmin : user.role ≠ .ADMIN) :
    memo.visibility = .Private → memo.creatorId = user.id := by
  intro hprivate
  by_contra hother
  rw [checkMemoWriteAccess, if_pos ⟨hprivate, hother, by simpa [isSuperUser] using hadmin⟩] at h
  cases h

theorem createMemoComment_checked {userID : Nat} {comment : Option MemoInput} {commentId : String}
    {message : Api.Memo} {s' : Storage} {uid : String}
    (h : (createMemoComment env userID name comment commentId).run s = (.ok message, s'))
    (hname : extractMemoUIDFromName name = .ok uid)
    (hmemo : s.getMemo { uid := some uid } = some memo) :
    ∃ user, fetchCurrentUser s.toDatabase userID = .ok (some user) ∧
      checkMemoWriteAccess user memo = .ok () := by
  obtain ⟨_, _, ⟨⟩, h⟩ := Durable.run_bind_ok.mp h
  obtain ⟨_, _, hchecked, -⟩ := Durable.run_bind_ok.mp h
  obtain ⟨hchecked, -⟩ := Durable.run_ofExcept.mp hchecked
  rw [checkMemoComment, hname] at hchecked
  obtain ⟨_, ⟨⟩, hchecked⟩ := Program.bind_ok hchecked
  rw [hmemo] at hchecked
  obtain ⟨_, ⟨⟩, hchecked⟩ := Program.bind_ok hchecked
  obtain ⟨user, huser, hchecked⟩ := Program.bind_ok hchecked
  obtain ⟨_, haccess, -⟩ := Program.bind_ok hchecked
  exact ⟨user, requireUser_ok huser, haccess⟩

theorem upsertMemoReaction_checked {userID : Nat} {reactionType : String}
    {reaction : Api.Reaction} {s' : Storage} {uid : String}
    (h : (upsertMemoReaction env userID name reactionType).run s = (.ok reaction, s'))
    (hname : extractMemoUIDFromName name = .ok uid)
    (hmemo : s.getMemo { uid := some uid } = some memo) :
    ∃ user, fetchCurrentUser s.toDatabase userID = .ok (some user) ∧
      checkMemoWriteAccess user memo = .ok () := by
  obtain ⟨_, _, ⟨⟩, h⟩ := Durable.run_bind_ok.mp h
  obtain ⟨_, _, hchecked, -⟩ := Durable.run_bind_ok.mp h
  obtain ⟨hchecked, -⟩ := Durable.run_ofExcept.mp hchecked
  rw [checkMemoReaction] at hchecked
  obtain ⟨user, huser, hchecked⟩ := Program.bind_ok hchecked
  rw [hname] at hchecked
  obtain ⟨_, ⟨⟩, hchecked⟩ := Program.bind_ok hchecked
  rw [hmemo] at hchecked
  obtain ⟨_, ⟨⟩, hchecked⟩ := Program.bind_ok hchecked
  obtain ⟨_, haccess, -⟩ := Program.bind_ok hchecked
  exact ⟨user, requireUser_ok huser, haccess⟩

theorem checkMemoReaction_allowed {db : Database} (huser : fetchCurrentUser db v.id = .ok (some v))
    {uid : String} (hname : extractMemoUIDFromName name = .ok uid)
    (hmemo : db.getMemo { uid := some uid } = some memo)
    (haccess : checkMemoWriteAccess v memo = .ok ()) :
    checkMemoReaction db v.id name = .ok v := by
  rw [checkMemoReaction, requireUser_of_current huser, hname]
  show (foundMemo (db.getMemo { uid := some uid }) >>= fun memo =>
    checkMemoWriteAccess v memo >>= fun _ => pure v) = _
  rw [hmemo]
  show (checkMemoWriteAccess v memo >>= fun _ => pure v) = _
  rw [haccess]
  rfl

theorem upsertMemoReaction_succeeds (env : Env) (hv : s.getUser v.id = some v)
    (huser : fetchCurrentUser s.toDatabase v.id = .ok (some v)) {uid : String}
    (hname : extractMemoUIDFromName name = .ok uid)
    (hmemo : s.getMemo { uid := some uid } = some memo)
    (haccess : checkMemoWriteAccess v memo = .ok ()) {reactionType : String}
    (hnew : ∀ r ∈ s.reactions, r.reactionType ≠ reactionType) :
    ∃ reaction s', (upsertMemoReaction env v.id name reactionType).run s = (.ok reaction, s') := by
  have hchecked := checkMemoReaction_allowed huser hname hmemo haccess
  let row : ReactionRecord := ⟨s.nextReactionId, env.now, v.id, name, reactionType⟩
  let s' : Storage :=
    { s with reactions := s.reactions ++ [row], nextReactionId := s.nextReactionId + 1 }
  have hunique : (s.reactions.any fun r => r.creatorId = v.id ∧ r.contentId = name ∧
      r.reactionType = reactionType) = false := by
    rw [List.any_eq_false]
    intro r hr
    simp [hnew r hr]
  have hstored : (Storage.upsertReaction ⟨0, 0, v.id, name, reactionType⟩ env.now).run s =
      (.ok row, s') := by
    refine Durable.run_bind_ok.mpr ⟨s, s, rfl, ?_⟩
    rw [hunique]
    rfl
  have hcreator : listUsersByID s'.toDatabase [row.creatorId] row.creatorId = some v := by
    rw [listUsersByID_of_mem (List.mem_singleton_self _)]
    exact hv
  have hconverted : convertReactionFromStore s'.toDatabase row = .ok (convertReaction row v) := by
    rw [convertReactionFromStore, hcreator]
  exact ⟨convertReaction row v, s',
    Durable.run_bind_ok.mpr ⟨s, s, rfl,
      Durable.run_bind_ok.mpr ⟨v, s, Durable.run_ofExcept.mpr ⟨hchecked, rfl⟩,
        Durable.run_bind_ok.mpr ⟨row, s', Durable.run_mapFailure.mpr hstored,
          Durable.run_bind_ok.mpr ⟨s', s', rfl,
            Durable.run_ofExcept.mpr ⟨hconverted, rfl⟩⟩⟩⟩⟩⟩

def lenientEnv (newUID : String) : Env where
  compileFilter := fun _ => .ok fun _ => true
  generateSnippet := fun content => .ok content
  extractAll := fun _ => some ⟨[], none⟩
  contentLengthLimit := some 8192
  now := 1700000000
  newUID := newUID
  storageFails := fun _ => false

theorem exists_new_reactionType (s : Storage) :
    ∃ reactionType, ∀ r ∈ s.reactions, r.reactionType ≠ reactionType := by
  obtain ⟨reactionType, hnew⟩ :=
    Infinite.exists_notMem_finset (s.reactions.map (·.reactionType)).toFinset
  refine ⟨reactionType, fun r hr heq => hnew ?_⟩
  rw [List.mem_toFinset]
  exact List.mem_map.mpr ⟨r, hr, heq⟩

def Env.Snippets (env : Env) : Prop := ∀ content, ∃ snippet, env.generateSnippet content = .ok snippet

theorem lenientEnv_snippets (newUID : String) : (lenientEnv newUID).Snippets :=
  fun content => ⟨content, rfl⟩

theorem loadMemoRelations_total (hsnippets : env.Snippets) {db : Database} {userID : Nat}
    {user : Option UserRecord} (huser : fetchCurrentUser db userID = .ok user) (memo : Memo) :
    ∃ relations, loadMemoRelations db env.generateSnippet userID memo = .ok relations := by
  have hlist : ∀ failure memos, ∃ snippets,
      snippetsOf env.generateSnippet true failure memos = .ok snippets := by
    intro failure memos
    rw [snippetsOf, if_pos rfl]
    refine Program.exists_mapM_ok fun memo _ => ?_
    obtain ⟨snippet, hsnippet⟩ := hsnippets memo.content
    rw [getMemoContentSnippet, hsnippet]
    exact ⟨_, rfl⟩
  choose snippets hlist using hlist
  rw [loadMemoRelations, batchConvertMemoRelations, if_neg (List.cons_ne_nil _ _), huser]
  simp only [Except.mapError, bind, Except.bind, hlist]
  exact ⟨_, rfl⟩

theorem memoMessage_total (hsnippets : env.Snippets) {db : Database} {userID : Nat}
    {user : Option UserRecord} (huser : fetchCurrentUser db userID = .ok user) {memo : Memo}
    {creator : UserRecord} (hcreator : db.getUser memo.creatorId = some creator)
    (reactions : List ReactionRecord) (attachments : List AttachmentRecord) :
    ∃ message, memoMessage env db userID memo reactions attachments = .ok message ∧
      message.name = memoName memo.uid ∧ message.creator = buildUserName creator.username := by
  obtain ⟨relations, hrelations⟩ := loadMemoRelations_total hsnippets huser memo
  obtain ⟨snippet, hsnippet⟩ := hsnippets memo.content
  have hfound : listUsersByID db [memo.creatorId] memo.creatorId = some creator := by
    rw [listUsersByID_of_mem (List.mem_singleton_self _)]
    exact hcreator
  have hcontent : getMemoContentSnippet env.generateSnippet memo.content = .ok snippet := by
    rw [getMemoContentSnippet, hsnippet]
    rfl
  rw [memoMessage, hrelations]
  show ∃ message, wrapConverted (convertMemoFromStoreWithCreators _ _ memo _ _ _
    (listUsersByID db [memo.creatorId])) = _ ∧ _
  rw [convertMemoFromStoreWithCreators, hfound]
  dsimp only
  rw [hcontent]
  exact ⟨_, rfl, rfl, rfl⟩

theorem memoMessage_noCreator (hsnippets : env.Snippets) {db : Database} {userID : Nat}
    {user : Option UserRecord} (huser : fetchCurrentUser db userID = .ok user) {memo : Memo}
    (hcreator : db.getUser memo.creatorId = none) (reactions : List ReactionRecord)
    (attachments : List AttachmentRecord) :
    memoMessage env db userID memo reactions attachments =
      .error ⟨.Unknown, "failed to convert memo: memo creator not found"⟩ := by
  obtain ⟨relations, hrelations⟩ := loadMemoRelations_total hsnippets huser memo
  have hnone : listUsersByID db [memo.creatorId] memo.creatorId = none := by
    rw [listUsersByID_of_mem (List.mem_singleton_self _)]
    exact hcreator
  rw [memoMessage, hrelations]
  show wrapConverted (convertMemoFromStoreWithCreators _ _ memo _ _ _
    (listUsersByID db [memo.creatorId])) = _
  rw [convertMemoFromStoreWithCreators, hnone]
  rfl

def emptyMemo (visibility : Api.Visibility) : MemoInput :=
  ⟨"", visibility, none, none, none, [], []⟩

theorem createMemo_succeeds (hv : s.getUser v.id = some v)
    (huser : fetchCurrentUser s.toDatabase v.id = .ok (some v)) {newUID : String}
    (hvalid : UIDMatcher newUID = true) (hnew : ∀ row ∈ s.memos, row.uid ≠ newUID)
    (visibility : Api.Visibility) :
    ∃ message row, (createMemo (lenientEnv newUID) v.id "" (emptyMemo visibility)).run s =
        (.ok message, s.insertMemo row) ∧
      row.id = s.nextMemoId ∧ row.uid = newUID ∧ row.creatorId = v.id ∧
      row.visibility = convertVisibilityToStore visibility ∧
      message.name = memoName newUID ∧ message.creator = buildUserName v.username := by
  let create : Memo := ⟨0, newUID, .normal, v.id, 0, 0, "", convertVisibilityToStore visibility,
    false, ⟨none, none, []⟩, none⟩
  let created : Memo := { create with
    id := s.nextMemoId, createdTs := 1700000000, updatedTs := 1700000000 }
  have hcreate : newMemo (lenientEnv newUID) v "" (emptyMemo visibility) = .ok create := rfl
  have hunique : (s.memos.any fun row => row.uid = newUID) = false := by
    rw [List.any_eq_false]
    intro row hrow
    simpa using hnew row hrow
  have hstored : (storeCreateMemo (lenientEnv newUID) create).run s =
      (.ok created, s.insertMemo created.record) := by
    rw [storeCreateMemo, if_pos hvalid, Durable.run_mapFailure]
    refine Durable.run_bind_ok.mpr ⟨s, s, rfl, ?_⟩
    rw [hunique]
    rfl
  generalize hs' : s.insertMemo created.record = s' at hstored
  have husers : s'.toDatabase.users = s.users := by
    rw [← hs']
    rfl
  have huser' := (fetchCurrentUser_of_users husers v.id).trans huser
  have hcreator : s'.toDatabase.getUser created.creatorId = some v := by
    rw [Database.getUser, husers]
    exact hv
  obtain ⟨message, hmessage, hname, hcreatorName⟩ :=
    memoMessage_total (lenientEnv_snippets newUID) huser' hcreator [] []
  refine ⟨message, created.record, ?_, rfl, rfl, rfl, rfl, hname, hcreatorName⟩
  rw [hs']
  exact Durable.run_bind_ok.mpr ⟨s, s, rfl,
    Durable.run_bind_ok.mpr ⟨v, s,
      Durable.run_ofExcept.mpr ⟨requireUser_of_current huser "failed to get user", rfl⟩,
      Durable.run_bind_ok.mpr ⟨create, s, Durable.run_ofExcept.mpr ⟨hcreate, rfl⟩,
        Durable.run_bind_ok.mpr ⟨created, s', hstored,
          Durable.run_bind_ok.mpr ⟨[], s', rfl,
            Durable.run_bind_ok.mpr ⟨(), s', rfl,
              Durable.run_bind_ok.mpr ⟨s', s', rfl,
                Durable.run_ofExcept.mpr ⟨hmessage, rfl⟩⟩⟩⟩⟩⟩⟩⟩

theorem convertVisibility_roundTrip (visibility : Visibility) :
    convertVisibilityToStore (convertVisibilityFromStore visibility) = visibility := by
  cases visibility <;> rfl

theorem checkMemoComment_allowed {db : Database} (huser : fetchCurrentUser db v.id = .ok (some v))
    {uid : String} (hname : extractMemoUIDFromName name = .ok uid)
    (hmemo : db.getMemo { uid := some uid } = some memo)
    (haccess : checkMemoWriteAccess v memo = .ok ()) :
    checkMemoComment db v.id name (some (emptyMemo .unspecified)) =
      .ok (memo, emptyMemo (convertVisibilityFromStore memo.visibility)) := by
  rw [checkMemoComment, hname]
  show (foundMemo (db.getMemo { uid := some uid }) >>= fun _ => _) = _
  rw [hmemo]
  show (requireUser db v.id "failed to get user" >>= fun user =>
    checkMemoWriteAccess user memo >>= fun _ => _) = _
  rw [requireUser_of_current huser]
  show (checkMemoWriteAccess v memo >>= fun _ => _) = _
  rw [haccess]
  rfl

theorem getMemo_inserted {row : MemoRecord} (hnew : ∀ old ∈ s.memos, old.uid ≠ row.uid) :
    ∃ created, (s.insertMemo row).getMemo { uid := some row.uid } = some created ∧
      created.id = row.id := by
  have hrow : row ∈ (s.insertMemo row).memos :=
    List.mem_append_right _ (List.mem_singleton_self _)
  obtain ⟨created, hfound⟩ := Database.exists_getMemo hrow
  obtain ⟨found, hmem, huid, parent, -, rfl⟩ := Database.getMemo_uid hfound
  refine ⟨_, hfound, ?_⟩
  rcases List.mem_append.mp hmem with hold | hlast
  · exact absurd huid (hnew found hold)
  · rw [List.mem_singleton.mp hlast]
    rfl

theorem notifyCreator_total (creatorID : Nat) (visibility : Api.Visibility)
    (created related : Memo) (s : Storage) :
    ∃ s', (notifyCreator creatorID visibility created related).run s = (.ok (), s') ∧
      s'.users = s.users ∧ s'.memos = s.memos ∧ s'.relations = s.relations := by
  unfold notifyCreator
  split
  · exact ⟨s, rfl, rfl, rfl, rfl⟩
  · split
    · exact ⟨s, rfl, rfl, rfl, rfl⟩
    · exact ⟨_, rfl, rfl, rfl, rfl⟩

theorem createMemoComment_succeeds (hv : s.getUser v.id = some v)
    (huser : fetchCurrentUser s.toDatabase v.id = .ok (some v)) {uid : String}
    (hname : extractMemoUIDFromName name = .ok uid)
    (hmemo : s.getMemo { uid := some uid } = some memo)
    (haccess : checkMemoWriteAccess v memo = .ok ())
    (husername : ∃ creator, resolveCreator s.toDatabase (buildUserName v.username) = .ok creator)
    {newUID : String} (hvalid : UIDMatcher newUID = true)
    (hextract : extractMemoUIDFromName (memoName newUID) = .ok newUID)
    (hnew : ∀ row ∈ s.memos, row.uid ≠ newUID) :
    ∃ message row s', (createMemoComment (lenientEnv newUID) v.id name
        (some (emptyMemo .unspecified)) "").run s = (.ok message, s') ∧
      row.id = s.nextMemoId ∧ row.visibility = memo.visibility ∧ s'.users = s.users ∧
      s'.memos = s.memos ++ [row] ∧
      s'.relations = ((s.insertMemo row).insertRelation ⟨row.id, memo.id, .COMMENT⟩).relations := by
  have hchecked := checkMemoComment_allowed huser hname hmemo haccess
  obtain ⟨message, row, hcreated, hid, huid, -, hvisibility, hmessage, hcreator⟩ :=
    createMemo_succeeds hv huser hvalid hnew (convertVisibilityFromStore memo.visibility)
  rw [convertVisibility_roundTrip] at hvisibility
  have hfresh : ∀ old ∈ s.memos, old.uid ≠ row.uid := huid ▸ hnew
  obtain ⟨created, hfound, hcreatedId⟩ := getMemo_inserted hfresh
  rw [huid] at hfound
  have hcommentMemo : memoOfMessage (s.insertMemo row).toDatabase message = .ok created := by
    rw [memoOfMessage, hmessage, hextract]
    simp only [Except.mapError, Bind.bind, Except.bind]
    rw [hfound]
  generalize hs₂ : (s.insertMemo row).insertRelation ⟨created.id, memo.id, .COMMENT⟩ = s₂
  have husers : s₂.toDatabase.users = s.users := by
    rw [← hs₂]
    rfl
  have huser₂ := (fetchCurrentUser_of_users husers v.id).trans huser
  obtain ⟨relations, hrelations⟩ := loadMemoRelations_total (lenientEnv_snippets newUID) huser₂ created
  obtain ⟨creator, hresolved⟩ := husername
  have hresolved₂ : resolveCreator s₂.toDatabase message.creator = .ok creator := by
    rw [hcreator, ← hresolved]
    unfold resolveCreator
    rw [husers]
  obtain ⟨s₃, hnotified, hkeptUsers, hkeptMemos, hkeptRelations⟩ :=
    notifyCreator_total creator.id message.visibility created memo s₂
  have hrelated : (Storage.upsertMemoRelation ⟨created.id, memo.id, .COMMENT⟩).run
      (s.insertMemo row) = (.ok (), s₂) := by
    rw [← hs₂]
    rfl
  have hrun : (createMemoComment (lenientEnv newUID) v.id name
      (some (emptyMemo .unspecified)) "").run s = (.ok { message with relations }, s₃) :=
    Durable.run_bind_ok.mpr ⟨s, s, rfl,
    Durable.run_bind_ok.mpr ⟨(memo, emptyMemo _), s, Durable.run_ofExcept.mpr ⟨hchecked, rfl⟩,
      Durable.run_bind_ok.mpr ⟨message, _, Durable.run_mapFailure.mpr hcreated,
        Durable.run_bind_ok.mpr ⟨_, _, rfl,
          Durable.run_bind_ok.mpr ⟨created, _, Durable.run_ofExcept.mpr ⟨hcommentMemo, rfl⟩,
            Durable.run_bind_ok.mpr ⟨(), s₂, Durable.run_mapFailure.mpr hrelated,
              Durable.run_bind_ok.mpr ⟨s₂, s₂, rfl,
                Durable.run_bind_ok.mpr ⟨relations, s₂,
                  Durable.run_ofExcept.mpr ⟨by rw [hrelations]; rfl, rfl⟩,
                  Durable.run_bind_ok.mpr ⟨creator, s₂,
                    Durable.run_ofExcept.mpr ⟨hresolved₂, rfl⟩,
                    Durable.run_bind_ok.mpr ⟨(), s₃, hnotified, rfl⟩⟩⟩⟩⟩⟩⟩⟩⟩⟩
  refine ⟨_, row, s₃, hrun, hid, hvisibility, hkeptUsers.trans husers, ?_, ?_⟩
  · rw [hkeptMemos, ← hs₂]
    rfl
  · rw [hkeptRelations, ← hs₂, hcreatedId]

/-- Exactly when comments and reactions follow read access: the memo is refused to the user, or
neither it nor its parent is archived or private under another name. -/
theorem writesFollowReads_iff (hv : s.getUser v.id = some v) (hid : 0 < v.id)
    (hadmin : v.role ≠ .ADMIN) {uid : String} (hname : extractMemoUIDFromName name = .ok uid)
    (hmemo : s.getMemo { uid := some uid } = some memo) :
    WritesFollowReads s v.id name memo ↔
      v.rowStatus = .archived ∨ (memo.visibility = .Private ∧ memo.creatorId ≠ v.id) ∨
      (memo.creatorId = v.id ∨ memo.rowStatus ≠ .archived) ∧ ∀ parentUid parent,
        memo.parentUid = some parentUid → s.getMemo { uid := some parentUid } = some parent →
          OpenTo v.id parent := by
  constructor
  · intro hfollow
    by_contra hcondition
    obtain ⟨hactive, hrest⟩ := not_or.mp hcondition
    obtain ⟨hallowed, hclosed⟩ := not_or.mp hrest
    have huser := fetchCurrentUser_active hv hid hactive
    have haccess : checkMemoWriteAccess v memo = .ok () :=
      if_neg fun h => hallowed ⟨h.1, h.2.1⟩
    obtain ⟨reactionType, hnew⟩ := exists_new_reactionType s
    obtain ⟨reaction, s', hrun⟩ :=
      upsertMemoReaction_succeeds (lenientEnv "") hv huser hname hmemo haccess hnew
    obtain ⟨hopen, hparent⟩ :=
      (readable_iff huser hmemo).mp (hfollow.reaction (lenientEnv "") reactionType reaction s' hrun)
    exact hclosed ⟨hopen.imp_right And.left, hparent⟩
  · rintro hcondition
    suffices h : ∀ user, fetchCurrentUser s.toDatabase v.id = .ok (some user) →
        checkMemoWriteAccess user memo = .ok () → Readable s.toDatabase v.id memo by
      constructor
      · intro env comment commentId message s' hrun
        obtain ⟨user, huser, haccess⟩ := createMemoComment_checked hrun hname hmemo
        exact h user huser haccess
      · intro env reactionType reaction s' hrun
        obtain ⟨user, huser, haccess⟩ := upsertMemoReaction_checked hrun hname hmemo
        exact h user huser haccess
    intro user huser haccess
    have hactive : v.rowStatus ≠ .archived := by
      intro harchived
      rw [fetchCurrentUser_archived hv hid harchived] at huser
      cases huser
    have hsame := fetchCurrentUser_active hv hid hactive
    obtain rfl : v = user := by
      rw [hsame] at huser
      cases huser
      rfl
    have hown := checkMemoWriteAccess_ok haccess hadmin
    rw [readable_iff hsame hmemo]
    rcases hcondition with harchived | ⟨hprivate, hother⟩ | ⟨hstate, hparent⟩
    · exact absurd harchived hactive
    · exact absurd (hown hprivate) hother
    · refine ⟨?_, hparent⟩
      by_cases hcreator : memo.creatorId = v.id
      · exact .inl hcreator
      · exact .inr ⟨hstate.resolve_left hcreator, fun hprivate => hcreator (hown hprivate)⟩

end write

section diary

def ada : UserRecord := ⟨1, .normal, "ada", .USER⟩

def bob : UserRecord := ⟨2, .normal, "bob", .USER⟩

def diaryMemo : MemoRecord :=
  ⟨1, "diary", 1, 0, 0, .archived, "", .Public, false, ⟨none, none, []⟩⟩

def diary : Storage where
  users := [ada, bob]
  memos := [diaryMemo]
  relations := []
  attachments := []
  reactions := []
  inboxes := []
  nextMemoId := 2
  nextReactionId := 1
  nextInboxId := 1

theorem getMemo_diary : diary.getMemo { uid := some "diary" } = some (diaryMemo.withParent none) := by
  have hrow : diaryMemo ∈ diary.toDatabase.memos := List.mem_singleton_self _
  exact Database.getMemo_of_parents diaryMemo (by decide) hrow rfl

/-- The owner's writes on the memo follow her reads. -/
theorem writesFollowReads_diary :
    WritesFollowReads diary 1 "memos/diary" (diaryMemo.withParent none) := by
  have hname : extractMemoUIDFromName "memos/diary" = .ok "diary" := by decide
  have hiff := writesFollowReads_iff (s := diary) (v := ada) rfl (by decide) (by decide) hname
    getMemo_diary
  refine hiff.mpr (.inr (.inr ⟨.inl rfl, ?_⟩))
  rintro _ _ ⟨⟩

/-- Bob reacts to the archived memo and comments on it, but may not read it. -/
theorem archived_written : ∃ reaction s₁ message s₂,
    (upsertMemoReaction (lenientEnv "comment") 2 "memos/diary" "+1").run diary =
        (.ok reaction, s₁) ∧
      (createMemoComment (lenientEnv "comment") 2 "memos/diary"
        (some (emptyMemo .unspecified)) "").run diary = (.ok message, s₂) ∧
      diary.getMemo { uid := some "diary" } = some (diaryMemo.withParent none) ∧
      checkMemoReadAccess diary.toDatabase 2 (some (diaryMemo.withParent none)) =
        .error ⟨.NotFound, "memo not found"⟩ := by
  have hname : extractMemoUIDFromName "memos/diary" = .ok "diary" := by decide
  have huser : fetchCurrentUser diary.toDatabase bob.id = .ok (some bob) := rfl
  have hvalid : UIDMatcher "comment" = true := by decide
  obtain ⟨reaction, s₁, hreaction⟩ : ∃ reaction s₁,
      (upsertMemoReaction (lenientEnv "comment") 2 "memos/diary" "+1").run diary =
        (.ok reaction, s₁) :=
    upsertMemoReaction_succeeds (lenientEnv "comment") rfl huser hname getMemo_diary rfl nofun
  obtain ⟨message, _, s₂, hcomment, -⟩ := createMemoComment_succeeds (s := diary) (v := bob)
    rfl huser hname getMemo_diary rfl ⟨bob, by decide⟩ hvalid (by decide) (by decide)
  exact ⟨reaction, s₁, message, s₂, hreaction, hcomment, getMemo_diary, rfl⟩

end diary

end Memoark.Server.WriteMemos
